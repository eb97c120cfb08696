import Shroot.General.Checks

namespace Shroot.General

open Function

/-- How far a walk has come with a node. -/
inductive Colour where
  | fresh | open_ | settled

/-- The colours of a depth-first walk, and how far each node reaches below itself. -/
structure Colouring (ν : Type) where
  colour : ν → Colour := fun _ => .fresh
  height : ν → Nat := fun _ => 0

namespace Colouring

variable {ν ε : Type} [DecidableEq ν]

def paint (c : Colouring ν) (node : ν) (colour : Colour) : Colouring ν :=
  { c with colour := update c.colour node colour }

def raise (c : Colouring ν) (node : ν) (height : Nat) : Colouring ν :=
  { c with height := update c.height node (max (c.height node) height) }

section

variable (c : Colouring ν) {node other : ν} (colour : Colour)

@[simp] theorem colour_paint_self : (c.paint node colour).colour node = colour := update_self _ _ _

theorem colour_paint_of_ne (ne : other ≠ node) : (c.paint node colour).colour other = c.colour other :=
  update_of_ne ne _ _

@[simp] theorem height_paint : (c.paint node colour).height = c.height := rfl

variable (height : Nat)

@[simp] theorem colour_raise : (c.raise node height).colour = c.colour := rfl

@[simp] theorem height_raise_self : (c.raise node height).height node = max (c.height node) height := update_self _ _ _

theorem height_raise_of_ne (ne : other ≠ node) : (c.raise node height).height other = c.height other :=
  update_of_ne ne _ _

end

/-- Goes through the work of a node: each item is an error or a node below, which `visit` walks. -/
def below (visit : ν → Colouring ν → Except ε (Colouring ν)) (node : ν) :
    List (Except ε ν) → Colouring ν → Except ε (Colouring ν)
  | [], c => .ok c
  | .error error :: _, _ => .error error
  | .ok target :: rest, c => do
    let c ← visit target c
    below visit node rest (c.raise node (c.height target + 1))

/-- Walks a node and what is below it, at most `left - 1` further down. -/
def visit (work : ν → List (Except ε ν)) (tooDeep : ε) : Nat → ν → Colouring ν → Except ε (Colouring ν)
  | 0, _, _ => .error tooDeep
  | left + 1, node, c =>
    match c.colour node with
    | .open_ => .error tooDeep
    | .settled => if left < c.height node then .error tooDeep else .ok c
    | .fresh => do
      let c ← below (visit work tooDeep left) node (work node) (c.paint node .open_)
      return c.paint node .settled

/-- Walks the nodes one after the other, each down to the same limit. -/
def visitAll (work : ν → List (Except ε ν)) (tooDeep : ε) (limit : Nat) (nodes : List ν) : Except ε (Colouring ν) :=
  nodes.foldlM (fun c node => visit work tooDeep (limit + 1) node c) {}

/-- All work of a settled node leads to settled nodes that are lower. -/
structure Sound (work : ν → List (Except ε ν)) (limit : Nat) (c : Colouring ν) : Prop where
  fresh : ∀ node, c.colour node = .fresh → c.height node = 0
  bounded : ∀ node, c.colour node = .settled → c.height node ≤ limit
  work : ∀ node, c.colour node = .settled → ∀ item ∈ work node,
    ∃ target, item = .ok target ∧ c.colour target = .settled ∧ c.height target < c.height node

/-- The walk has only coloured fresh nodes. -/
structure Extends (c c' : Colouring ν) : Prop where
  keeps : ∀ node, c.colour node ≠ .fresh → c'.colour node = c.colour node ∧ c'.height node = c.height node

/-- What the walk below an open node does: the node grows, and everything else is extended. -/
structure Below (work : ν → List (Except ε ν)) (limit left : Nat) (node : ν) (items : List (Except ε ν))
    (c c' : Colouring ν) :
    Prop where
  sound : Sound work limit c'
  isOpen : c'.colour node = .open_
  higher : c.height node ≤ c'.height node
  low : c'.height node ≤ left
  keeps : ∀ other, other ≠ node → c.colour other ≠ .fresh → c'.colour other = c.colour other ∧
    c'.height other = c.height other
  items : ∀ item ∈ items, ∃ target, item = .ok target ∧ c'.colour target = .settled ∧ c'.height target < c'.height node

/-- What the walk of a node does. -/
structure Visited (work : ν → List (Except ε ν)) (limit left : Nat) (node : ν) (c c' : Colouring ν) : Prop where
  sound : Sound work limit c'
  extends_ : Extends c c'
  settled : c'.colour node = .settled
  low : c'.height node < left

omit [DecidableEq ν] in
theorem Extends.refl (c : Colouring ν) : Extends c c := ⟨fun _ _ => ⟨rfl, rfl⟩⟩

omit [DecidableEq ν] in
theorem Extends.trans {c c' c'' : Colouring ν} (first : Extends c c') (two : Extends c' c'') : Extends c c'' where
  keeps node coloured := by
    obtain ⟨colour, height⟩ := first.keeps node coloured
    obtain ⟨colour', height'⟩ := two.keeps node (colour ▸ coloured)
    exact ⟨colour'.trans colour, height'.trans height⟩

omit [DecidableEq ν] in
theorem ne_of_colour {c : Colouring ν} {node other : ν} {colour : Colour} (one : c.colour node = colour)
    (two : c.colour other ≠ colour) : other ≠ node := fun same => two (same ▸ one)

variable {work : ν → List (Except ε ν)} {tooDeep : ε} {limit : Nat} {c c' : Colouring ν}

theorem Sound.raise {node : ν} {height : Nat} (sound : Sound work limit c) (isOpen : c.colour node = .open_) :
    Sound work limit (c.raise node height) := by
  have same : ∀ n, c.colour n ≠ .open_ → (c.raise node height).height n = c.height n :=
    fun n notOpen => height_raise_of_ne c height (ne_of_colour isOpen notOpen)
  refine ⟨?_, ?_, ?_⟩
  · intro n fresh
    rw [colour_raise] at fresh
    rw [same n (by simp [fresh])]
    exact sound.fresh n fresh
  · intro n done
    rw [colour_raise] at done
    rw [same n (by simp [done])]
    exact sound.bounded n done
  · intro n done item mem
    rw [colour_raise] at done
    obtain ⟨target, isTarget, settledToo, lower⟩ := sound.work n done item mem
    refine ⟨target, isTarget, settledToo, ?_⟩
    rw [same target (by simp [settledToo]), same n (by simp [done])]
    exact lower

variable {left : Nat}

theorem below_ok {visit : ν → Colouring ν → Except ε (Colouring ν)} {node : ν}
    (seen : ∀ target c c', visit target c = .ok c' → Sound work limit c → Visited work limit left target c c')
    {items : List (Except ε ν)} (run : below visit node items c = .ok c') (sound : Sound work limit c)
    (isOpen : c.colour node = .open_) (low : c.height node ≤ left) : Below work limit left node items c c' := by
  induction items generalizing c with
  | nil =>
    cases run
    exact ⟨sound, isOpen, le_rfl, low, fun _ _ _ => ⟨rfl, rfl⟩, nofun⟩
  | cons item rest ih =>
    cases item with
    | error error => cases run
    | ok target =>
      obtain ⟨mid, walked, run⟩ := bind_ok.mp run
      obtain ⟨soundMiddle, extended, done, lower⟩ := seen target c mid walked sound
      obtain ⟨stillOpen, sameHeight⟩ := extended.keeps node (by simp [isOpen])
      rw [isOpen] at stillOpen
      have targetOther : target ≠ node := ne_of_colour stillOpen (by simp [done])
      have further := ih run (soundMiddle.raise stillOpen) stillOpen
        (by rw [height_raise_self, sameHeight]; exact max_le low lower)
      obtain ⟨targetColour, targetHeight⟩ := further.keeps target targetOther (by simp [done])
      rw [height_raise_of_ne _ _ targetOther] at targetHeight
      have grown := further.higher
      rw [height_raise_self] at grown
      refine ⟨further.sound, further.isOpen, ?_, further.low, ?_, ?_⟩
      · rw [← sameHeight]
        exact (le_max_left _ _).trans grown
      · intro other ne coloured
        obtain ⟨colour, height⟩ := extended.keeps other coloured
        obtain ⟨colour', height'⟩ := further.keeps other ne (by rw [colour_raise, colour]; exact coloured)
        rw [height_raise_of_ne _ _ ne] at height'
        exact ⟨colour'.trans colour, height'.trans height⟩
      · intro found mem
        rcases List.mem_cons.mp mem with rfl | mem
        · refine ⟨target, rfl, targetColour.trans done, ?_⟩
          rw [targetHeight]
          exact (le_max_right _ _).trans grown
        · exact further.items found mem

theorem Sound.open_ {node : ν} (sound : Sound work limit c) (fresh : c.colour node = .fresh) :
    Sound work limit (c.paint node .open_) := by
  have old : ∀ n, (c.paint node .open_).colour n ≠ .open_ → (c.paint node .open_).colour n = c.colour n :=
    fun n notOpen => colour_paint_of_ne c _ (ne_of_colour (colour_paint_self c _) notOpen)
  refine ⟨?_, ?_, ?_⟩
  · intro n found
    exact sound.fresh n (old n (by simp [found]) ▸ found)
  · intro n found
    exact sound.bounded n (old n (by simp [found]) ▸ found)
  · intro n found item mem
    obtain ⟨target, isTarget, done, lower⟩ := sound.work n (old n (by simp [found]) ▸ found) item mem
    refine ⟨target, isTarget, ?_, lower⟩
    rw [colour_paint_of_ne c _ (ne_of_colour fresh (by simp [done]))]
    exact done

/-- An open node whose work is done is settled. -/
theorem Below.settle {node : ν} (below : Below work limit left node (work node) (c.paint node .open_) c')
    (fresh : c.colour node = .fresh) (sub : left ≤ limit) :
    Visited work limit (left + 1) node c (c'.paint node .settled) := by
  have old : ∀ n, (c'.paint node .settled).colour n ≠ .settled → n ≠ node ∧
    (c'.paint node .settled).colour n = c'.colour n :=
    fun n notSettled =>
      have ne := ne_of_colour (colour_paint_self c' _) notSettled
      ⟨ne, colour_paint_of_ne c' _ ne⟩
  refine ⟨⟨?_, ?_, ?_⟩, ⟨?_⟩, colour_paint_self c' _, Nat.lt_succ_of_le below.low⟩
  · intro n found
    exact below.sound.fresh n ((old n (by simp [found])).2 ▸ found)
  · intro n found
    by_cases same : n = node
    · exact same ▸ below.low.trans sub
    · rw [colour_paint_of_ne c' _ same] at found
      exact below.sound.bounded n found
  · intro n found item mem
    have lead : ∃ target, item = .ok target ∧ c'.colour target = .settled ∧ c'.height target < c'.height n := by
      by_cases same : n = node
      · exact same ▸ below.items item (same ▸ mem)
      · rw [colour_paint_of_ne c' _ same] at found
        exact below.sound.work n found item mem
    obtain ⟨target, isTarget, done, lower⟩ := lead
    refine ⟨target, isTarget, ?_, lower⟩
    rw [colour_paint_of_ne c' _ (ne_of_colour below.isOpen (by simp [done]))]
    exact done
  · intro n coloured
    have ne : n ≠ node := ne_of_colour fresh coloured
    have kept := below.keeps n ne
    rw [colour_paint_of_ne c _ ne] at kept
    rw [colour_paint_of_ne c' _ ne]
    exact kept coloured

theorem visit_ok {node : ν} (run : visit work tooDeep left node c = .ok c') (sound : Sound work limit c)
    (sub : left ≤ limit + 1) : Visited work limit left node c c' := by
  induction left generalizing node c c' with
  | zero => cases run
  | succ left ih =>
    rw [visit] at run
    split at run
    · cases run
    next done =>
      split at run
      · cases run
      next notHigher =>
        cases run
        exact ⟨sound, Extends.refl c, done, Nat.lt_succ_of_le (not_lt.mp notHigher)⟩
    next fresh =>
      obtain ⟨mid, walked, run⟩ := bind_ok.mp run
      cases run
      have below := below_ok (fun target c c' run sound => ih run sound (by omega)) walked (sound.open_ fresh)
        (colour_paint_self c _) (by rw [height_paint, sound.fresh node fresh]; exact Nat.zero_le _)
      exact below.settle fresh (by omega)

/-- A walk that accepts its nodes gives each a height up to the limit, and all that their work leads to
has a smaller one. -/
theorem visitAll_ok {nodes : List ν} (run : visitAll work tooDeep limit nodes = .ok c) :
    Sound work limit c ∧ ∀ node ∈ nodes, c.colour node = .settled := by
  have loop : ∀ (nodes : List ν) (start : Colouring ν), Sound work limit start →
      nodes.foldlM (fun c node => visit work tooDeep (limit + 1) node c) start = .ok c →
      Sound work limit c ∧ Extends start c ∧ ∀ node ∈ nodes, c.colour node = .settled := by
    intro nodes
    induction nodes with
    | nil =>
      intro start sound run
      cases run
      exact ⟨sound, Extends.refl _, nofun⟩
    | cons node rest ih =>
      intro start sound run
      obtain ⟨mid, walked, run⟩ := bind_ok.mp run
      have seen := visit_ok walked sound le_rfl
      obtain ⟨soundEnd, extended, done⟩ := ih mid seen.sound run
      refine ⟨soundEnd, seen.extends_.trans extended, ?_⟩
      intro found mem
      rcases List.mem_cons.mp mem with rfl | mem
      · rw [(extended.keeps found (by simp [seen.settled])).1, seen.settled]
      · exact done found mem
  have initially : Sound work limit ({} : Colouring ν) := by
    refine ⟨fun _ _ => rfl, ?_, ?_⟩
    · exact nofun
    · exact nofun
  obtain ⟨sound, -, done⟩ := loop nodes {} initially run
  exact ⟨sound, done⟩

end Colouring

end Shroot.General
