import Shroot.General.Tables

namespace Shroot.General

open Option List Nat

section

variable {α β : Type}

theorem not_transGen_of_rank [Preorder β] {r : α → α → Prop} (rank : α → β) (lower : ∀ a b, r a b → rank b < rank a)
    (a : α) : ¬ Relation.TransGen r a a := by
  have descends : ∀ {x y}, Relation.TransGen r x y → rank y < rank x := by
    intro x y climb
    induction climb with
    | single step => exact lower _ _ step
    | tail _ step ih => exact (lower _ _ step).trans ih
  exact fun cycle => lt_irrefl _ (descends cycle)

/-- No node is its own proper ancestor. -/
def Acyclic {α : Type} (parent : α → Option α) : Prop :=
  ∀ node, ¬ Relation.TransGen (fun child up => parent child = some up) node node

/-- A node and what is above it, as far as the fuel goes. -/
def lineage {α : Type} (up : α → Option α) : ℕ → α → List α
  | 0, _ => []
  | fuel + 1, a =>
    a :: match up a with
      | none => []
      | some b => lineage up fuel b

section

variable {up : α → Option α} {a b : α}

/-- The node a number of links above. -/
def above (up : α → Option α) (a : α) : ℕ → Option α
  | 0 => some a
  | n + 1 => (above up a n).bind up

theorem above_add (n m : ℕ) : above up a (n + m) = (above up a n).bind fun b => above up b m := by
  induction m with
  | zero => exact (bind_fun_some _).symm
  | succ m ih =>
    change (above up a (n + m)).bind up = (above up a n).bind fun b => (above up b m).bind up
    rw [ih, bind_assoc]

theorem above_succ (n : ℕ) : above up a (n + 1) = (up a).bind fun b => above up b n := by
  rw [add_comm, above_add]
  rfl

theorem mem_lineage_iff {fuel : ℕ} : b ∈ lineage up fuel a ↔ ∃ n < fuel, above up a n = some b := by
  induction fuel generalizing a with
  | zero => simp [lineage]
  | succ fuel ih =>
    have tail : b ∈ (match up a with
        | none => []
        | some b => lineage up fuel b) ↔ ∃ n < fuel, above up a (n + 1) = some b := by
      cases next : up a with
      | none => simp [above_succ, next]
      | some c => simp [above_succ, next, ih]
    rw [lineage, mem_cons, tail]
    constructor
    · rintro (rfl | ⟨n, less, found⟩)
      · exact ⟨0, succ_pos fuel, rfl⟩
      · exact ⟨n + 1, succ_lt_succ less, found⟩
    · rintro ⟨n, less, found⟩
      cases n with
      | zero => exact .inl (some.inj found).symm
      | succ n => exact .inr ⟨n, lt_of_succ_lt_succ less, found⟩

theorem reflTransGen_iff_above : Relation.ReflTransGen (fun x y => up x = some y) a b ↔ ∃ n, above up a n = some b := by
  constructor
  · intro climb
    induction climb with
    | refl => exact ⟨0, rfl⟩
    | @tail c d _ link ih =>
      obtain ⟨n, found⟩ := ih
      refine ⟨n + 1, ?_⟩
      change (above up a n).bind up = some d
      rw [found]
      exact link
  · rintro ⟨n, found⟩
    induction n generalizing b with
    | zero =>
      obtain rfl := some.inj found
      exact .refl
    | succ n ih =>
      obtain ⟨c, old, link⟩ := bind_eq_some_iff.mp found
      exact (ih old).tail link

/-- Among finitely many nodes, as many links as there are nodes lead to everything above, also
where the links have a cycle. -/
theorem mem_lineage_length_iff [DecidableEq α] {known : List α} (start : a ∈ known)
    (closed : ∀ x y, up x = some y → y ∈ known) :
    b ∈ lineage up known.length a ↔ Relation.ReflTransGen (fun x y => up x = some y) a b := by
  rw [mem_lineage_iff, reflTransGen_iff_above]
  refine ⟨fun ⟨n, _, found⟩ => ⟨n, found⟩, fun got => ?_⟩
  -- The fewest links that lead there pass no node twice.
  refine ⟨Nat.find got, ?_, Nat.find_spec got⟩
  have there := Nat.find_spec got
  have passed : ∀ n ≤ Nat.find got, ∃ c ∈ known, above up a n = some c := by
    intro n bound
    obtain ⟨m, whole⟩ := Nat.exists_eq_add_of_le bound
    cases found : above up a n with
    | none =>
      rw [whole, above_add, found] at there
      cases there
    | some c =>
      refine ⟨c, ?_, rfl⟩
      cases n with
      | zero => exact some.inj found ▸ start
      | succ n =>
        obtain ⟨d, _, link⟩ := bind_eq_some_iff.mp found
        exact closed d c link
  have nodup : Set.InjOn (above up a) (Finset.range (Nat.find got + 1)) := by
    intro i iBound j jBound same
    rw [Finset.coe_range, Set.mem_Iio] at iBound jBound
    by_contra differs
    wlog less : i < j generalizing i j
    · exact this jBound iBound same.symm (Ne.symm differs) (by omega)
    obtain ⟨m, whole⟩ := Nat.exists_eq_add_of_le (show j ≤ Nat.find got by omega)
    have shorter : above up a (i + m) = some b := by
      rw [above_add, same, ← above_add, ← whole]
      exact there
    exact Nat.find_min got (show i + m < Nat.find got by omega) shorter
  have image : (Finset.range (Nat.find got + 1)).image (above up a) ⊆ known.toFinset.image some := by
    intro found mem
    obtain ⟨n, bound, rfl⟩ := Finset.mem_image.mp mem
    obtain ⟨c, mem, isC⟩ := passed n (Nat.lt_succ_iff.mp (Finset.mem_range.mp bound))
    exact Finset.mem_image.mpr ⟨c, mem_toFinset.mpr mem, isC.symm⟩
  have count := Finset.card_le_card image
  rw [Finset.card_image_of_injOn nodup, Finset.card_range] at count
  have few := (Finset.card_image_le (s := known.toFinset) (f := some)).trans (toFinset_card_le known)
  omega

end

/-- A relation along which nothing goes on for ever: each step lowers a rank. -/
def Grounded (r : α → α → Prop) : Prop := ∃ rank : α → ℕ, ∀ a b, r a b → rank b < rank a

variable {r s : α → α → Prop} {a b : α}

theorem Grounded.mono (grounded : Grounded r) (fewer : ∀ x y, s x y → r x y) : Grounded s := by
  obtain ⟨rank, lower⟩ := grounded
  exact ⟨rank, fun x y step => lower x y (fewer x y step)⟩

theorem Grounded.no_cycle (grounded : Grounded r) (a : α) : ¬ Relation.TransGen r a a := by
  obtain ⟨rank, lower⟩ := grounded
  exact not_transGen_of_rank rank lower a

/-- A node may be put under one from which it cannot be reached. -/
theorem Grounded.reparent (grounded : Grounded r) (apart : ¬ Relation.ReflTransGen r b a)
    (steps : ∀ x y, s x y → (x = a ∧ y = b) ∨ r x y) : Grounded s := by
  classical
  obtain ⟨rank, lower⟩ := grounded
  -- everything that leads to the node is raised above its new parent
  let lift : α → ℕ := fun x => if Relation.ReflTransGen r x a then rank b + 1 else 0
  have noLift : lift b = 0 := if_neg apart
  have ownLift : lift a = rank b + 1 := if_pos .refl
  refine ⟨fun x => rank x + lift x, fun x y step => ?_⟩
  rcases steps x y step with ⟨rfl, rfl⟩ | old
  · simp only [noLift, ownLift]
    omega
  · have below := lower x y old
    have lifted : lift y ≤ lift x := by
      by_cases reaches : Relation.ReflTransGen r y a
      · have also : Relation.ReflTransGen r x a := .head old reaches
        simp [lift, reaches, also]
      · simp [lift, reaches]
    simp only
    omega

/-- Following the parents comes to an end. -/
theorem Grounded.ends {up : α → Option α} (grounded : Grounded fun x y => up x = some y) (a : α) :
    ∃ n e, above up a n = some e ∧ up e = none := by
  obtain ⟨rank, lower⟩ := grounded
  induction bound : rank a using Nat.strong_induction_on generalizing a with
  | _ height ih =>
    cases parent : up a with
    | none => exact ⟨0, a, rfl, parent⟩
    | some b =>
      obtain ⟨n, e, found, top⟩ := ih (rank b) (bound ▸ lower a b parent) b rfl
      refine ⟨n + 1, e, ?_, top⟩
      rw [above_succ, parent]
      exact found

end

open Function

/-! A node of a tree is the list of its own key and those of its ancestors, so that its ancestors
are its suffixes and the root is the empty list. -/

variable {κ β : Type}

theorem suffix_cons_of_ne {n up : List κ} {k : κ} (ne : n ≠ k :: up) : n <:+ k :: up ↔ n <:+ up := by
  rw [suffix_cons_iff, or_iff_right ne]

theorem not_suffix_of_cons (k : κ) (up : List κ) : ¬ (k :: up) <:+ up := by
  intro longer
  have := longer.length_le
  simp at this

theorem exists_suffix_iff (f p : List κ → Bool) (nil : f [] = p []) (cons : ∀ k up, f (k :: up) = (p (k :: up) || f up))
    {g : List κ} :
    f g = true ↔ ∃ a, a <:+ g ∧ p a = true := by
  induction g with
  | nil => simp [nil]
  | cons k up ih =>
    rw [cons, Bool.or_eq_true, ih]
    constructor
    · rintro (here | ⟨a, above, found⟩)
      · exact ⟨_, suffix_refl _, here⟩
      · exact ⟨a, above.trans (suffix_cons k up), found⟩
    · rintro ⟨a, above, found⟩
      rcases suffix_cons_iff.mp above with rfl | above
      · exact .inl found
      · exact .inr ⟨a, above, found⟩

variable [DecidableEq κ]

/-- Change a value at a node and at its ancestors, up to one that is left out. -/
def climb (change : β → β) (stop : Option (List κ)) : List κ → (List κ → β) → List κ → β
  | [], f => if stop = some [] then f else update f [] (change (f []))
  | k :: up, f =>
    if stop = some (k :: up) then f
    else climb change stop up (update f (k :: up) (change (f (k :: up))))

/-- The nearest ancestor of a node that is one of another node too. -/
def meet (other : List κ) : List κ → List κ
  | [] => []
  | k :: up => if (k :: up) <:+ other then k :: up else meet other up

section

variable (change : β → β)

/-- What a climb reaches: the ancestors of the node that are none of the one left out. -/
theorem climb_apply {stop : Option (List κ)} {g : List κ} (above : ∀ s, stop = some s → s <:+ g) (f : List κ → β)
    (n : List κ) :
    climb change stop g f n = if n <:+ g ∧ ∀ s, stop = some s → ¬ n <:+ s then change (f n) else f n := by
  induction g generalizing f with
  | nil =>
    unfold climb
    by_cases here : stop = some []
    · rw [if_pos here, if_neg]
      rintro ⟨root, out⟩
      exact out [] here root
    · have none : ∀ s, stop = some s → ¬ n <:+ s :=
        fun s same => absurd (same.trans (congrArg some (suffix_nil.mp (above s same)))) here
      rw [if_neg here]
      by_cases root : n = []
      · subst root
        rw [update_self, if_pos ⟨suffix_refl _, none⟩]
      · rw [update_of_ne root, if_neg fun both => root (suffix_nil.mp both.1)]
  | cons k up ih =>
    unfold climb
    by_cases here : stop = some (k :: up)
    · rw [if_pos here, if_neg]
      rintro ⟨below, out⟩
      exact out (k :: up) here below
    · rw [if_neg here]
      have above' : ∀ s, stop = some s → s <:+ up := by
        intro s same
        exact (suffix_cons_of_ne fun eq => here (eq ▸ same)).mp (above s same)
      rw [ih above']
      by_cases self : n = k :: up
      · subst self
        have out : ∀ s, stop = some s → ¬ (k :: up) <:+ s :=
          fun s same longer => not_suffix_of_cons k up (longer.trans (above' s same))
        rw [update_self, if_neg fun both => not_suffix_of_cons k up both.1, if_pos ⟨suffix_refl _, out⟩]
      · simp only [update_of_ne self, suffix_cons_of_ne self]

theorem meet_suffix (other g : List κ) : meet other g <:+ g ∧ meet other g <:+ other := by
  induction g with
  | nil => exact ⟨suffix_refl _, nil_suffix⟩
  | cons k up ih =>
    unfold meet
    split
    next shared => exact ⟨suffix_refl _, shared⟩
    · exact ⟨ih.1.trans (suffix_cons k up), ih.2⟩

/-- The ancestors that two nodes share are those of the nearest one. -/
theorem suffix_meet_iff {other g n : List κ} : n <:+ meet other g ↔ n <:+ g ∧ n <:+ other := by
  refine ⟨fun above => ⟨above.trans (meet_suffix other g).1, above.trans (meet_suffix other g).2⟩,
    fun ⟨below, shared⟩ => ?_⟩
  induction g with
  | nil => exact below
  | cons k up ih =>
    unfold meet
    split
    · exact below
    next apart =>
      have ne : n ≠ k :: up := fun same => apart (same ▸ shared)
      have above := (suffix_cons_of_ne ne).mp below
      exact ih ⟨above, shared⟩ above

end

variable {α : Type} (place : α → List κ) (weigh : α → Bool)

/-- What one item counts at a node: it is at the node or below it. -/
def share (n : List κ) (item : α) : Int := if weigh item ∧ n <:+ place item then 1 else 0

/-- How many items are at a node or below it. -/
def tally (items : List α) (n : List κ) : Int := (items.map (share place weigh n)).sum

@[simp] theorem tally_nil (n : List κ) : tally place weigh [] n = 0 := rfl

@[simp] theorem tally_cons (item : α) (items : List α) (n : List κ) :
    tally place weigh (item :: items) n = share place weigh n item + tally place weigh items n := by
  simp [tally]

theorem tally_eq_countP (items : List α) (n : List κ) :
    tally place weigh items n = items.countP fun item => weigh item && decide (n <:+ place item) := by
  induction items with
  | nil => rfl
  | cons item rest ih =>
    rw [tally_cons, countP_cons, ih, share]
    by_cases counts : weigh item ∧ n <:+ place item
    · simp [counts]
      omega
    · simp [counts]

variable {id : α → Nat} {items : List α} (nodup : (items.map id).Nodup) {item : α} (mem : item ∈ items)
include nodup mem

theorem tally_remove (n : List κ) : tally place weigh items n =
    share place weigh n item + tally place weigh (items.filter fun x => id x ≠ id item) n := by
  exact ((perm_key_filter nodup mem).map _).sum_eq

theorem tally_modify (change : α → α) (n : List κ) :
    tally place weigh (items.map fun x => if id x = id item then change x else x) n =
      tally place weigh items n - share place weigh n item + share place weigh n (change item) := by
  have others : (items.filter fun x => id x ≠ id item).map (fun x => if id x = id item then change x else x) =
      (items.filter fun x => id x ≠ id item).map fun x => x := by
    refine map_congr_left fun x isIn => if_neg ?_
    simpa using (mem_filter.mp isIn).2
  have perm := (perm_key_filter nodup mem).map fun x => if id x = id item then change x else x
  rw [map_cons, if_pos rfl, others, List.map_id'] at perm
  have changed := (perm.map (share place weigh n)).sum_eq
  rw [tally_remove place weigh nodup mem, tally, changed, map_cons, sum_cons, tally]
  ring

end Shroot.General
