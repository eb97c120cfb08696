import Shroot.Cgroup.Model

namespace Shroot.Cgroup

open General List Nat

variable {i k size : Nat}

def below (parent : GroupId) : GroupId → Bool
  | [] => [] == parent
  | serial :: up => serial :: up == parent || below parent up

/-- The first loop of `group_path`: the steps from the root of a namespace up to a group that is above another one. -/
def commonAbove (g : GroupId) : GroupId → Nat × GroupId
  | [] => (0, [])
  | serial :: up =>
    if below (serial :: up) g then (0, serial :: up)
    else
      let (steps, common) := commonAbove g up
      (steps + 1, common)

/-- `memcpy` into a buffer. There is no result where it writes past the end. -/
def store (text : Bytes) (i : Nat) (bytes : Bytes) : Option Bytes :=
  if i + bytes.length ≤ text.length then some (text.take i ++ bytes ++ text.drop (i + bytes.length)) else none

section

variable (name : GroupId → Bytes) (common : GroupId)

/-- The loop that adds up the names. -/
def pathLength (size : Nat) : GroupId → Nat → Except Errno Nat
  | [], length => .ok length
  | serial :: up, length =>
    if serial :: up = common then .ok length
    else do
      let n := (name (serial :: up)).length + 1
      failIf (n ≥ size ∨ length ≥ size - n) .ENAMETOOLONG
      pathLength size up (length + n)

/-- The loop that writes the names, from the end of the text. There is no result where `at` goes below zero. -/
def fillNames : GroupId → Nat → Bytes → Option Bytes
  | [], _, text => some text
  | serial :: up, i, text =>
    if serial :: up = common then some text
    else do
      let n := (name (serial :: up)).length
      guard (n + 1 ≤ i)
      let text ← store text (i - n) (name (serial :: up))
      let text ← store text (i - n - 1) [slash]
      fillNames up (i - n - 1) text

end

def fillSteps (up : Nat) (text : Bytes) : Option Bytes :=
  (range up).foldlM (fun text i => store text (i * 3) (slash :: dotDot)) text

/-- `group_path` for groups of one hierarchy, with a buffer of its size. A group takes more than three bytes of memory,
so that `up * 3` is no larger than a `size_t`. -/
def groupPath (name : GroupId → Bytes) (g root : GroupId) (text : Bytes) : Option (Except Errno Int32 × Bytes) :=
  let (up, common) := commonAbove g root
  let length := up * 3
  if length ≥ text.length then some (.error .ENAMETOOLONG, text)
  else match pathLength name common text.length g length with
    | .error e => some (.error e, text)
    | .ok length =>
      if length = 0 then
        if text.length < 2 then some (.error .ENAMETOOLONG, text) else (store text 0 [slash, 0]).map (.ok 1, ·)
      else do
        let text ← store text length [0]
        let text ← fillNames name common g length text
        let text ← fillSteps up text
        return (.ok (Int32.ofNat length), text)

/-- A tree of directories, with names that `md_cgroup_mkdir` takes. Groups that were removed are not among them, and
their names may be given again. -/
structure Hierarchy where
  groups : List GroupId
  name : GroupId → Bytes
  parents : ∀ serial up, serial :: up ∈ groups → up ∈ groups
  named : ∀ g ∈ groups, g ≠ [] → name g ≠ [] ∧ slash ∉ name g ∧ name g ≠ dotDot
  distinct : ∀ a b up, a :: up ∈ groups → b :: up ∈ groups → name (a :: up) = name (b :: up) → a = b

/-- One component of a path, from a group on. -/
def Hierarchy.enter (h : Hierarchy) (g : GroupId) (component : Bytes) : Option GroupId :=
  if component = [] then some g
  else if component = dotDot then g.tail?
  else h.groups.find? fun child => child.tail? = some g ∧ h.name child = component

def Hierarchy.resolve (h : Hierarchy) (g : GroupId) (text : Bytes) : Option GroupId :=
  (text.splitOn slash).foldlM h.enter g

/-- As many steps up. -/
def ups : Nat → Bytes
  | 0 => []
  | k + 1 => ups k ++ slash :: dotDot

/-- The way down from a group to one below it. -/
def down (name : GroupId → Bytes) (common : GroupId) : GroupId → Bytes
  | [] => []
  | serial :: up => if serial :: up = common then [] else down name common up ++ slash :: name (serial :: up)

def way (name : GroupId → Bytes) (g root : GroupId) : Bytes :=
  ups (root.length - (meet g root).length) ++ down name (meet g root) g

/-- The text of a group for a namespace: up to the nearest group above both and down again. -/
def pathText (name : GroupId → Bytes) (g root : GroupId) : Bytes :=
  if way name g root = [] then [slash] else way name g root

section

variable {name : GroupId → Bytes} {common g root : GroupId}

theorem below_iff {parent : GroupId} : below parent g = true ↔ parent <:+ g := by
  rw [exists_suffix_iff (below parent) (· == parent) rfl fun _ _ => rfl]
  simp

theorem commonAbove_eq : commonAbove g root = (root.length - (meet g root).length, meet g root) := by
  induction root with
  | nil => rfl
  | cons serial up ih =>
    have short := (meet_suffix g up).1.length_le
    simp only [commonAbove, meet, ih, below_iff]
    split
    · simp
    · simp only [length_cons, Prod.mk.injEq, and_true]
      omega

@[simp] theorem length_ups (k : Nat) : (ups k).length = k * 3 := by
  induction k with
  | zero => rfl
  | succ k ih => simp [ups, dotDot, ih, succ_mul]

theorem pathLength_eq {length : Nat} (fits : length < size) : pathLength name common size g length =
    if length + (down name common g).length < size then .ok (length + (down name common g).length)
      else .error .ENAMETOOLONG := by
  induction g generalizing length with
  | nil => simp [pathLength, down, fits]
  | cons serial up ih =>
    by_cases here : serial :: up = common
    · simp [pathLength, down, here, fits]
    · simp only [pathLength, down, if_neg here, length_append, length_cons]
      by_cases long : (name (serial :: up)).length + 1 ≥ size ∨ length ≥ size - ((name (serial :: up)).length + 1)
      · simp only [failIf, if_pos long, error_bind]
        rw [if_neg (by omega)]
      · simp only [failIf, if_neg long, ok_bind]
        rw [ih (by omega)]
        congr 2 <;> omega

section

variable (text before after : Bytes)

theorem store_before (next : k + before.length = i) :
    ((store text i after).bind fun text => store text k before) = store text k (before ++ after) := by
  by_cases fits : i + after.length ≤ text.length
  · have cut : (text.take i).length = i := length_take_of_le (by omega)
    simp only [store, if_pos fits, Option.bind_some, next, append_assoc, drop_left' cut, length_append, cut,
      length_drop, ← add_assoc]
    rw [if_pos (by omega), take_append_of_le_length (by omega), take_take, min_eq_left (by omega)]
  · simp [store, fits, next, ← add_assoc]

theorem store_after (next : k + before.length = i) :
    ((store text k before).bind fun text => store text i after) = store text k (before ++ after) := by
  by_cases fits : i ≤ text.length
  · have cut : (text.take k ++ before).length = i := by rw [length_append, length_take_of_le (by omega), next]
    have rest := @drop_length_add_append _ (text.take k ++ before) (text.drop i) after.length
    rw [cut, drop_drop] at rest
    have same : (text.take k ++ before ++ text.drop i).length = text.length := by
      rw [length_append, cut, length_drop]; omega
    simp only [store, next, if_pos fits, Option.bind_some, take_left' cut, rest, same]
    simp only [length_append, ← add_assoc, next, append_assoc]
  · have long : ¬ i + after.length ≤ text.length := by omega
    simp [store, fits, next, ← add_assoc, long]

end

/-- The names are written from the last one on, in front of what is there already. -/
theorem fillNames_eq (text after : Bytes) (room : k + (down name common g).length = i) :
    (store text i after).bind (fillNames name common g i) = store text k (down name common g ++ after) := by
  induction g generalizing after i with
  | nil =>
    subst room
    exact Option.bind_fun_some _
  | cons serial up ih =>
    by_cases here : serial :: up = common
    · simp only [fillNames, down, if_pos here] at room ⊢
      subst room
      exact Option.bind_fun_some _
    · simp only [fillNames, down, if_neg here, length_append, length_cons] at room ⊢
      generalize name (serial :: up) = last at *
      have first := store_before text last after (show i - last.length + last.length = i by omega)
      have two := store_before text [slash] (last ++ after) (show i - last.length - 1 + 1 = i - last.length by omega)
      have rest := ih ([slash] ++ (last ++ after)) (show _ = i - last.length - 1 by omega)
      rw [← two, ← first, Option.bind_assoc, Option.bind_assoc] at rest
      simpa [guard, show last.length + 1 ≤ i by omega] using rest

theorem fillSteps_eq (text : Bytes) (up : Nat) : fillSteps up text = store text 0 (ups up) := by
  induction up with
  | zero => simp [fillSteps, store, ups]
  | succ up ih =>
    rw [ups, ← store_after text (ups up) (slash :: dotDot) (by rw [length_ups, zero_add]), ← ih]
    simp [fillSteps, range_succ]

/-- What `group_path` does with a buffer of any size. -/
theorem groupPath_eq (text : Bytes) {path : Bytes} (is : pathText name g root = path) : groupPath name g root text =
    if path.length < text.length then some (.ok (Int32.ofNat path.length), path ++ 0 :: text.drop (path.length + 1))
    else some (.error .ENAMETOOLONG, text) := by
  have length : (way name g root).length = _ := length_append
  rw [length_ups] at length
  simp only [groupPath, commonAbove_eq]
  by_cases fits : (way name g root).length < text.length
  · rw [if_neg (by omega), pathLength_eq (by omega), if_pos (by omega), ← length]
    by_cases none : way name g root = []
    · obtain rfl : [slash] = path := by rw [← is, pathText, if_pos none]
      simp only [none, length_nil, if_pos]
      by_cases short : text.length < 2
      · rw [if_pos short, if_neg (by simpa using short)]
      · simp [store, not_lt.mp short, show 1 < text.length by omega]
    · obtain rfl : way name g root = path := by rw [← is, pathText, if_neg none]
      have names := fillNames_eq text [0] length.symm
      have steps :=
        store_before text (ups (root.length - (meet g root).length)) (down name (meet g root) g ++ [0])
          (by rw [length_ups, zero_add])
      rw [← append_assoc, ← way] at steps
      simp only [if_pos fits, length_eq_zero_iff, if_neg none, Option.bind_eq_bind, fillSteps_eq, ← Option.bind_assoc,
        names, steps]
      simp [store, fits]
  · have long : ¬ path.length < text.length := by
      rw [← is, pathText]
      split
      case isTrue none =>
        rw [none, length_nil] at fits
        exact fun fewer => fits (by omega)
      case isFalse => exact fits
    rw [if_neg long]
    by_cases many : (root.length - (meet g root).length) * 3 ≥ text.length
    · rw [if_pos many]
    · rw [if_neg many, pathLength_eq (by omega), if_neg (by omega)]

namespace Hierarchy

variable (h : Hierarchy)

theorem resolve_concat {component : Bytes} (plain : slash ∉ component) (text : Bytes) :
    h.resolve root (text ++ slash :: component) = (h.resolve root text).bind (h.enter · component) := by
  simp [resolve, splitOn_append_cons_self, splitOn_eq_singleton plain, foldlM_append]

theorem resolve_ups (deep : k ≤ root.length) : h.resolve root (ups k) = some (root.drop k) := by
  induction k with
  | zero => simp [ups, resolve, enter]
  | succ k ih =>
    rw [ups, h.resolve_concat (by decide), ih (by omega)]
    obtain ⟨serial, rest, more⟩ := exists_cons_of_length_pos (show 0 < (root.drop k).length by rw [length_drop]; omega)
    rw [← tail_drop]
    simp [enter, dotDot, more]

theorem enter_name {serial : Nat} {up : GroupId} (known : serial :: up ∈ h.groups) :
    h.enter up (h.name (serial :: up)) = some (serial :: up) := by
  obtain ⟨some, _, apart⟩ := h.named _ known (cons_ne_nil _ _)
  rw [enter, if_neg some, if_neg apart]
  cases found : h.groups.find? fun child => child.tail? = .some up ∧ h.name child = h.name (serial :: up) with
  | none => simpa using find?_eq_none.mp found _ known
  | some child =>
    have is : child.tail? = .some up ∧ h.name child = h.name (serial :: up) := by simpa using find?_some found
    cases child with
    | nil => simp at is
    | cons other _ =>
      obtain rfl : _ = up := by simpa using is.1
      rw [h.distinct _ _ _ (mem_of_find?_eq_some found) known is.2]

theorem resolve_down {text : Bytes} (start : h.resolve root text = some common) (above : common <:+ g)
    (known : g ∈ h.groups) :
    h.resolve root (text ++ down h.name common g) = some g := by
  induction g with
  | nil => rw [down, append_nil, start, suffix_nil.mp above]
  | cons serial up ih =>
    by_cases here : serial :: up = common
    · rw [down, if_pos here, append_nil, start, here]
    · rw [down, if_neg here, ← append_assoc, h.resolve_concat (h.named _ known (cons_ne_nil _ _)).2.1,
        ih ((suffix_cons_of_ne (Ne.symm here)).mp above) (h.parents _ _ known)]
      exact h.enter_name known

theorem resolve_pathText (known : g ∈ h.groups) : h.resolve root (pathText h.name g root) = some g := by
  obtain ⟨ours, theirs⟩ := meet_suffix g root
  have up := h.resolve_ups (sub_le root.length (meet g root).length)
  rw [← suffix_iff_eq_drop.mp ours] at up
  have whole : h.resolve root (way h.name g root) = some g := h.resolve_down up theirs known
  rw [pathText]
  split
  case isTrue none =>
    rw [none] at whole
    rw [← nil_append [slash], h.resolve_concat not_mem_nil, whole]
    rfl
  case isFalse => exact whole

end Hierarchy

end

/-- The text leads from the root to the group, and `group_path` writes it into every buffer where it fits with its
terminator, and into no other. -/
theorem groupPath_resolves (h : Hierarchy) (g : {g // g ∈ h.groups}) (root : GroupId) :
    let path := pathText h.name g root
    h.resolve root path = some g.1 ∧ ∀ text,
      if path.length < text.length then
        ∃ n, groupPath h.name g root text = some (.ok n, path ++ 0 :: text.drop (path.length + 1)) ∧
          (path.length < 2 ^ 31 → n.toInt = path.length)
      else groupPath h.name g root text = some (.error .ENAMETOOLONG, text) := by
  refine ⟨h.resolve_pathText g.2, fun text => ?_⟩
  rw [groupPath_eq text rfl]
  split
  · exact ⟨_, rfl, Int32.toInt_ofNat_of_lt⟩
  · rfl

/-- The groups above one of them, all with the name `a`. -/
def chain (last : GroupId) : Hierarchy where
  groups := last.tails
  name _ := [97]
  parents serial up known := (mem_tails _ _).mpr ((suffix_cons serial up).trans ((mem_tails _ _).mp known))
  named _ _ _ := by decide
  distinct a b up one two _ := by
    have same := suffix_of_suffix_length_le ((mem_tails _ _).mp one) ((mem_tails _ _).mp two) le_rfl
    exact (cons.inj (same.eq_of_length rfl)).1

theorem groupPath_up (name : GroupId → Bytes) {n : Nat} (deep : 0 < n) (fits : n * 3 < size) :
    ∃ text, groupPath name [] (replicate n 0) (replicate size 0) = some (.ok (Int32.ofNat (n * 3)), text) := by
  have none := suffix_nil.mp (meet_suffix [] (replicate n 0)).2
  have path : way name [] (replicate n 0) = ups n := by simp [way, none, down]
  have length : (pathText name [] (replicate n 0)).length = n * 3 := by
    have length := length_ups n
    rw [pathText, path, if_neg, length]
    exact fun none => by simp [none, deep.ne'] at length
  rw [groupPath_eq _ rfl, length, length_replicate, if_pos fits]
  exact ⟨_, rfl⟩

/-- The length of a text of `3 * 2 ^ 30` bytes is returned as a negative number. -/
theorem chain_negative :
    ∃ text, groupPath (chain (replicate (2 ^ 30) 0)).name [] (replicate (2 ^ 30) 0) (replicate (2 ^ 32) 0) =
      some (.ok (-2 ^ 30), text) :=
  groupPath_up _ (by decide) (by decide)

end Shroot.Cgroup
