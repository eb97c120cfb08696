import Mathlib

namespace Shroot.General

open Function List

/-! Lists that are linked both ways through their members. -/

/-- What a member knows of its neighbours. -/
structure Node (ι : Type) where
  next : Option ι := none
  previous : Option ι := none

structure Threads (ι : Type) where
  nodes : ι → Node ι
  head : Option ι

namespace Threads

variable {ι : Type}

def empty : Threads ι := ⟨fun _ => {}, none⟩

/-- The members of a list, from its head. -/
structure Lists (t : Threads ι) (list : List ι) : Prop where
  distinct : list.Nodup
  head : t.head = list[0]?
  nodes : ∀ i x, list[i]? = some x → (t.nodes x).next = list[i + 1]? ∧
    (t.nodes x).previous = if i = 0 then none else list[i - 1]?

theorem lists_empty : (empty : Threads ι).Lists [] := ⟨nodup_nil, rfl, nofun⟩

variable {t : Threads ι} {list : List ι} {x : ι}

theorem Lists.inj (lists : t.Lists list) {i j : Nat} {y : ι} (one : list[i]? = some y) (two : list[j]? = some y) :
    i = j :=
  (getElem?_inj (List.getElem?_eq_some_iff.mp one).1 lists.distinct).mp (one.trans two.symm)

variable [DecidableEq ι]

def push (t : Threads ι) (x : ι) : Threads ι :=
  let nodes := update t.nodes x { next := t.head, previous := none }
  { head := some x
    nodes := match t.head with
      | some h => update nodes h { nodes h with previous := some x }
      | none => nodes }

def unlink (t : Threads ι) (x : ι) : Threads ι :=
  let place := t.nodes x
  let t := match place.previous with
    | some p => { t with nodes := update t.nodes p { t.nodes p with next := place.next } }
    | none => { t with head := place.next }
  let t := match place.next with
    | some s => { t with nodes := update t.nodes s { t.nodes s with previous := place.previous } }
    | none => t
  { t with nodes := update t.nodes x {} }

theorem push_nodes (t : Threads ι) (x y : ι) (other : y ≠ x) :
    (t.push x).nodes y = { t.nodes y with previous := if t.head = some y then some x else (t.nodes y).previous } := by
  unfold push
  cases h : t.head with
  | none => simp [update_of_ne other]
  | some first =>
    by_cases same : y = first
    · subst same
      simp [update_of_ne other]
    · simp [update_of_ne same, update_of_ne other, Ne.symm same]

theorem push_nodes_self (t : Threads ι) (x : ι) (out : t.head ≠ some x) :
    (t.push x).nodes x = { next := t.head, previous := none } := by
  unfold push
  cases h : t.head with
  | none => simp
  | some first =>
    have other : x ≠ first := fun same => out (h.trans (congrArg some same.symm))
    simp [update_of_ne other]

theorem Lists.push (lists : t.Lists list) (out : x ∉ list) : (t.push x).Lists (x :: list) := by
  have notHead : t.head ≠ some x := by
    rw [lists.head]
    exact fun first => out (mem_of_getElem? first)
  refine ⟨nodup_cons.mpr ⟨out, lists.distinct⟩, rfl, fun i y there => ?_⟩
  cases i with
  | zero =>
    obtain rfl : x = y := Option.some.inj there
    rw [push_nodes_self t x notHead]
    exact ⟨lists.head, rfl⟩
  | succ i =>
    have isIn : list[i]? = some y := there
    have other : y ≠ x := fun same => out (same ▸ mem_of_getElem? isIn)
    obtain ⟨next, prev⟩ := lists.nodes i y isIn
    rw [push_nodes t x y other, lists.head]
    refine ⟨next, ?_⟩
    by_cases first : i = 0
    · subst first
      simp [isIn]
    · have notFirst : list[0]? ≠ some y := fun is => first (lists.inj isIn is)
      rw [if_neg notFirst, prev, if_neg first, if_neg (Nat.succ_ne_zero i)]
      obtain ⟨j, rfl⟩ := Nat.exists_eq_succ_of_ne_zero first
      rfl

theorem unlink_nodes (t : Threads ι) (x y : ι) (other : y ≠ x) :
    (t.unlink x).nodes y =
      { next := if (t.nodes x).previous = some y then (t.nodes x).next else (t.nodes y).next
        previous := if (t.nodes x).next = some y then (t.nodes x).previous else (t.nodes y).previous } := by
  unfold unlink
  dsimp only
  rw [update_of_ne other]
  cases before : (t.nodes x).previous with
  | none =>
    cases after : (t.nodes x).next with
    | none => simp
    | some s =>
      by_cases same : y = s
      · simp [same]
      · simp [update_of_ne same, Ne.symm same]
  | some p =>
    cases after : (t.nodes x).next with
    | none =>
      by_cases same : y = p
      · simp [same]
      · simp [update_of_ne same, Ne.symm same]
    | some s =>
      by_cases same : y = s
      · subst same
        by_cases same' : y = p
        · simp [same']
        · simp [update_of_ne same', Ne.symm same']
      · by_cases same' : y = p
        · subst same'
          simp [update_of_ne same, Ne.symm same]
        · simp [update_of_ne same, update_of_ne same', Ne.symm same, Ne.symm same']

theorem unlink_head (t : Threads ι) (x : ι) :
    (t.unlink x).head = if (t.nodes x).previous = none then (t.nodes x).next else t.head := by
  unfold unlink
  dsimp only
  cases before : (t.nodes x).previous with
  | none => cases after : (t.nodes x).next <;> simp
  | some p => cases after : (t.nodes x).next <;> simp

theorem Lists.unlink_at (lists : t.Lists list) {k : Nat} (there : list[k]? = some x) :
    (t.unlink x).Lists (list.eraseIdx k) := by
  obtain ⟨next, prev⟩ := lists.nodes k x there
  have bound := (List.getElem?_eq_some_iff.mp there).1
  refine ⟨lists.distinct.sublist (eraseIdx_sublist ..), ?_, fun i y mem => ?_⟩
  · rw [unlink_head, prev, next, lists.head, getElem?_eraseIdx]
    by_cases first : k = 0
    · simp [first]
    · have prior : list[k - 1]? ≠ none := by
        rw [Ne, getElem?_eq_none_iff]
        omega
      rw [if_neg first, if_neg prior, if_pos (by omega)]
  · rw [getElem?_eraseIdx] at mem
    -- where the member was
    have was : ∃ o, list[o]? = some y ∧ o ≠ k ∧ i = if o < k then o else o - 1 := by
      split at mem
      next below => exact ⟨i, mem, by omega, by rw [if_pos below]⟩
      · exact ⟨i + 1, mem, by omega, by rw [if_neg (by omega)]; omega⟩
    obtain ⟨o, orig, apart, is⟩ := was
    have other : y ≠ x := fun same => apart (lists.inj orig (same ▸ there))
    obtain ⟨next', prev'⟩ := lists.nodes o y orig
    have isPrevious : (if k = 0 then none else list[k - 1]?) = some y ↔ o + 1 = k := by
      constructor
      · intro has
        split at has
        · cases has
        · have := lists.inj orig has
          omega
      · intro has
        rw [if_neg (by omega), ← has]
        exact orig
    have isNext : list[k + 1]? = some y ↔ o = k + 1 := by
      constructor
      · exact fun has => lists.inj orig has
      · intro has
        rw [← has]
        exact orig
    rw [unlink_nodes t x y other, next, prev, next', prev', if_congr isPrevious rfl rfl, if_congr isNext rfl rfl]
    rw [getElem?_eraseIdx, getElem?_eraseIdx]
    by_cases below : o < k
    · rw [if_pos below] at is
      subst is
      have notNext : i ≠ k + 1 := by omega
      rw [if_neg notNext]
      constructor
      · by_cases beside : i + 1 = k
        · rw [if_pos beside, if_neg (show ¬ i + 1 < k by omega), ← beside]
        · rw [if_neg beside, if_pos (show i + 1 < k by omega)]
      · by_cases first : i = 0
        · rw [if_pos first, if_pos first]
        · rw [if_neg first, if_neg first, if_pos (show i - 1 < k by omega)]
    · rw [if_neg below] at is
      obtain ⟨j, rfl⟩ : ∃ j, o = j + 1 := ⟨o - 1, by omega⟩
      obtain rfl : i = j := is
      have notPrevious : i + 1 + 1 ≠ k := by omega
      rw [if_neg notPrevious, if_neg (show ¬ i + 1 < k by omega), if_neg (Nat.succ_ne_zero i)]
      refine ⟨rfl, ?_⟩
      by_cases beside : i = k
      · subst beside
        rw [if_pos rfl]
        by_cases first : i = 0
        · rw [if_pos first, if_pos first]
        · rw [if_neg first, if_neg first, if_pos (show i - 1 < i by omega)]
      · rw [if_neg (show ¬ i + 1 = k + 1 by omega), if_neg (show ¬ i = 0 by omega), if_neg (show ¬ i - 1 < k by omega),
          show i + 1 - 1 = i - 1 + 1 by omega]

theorem Lists.unlink (lists : t.Lists list) (mem : x ∈ list) : (t.unlink x).Lists (list.erase x) := by
  obtain ⟨k, there⟩ := mem_iff_getElem?.mp mem
  have found : list.idxOf? x = some k := by
    rw [List.idxOf?, findIdx?_eq_some_iff_getElem]
    obtain ⟨bound, is⟩ := List.getElem?_eq_some_iff.mp there
    refine ⟨bound, by simp [is], fun j old => ?_⟩
    simp only [Bool.not_eq_true, beq_eq_false_iff_ne]
    intro same
    have := lists.inj (List.getElem?_eq_some_iff.mpr ⟨by omega, same⟩) there
    omega
  rw [erase_eq_eraseIdx, found]
  exact lists.unlink_at there

end Threads

end Shroot.General
