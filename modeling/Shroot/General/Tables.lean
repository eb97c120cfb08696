import Mathlib

namespace Shroot.General

open List

section

/-! Lists of which no two members have the same key. -/

variable {α β : Type} [DecidableEq β] {key : α → β} {list : List α}

theorem find_of_distinct (nodup : (list.map key).Nodup) {k : β} {x : α} :
    list.find? (fun y => key y == k) = some x ↔ x ∈ list ∧ key x = k := by
  constructor
  · intro found
    exact ⟨mem_of_find?_eq_some found, by simpa using find?_some found⟩
  · rintro ⟨mem, rfl⟩
    obtain ⟨y, found⟩ := Option.isSome_iff_exists.mp (find?_isSome.mpr ⟨x, mem, beq_self_eq_true (key x)⟩ :
      (list.find? fun y => key y == key x).isSome)
    have same : y = x := inj_on_of_nodup_map nodup (mem_of_find?_eq_some found) mem (by simpa using find?_some found)
    rw [found, same]

theorem find_of_perm {list list' : List α} (nodup : (list.map key).Nodup) (perm : list.Perm list') (k : β) :
    (list.find? fun y => key y == k) = list'.find? fun y => key y == k := by
  refine Option.ext fun x => ?_
  rw [find_of_distinct nodup, find_of_distinct ((perm.map key).nodup_iff.mp nodup), perm.mem_iff]

theorem filter_key_ne {x : α} (fresh : key x ∉ list.map key) : (list.filter fun y => key y ≠ key x) = list := by
  refine filter_eq_self.mpr fun y mem => ?_
  have ne : key y ≠ key x := fun same => fresh (same ▸ mem_map_of_mem mem)
  simpa using ne

section

variable (nodup : (list.map key).Nodup)

include nodup

theorem perm_find_filter (k : β) :
    list.Perm ((list.find? fun y => key y == k).toList ++ list.filter fun y => key y ≠ k) := by
  induction list with
  | nil => exact .refl _
  | cons x rest ih =>
    obtain ⟨fresh, nodup⟩ := nodup_cons.mp nodup
    by_cases here : key x = k
    · subst here
      rw [find?_cons_of_pos (by simp), filter_cons_of_neg (by simp), filter_key_ne fresh]
      exact .refl _
    · rw [find?_cons_of_neg (by simpa using here), filter_cons_of_pos (by simpa using here)]
      exact ((ih nodup).cons x).trans perm_middle.symm

theorem perm_key_filter {x : α} (mem : x ∈ list) : list.Perm (x :: list.filter fun y => key y ≠ key x) := by
  have perm := perm_find_filter nodup (key x)
  rwa [(find_of_distinct nodup).mpr ⟨mem, rfl⟩] at perm

theorem find_filterMap {choose : α → Option α} (kept : ∀ x y, choose x = some y → key y = key x) (k : β) :
    (list.filterMap choose).find? (fun y => key y == k) = (list.find? fun y => key y == k).bind choose := by
  induction list with
  | nil => rfl
  | cons x rest ih =>
    obtain ⟨fresh, nodup⟩ := nodup_cons.mp nodup
    have later := ih nodup
    by_cases here : key x = k
    · subst here
      have gone : (rest.find? fun y => key y == key x) = none := by
        rw [find?_eq_none]
        intro y mem
        simp only [beq_iff_eq]
        exact fun same => fresh (same ▸ mem_map_of_mem mem)
      rw [gone, Option.bind_none] at later
      cases chosen : choose x with
      | none => simp [chosen, later]
      | some y => simp [chosen, kept x y chosen]
    · cases chosen : choose x with
      | none => simp [chosen, later, here]
      | some y => simp [chosen, later, here, kept x y chosen]

end

open Option

/-- A table of a database: rows of which no two have the same primary key. -/
structure Table {ρ κ : Type} (key : ρ → κ) where
  rows : List ρ
  keyed : (rows.map key).Nodup

namespace Table

section

variable {ρ κ : Type} {key : ρ → κ}

def empty : Table key := ⟨[], nodup_nil⟩

/-- The rows left after a deletion. -/
def remove (table : Table key) (gone : ρ → Bool) : Table key :=
  ⟨table.rows.filter fun row => !gone row, table.keyed.sublist (filter_sublist.map key)⟩

variable [DecidableEq κ]

def find? (table : Table key) (k : κ) : Option ρ := table.rows.find? fun row => key row = k

/-- Changes the row with a key, which stays its key. -/
def update (table : Table key) (k : κ) (change : ρ → ρ) (keeps : ∀ row, key (change row) = key row) : Table key where
  rows := table.rows.map fun row => if key row = k then change row else row
  keyed := by
    have same : (key ∘ fun row => if key row = k then change row else row) = key := by
      funext row
      simp only [Function.comp]
      split
      · exact keeps row
      · rfl
    rw [List.map_map, same]
    exact table.keyed

/-- Stores a row, in the place of the one that has its key. -/
def put (table : Table key) (row : ρ) : Table key where
  rows := row :: table.rows.filter fun old => key old ≠ key row
  keyed := by
    rw [map_cons, nodup_cons]
    refine ⟨?_, table.keyed.sublist (filter_sublist.map key)⟩
    rintro mem
    obtain ⟨old, kept, same⟩ := mem_map.mp mem
    exact absurd same (by simpa using (mem_filter.mp kept).2)

end

variable {ρ κ : Type} {key : ρ → κ} {table : Table key} {row : ρ} {gone : ρ → Bool}

@[simp] theorem mem_remove : row ∈ (table.remove gone).rows ↔ row ∈ table.rows ∧ gone row = false := by simp [remove]

variable {P : ρ → Prop}

theorem forall_mem_remove (all : ∀ row ∈ table.rows, P row) : ∀ row ∈ (table.remove gone).rows, P row :=
  fun row mem => all row (mem_remove.mp mem).1

variable [DecidableEq κ] {k : κ}

theorem find?_eq_some : table.find? k = some row ↔ row ∈ table.rows ∧ key row = k := find_of_distinct table.keyed

theorem find?_eq_none : table.find? k = none ↔ ∀ row ∈ table.rows, key row ≠ k := by simp [find?]

theorem find?_of_mem (mem : row ∈ table.rows) : table.find? (key row) = some row := find?_eq_some.mpr ⟨mem, rfl⟩

theorem perm_remove (mem : row ∈ table.rows) :
    table.rows.Perm (row :: (table.remove fun other => key other = key row).rows) := by
  simpa [remove] using perm_key_filter table.keyed mem

variable {stored : ρ}

@[simp] theorem mem_put : row ∈ (table.put stored).rows ↔ row = stored ∨ row ∈ table.rows ∧
    key row ≠ key stored := by simp [put]

theorem forall_mem_put (all : ∀ row ∈ table.rows, P row) (new : P stored) : ∀ row ∈ (table.put stored).rows, P row := by
  intro row mem
  obtain rfl | ⟨was, -⟩ := mem_put.mp mem
  · exact new
  · exact all row was

variable {change : ρ → ρ}

theorem mem_update {keeps : ∀ row, key (change row) = key row} :
    row ∈ (table.update k change keeps).rows ↔ ∃ old ∈ table.rows, (if key old = k then change old else old) = row := by
  simp [update]

theorem find?_remove : (table.remove gone).find? k = (table.find? k).filter fun row => !gone row := by
  ext row
  rw [find?_eq_some, mem_remove, filter_eq_some_iff, find?_eq_some, Bool.not_eq_true']
  tauto

theorem find?_put : (table.put stored).find? k = if key stored = k then some stored else table.find? k := by
  ext row
  rw [find?_eq_some, mem_put]
  by_cases same : key stored = k
  · rw [if_pos same, some.injEq]
    constructor
    · rintro ⟨rfl | ⟨-, other⟩, found⟩
      · rfl
      · exact absurd (found.trans same.symm) other
    · rintro rfl
      exact ⟨.inl rfl, same⟩
  · rw [if_neg same, find?_eq_some]
    constructor
    · rintro ⟨rfl | ⟨mem, -⟩, found⟩
      · exact absurd found same
      · exact ⟨mem, found⟩
    · rintro ⟨mem, found⟩
      exact ⟨.inr ⟨mem, fun eq => same (eq.symm.trans found)⟩, found⟩

theorem find?_update {changed : κ} {keeps : ∀ row, key (change row) = key row} :
    (table.update changed change keeps).find? k = if k = changed then (table.find? k).map change
      else table.find? k := by
  ext row
  rw [find?_eq_some, mem_update]
  split
  · subst k
    rw [map_eq_some_iff]
    constructor
    · rintro ⟨⟨old, mem, became⟩, found⟩
      split at became
      · exact ⟨old, find?_eq_some.mpr ⟨mem, ‹_›⟩, became⟩
      · exact absurd (became ▸ found) ‹_›
    · rintro ⟨old, found, rfl⟩
      obtain ⟨mem, same⟩ := find?_eq_some.mp found
      exact ⟨⟨old, mem, if_pos same⟩, (keeps old).trans same⟩
  next other =>
    rw [find?_eq_some]
    constructor
    · rintro ⟨⟨old, mem, became⟩, found⟩
      split at became
      · exact absurd (found.symm.trans (became ▸ (keeps old).trans ‹_›)) other
      · exact became ▸ ⟨mem, became ▸ found⟩
    · rintro ⟨mem, found⟩
      exact ⟨⟨row, mem, if_neg (found ▸ other)⟩, found⟩

end Table

end

open Function

/-! The members of finitely many lists, taken together. -/

variable {α β : Type} {size : Nat} (chains : Fin size → List α)

def allOf : List α := (finRange size).flatMap chains

theorem mem_allOf {chains : Fin size → List α} {x : α} : x ∈ allOf chains ↔ ∃ i, x ∈ chains i := by simp [allOf]

theorem allOf_perm (i : Fin size) :
    (allOf chains).Perm (chains i ++ ((finRange size).erase i).flatMap chains) := by
  have front : (finRange size).Perm (i :: (finRange size).erase i) := perm_cons_erase (mem_finRange i)
  exact front.flatMap_right chains

theorem allOf_update_perm (i : Fin size) (chain : List α) :
    (allOf (update chains i chain)).Perm (chain ++ ((finRange size).erase i).flatMap chains) := by
  have others : ((finRange size).erase i).flatMap (update chains i chain) =
      ((finRange size).erase i).flatMap chains := by
    refine flatMap_congr fun j mem => ?_
    have ne : j ≠ i := fun same => (List.Nodup.not_mem_erase (nodup_finRange size)) (same ▸ mem)
    rw [update_of_ne ne]
  have perm := allOf_perm (update chains i chain) i
  rwa [update_self, others] at perm

theorem flatMap_perm_allOf {order : List (Fin size)} (distinct : order.Nodup) {chains : Fin size → List α}
    (others : ∀ i, i ∉ order → chains i = []) : (order.flatMap chains).Perm (allOf chains) := by
  have split : (order ++ (finRange size).filter (· ∉ order)).Perm (finRange size) := by
    refine (perm_ext_iff_of_nodup ?_ (nodup_finRange size)).mpr fun i => ?_
    · refine nodup_append.mpr ⟨distinct, (nodup_finRange size).filter _, fun a isIn b outside same => ?_⟩
      subst same
      simp only [mem_filter, decide_eq_true_eq] at outside
      exact outside.2 isIn
    · simp only [mem_append, mem_filter, mem_finRange, true_and, iff_true, decide_eq_true_eq]
      exact Classical.em _
  have perm := split.flatMap_right chains
  have empty : ((finRange size).filter (· ∉ order)).flatMap chains = [] := by
    rw [flatMap_eq_nil_iff]
    intro i mem
    simp only [mem_filter, decide_eq_true_eq] at mem
    exact others i mem.2
  rwa [flatMap_append, empty, append_nil] at perm

theorem allOf_filterMap (choose : α → Option β) :
    allOf (fun i => (chains i).filterMap choose) = (allOf chains).filterMap choose := by
  rw [allOf, allOf, filterMap_flatMap]

theorem allOf_filter (p : α → Bool) : allOf (fun i => (chains i).filter p) = (allOf chains).filter p := by
  rw [allOf, allOf, filter_flatMap]

theorem filter_append_filterMap_perm (list : List α) (choose : α → Option α) :
    list.Perm (list.filter (fun x => (choose x).isNone) ++ list.filter fun x => (choose x).isSome) := by
  have split := (filter_append_perm (fun x => (choose x).isNone) list).symm
  have same : (fun x => !(choose x).isNone) = fun x => (choose x).isSome := by
    funext x
    cases choose x <;> rfl
  rwa [same] at split

theorem map_filterMap_of_kept {list : List α} {choose : α → Option α} {g : α → β}
    (kept : ∀ x y, choose x = some y → g y = g x) :
    (list.filterMap choose).map g = (list.filter fun x => (choose x).isSome).map g := by
  induction list with
  | nil => rfl
  | cons x rest ih =>
    cases chosen : choose x with
    | none => simp [chosen, ih]
    | some y => simp [chosen, ih, kept x y chosen]

end Shroot.General
