import Mathlib

namespace Shroot.General

open List Nat

/-! Lists that are changed at one position. -/

variable {α β : Type} {list : List α} {i : Nat} {change : α → α}

theorem mem_modify {x : α} (mem : x ∈ list.modify i change) :
    x ∈ list ∨ ∃ old, list[i]? = some old ∧ x = change old := by
  obtain ⟨k, is⟩ := mem_iff_getElem?.mp mem
  rw [getElem?_modify] at is
  split at is
  next same =>
    subst same
    obtain ⟨old, there, rfl⟩ := Option.map_eq_some_iff.mp is
    exact .inr ⟨old, there, rfl⟩
  · exact .inl (mem_of_getElem? (by simpa using is))

variable {new : α}

theorem insertIdx_split (fits : i ≤ list.length) : list.insertIdx i new = list.take i ++ new :: list.drop i := by
  induction list generalizing i with
  | nil =>
    obtain rfl := le_zero.mp fits
    rfl
  | cons first rest ih =>
    cases i with
    | zero => rfl
    | succ i => exact congrArg (first :: ·) (ih (le_of_succ_le_succ fits))

variable {P : α → Prop}

theorem forall_mem_concat (all : ∀ x ∈ list, P x) (last : P new) : ∀ x ∈ list ++ [new], P x :=
  forall_mem_append.mpr ⟨all, forall_mem_singleton.mpr last⟩

theorem forall_mem_modify (all : ∀ x ∈ list, P x) (changed : ∀ old, list[i]? = some old → P (change old)) :
    ∀ x ∈ list.modify i change, P x := by
  intro x mem
  rcases mem_modify mem with isIn | ⟨old, there, rfl⟩
  · exact all x isIn
  · exact changed old there

theorem forall_mem_set (all : ∀ x ∈ list, P x) (has : P new) : ∀ x ∈ list.set i new, P x := by
  intro x mem
  rcases mem_or_eq_of_mem_set mem with isIn | rfl
  · exact all x isIn
  · exact has

variable {f : α → β}

theorem nodup_map_concat (nodup : (list.map f).Nodup) (fresh : ∀ x ∈ list, f x ≠ f new) :
    ((list ++ [new]).map f).Nodup := by
  rw [map_append, map_singleton]
  refine nodup.append (nodup_singleton _) (disjoint_singleton.mpr fun used => ?_)
  obtain ⟨x, mem, same⟩ := mem_map.mp used
  exact fresh x mem same

variable {old : α}

theorem modify_eq_set (there : list[i]? = some old) : list.modify i change = list.set i (change old) := by
  rw [modify_eq_set_getElem?, there]
  rfl

theorem set_of_there (there : list[i]? = some old) : list.set i old = list := by
  obtain ⟨bound, rfl⟩ := List.getElem?_eq_some_iff.mp there
  exact set_getElem_self bound

theorem modify_of_there (there : list[i]? = some old) (same : change old = old) : list.modify i change = list := by
  rw [modify_eq_set there, same, set_of_there there]

theorem modify_of_none (none : list[i]? = none) : list.modify i change = list := by
  rw [modify_eq_set_getElem?, none]
  rfl

theorem modify_append_left {more : List α} (old : i < list.length) :
    (list ++ more).modify i change = list.modify i change ++ more := by
  induction list generalizing i with
  | nil => exact absurd old (not_lt_zero i)
  | cons x rest ih =>
    cases i with
    | zero => simp
    | succ i => simpa using ih (lt_of_succ_lt_succ old)

theorem modify_append_right (list more : List α) (i : Nat) (change : α → α) :
    (list ++ more).modify (list.length + i) change = list ++ more.modify i change := by
  induction list with
  | nil => simp
  | cons x rest ih =>
    rw [length_cons, add_right_comm]
    simpa using ih

theorem map_of_map_eq {γ : Type*} {list' : List α} (same : list'.map f = list.map f) (g : β → γ) :
    list'.map (fun x => g (f x)) = list.map fun x => g (f x) := by
  have projected := congrArg (map g) same
  rwa [map_map, map_map] at projected

theorem map_set_of_eq {old new : α} (there : list[i]? = some old) (same : f new = f old) :
    (list.set i new).map f = list.map f := by
  rw [map_set, same]
  exact set_of_there (by rw [getElem?_map, there]; rfl)

theorem map_modify_of_there (there : list[i]? = some old) (same : f (change old) = f old) :
    (list.modify i change).map f = list.map f := by
  rw [modify_eq_set there]
  exact map_set_of_eq there same

theorem map_modify_of_eq (same : ∀ x, f (change x) = f x) : (list.modify i change).map f = list.map f := by
  cases there : list[i]? with
  | none => rw [modify_of_none there]
  | some old => exact map_modify_of_there there (same old)

theorem map_modify_comm {change' : β → β} (same : ∀ x ∈ list, f (change x) = change' (f x)) :
    (list.modify i change).map f = (list.map f).modify i change' := by
  cases there : list[i]? with
  | none => rw [modify_of_none there, modify_of_none (by rw [getElem?_map, there]; rfl)]
  | some x =>
    have image : (list.map f)[i]? = some (f x) := by rw [getElem?_map, there]; rfl
    rw [modify_eq_set there, modify_eq_set image, map_set, same x (mem_of_getElem? there)]

theorem exists_mem_modify {x : α} (mem : x ∈ list) : x ∈ list.modify i change ∨ change x ∈ list.modify i change := by
  obtain ⟨k, is⟩ := mem_iff_getElem?.mp mem
  by_cases same : i = k
  · refine .inr (mem_of_getElem? (?_ : _[k]? = _))
    simp [same, is]
  · refine .inl (mem_of_getElem? (?_ : _[k]? = _))
    simp [same, is]

theorem exists_mem_set {x old new : α} (there : list[i]? = some old) (mem : x ∈ list) :
    x ∈ list.set i new ∨ (x = old ∧ new ∈ list.set i new) := by
  obtain ⟨k, is⟩ := mem_iff_getElem?.mp mem
  have bound := (List.getElem?_eq_some_iff.mp there).1
  by_cases same : i = k
  · subst same
    refine .inr ⟨?_, mem_of_getElem? (getElem?_set_self bound)⟩
    rw [there] at is
    exact (Option.some.inj is).symm
  · refine .inl (mem_of_getElem? (?_ : _[k]? = _))
    rw [getElem?_set_ne same, is]

theorem mem_eraseIdx_of_ne {x old : α} (there : list[i]? = some old) (mem : x ∈ list) (other : x ≠ old) :
    x ∈ list.eraseIdx i := by
  obtain ⟨k, is⟩ := mem_iff_getElem?.mp mem
  refine mem_eraseIdx_iff_getElem?.mpr ⟨k, ?_, is⟩
  rintro rfl
  rw [there] at is
  exact other (Option.some.inj is).symm

variable {p : α → Bool}

theorem findIdx?_bind_ok {x : α} (found : ((list.findIdx? p).bind fun k => list[k]?.map (k, ·)) = some (i, x)) :
    list[i]? = some x ∧ p x = true := by
  obtain ⟨k, isIndex, there⟩ := Option.bind_eq_some_iff.mp found
  obtain ⟨y, is, same⟩ := Option.map_eq_some_iff.mp there
  cases same
  obtain ⟨bound, has, -⟩ := findIdx?_eq_some_iff_getElem.mp isIndex
  obtain ⟨_, isX⟩ := List.getElem?_eq_some_iff.mp is
  exact ⟨is, isX ▸ has⟩

theorem findIdx?_bind_none (found : ((list.findIdx? p).bind fun k => list[k]?.map (k, ·)) = none) :
    ∀ x ∈ list, p x = false := by
  cases search : list.findIdx? p with
  | none => exact findIdx?_eq_none_iff.mp search
  | some k =>
    obtain ⟨bound, -, -⟩ := findIdx?_eq_some_iff_getElem.mp search
    rw [search] at found
    simp [bound] at found

/-- The greatest that a running maximum keeps is the first of its measure. -/
theorem find?_argmax [LinearOrder β] {f : α → β} {x : α} (greatest : x ∈ argmax f list) :
    list.find? (fun y => f y = f x) = some x := by
  induction list using reverseRecOn with
  | nil => cases greatest
  | append_singleton earlier y ih =>
    rw [argmax_concat] at greatest
    rw [find?_append]
    cases before : argmax f earlier with
    | none =>
      obtain rfl : y = x := by simpa [before] using greatest
      simp [argmax_eq_none.mp before]
    | some z =>
      simp only [before] at greatest ih
      split at greatest
      next less =>
        obtain rfl := Option.some.inj greatest
        have none : earlier.find? (fun a => f a = f y) = none := find?_eq_none.mpr fun a mem => by
          simpa using ((le_of_mem_argmax mem before).trans_lt less).ne
        simp [none]
      · rw [ih greatest]
        rfl

end Shroot.General
