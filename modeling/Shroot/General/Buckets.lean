import Mathlib

namespace Shroot.General

open Function List Prod

/-- A hash table with chaining: every entry is in the chain of its key, and no chain has a key twice. -/
structure Buckets {κ : Type} (size : Nat) (bucket : κ → Fin size) (α : Type) where
  chain : Fin size → List (κ × α)
  placed : ∀ i, ∀ entry ∈ chain i, bucket entry.1 = i
  keys : ∀ i, ((chain i).map fst).Nodup

namespace Buckets

variable {κ α : Type} [DecidableEq κ] {size : Nat} {bucket : κ → Fin size}

def search (entries : List (κ × α)) (k : κ) : Option α := (entries.find? fun entry => entry.1 == k).map snd

theorem search_eq_none {entries : List (κ × α)} {k : κ} : search entries k = none ↔ k ∉ entries.map fst := by
  simp only [search, Option.map_eq_none_iff, find?_eq_none, beq_iff_eq, mem_map, not_exists, not_and]

variable {value : α}

theorem search_append {entries : List (κ × α)} {k : κ} (fresh : search entries k = none) (other : κ) :
    search (entries ++ [(k, value)]) other = if other = k then some value else search entries other := by
  by_cases same : other = k
  · subst same
    have none : (entries.find? fun entry => entry.1 == other) = none := by simpa [search] using fresh
    simp [search, find?_append, none]
  · simp [search, find?_append, same, Ne.symm same]

theorem search_eraseP {entries : List (κ × α)} (distinct : (entries.map fst).Nodup) (k other : κ) :
    search (entries.eraseP fun entry => entry.1 == k) other = if other = k then none else search entries other := by
  induction entries with
  | nil => simp [search]
  | cons entry rest ih =>
    obtain ⟨fresh, distinct⟩ := nodup_cons.mp distinct
    by_cases same : entry.1 = k
    · subst same
      rw [eraseP_cons_of_pos (by simp)]
      by_cases here : other = entry.1
      · rw [if_pos here, here]
        exact search_eq_none.mpr fresh
      · simp [search, here, Ne.symm here]
    · rw [eraseP_cons_of_neg (by simpa using same)]
      have step : ∀ tail : List (κ × α), search (entry :: tail) other = if entry.1 = other then some entry.2
          else search tail other := by
        by_cases here : entry.1 = other <;> simp [search, here]
      rw [step, step, ih distinct]
      by_cases here : entry.1 = other
      · simp [here, here ▸ same]
      · simp [here]

def empty : Buckets size bucket α := ⟨fun _ => [], by simp, by simp⟩

variable (t : Buckets size bucket α) (k : κ)

def find : Option α := search (t.chain (bucket k)) k

/-- Link a new entry at the end of its chain. -/
def insert (value : α) (fresh : t.find k = none) : Buckets size bucket α where
  chain := update t.chain (bucket k) (t.chain (bucket k) ++ [(k, value)])
  placed i := by
    by_cases same : i = bucket k
    · subst same
      simp only [update_self, mem_append, mem_singleton]
      rintro entry (before | rfl)
      · exact t.placed _ entry before
      · rfl
    · simp only [update_of_ne same]
      exact t.placed i
  keys i := by
    by_cases same : i = bucket k
    · subst same
      simp only [update_self, map_append, map_cons, map_nil]
      refine nodup_append.mpr ⟨t.keys _, nodup_singleton _, ?_⟩
      rintro a inside b last rfl
      exact search_eq_none.mp fresh (mem_singleton.mp last ▸ inside)
    · simp only [update_of_ne same]
      exact t.keys i

def erase : Buckets size bucket α where
  chain := update t.chain (bucket k) ((t.chain (bucket k)).eraseP fun entry => entry.1 == k)
  placed i := by
    by_cases same : i = bucket k
    · subst same
      simp only [update_self]
      exact fun entry mem => t.placed _ entry (mem_of_mem_eraseP mem)
    · simp only [update_of_ne same]
      exact t.placed i
  keys i := by
    by_cases same : i = bucket k
    · subst same
      simp only [update_self]
      exact (t.keys _).sublist ((eraseP_sublist).map fst)
    · simp only [update_of_ne same]
      exact t.keys i

def entries : List (κ × α) := (List.finRange size).flatMap t.chain

variable (t : Buckets size bucket α)

@[simp] theorem find_empty : (empty : Buckets size bucket α).find k = none := rfl

theorem find_insert {k : κ} (fresh : t.find k = none) (other : κ) :
    (t.insert k value fresh).find other = if other = k then some value else t.find other := by
  by_cases same : bucket other = bucket k
  · simp only [find, insert, same, update_self]
    exact search_append fresh other
  · have ne : other ≠ k := fun eq => same (congrArg bucket eq)
    simp only [find, insert, update_of_ne same, if_neg ne]

theorem find_erase (k other : κ) : (t.erase k).find other = if other = k then none else t.find other := by
  by_cases same : bucket other = bucket k
  · simp only [find, erase, same, update_self]
    exact search_eraseP (t.keys _) k other
  · have ne : other ≠ k := fun eq => same (congrArg bucket eq)
    simp only [find, erase, update_of_ne same, if_neg ne]

theorem mem_entries {k : κ} (found : t.find k = some value) : (k, value) ∈ t.entries := by
  obtain ⟨entry, first, rfl⟩ := Option.map_eq_some_iff.mp found
  obtain rfl : entry.1 = k := by simpa using find?_some first
  exact mem_flatMap.mpr ⟨bucket entry.1, mem_finRange _, mem_of_find?_eq_some first⟩

end Buckets

/-- The number after one in the rotation from `low` to `high`. -/
def advance (low high k : Nat) : Nat := if k = high then low else k + 1

/-- A search through a rotation that stops at the first number that is not taken, or back at its start. -/
def probe (low high : Nat) (taken : Nat → Bool) (start : Nat) : Nat → Nat → Nat
  | 0, next => next
  | fuel + 1, next =>
    if !taken next then next
    else if advance low high next = start then start
    else probe low high taken start fuel (advance low high next)

variable {low high : Nat} {taken : Nat → Bool} {start : Nat}

theorem advance_mem {k : Nat} (lower : low ≤ k) (upper : k ≤ high) :
    low ≤ advance low high k ∧ advance low high k ≤ high := by
  unfold advance
  split <;> omega

/-- The numbers a search has been through when it is at one. -/
def Passed (start next k : Nat) : Prop := start ≤ next ∧ start ≤ k ∧ k < next ∨ next < start ∧ (start ≤ k ∨ k < next)

/-- How far a search still has to go to be back at its start. -/
def ahead (low high start next : Nat) : Nat := if start ≤ next then high - next + 1 + (start - low) else start - next

/-- One step on, unless it is back at the start, leaves one step less and passes one number more. -/
theorem ahead_advance {next : Nat} (fits : low ≤ start ∧ start ≤ high) (lower : low ≤ next) (upper : next ≤ high)
    (onward : advance low high next ≠ start) :
    ahead low high start (advance low high next) + 1 = ahead low high start next ∧
      ∀ k, low ≤ k → k ≤ high → Passed start (advance low high next) k → Passed start next k ∨ k = next := by
  unfold ahead Passed
  by_cases last : next = high
  · have wraps : advance low high next = low := by simp [advance, last]
    refine ⟨by split <;> split <;> omega, fun k _ _ passed => by omega⟩
  · have steps : advance low high next = next + 1 := by simp [advance, last]
    refine ⟨by split <;> split <;> omega, fun k _ _ passed => by omega⟩

theorem passed_back {next k : Nat} (back : advance low high next = start) (lower : low ≤ k) (upper : k ≤ high) :
    Passed start next k ∨ k = next := by
  unfold Passed
  unfold advance at back
  split at back <;> omega

theorem probe_free (low high start fuel : Nat) {next : Nat} (free : taken next = false) :
    probe low high taken start (fuel + 1) next = next := by
  simp [probe, free]

theorem probe_from {fuel next : Nat} (fits : low ≤ start ∧ start ≤ high) (lower : low ≤ next) (upper : next ≤ high)
    (enough : ahead low high start next ≤ fuel)
    (passed : ∀ k, low ≤ k → k ≤ high → Passed start next k → taken k = true) :
    (low ≤ probe low high taken start fuel next ∧ probe low high taken start fuel next ≤ high) ∧
      (taken (probe low high taken start fuel next) = true → ∀ k, low ≤ k → k ≤ high → taken k = true) := by
  induction fuel generalizing next with
  | zero =>
    have far : 0 < ahead low high start next := by
      unfold ahead
      split <;> omega
    omega
  | succ fuel ih =>
    unfold probe
    by_cases free : taken next = false
    · simp only [free, Bool.not_false, if_true]
      exact ⟨⟨lower, upper⟩, fun isTaken => absurd isTaken (by simp)⟩
    have here : taken next = true := by simpa using free
    simp only [here, Bool.not_true, Bool.false_eq_true, if_false]
    obtain ⟨lower', upper'⟩ := advance_mem lower upper
    -- one more number is passed
    have passed' : ∀ k, low ≤ k → k ≤ high → Passed start next k ∨ k = next → taken k = true := by
      rintro k lowerK upperK (old | rfl)
      · exact passed k lowerK upperK old
      · exact here
    split
    next back => exact ⟨fits, fun _ k lowerK upperK => passed' k lowerK upperK (passed_back back lowerK upperK)⟩
    next onward =>
      obtain ⟨left, more⟩ := ahead_advance fits lower upper onward
      exact ih lower' upper' (by omega) fun k lowerK upperK seen => passed' k lowerK upperK (more k lowerK upperK seen)

/-- A search from inside the rotation stops inside it, at a taken number only when all are. -/
theorem probe_spec {fuel : Nat} (fits : low ≤ start ∧ start ≤ high) (enough : high - low + 1 ≤ fuel) :
    (low ≤ probe low high taken start fuel start ∧ probe low high taken start fuel start ≤ high) ∧
      (taken (probe low high taken start fuel start) = true ↔ ∀ k, low ≤ k → k ≤ high → taken k = true) := by
  have spec := @probe_from low high taken start fuel start fits fits.1 fits.2
    (by unfold ahead; split <;> omega) fun k _ _ seen => by unfold Passed at seen; omega
  exact ⟨spec.1, spec.2, fun all => all _ spec.1.1 spec.1.2⟩

end Shroot.General
