import Mathlib

namespace Shroot.General

open Function List

/-- How a kernel numbers what it opens. -/
structure Numbering where
  pick : Finset Nat → Nat
  fresh : ∀ taken, pick taken ∉ taken

/-- The open descriptors of a process; `stray` tells that one was closed that was not open. -/
structure Descriptors where
  opened : Finset Nat
  stray : Bool

namespace Descriptors

def create (n : Numbering) (d : Descriptors) : Nat × Descriptors :=
  (n.pick d.opened, { d with opened := insert (n.pick d.opened) d.opened })

def createMany (n : Numbering) : Nat → Descriptors → List Nat × Descriptors
  | 0, d => ([], d)
  | count + 1, d =>
    let (fd, d) := d.create n
    let (fds, d) := createMany n count d
    (fd :: fds, d)

def close (d : Descriptors) (fd : Nat) : Descriptors :=
  if fd ∈ d.opened then { d with opened := d.opened.erase fd } else { d with stray := true }

def closeAll (d : Descriptors) (fds : List Nat) : Descriptors := fds.foldl close d

end Descriptors

/-- Every open descriptor has one owner: somebody outside, the holder that names it, or the
loose list of the running call; and none was closed twice. -/
structure Accounts {ι : Type} (outside : Nat → Prop) (held : ι → Option Nat) (loose : List Nat) (d : Descriptors) :
    Prop where
  opened : ∀ fd, fd ∈ d.opened ↔ outside fd ∨ (∃ i, held i = some fd) ∨ fd ∈ loose
  apart : ∀ fd ∈ loose, ¬ outside fd ∧ ∀ i, held i ≠ some fd
  owned : ∀ i fd, held i = some fd → ¬ outside fd
  single : ∀ i j fd, held i = some fd → held j = some fd → i = j
  distinct : loose.Nodup
  sound : d.stray = false

namespace Accounts

variable {ι : Type} {outside : Nat → Prop} {held : ι → Option Nat} {loose loose' fds : List Nat} {fd : Nat}
  {d : Descriptors}

theorem perm (accounts : Accounts outside held loose d) (same : loose.Perm loose') :
    Accounts outside held loose' d where
  opened fd := by rw [accounts.opened, same.mem_iff]
  apart fd mem := accounts.apart fd (same.mem_iff.mpr mem)
  owned := accounts.owned
  single := accounts.single
  distinct := same.nodup_iff.mp accounts.distinct
  sound := accounts.sound

theorem create (n : Numbering) (accounts : Accounts outside held loose d) :
    Accounts outside held ((d.create n).1 :: loose) (d.create n).2 := by
  have fresh : ¬ (outside (n.pick d.opened) ∨ (∃ i, held i = some (n.pick d.opened)) ∨ n.pick d.opened ∈ loose) :=
    fun taken => n.fresh d.opened ((accounts.opened _).mpr taken)
  refine { accounts with opened := fun fd => ?_, apart := ?_, distinct := ?_ }
  · simp only [Descriptors.create, Finset.mem_insert, accounts.opened, mem_cons]
    tauto
  · intro fd mem
    rcases mem_cons.mp mem with rfl | mem
    · exact ⟨fun out => fresh (.inl out), fun i held => fresh (.inr (.inl ⟨i, held⟩))⟩
    · exact accounts.apart fd mem
  · exact nodup_cons.mpr ⟨fun mem => fresh (.inr (.inr mem)), accounts.distinct⟩

theorem createMany (n : Numbering) (count : Nat) (accounts : Accounts outside held loose d) :
    Accounts outside held ((d.createMany n count).1 ++ loose) (d.createMany n count).2 := by
  induction count generalizing loose d with
  | zero => exact accounts
  | succ count ih => exact (ih (accounts.create n)).perm perm_middle

theorem close (accounts : Accounts outside held (fd :: loose) d) : Accounts outside held loose (d.close fd) := by
  have present : fd ∈ d.opened := (accounts.opened fd).mpr (by simp)
  have apart := accounts.apart fd (by simp)
  have distinct := nodup_cons.mp accounts.distinct
  rw [Descriptors.close, if_pos present]
  refine ⟨fun other => ?_, fun other mem => accounts.apart other (by simp [mem]), accounts.owned, accounts.single,
    distinct.2, accounts.sound⟩
  simp only [Finset.mem_erase, accounts.opened, mem_cons]
  constructor
  · rintro ⟨ne, out | held | rfl | mem⟩
    · exact .inl out
    · exact .inr (.inl held)
    · exact absurd rfl ne
    · exact .inr (.inr mem)
  · rintro (out | ⟨i, held⟩ | mem)
    · exact ⟨fun same => apart.1 (same ▸ out), .inl out⟩
    · exact ⟨fun same => apart.2 i (same ▸ held), .inr (.inl ⟨i, held⟩)⟩
    · exact ⟨fun same => distinct.1 (same ▸ mem), .inr (.inr (.inr mem))⟩

theorem closeAll (accounts : Accounts outside held (fds ++ loose) d) :
    Accounts outside held loose (d.closeAll fds) := by
  induction fds generalizing d with
  | nil => exact accounts
  | cons fd rest ih => exact ih accounts.close

/-- A holder takes a loose descriptor and what it held before becomes loose. -/
theorem swap [DecidableEq ι] (accounts : Accounts outside held (fd :: loose) d) (i : ι) :
    Accounts outside (update held i (some fd)) ((held i).toList ++ loose) d := by
  have apart := accounts.apart fd (by simp)
  have distinct := nodup_cons.mp accounts.distinct
  have cases_update : ∀ j other, update held i (some fd) j = some other → (j = i ∧ other = fd) ∨
      (j ≠ i ∧ held j = some other) := by
    intro j other has
    by_cases same : j = i
    · rw [same, update_self] at has
      exact .inl ⟨same, (Option.some.inj has).symm⟩
    · rw [update_of_ne same] at has
      exact .inr ⟨same, has⟩
  refine ⟨fun other => ?_, fun other mem => ?_, fun j other has => ?_, fun j k other at_j at_k => ?_, ?_,
    accounts.sound⟩
  · have holders : (∃ j, update held i (some fd) j = some other) ∨ held i = some other ↔ (∃ j, held j = some other) ∨
        other = fd := by
      constructor
      · rintro (⟨j, has⟩ | has)
        · obtain ⟨_, same⟩ | ⟨_, has⟩ := cases_update j other has
          · exact .inr same
          · exact .inl ⟨j, has⟩
        · exact .inl ⟨i, has⟩
      · rintro (⟨j, has⟩ | rfl)
        · by_cases same : j = i
          · exact .inr (same ▸ has)
          · exact .inl ⟨j, by rwa [update_of_ne same]⟩
        · exact .inl ⟨i, update_self ..⟩
    rw [accounts.opened, mem_append, Option.mem_toList, mem_cons]
    tauto
  · rcases mem_append.mp mem with old | mem
    · have has : held i = some other := by simpa using old
      refine ⟨accounts.owned i other has, fun j at_j => ?_⟩
      obtain ⟨_, rfl⟩ | ⟨ne, at_j⟩ := cases_update j other at_j
      · exact apart.2 i has
      · exact ne (accounts.single j i other at_j has)
    · have pre := accounts.apart other (by simp [mem])
      refine ⟨pre.1, fun j at_j => ?_⟩
      obtain ⟨_, rfl⟩ | ⟨_, at_j⟩ := cases_update j other at_j
      · exact distinct.1 mem
      · exact pre.2 j at_j
  · obtain ⟨_, rfl⟩ | ⟨_, has⟩ := cases_update j other has
    · exact apart.1
    · exact accounts.owned j other has
  · obtain ⟨rfl, same⟩ | ⟨_, before_j⟩ := cases_update j other at_j <;>
      obtain ⟨rfl, same'⟩ | ⟨_, before_k⟩ := cases_update k other at_k
    · rfl
    · exact absurd (same ▸ before_k) (apart.2 k)
    · exact absurd (same' ▸ before_j) (apart.2 j)
    · exact accounts.single j k other before_j before_k
  · refine nodup_append.mpr ⟨by cases held i <;> simp, distinct.2, fun other old another mem same => ?_⟩
    have has : held i = some other := by simpa using old
    exact (accounts.apart another (by simp [mem])).2 i (same ▸ has)

end Accounts

end Shroot.General
