import Mathlib

namespace Shroot.General

open List

/-- One shifted interval: `size` consecutive points from `source` go in order
to the points from `target`. -/
structure Shift where
  source : Nat
  target : Nat
  size : Nat

namespace Shift

variable {s : Shift} {shifts : List Shift} {x y : Nat}

def flip (s : Shift) : Shift := ⟨s.target, s.source, s.size⟩

def Covers (s : Shift) (x : Nat) : Prop := s.source ≤ x ∧ x < s.source + s.size

instance (s : Shift) (x : Nat) : Decidable (s.Covers x) := inferInstanceAs (Decidable (_ ∧ _))

def move (s : Shift) (x : Nat) : Nat := s.target + (x - s.source)

/-- First matching interval, as a table scan finds it. -/
def lookup (shifts : List Shift) (x : Nat) : Option Nat := (shifts.find? fun s => s.Covers x).map (·.move x)

/-- Neither the sources nor the targets of two shifts meet. -/
def Apart (s t : Shift) : Prop :=
  (s.source + s.size ≤ t.source ∨ t.source + t.size ≤ s.source) ∧
    (s.target + s.size ≤ t.target ∨ t.target + t.size ≤ s.target)

theorem Apart.flip {t : Shift} (apart : s.Apart t) : s.flip.Apart t.flip := ⟨apart.2, apart.1⟩

@[simp] theorem flip_flip (s : Shift) : s.flip.flip = s := rfl

theorem move_covers (covers : s.Covers x) : s.flip.Covers (s.move x) := by
  simp only [Covers, flip, move] at covers ⊢
  omega

theorem move_flip (covers : s.Covers x) : s.flip.move (s.move x) = x := by
  simp only [Covers, flip, move] at covers ⊢
  omega

theorem lookup_sound (found : lookup shifts x = some y) : ∃ s ∈ shifts, s.Covers x ∧ s.move x = y := by
  obtain ⟨s, first, val⟩ := Option.map_eq_some_iff.mp found
  exact ⟨s, mem_of_find?_eq_some first, by simpa using find?_some first, val⟩

section

variable (apart : shifts.Pairwise Apart)

include apart

/-- Intervals that pairwise do not meet leave the scan no choice, so the
first match is the only one. -/
theorem lookup_complete (mem : s ∈ shifts) (covers : s.Covers x) : lookup shifts x = some (s.move x) := by
  induction shifts with
  | nil => simp at mem
  | cons t rest ih =>
    obtain ⟨head, tail⟩ := pairwise_cons.mp apart
    rcases mem_cons.mp mem with same | later
    · subst same
      simp [lookup, covers]
    · have miss : ¬ t.Covers x := by
        have := (head s later).1
        simp only [Covers] at covers ⊢
        omega
      simpa [lookup, find?_cons, miss] using ih tail later

theorem lookup_iff : lookup shifts x = some y ↔ ∃ s ∈ shifts, s.Covers x ∧ s.move x = y := by
  constructor
  · exact lookup_sound
  · rintro ⟨s, mem, covers, val⟩
    rw [lookup_complete apart mem covers, val]

theorem apart_flip : (shifts.map flip).Pairwise Apart := pairwise_map.mpr (apart.imp Apart.flip)

/-- Reading the table right to left undoes reading it left to right. -/
theorem lookup_flip : lookup (shifts.map flip) y = some x ↔ lookup shifts x = some y := by
  have half (table : List Shift) (a b : Nat) :
      (∃ s ∈ table, s.Covers a ∧ s.move a = b) → ∃ s ∈ table.map flip, s.Covers b ∧ s.move b = a := by
    rintro ⟨s, mem, covers, val⟩
    subst val
    exact ⟨s.flip, mem_map_of_mem mem, move_covers covers, move_flip covers⟩
  rw [lookup_iff apart, lookup_iff (apart_flip apart)]
  refine ⟨fun found => ?_, half shifts x y⟩
  simpa [Function.comp_def, flip_flip] using half (shifts.map flip) y x found

end

/-- Such a table is a partial bijection, with the flipped table as inverse. -/
def pequiv (shifts : List Shift) (apart : shifts.Pairwise Apart) : Nat ≃. Nat where
  toFun := lookup shifts
  invFun := lookup (shifts.map flip)
  inv _ _ := lookup_flip apart

end Shift
end Shroot.General
