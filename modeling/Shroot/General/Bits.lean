import Mathlib

namespace Shroot.General

open BitVec

variable {w i j : Nat}

/-- Every bit of the first word is set in the second: the test `a & ~b` of a
flag word finds nothing. -/
def Within {w : Nat} (a b : BitVec w) : Prop := a &&& ~~~b = 0#w

instance {w : Nat} (a b : BitVec w) : Decidable (Within a b) := inferInstanceAs (Decidable (_ = _))

section

variable {a b c : BitVec w}

theorem within_iff : Within a b ↔ ∀ i, a.getLsbD i = true → b.getLsbD i = true := by
  constructor
  · intro subset i mem
    have bit := congrArg (·.getLsbD i) subset
    have bound := lt_of_getLsbD mem
    simpa [mem, bound] using bit
  · intro mem
    refine eq_of_getLsbD_eq fun i bound => ?_
    grind

theorem Within.mem (subset : Within a b) (mem : a.getLsbD i = true) : b.getLsbD i = true := within_iff.mp subset i mem

@[simp] theorem Within.refl (a : BitVec w) : Within a a := within_iff.mpr fun _ mem => mem

theorem Within.trans (left : Within a b) (right : Within b c) : Within a c :=
  within_iff.mpr fun _ mem => right.mem (left.mem mem)

@[simp] theorem Within.zero (a : BitVec w) : Within 0#w a := by simp [Within]

theorem Within.and_left (subset : Within a b) (c : BitVec w) : Within (a &&& c) b := by
  rw [within_iff] at subset ⊢
  intro i mem
  exact subset i (by simp at mem; exact mem.1)

theorem Within.and_right (subset : Within a b) (c : BitVec w) : Within (c &&& a) b := by
  rw [BitVec.and_comm]
  exact subset.and_left c

theorem Within.or (left : Within a c) (right : Within b c) : Within (a ||| b) c := by
  rw [within_iff] at left right ⊢
  intro i mem
  simp only [getLsbD_or, Bool.or_eq_true] at mem
  exact mem.elim (left i) (right i)

theorem Within.or_left (subset : Within a b) (c : BitVec w) : Within a (b ||| c) := by
  rw [within_iff] at subset ⊢
  intro i mem
  simp [subset i mem]

theorem Within.or_right (subset : Within a b) (c : BitVec w) : Within a (c ||| b) := by
  rw [BitVec.or_comm]
  exact subset.or_left c

end

def flag (w i : Nat) : BitVec w := 1#w <<< i

@[simp] theorem getLsbD_flag (w i j : Nat) : (flag w i).getLsbD j = (decide (j < w) && decide (j = i)) := by
  simp only [flag, getLsbD_shiftLeft, getLsbD_one]
  grind

theorem getLsbD_clear_flag (a : BitVec w) (other : j ≠ i) : (a &&& ~~~flag w i).getLsbD j = a.getLsbD j := by
  simpa [other] using lt_of_getLsbD

theorem getLsbD_set_flag (a : BitVec w) (other : j ≠ i) : (a ||| flag w i).getLsbD j = a.getLsbD j := by simp [other]

end Shroot.General
