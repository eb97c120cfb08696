import Mathlib

namespace Shroot.General

open List

variable {ε α β : Type} {bad : Prop} {count : Nat}

/-- An early return: the error when the condition holds, else continue. -/
def failIf {ε : Type} (bad : Prop) [Decidable bad] (error : ε) : Except ε Unit := if bad then .error error else .ok ()

section

variable {error : ε}

@[simp] theorem failIf_bind_ok [Decidable bad] {next : Unit → Except ε α} {res : α} :
    (failIf bad error >>= next) = .ok res ↔ ¬ bad ∧ next () = .ok res := by
  by_cases holds : bad <;> simp [failIf, holds, bind, Except.bind]

@[simp] theorem failIf_ok [Decidable bad] {res : Unit} :
    failIf bad error = .ok res ↔ ¬ bad := by
  by_cases holds : bad <;> simp [failIf, holds]

theorem bind_ok {first : Except ε α} {next : α → Except ε β} {res : β} :
    (first >>= next) = .ok res ↔ ∃ value, first = .ok value ∧ next value = .ok res := by
  cases first <;> simp [bind, Except.bind]

@[simp] theorem pure_ok {val res : α} : (pure val : Except ε α) = .ok res ↔ val = res := by simp [pure, Except.pure]

theorem ok_bind (value : α) (next : α → Except ε β) : (Except.ok value >>= next) = next value := rfl

theorem error_bind (error : ε) (next : α → Except ε β) : (Except.error error >>= next) = .error error := rfl

theorem map_ok {f : α → β} {action : Except ε α} {res : β} (run : action.map f = .ok res) :
    ∃ value, action = .ok value ∧ f value = res := by
  cases action with
  | error _ => cases run
  | ok value => exact ⟨value, rfl, Except.ok.inj run⟩

theorem mapM_ok {f : α → Except ε β} {list : List α} {res : List β} (run : list.mapM f = .ok res) :
    res.length = list.length ∧ ∀ (i : Nat) x, list[i]? = some x → ∃ y, res[i]? = some y ∧ f x = .ok y := by
  induction list generalizing res with
  | nil =>
    cases run
    exact ⟨rfl, fun i x is => by simp at is⟩
  | cons x rest ih =>
    rw [mapM_cons] at run
    obtain ⟨y, first, run⟩ := bind_ok.mp run
    obtain ⟨ys, later, run⟩ := bind_ok.mp run
    obtain rfl := pure_ok.mp run
    obtain ⟨length, each⟩ := ih later
    refine ⟨by rw [length_cons, length_cons, length], fun i z is => ?_⟩
    cases i with
    | zero =>
      obtain rfl : x = z := by simpa using is
      exact ⟨y, rfl, first⟩
    | succ i => exact each i z (by simpa using is)

/-- The rule of a counted loop: what holds at the start and is kept by every successful
iteration holds at the end. -/
theorem foldlM_range_ok {step : β → Nat → Except ε β} (has : Nat → β → Prop) {start final : β} (init : has 0 start)
    (kept : ∀ i state next, i < count → has i state → step state i = .ok next → has (i + 1) next)
    (run : (range count).foldlM step start = .ok final) : has count final := by
  induction count generalizing final with
  | zero =>
    cases run
    exact init
  | succ count ih =>
    rw [range_succ, foldlM_append] at run
    obtain ⟨state, old, last⟩ := bind_ok.mp run
    obtain ⟨next, ran, finished⟩ := bind_ok.mp last
    obtain rfl : next = final := pure_ok.mp finished
    exact kept count state next (by omega) (ih (fun i state next bound => kept i state next (by omega)) old) ran

/-- A counted loop whose every iteration succeeds from what holds before it succeeds. -/
theorem foldlM_range_succeeds (step : β → Nat → Except ε β) (has : Nat → β → Prop) {start : β} (init : has 0 start)
    (steps : ∀ i state, i < count → has i state → ∃ next, step state i = .ok next ∧ has (i + 1) next) :
    ∃ final, (range count).foldlM step start = .ok final ∧ has count final := by
  induction count with
  | zero => exact ⟨start, rfl, init⟩
  | succ count ih =>
    obtain ⟨state, old, held⟩ := ih fun i state bound => steps i state (by omega)
    obtain ⟨next, ran, new⟩ := steps count state (by omega) held
    refine ⟨next, ?_, new⟩
    rw [range_succ, foldlM_append]
    exact bind_ok.mpr ⟨state, old, bind_ok.mpr ⟨next, ran, rfl⟩⟩

end

/-- What a check comes to: one error, exactly when the condition holds. -/
def Checks {ε : Type} (bad : Prop) (error : ε) (run : Except ε Unit) : Prop :=
  (run = .ok () ∧ ¬ bad) ∨ (run = .error error ∧ bad)

namespace Checks

variable {worse : Prop} {e : ε} {run rest : Except ε Unit}

theorem ok_iff (checks : Checks bad e run) : run = .ok () ↔ ¬ bad := by
  rcases checks with ⟨rfl, fine⟩ | ⟨rfl, has⟩
  · simp [fine]
  · simp [has]

theorem congr (checks : Checks bad e run) (same : bad ↔ worse) : Checks worse e run := by rwa [← propext same]

theorem failIf [Decidable bad] : Checks bad e (failIf bad e) := by
  by_cases holds : bad <;> simp [Checks, General.failIf, holds]

theorem bind (first : Checks bad e run) (two : Checks worse e rest) :
    Checks (bad ∨ worse) e (run >>= fun _ => rest) := by
  rcases first with ⟨rfl, fine⟩ | ⟨rfl, has⟩
  · exact two.congr (by simp [fine])
  · exact .inr ⟨rfl, .inl has⟩

theorem forM {f : α → Except ε Unit} {bad : α → Prop} (each : ∀ x, Checks (bad x) e (f x)) (list : List α) :
    Checks (∃ x ∈ list, bad x) e (list.forM f) := by
  induction list with
  | nil => exact .inl ⟨rfl, by simp⟩
  | cons x rest ih => exact ((each x).bind ih).congr (by simp)

end Checks

/-- What holds of a result if there is one. -/
def Gives {ε α : Type} (post : α → Prop) (result : Except ε α) : Prop := ∀ value, result = .ok value → post value

namespace Gives

variable {post : α → Prop}

theorem pure {val : α} (has : post val) : Gives post (pure val : Except ε α) := by
  intro _ is
  rw [← pure_ok.mp is]
  exact has

theorem error {e : ε} : Gives post (.error e) := nofun

theorem bind {post : β → Prop} {first : Except ε α} {next : α → Except ε β}
    (goes : ∀ value, first = .ok value → Gives post (next value)) :
    Gives post (first >>= next) := by
  intro value is
  obtain ⟨a, old, new⟩ := bind_ok.mp is
  exact goes a old value new

theorem failIf_bind [Decidable bad] {e : ε} {next : Unit → Except ε α} (goes : ¬ bad → Gives post (next ())) :
    Gives post (failIf bad e >>= next) := by
  intro val is
  obtain ⟨good, is⟩ := failIf_bind_ok.mp is
  exact goes good val is

theorem ite {c : Prop} [Decidable c] {left right : Except ε α} (yes : c → Gives post left)
    (no : ¬ c → Gives post right) :
    Gives post (if c then left else right) := by
  split
  next has => exact yes has
  next fails => exact no fails

end Gives

end Shroot.General
