import Mathlib

namespace Shroot.General

open EStateM

section

variable {bad : Prop} {ε σ α β : Type}

/-- The state a computation leaves, whether it fails or not. -/
def leaves (action : EStateM ε σ α) (state : σ) : σ :=
  match action.run state with
  | .ok _ after => after
  | .error _ after => after

def gives (action : EStateM ε σ α) (state : σ) : Except ε α :=
  match action.run state with
  | .ok value _ => .ok value
  | .error error _ => .error error

/-- An early return that keeps what was written so far. -/
def rejectIf (bad : Prop) [Decidable bad] (error : ε) : EStateM ε σ Unit := if bad then throw error else pure ()

section

variable (state : σ)

@[simp] theorem leaves_throw (error : ε) : leaves (throw error : EStateM ε σ α) state = state := rfl

@[simp] theorem leaves_set (next : σ) : leaves (set next : EStateM ε σ PUnit) state = next := rfl

@[simp] theorem leaves_get_bind (next : σ → EStateM ε σ β) : leaves (get >>= next) state = leaves (next state) state :=
  rfl

@[simp] theorem leaves_set_bind (middle : σ) (next : PUnit → EStateM ε σ β) :
    leaves (set middle >>= next) state = leaves (next ()) middle := rfl

@[simp] theorem leaves_modify_bind (change : σ → σ) (next : PUnit → EStateM ε σ β) :
    leaves (modify change >>= next) state = leaves (next ()) (change state) := rfl

@[simp] theorem leaves_throw_bind (error : ε) (next : α → EStateM ε σ β) :
    leaves ((throw error : EStateM ε σ α) >>= next) state = state := rfl

@[simp] theorem leaves_rejectIf_bind (bad : Prop) [Decidable bad] (error : ε) (next : Unit → EStateM ε σ β) :
    leaves (rejectIf bad error >>= next) state = if bad then state else leaves (next ()) state := by
  by_cases holds : bad <;> simp only [rejectIf, holds, if_true, if_false] <;> rfl

@[simp] theorem leaves_ofExcept (result : Except ε α) :
    leaves (MonadExcept.ofExcept result : EStateM ε σ α) state = state := by
  cases result <;> rfl

@[simp] theorem leaves_ofExcept_bind (result : Except ε α) (next : α → EStateM ε σ β) :
    leaves (MonadExcept.ofExcept result >>= next) state =
      match result with
      | .ok value => leaves (next value) state
      | .error _ => state := by
  cases result <;> rfl

theorem leaves_bind (first : EStateM ε σ α) (next : α → EStateM ε σ β) :
    leaves (first >>= next) state =
      match gives first state with
      | .ok value => leaves (next value) (leaves first state)
      | .error _ => leaves first state := by
  simp only [leaves, gives, run, bind, EStateM.bind]
  cases first state <;> rfl

theorem run_of_gives_ok {action : EStateM ε σ α} {state : σ} {val : α} (out : gives action state = .ok val) :
    action.run state = .ok val (leaves action state) := by
  simp only [gives, leaves] at out ⊢
  cases run : action.run state with
  | ok result new => rw [run] at out; rw [Except.ok.inj out]
  | error error new => rw [run] at out; cases out

end

section

variable {action : α → EStateM ε σ PUnit} {error : ε} {items : List α} {next : α → EStateM ε σ β}

/-! Inversion of successful runs: from the run of a sequence, the runs of its parts. -/

variable {state final : σ} {result : β}

theorem run_bind_ok {first : EStateM ε σ α} :
    (first >>= next).run state = .ok result final ↔
      ∃ value middle, first.run state = .ok value middle ∧ (next value).run middle = .ok result final := by
  simp only [run, bind, EStateM.bind]
  cases first state with
  | ok value middle => simp
  | error error middle => simp

@[simp] theorem run_pure_ok {val : β} :
    (pure val : EStateM ε σ β).run state = .ok result final ↔ val = result ∧ state = final := by
  simp [run, pure, EStateM.pure]

@[simp] theorem run_throw_ne :
    (throw error : EStateM ε σ β).run state = .ok result final ↔ False := by
  simp [run, throw, throwThe, MonadExceptOf.throw, EStateM.throw]

@[simp] theorem run_get_bind (next : σ → EStateM ε σ β) : (get >>= next).run state = (next state).run state := rfl

@[simp] theorem run_set_bind (middle : σ) (next : PUnit → EStateM ε σ β) :
    (set middle >>= next).run state = (next ()).run middle := rfl

@[simp] theorem run_modify_bind (change : σ → σ) (next : PUnit → EStateM ε σ β) :
    (modify change >>= next).run state = (next ()).run (change state) := rfl

@[simp] theorem run_modify_ok {change : σ → σ} :
    (modify change : EStateM ε σ PUnit).run state = .ok () final ↔ change state = final := by
  simp [run, modify, modifyGet, MonadStateOf.modifyGet, EStateM.modifyGet]

@[simp] theorem run_rejectIf_bind_ok [Decidable bad] {next : Unit → EStateM ε σ β} :
    (rejectIf bad error >>= next).run state = .ok result final ↔ ¬ bad ∧ (next ()).run state = .ok result final := by
  rw [run_bind_ok]
  by_cases holds : bad
  · simp [rejectIf, holds]
  · simp only [rejectIf, holds, if_false, run_pure_ok, not_false_eq_true, true_and]
    exact ⟨fun ⟨_, _, same, run⟩ => same ▸ run, fun run => ⟨(), state, rfl, run⟩⟩

@[simp] theorem run_ofExcept_ok {out : Except ε β} :
    (MonadExcept.ofExcept out : EStateM ε σ β).run state = .ok result final ↔ out = .ok result ∧ state = final := by
  cases out with
  | ok val => simp [MonadExcept.ofExcept]
  | error error => simp [MonadExcept.ofExcept]

theorem run_ofExcept_bind_ok {out : Except ε α} :
    (MonadExcept.ofExcept out >>= next).run state = .ok result final ↔
    ∃ value, out = .ok value ∧ (next value).run state = .ok result final := by
  rw [run_bind_ok]
  constructor
  · rintro ⟨value, mid, first, rest⟩
    obtain ⟨out, rfl⟩ := run_ofExcept_ok.mp first
    exact ⟨value, out, rest⟩
  · rintro ⟨value, out, rest⟩
    exact ⟨value, state, run_ofExcept_ok.mpr ⟨out, rfl⟩, rest⟩

/-- The rule of a loop that succeeds: what holds of the items done so far holds of all in the end. -/
theorem run_forM_ok (has : List α → σ → Prop) (init : has [] state)
    (kept : ∀ done item rest before after, items = done ++ item :: rest → has done before →
      (action item).run before = .ok () after → has (done ++ [item]) after)
    (run : (items.forM action).run state = .ok () final) : has items final := by
  suffices loop : ∀ done rest before, items = done ++ rest → has done before →
      (rest.forM action).run before = .ok () final → has items final from loop [] items state rfl init run
  intro done rest
  induction rest generalizing done with
  | nil =>
    intro before whole held run
    obtain ⟨-, rfl⟩ := run_pure_ok.mp run
    rw [whole, List.append_nil]
    exact held
  | cons item rest ih =>
    intro before whole held run
    obtain ⟨_, mid, first, run⟩ := run_bind_ok.mp run
    exact ih (done ++ [item]) mid (by rw [whole, List.append_assoc]; rfl)
      (kept done item rest before mid whole held first) run

/-- A loop whose every iteration succeeds from what holds before it succeeds. -/
theorem run_forM_succeeds (has : σ → Prop) (init : has state)
    (steps : ∀ item ∈ items, ∀ before, has before → ∃ after, (action item).run before = .ok () after ∧ has after) :
    ∃ final, (items.forM action).run state = .ok () final ∧ has final := by
  induction items generalizing state with
  | nil => exact ⟨state, rfl, init⟩
  | cons item rest ih =>
    obtain ⟨mid, first, held⟩ := steps item (by simp) state init
    obtain ⟨final, run, held⟩ := ih held fun item mem => steps item (by simp [mem])
    exact ⟨final, run_bind_ok.mpr ⟨(), mid, first, run⟩, held⟩

end

/-- What a computation may do to the state, also when it fails on the way. -/
def Moves (rel : σ → σ → Prop) (action : EStateM ε σ α) : Prop := ∀ state, rel state (leaves action state)

variable {rel : σ → σ → Prop}
variable {next : α → EStateM ε σ β} {origin : σ}

theorem Moves.throw (reflexive : ∀ a, rel a a) (error : ε) : Moves rel (throw error : EStateM ε σ α) :=
  fun state => reflexive state

theorem Moves.ofExcept (reflexive : ∀ a, rel a a) (result : Except ε α) :
    Moves rel (MonadExcept.ofExcept result : EStateM ε σ α) := by
  intro state
  rw [leaves_ofExcept]
  exact reflexive state

theorem Moves.get_bind {next : σ → EStateM ε σ α} (goes : ∀ state, rel state (leaves (next state) state)) :
    Moves rel (get >>= next) := goes

/-- A check between two steps: the state stays where it was when the check fails. -/
theorem leaves_ofExcept_then {state : σ} {result : Except ε α}
    (still : rel origin state) (goes : ∀ value, rel origin (leaves (next value) state)) :
    rel origin (leaves (MonadExcept.ofExcept result >>= next) state) := by
  cases result with
  | ok value => exact goes value
  | error _ => exact still

theorem leaves_rejectIf_then {state : σ} [Decidable bad] {error : ε} {next : Unit → EStateM ε σ β}
    (still : rel origin state) (goes : rel origin (leaves (next ()) state)) :
    rel origin (leaves (General.rejectIf bad error >>= next) state) := by
  rw [leaves_rejectIf_bind]
  split
  · exact still
  · exact goes

theorem Moves.bind (transitive : ∀ a b c, rel a b → rel b c → rel a c) {first : EStateM ε σ α} (moves : Moves rel first)
    (goes : ∀ value, Moves rel (next value)) : Moves rel (first >>= next) := by
  intro state
  rw [leaves_bind]
  split
  next value _ => exact transitive _ _ _ (moves state) (goes value _)
  · exact moves state

/-- A loop does only what each of its iterations may do. -/
theorem Moves.forM (reflexive : ∀ a, rel a a) (transitive : ∀ a b c, rel a b → rel b c → rel a c)
    {items : List α} {action : α → EStateM ε σ PUnit} (moves : ∀ item ∈ items, Moves rel (action item)) :
    Moves rel (items.forM action) := by
  induction items with
  | nil => exact fun state => reflexive state
  | cons item rest ih =>
    exact .bind transitive (moves item (by simp)) fun _ => ih fun item mem => moves item (by simp [mem])

end

variable {bad c : Prop}

variable {ε σ κ μ α β : Type}

/-- What a computation keeps of the state, what it returns, and what it throws. -/
def Meets (kept : σ → κ) (returns : α → Prop) (throws : ε → Prop) (action : EStateM ε σ α) : Prop :=
  ∀ state, match action.run state with
    | .ok value final => kept final = kept state ∧ returns value
    | .error error final => kept final = kept state ∧ throws error

namespace Meets

variable {kept : σ → κ} {returns : α → Prop} {throws : ε → Prop}
variable {action : EStateM ε σ α} {error : ε} {final state : σ} {value : α}

theorem pure (holds : returns value) : Meets kept returns throws (pure value : EStateM ε σ α) := fun _ => ⟨rfl, holds⟩

theorem throw (holds : throws error) : Meets kept returns throws (throw error : EStateM ε σ α) := fun _ => ⟨rfl, holds⟩

theorem get : Meets kept (fun _ => True) throws (get : EStateM ε σ σ) := fun _ => ⟨rfl, trivial⟩

theorem modify {change : σ → σ} (keeps : ∀ state, kept (change state) = kept state) :
    Meets kept (fun _ => True) throws (modify change : EStateM ε σ PUnit) := fun state => ⟨keeps state, trivial⟩

theorem modifyGet {change : σ → α × σ} (keeps : ∀ state, kept (change state).2 = kept state) :
    Meets kept (fun _ => True) throws (modifyGet change : EStateM ε σ α) := fun state => ⟨keeps state, trivial⟩

theorem rejectIf [Decidable bad] (holds : bad → throws error) :
    Meets kept (fun _ => ¬ bad) throws (rejectIf bad error : EStateM ε σ Unit) := by
  unfold General.rejectIf
  split
  next isBad => exact throw (holds isBad)
  next isGood => exact pure isGood

theorem bind {middle : α → Prop} {returns : β → Prop} {first : EStateM ε σ α} {next : α → EStateM ε σ β}
    (meets : Meets kept middle throws first) (goes : ∀ value, middle value → Meets kept returns throws (next value)) :
    Meets kept returns throws (first >>= next) := by
  intro state
  have here := meets state
  simp only [run, Bind.bind, EStateM.bind] at here ⊢
  cases run : first state with
  | error error final =>
    rw [run] at here
    exact here
  | ok value final =>
    rw [run] at here
    have there := goes value here.2 final
    simp only [EStateM.run] at there
    dsimp only at there ⊢
    generalize next value final = res at there ⊢
    cases res with
    | ok _ _ => exact ⟨there.1.trans here.1, there.2⟩
    | error _ _ => exact ⟨there.1.trans here.1, there.2⟩

variable {weaker : α → Prop}

variable (meets : Meets kept returns throws action)

include meets

/-- The rule of consequence. -/
theorem weaken {kept' : σ → μ} {looser : ε → Prop}
    (keeps : ∀ state final, kept final = kept state → kept' final = kept' state)
    (implies : ∀ value, returns value → weaker value) (loosens : ∀ error, throws error → looser error) :
    Meets kept' weaker looser action := by
  intro state
  have here := meets state
  cases run : action.run state with
  | ok value final =>
    rw [run] at here
    exact ⟨keeps state final here.1, implies value here.2⟩
  | error error final =>
    rw [run] at here
    exact ⟨keeps state final here.1, loosens error here.2⟩

theorem mono (implies : ∀ value, returns value → weaker value) :
    Meets kept weaker throws action := meets.weaken (fun _ _ same => same) implies fun _ thrown => thrown

theorem of_ok (run : action.run state = .ok value final) : kept final = kept state ∧ returns value := by
  have here := meets state
  rwa [run] at here

theorem of_error (run : action.run state = .error error final) : kept final = kept state ∧ throws error := by
  have here := meets state
  rwa [run] at here

end Meets

/-- Two computations that do the same from a state, up to what they return; what they keep of the state
if they return, of which they keep the first part in any case, and how they end otherwise. -/
def Alike (kept : σ → μ × κ) (related : α → β → Prop) (ends : ε → σ → Prop) (left : EStateM ε σ α)
    (right : EStateM ε σ β) (state : σ) : Prop :=
  match left.run state, right.run state with
  | .ok a final, .ok b final' => final = final' ∧ kept final = kept state ∧ related a b
  | .error error final, .error error' final' =>
    final = final' ∧ error = error' ∧ (kept final).1 = (kept state).1 ∧ ends error final
  | _, _ => False

namespace Alike

variable {γ δ : Type} {kept : σ → μ × κ} {related : α → β → Prop} {ends : ε → σ → Prop} {state : σ}
variable {left : EStateM ε σ α} {right : EStateM ε σ β}

theorem pure {a : α} {b : β} (holds : related a b) :
    Alike kept related ends (pure a : EStateM ε σ α) (pure b : EStateM ε σ β) state := ⟨rfl, rfl, holds⟩

theorem throw {error : ε} (holds : ends error state) :
    Alike kept related ends (throw error : EStateM ε σ α) (throw error : EStateM ε σ β) state := ⟨rfl, rfl, rfl, holds⟩

theorem of_meets {returns : α → Prop} {throws : ε → Prop} {action : EStateM ε σ α}
    (meets : Meets kept returns throws action) (implies : ∀ error final, throws error → ends error final) :
    Alike kept (fun a b => a = b) ends action action state := by
  have here := meets state
  unfold Alike
  cases run : action.run state with
  | ok value final =>
    rw [run] at here
    exact ⟨rfl, here.1, rfl⟩
  | error error final =>
    rw [run] at here
    exact ⟨rfl, rfl, congrArg Prod.fst here.1, implies error final here.2⟩

variable {next : α → EStateM ε σ γ} {later : γ → δ → Prop}

theorem bind {next' : β → EStateM ε σ δ} (alike : Alike kept related ends left right state)
    (goes : ∀ a b middle, kept middle = kept state → related a b → Alike kept later ends (next a) (next' b) middle) :
    Alike kept later ends (left >>= next) (right >>= next') state := by
  unfold Alike at alike ⊢
  simp only [run, Bind.bind, EStateM.bind] at alike ⊢
  generalize left state = here at alike ⊢
  generalize right state = there at alike ⊢
  cases here with
  | error error final =>
    cases there with
    | error error' final' => exact alike
    | ok b final' => exact alike.elim
  | ok a final =>
    cases there with
    | error error' final' => exact alike.elim
    | ok b final' =>
      obtain ⟨rfl, same, holds⟩ := alike
      have rest := goes a b final same holds
      unfold Alike at rest
      rw [same] at rest
      exact rest

/-- What both return alike is one thing for what follows. -/
theorem bind_eq {right : EStateM ε σ α} {next' : α → EStateM ε σ δ}
    (alike : Alike kept (fun a b => a = b) ends left right state)
    (goes : ∀ a middle, kept middle = kept state → Alike kept later ends (next a) (next' a) middle) :
    Alike kept later ends (left >>= next) (right >>= next') state :=
  alike.bind fun a _ middle same eq => eq ▸ goes a middle same

section

variable (alike : Alike kept related ends left right state)

include alike

theorem runs :
    (∃ a b final, left.run state = .ok a final ∧ right.run state = .ok b final ∧ kept final = kept state ∧
      related a b) ∨
      ∃ error final, left.run state = .error error final ∧ right.run state = .error error final ∧
        (kept final).1 = (kept state).1 ∧ ends error final := by
  unfold Alike at alike
  cases here : left.run state with
  | ok a final =>
    cases there : right.run state with
    | ok b final' =>
      rw [here, there] at alike
      obtain ⟨rfl, same, holds⟩ := alike
      exact .inl ⟨a, b, final, rfl, rfl, same, holds⟩
    | error error' final' =>
      rw [here, there] at alike
      exact alike.elim
  | error error final =>
    cases there : right.run state with
    | ok b final' =>
      rw [here, there] at alike
      exact alike.elim
    | error error' final' =>
      rw [here, there] at alike
      obtain ⟨rfl, rfl, holds⟩ := alike
      exact .inr ⟨error, final, rfl, rfl, holds⟩

/-- The rule of consequence. -/
theorem weaken {ν : Type} {kept' : σ → μ × ν} {weaker : α → β → Prop}
    (first : ∀ state, (kept' state).1 = (kept state).1)
    (implies : ∀ a b final, kept final = kept state → related a b → kept' final = kept' state ∧ weaker a b) :
    Alike kept' weaker ends left right state := by
  obtain ⟨a, b, final, here, there, same, holds⟩ | ⟨error, final, here, there, holds⟩ := alike.runs
  · unfold Alike
    rw [here, there]
    exact ⟨rfl, implies a b final same holds⟩
  · unfold Alike
    rw [here, there]
    exact ⟨rfl, rfl, (first final).trans (holds.1.trans (first state).symm), holds.2⟩

theorem forget : Alike (fun s => ((kept s).1, ())) related ends left right state :=
  alike.weaken (fun _ => rfl) fun _ _ _ same holds => ⟨by rw [same], holds⟩

end

theorem of_never (alike : Alike (fun s => ((kept s).1, ())) (fun _ _ => False) ends left right state) :
    Alike kept related ends left right state := alike.weaken (fun _ => rfl) fun _ _ _ _ returned => returned.elim

end Alike

/-- What holds whenever a computation returns from a state. -/
def Yields (state : σ) (post : α → σ → Prop) (action : EStateM ε σ α) : Prop :=
  ∀ value final, action.run state = .ok value final → post value final

namespace Yields

variable {state : σ} {post : α → σ → Prop}
variable {error : ε} {next : α → EStateM ε σ β} {outcome : Except ε α}

theorem pure {value : α} (holds : post value state) : Yields state post (pure value : EStateM ε σ α) := by
  intro _ _ run
  obtain ⟨rfl, rfl⟩ := run_pure_ok.mp run
  exact holds

theorem throw : Yields state post (throw error : EStateM ε σ α) := fun _ _ run => (run_throw_ne.mp run).elim

theorem bind {middle : α → σ → Prop} {post : β → σ → Prop} {first : EStateM ε σ α}
    (yields : Yields state middle first)
    (goes : ∀ value between, middle value between → Yields between post (next value)) :
    Yields state post (first >>= next) := by
  intro value final run
  obtain ⟨a, between, old, new⟩ := run_bind_ok.mp run
  exact goes a between (yields a between old) value final new

theorem rejectIf_bind {post : β → σ → Prop} [Decidable bad] {next : Unit → EStateM ε σ β}
    (goes : ¬ bad → Yields state post (next ())) : Yields state post (rejectIf bad error >>= next) := by
  intro value final run
  obtain ⟨good, run⟩ := run_rejectIf_bind_ok.mp run
  exact goes good value final run

theorem ofExcept_bind {post : β → σ → Prop} (goes : ∀ value, outcome = .ok value → Yields state post (next value)) :
    Yields state post (MonadExcept.ofExcept outcome >>= next) := by
  intro value final run
  obtain ⟨a, is, run⟩ := run_ofExcept_bind_ok.mp run
  exact goes a is value final run

theorem get_bind {post : β → σ → Prop} {next : σ → EStateM ε σ β} (goes : Yields state post (next state)) :
    Yields state post (get >>= next) := by
  intro value final run
  exact goes value final run

theorem modify {post : PUnit → σ → Prop} {change : σ → σ} (holds : post () (change state)) :
    Yields state post (modify change : EStateM ε σ PUnit) := by
  intro value final run
  obtain rfl := run_modify_ok.mp run
  exact holds

theorem mono {weaker : α → σ → Prop} {action : EStateM ε σ α} (yields : Yields state post action)
    (implies : ∀ value final, post value final → weaker value final) : Yields state weaker action :=
  fun value final run => implies value final (yields value final run)

theorem ofExcept (holds : ∀ value, outcome = .ok value → post value state) :
    Yields state post (MonadExcept.ofExcept outcome : EStateM ε σ α) := by
  intro value final run
  obtain ⟨is, rfl⟩ := run_ofExcept_ok.mp run
  exact holds value is

theorem ite [Decidable c] {left right : EStateM ε σ α} (yes : c → Yields state post left)
    (no : ¬ c → Yields state post right) : Yields state post (if c then left else right) := by
  split
  next holds => exact yes holds
  next fails => exact no fails

end Yields

/-- What holds after a computation from a state, if it returns and if it fails. -/
def Ensures (state : σ) (post : α → σ → Prop) (stopped : σ → Prop) (action : EStateM ε σ α) : Prop :=
  match action.run state with
  | .ok value final => post value final
  | .error _ final => stopped final

namespace Ensures

variable {state : σ} {post : α → σ → Prop} {stopped : σ → Prop}
variable {action : EStateM ε σ α} {change : σ → σ} {error : ε} {holds : σ → Prop} {middle : α → σ → Prop}
  {next : α → EStateM ε σ β} {value : α}

theorem pure (holds : post value state) : Ensures state post stopped (pure value : EStateM ε σ α) := holds

theorem throw (holds : stopped state) : Ensures state post stopped (throw error : EStateM ε σ α) := holds

theorem bind {post : β → σ → Prop} {first : EStateM ε σ α} (ensures : Ensures state middle stopped first)
    (goes : ∀ value between, middle value between → Ensures between post stopped (next value)) :
    Ensures state post stopped (first >>= next) := by
  unfold Ensures at ensures ⊢
  simp only [run, Bind.bind, EStateM.bind] at ensures ⊢
  cases run : first state with
  | ok value between =>
    rw [run] at ensures
    exact goes value between ensures
  | error error final =>
    rw [run] at ensures
    exact ensures

theorem check_bind {post : β → σ → Prop} [Decidable bad] {next : Unit → EStateM ε σ β}
    (fails : bad → stopped state) (goes : ¬ bad → Ensures state post stopped (next ())) :
    Ensures state post stopped (rejectIf bad error >>= next) := by
  have fine : Ensures state (fun _ final => final = state ∧ ¬ bad) stopped (rejectIf bad error : EStateM ε σ Unit) := by
    unfold General.rejectIf
    split
    next holds => exact throw (fails holds)
    next good => exact pure ⟨rfl, good⟩
  exact fine.bind fun _ _ passed => passed.1 ▸ goes passed.2

theorem rejectIf_bind {post : β → σ → Prop} [Decidable bad] {next : Unit → EStateM ε σ β}
    (holds : stopped state) (goes : ¬ bad → Ensures state post stopped (next ())) :
    Ensures state post stopped (rejectIf bad error >>= next) := check_bind (fun _ => holds) goes

theorem ofExcept_bind {post : β → σ → Prop} {outcome : Except ε α} (holds : stopped state)
    (goes : ∀ value, outcome = .ok value → Ensures state post stopped (next value)) :
    Ensures state post stopped (MonadExcept.ofExcept outcome >>= next) := by
  cases outcome with
  | ok value => exact goes value rfl
  | error error => exact holds

theorem get_bind {post : β → σ → Prop} {next : σ → EStateM ε σ β}
    (continues : Ensures state post stopped (next state)) :
    Ensures state post stopped (get >>= next) := continues

theorem set_bind {post : β → σ → Prop} {middle : σ} {next : PUnit → EStateM ε σ β}
    (continues : Ensures middle post stopped (next ())) : Ensures state post stopped (set middle >>= next) := continues

theorem modify_bind {post : β → σ → Prop} {next : PUnit → EStateM ε σ β}
    (continues : Ensures (change state) post stopped (next ())) : Ensures state post stopped (modify change >>= next) :=
  continues

theorem modify {post : PUnit → σ → Prop} (holds : post () (change state)) :
    Ensures state post stopped (modify change : EStateM ε σ PUnit) := holds

theorem mono {weaker : α → σ → Prop} {looser : σ → Prop} (ensures : Ensures state post stopped action)
    (implies : ∀ value final, post value final → weaker value final) (loosens : ∀ final, stopped final → looser final) :
    Ensures state weaker looser action := by
  unfold Ensures at ensures ⊢
  cases run : action.run state with
  | ok value final =>
    rw [run] at ensures
    exact implies value final ensures
  | error error final =>
    rw [run] at ensures
    exact loosens final ensures

theorem tryCatch {bad : σ → Prop} {handler : ε → EStateM ε σ α}
    (ensures : Ensures state middle bad action) (implies : ∀ value final, middle value final → post value final)
    (handles : ∀ error between, bad between → Ensures between post stopped (handler error)) :
    Ensures state post stopped (tryCatch action handler) := by
  unfold Ensures at ensures ⊢
  simp only [run, tryCatchThe, MonadExceptOf.tryCatch, MonadExcept.tryCatch, EStateM.tryCatch] at ensures ⊢
  cases run : action state with
  | ok value final =>
    rw [run] at ensures
    exact implies value final ensures
  | error error final =>
    rw [run] at ensures
    exact handles error final ensures

theorem of_ok (ensures : Ensures state post stopped action) {final : σ} (run : action.run state = .ok value final) :
    post value final := by
  unfold Ensures at ensures
  rwa [run] at ensures

theorem outcome (ensures : Ensures state post stopped action) :
    (∃ value, gives action state = .ok value ∧ post value (General.leaves action state)) ∨
      ∃ error, gives action state = .error error ∧ stopped (General.leaves action state) := by
  unfold Ensures at ensures
  unfold gives General.leaves
  cases run : action.run state with
  | ok value final =>
    rw [run] at ensures
    exact .inl ⟨value, rfl, ensures⟩
  | error error final =>
    rw [run] at ensures
    exact .inr ⟨error, rfl, ensures⟩

theorem ite [Decidable c] {left right : EStateM ε σ α} (yes : c → Ensures state post stopped left)
    (no : ¬ c → Ensures state post stopped right) : Ensures state post stopped (if c then left else right) := by
  split
  next holds => exact yes holds
  next fails => exact no fails

theorem leaves (ensures : Ensures state (fun _ => holds) holds action) : holds (leaves action state) := by
  obtain ⟨_, _, new⟩ | ⟨_, _, new⟩ := ensures.outcome
  · exact new
  · exact new

/-- A loop whose every turn keeps what holds. -/
theorem forM {items : List α} {action : α → EStateM ε σ PUnit} (initially : holds state)
    (kept : ∀ item ∈ items, ∀ before, holds before → Ensures before (fun _ => holds) holds (action item)) :
    Ensures state (fun _ => holds) holds (items.forM action) := by
  induction items generalizing state with
  | nil => exact initially
  | cons item rest ih =>
    refine (kept item (by simp) state initially).bind fun _ between held => ?_
    exact ih held fun item mem => kept item (by simp [mem])

end Ensures

end Shroot.General
