import Shroot.Semaphore.Statements

namespace Shroot.Semaphore

open General

section

variable {result : Except Stop Reply} {s s' : Session} {p : Pending} {object : ObjectId} {reply : Reply}

/-- The events that a call stands for when it succeeds. -/
def Pending.events (p : Pending) : List Event :=
  match p.request with
  | .semop object ops => ops.map (.operated p.owner p.space object)
  | .semctl object number (.setval _) => [.reset object number]
  | .semctl object _ (.setall _) => [.reset object (-1)]
  | _ => []

section

variable (p) (create exclusive : Bool) (key : Int) (kind : Kind) (mode : Nat)

theorem ipcGet_does : Does [] (ipcGet p kind key create exclusive) :=
  (Does.query _).bind fun _ => .rejectIf_bind fun _ => .rejectIf_bind fun _ => .pure _

theorem ipcCreate_does (info : Info) : Does [] (ipcCreate p kind key info) := by
  refine (Does.insert fun db db' put => ?_).bind fun _ => .get_bind fun _ => .rejectIf_bind fun _ =>
    Does.noteChange.bind fun _ => .pure _
  split at put
  · cases put
  · rw [← Option.some.inj put]
    exact insertObject_effect

theorem semGet_does (count : Int) : Does [] (semGet p key count create exclusive mode) := by
  refine .rejectIf_bind fun _ => (ipcGet_does p create exclusive key .sem).bind fun found => ?_
  cases found with
  | some object =>
    exact (Does.ipcLoad p .sem object).bind fun _ => .rejectIf_bind fun _ => (Does.permit _).bind fun _ => .pure _
  | none =>
    refine .rejectIf_bind fun _ => (ipcCreate_does p key .sem _).bind fun id =>
      (Does.forM fun i _ => ?_).bind fun _ => .pure _
    exact .insert fun _ _ put => insertSem_effect le_rfl (show (0 : Int) ≤ semvmx by decide) put

theorem msgGet_does : Does [] (msgGet p key create exclusive mode) := by
  refine (ipcGet_does p create exclusive key .msg).bind fun found => ?_
  cases found with
  | some object => exact (Does.ipcLoad p .msg object).bind fun _ => (Does.permit _).bind fun _ => .pure _
  | none => exact (ipcCreate_does p key .msg _).bind fun _ => .pure _

end

section

variable (p) (object) (number : Int) (st : Info)

theorem setValue_does (n : Nat) {val : Int} (process : Process) (low : 0 ≤ val) (high : val ≤ semvmx) :
    Does [] (setValue object n val process) :=
  (Does.execute fun _ => setSem_effect low high).bind fun _ => .noteChange

theorem setPerm_does (uid gid mode : Nat) : Does [] (setPerm p object st uid gid mode) := by
  refine Does.ask.bind fun _ => ?_
  split
  · exact .throw _
  · exact (Does.ipcSave object _).bind fun _ => .pure _

theorem getAll_does : Does [] (getAll object st) :=
  Does.ask.bind fun _ => (Does.mapM fun _ => .value object _).bind fun _ => Does.ask.bind fun _ => .pure _

theorem cleared_does (change : Info → Info) :
    Does [.reset object number] (do clearUndo object number; ipcSave object change; return Reply.value 0 :
      Statement Reply) :=
  (Does.execute fun _ => clearUndo_effect).bind_nil fun _ => (Does.ipcSave object change).bind fun _ => .pure _

theorem setAll_does (array : Nat → UInt16) : Does [.reset object (-1)] (setAll p object st array) := by
  refine Does.ask.bind fun _ => .rejectIf_bind fun sub => (Does.forM fun i mem => ?_).bind fun _ =>
    cleared_does object (-1) _
  push Not at sub
  exact setValue_does object i p.process (Int.natCast_nonneg _) (sub i (List.mem_range.mp mem))

theorem setVal_does (n : Nat) (val : Int) : Does [.reset object n] (setVal p object n val) := by
  refine .rejectIf_bind fun sub => ?_
  rw [not_or, not_lt, not_lt] at sub
  exact (setValue_does object n p.process sub.1 sub.2).bind fun _ => cleared_does object n _

theorem countWaiters_does (n : Nat) (zero : Bool) : Does [] (countWaiters object n zero) :=
  (Does.query _).bind fun _ => .pure _

theorem control_does {command : Command} (req : p.request = .semctl object number command) :
    Does p.events (control p object number command st) := by
  unfold Pending.events
  rw [req]
  cases command with
  | rmid => exact (Does.permit _).bind fun _ => (Does.ipcRemove object).bind fun _ => .pure _
  | set uid gid mode => exact (Does.permit _).bind fun _ => setPerm_does p object st uid gid mode
  | stat => exact (Does.permit _).bind fun _ => Does.ask.bind fun _ => .pure _
  | getall => exact (Does.permit _).bind fun _ => getAll_does object st
  | setall array => exact (Does.permit _).bind fun _ => setAll_does p object st array
  | getval => exact (Does.permit _).bind fun _ => .rejectIf_bind fun _ => (Does.value object _).bind fun _ => .pure _
  | getpid =>
    refine (Does.permit _).bind fun _ => .rejectIf_bind fun _ => (Does.value object _).bind fun row => ?_
    cases p.observer row.process with
    | ok pid => exact .pure _
    | error error => exact .throw _
  | setval val =>
    refine (Does.permit _).bind fun _ => .rejectIf_bind fun bound => ?_
    have does := setVal_does p object number.toNat val
    rwa [Int.toNat_of_nonneg (by omega)] at does
  | getncnt => exact (Does.permit _).bind fun _ => .rejectIf_bind fun _ => countWaiters_does object _ false
  | getzcnt => exact (Does.permit _).bind fun _ => .rejectIf_bind fun _ => countWaiters_does object _ true
  | other => exact (Does.permit _).bind fun _ => .rejectIf_bind fun _ => .throw _

end

/-- What a call does when it succeeds; a semaphore operation does its list one after the other. -/
structure Performed (p : Pending) (a b : Database) : Prop where
  effect : Effect p.events a b
  levels : ∀ object ops, p.request = .semop object ops →
    ops.foldlM SemBuf.apply (a.level object) = some (b.level object) ∧ ∀ o, o ≠ object → b.level o = a.level o

theorem perform_ok (sound : s.db.Sound) (run : (perform p).run s = .ok reply s') : Performed p s.db s'.db := by
  unfold perform at run
  split at run
  next key count create exclusive mode req =>
    refine ⟨?_, fun object ops other => by rw [req] at other; cases other⟩
    simpa [Pending.events, req] using semGet_does p create exclusive key mode count s s' reply run
  next object ops req =>
    obtain ⟨st, t, loaded, run⟩ := run_bind_ok.mp run
    obtain ⟨sem, same⟩ := loadFor_ok loaded
    rw [← same] at sem sound ⊢
    obtain ⟨effect, applied, others⟩ := operate_ok sound sem run
    refine ⟨by simpa [Pending.events, req] using effect, fun object' ops' same => ?_⟩
    rw [req] at same
    cases same
    exact ⟨applied, others⟩
  next object number command req =>
    obtain ⟨st, t, loaded, run⟩ := run_bind_ok.mp run
    rw [← (loadFor_ok loaded).2]
    exact ⟨control_does p object number st req t s' reply run, fun object ops other => by
      rw [req] at other; cases other⟩
  next key create exclusive mode req =>
    refine ⟨?_, fun object ops other => by rw [req] at other; cases other⟩
    simpa [Pending.events, req] using msgGet_does p create exclusive key mode s s' reply run
  next object req =>
    obtain ⟨st, t, loaded, run⟩ := run_bind_ok.mp run
    have removes : Does [] (do permit (permOwner p.identity st.perm); ipcRemove object; return Reply.value 0) :=
      (Does.permit _).bind fun _ => (Does.ipcRemove object).bind fun _ => .pure _
    refine ⟨?_, fun object ops other => by rw [req] at other; cases other⟩
    rw [← (loadFor_ok loaded).2]
    simpa [Pending.events, req] using removes t s' reply run

/-- The savepoint: a call that does not succeed leaves the database as it was. -/
theorem operation_ok (sound : s.db.Sound) (run : (operation p).run s = .ok result s') :
    (∀ reply, result = .ok reply → Performed p s.db s'.db) ∧ (∀ stop, result = .error stop → s'.db = s.db) := by
  obtain ⟨_, t, asked, run⟩ := run_bind_ok.mp run
  rw [run_get_bind] at run
  have same := ask_ok asked
  split at run
  next reply new done =>
    rw [run_set_bind] at run
    obtain ⟨_, t₁, released, run⟩ := run_bind_ok.mp run
    obtain ⟨rfl, rfl⟩ := run_pure_ok.mp run
    refine ⟨fun _ _ => ?_, nofun⟩
    rw [ask_ok released, ← same]
    exact perform_ok (same.symm ▸ sound) done
  next stop new bad =>
    rw [run_set_bind] at run
    obtain ⟨_, t₁, back, run⟩ := run_bind_ok.mp run
    obtain ⟨_, t₂, released, run⟩ := run_bind_ok.mp run
    obtain ⟨rfl, rfl⟩ := run_pure_ok.mp run
    refine ⟨nofun, fun _ _ => ?_⟩
    rw [ask_ok released, ask_ok back]
    exact same

section

variable {clock : Except Errno Int} {deadline : Option Int} {u : Unit}

/-- A change of the waiters alone. -/
structure Waits (a b : Database) : Prop where
  effect : Effect [] a b
  sems : b.sems = a.sems
  undo : b.undo = a.undo

theorem registerWait_ok {number : Nat} {zero : Bool} (run : (registerWait p object number zero).run s = .ok u s') :
    Waits s.db s'.db := by
  have put := insert_ok run
  exact ⟨putWaiter_effect put, (putWaiter_same put).1, (putWaiter_same put).2⟩

theorem unregister_ok (run : (unregister p).run s = .ok u s') : Waits s.db s'.db := by
  unfold unregister at run
  split at run
  · rw [execute_ok run]
    exact ⟨removeWaiters_effect, rfl, rfl⟩
  · obtain ⟨-, rfl⟩ := run_pure_ok.mp run
    exact ⟨.refl _, rfl, rfl⟩

theorem expire_ok (done : expire deadline clock result = .ok reply) : result = .ok reply := by
  unfold expire at done
  split at done
  · split at done
    · cases done
    · split at done
      · cases done
      · split at done <;> cases done
  · exact done

theorem expire_error {stop : Stop} (bad : expire deadline clock result = .error stop) :
    ∃ stop, result = .error stop := by
  cases result with
  | ok reply => cases bad
  | error stop => exact ⟨stop, rfl⟩

theorem turnBody_ok (sound : s.db.Sound) (run : (turnBody p clock).run s = .ok result s') :
    ∃ t : Session, Waits t.db s'.db ∧ (∀ reply, result = .ok reply → Performed p s.db t.db) ∧
      (∀ stop, result = .error stop → t.db = s.db) := by
  obtain ⟨inner, t, done, run⟩ := run_bind_ok.mp run
  obtain ⟨performed, undone⟩ := operation_ok sound done
  have rest : Waits t.db s'.db ∧ expire p.deadline clock inner = result := by
    dsimp only at run
    split at run
    next number zero expired =>
      obtain ⟨_, t₁, registered, run⟩ := run_bind_ok.mp run
      obtain ⟨rfl, rfl⟩ := run_pure_ok.mp run
      exact ⟨registerWait_ok registered, rfl⟩
    · obtain ⟨_, t₁, gone, run⟩ := run_bind_ok.mp run
      obtain ⟨rfl, rfl⟩ := run_pure_ok.mp run
      exact ⟨unregister_ok gone, rfl⟩
  refine ⟨t, rest.1, fun reply isOk => ?_, fun stop isError => ?_⟩
  · exact performed reply (expire_ok (rest.2.trans isOk))
  · obtain ⟨stop, bad⟩ := expire_error (rest.2.trans isError)
    exact undone stop bad

end

variable {α : Type} {out : Outside} {now : Int} {self : OwnerId} {db : Database}

/-- What the recovery of dead owners leaves, at the start of a transaction that goes on. -/
def recover (out : Outside) (now : Int) (self : OwnerId) (db : Database) : Option Session :=
  match (do ask; reap now self out.dead).run { db, answers := out.answers } with
  | .ok _ s => some s
  | .error _ _ => none

theorem recover_effect (back : recover out now self db = some s) :
    Effect ((reaped self out.dead db).map fun owner => .released owner 0) db s.db ∧
      ((∀ owner, owner ≠ self → out.dead owner ≠ .ok true) → s.db = db) := by
  unfold recover at back
  split at back
  next u t run =>
    cases back
    obtain ⟨_, t, asked, run⟩ := run_bind_ok.mp run
    have same : t.db = db := ask_ok asked
    rw [← same]
    exact reap_ok run
  · cases back

theorem transact_cases {body : Statement α} (outcome : Outcome α) (is : outcome = transact out now self db body) :
    (outcome.committed = none ∧ outcome.db = db ∧ ∃ stop, outcome.result = .error stop) ∨
      ∃ result t t', outcome.committed = some result ∧ recover out now self db = some t ∧ body.run t = .ok result t' ∧
        outcome.db = t'.db ∧
        (outcome.result = .ok result ∨ out.announced = false ∧ ∃ stop, outcome.result = .error stop) := by
  subst is
  unfold transact
  dsimp only
  split
  · exact .inl ⟨rfl, rfl, _, rfl⟩
  next result final run =>
    obtain ⟨_, t, asked, run⟩ := run_bind_ok.mp run
    obtain ⟨_, t₁, reaped, run⟩ := run_bind_ok.mp run
    obtain ⟨val, t₂, done, run⟩ := run_bind_ok.mp run
    obtain ⟨_, t₃, committed, run⟩ := run_bind_ok.mp run
    obtain ⟨rfl, rfl⟩ := run_pure_ok.mp run
    have begun : recover out now self db = some t₁ := by
      unfold recover
      rw [run_bind_ok.mpr ⟨_, t, asked, reaped⟩]
    refine .inr ⟨val, t₁, t₂, rfl, begun, done, ask_ok committed, ?_⟩
    by_cases told : t₃.changed ∧ ¬ out.announced
    · exact .inr ⟨by simpa using told.2, _, if_pos told⟩
    · exact .inl (if_neg told)

/-- A turn leaves nothing, or its call did or took back what it does after the recovery. -/
theorem turn_cases (sound : db.Sound) (outcome : Outcome (Except Stop Reply)) (is : outcome = turn p out db) :
    (outcome.committed = none ∧ outcome.db = db ∧ ∃ stop, outcome.result = .error stop) ∨
      ∃ result t middle, outcome.committed = some result ∧ recover out p.now p.owner db = some t ∧
        Waits middle outcome.db ∧ (∀ reply, result = .ok reply → Performed p t.db middle) ∧
          (∀ stop, result = .error stop → middle = t.db) ∧
        (outcome.result = .ok result ∨ out.announced = false ∧ ∃ stop, outcome.result = .error stop) := by
  unfold turn at is
  split at is
  · subst is
    exact .inl ⟨rfl, rfl, _, rfl⟩
  · obtain nothing | ⟨result, t, t', committed, back, run, same, told⟩ := transact_cases outcome is
    · exact .inl nothing
    · obtain ⟨middle, waits, performed, undone⟩ := turnBody_ok ((recover_effect back).1.sound sound) run
      exact .inr ⟨result, t, middle.db, committed, back, same ▸ waits, performed, undone, told⟩

end

open EStateM Database

variable {owner : OwnerId} {s : Session}

/-- The transactions of the supervisors of a store. Each holds the gate from its start to its end,
so that a history is a sequence of them. -/
inductive Op where
  | openStore (owner : OwnerId) (ns : Nat) (booted : Bool) (now : Int) (out : Outside)
  | turn (p : Pending) (out : Outside)
  | cancel (p : Pending) (out : Outside)
  | release (owner : OwnerId) (u : UndoSpace) (now : Int) (out : Outside)
  | close (owner : OwnerId) (now : Int) (out : Outside)

def step (db : Database) : Op → Database
  | .openStore owner ns booted now out => (openStore owner ns booted now out db).db
  | .turn p out => (turn p out db).db
  | .cancel p out => (cancel p out db).db
  | .release owner u now out => (undoRelease owner u now out db).db
  | .close owner now out => (close owner now out db).db

/-- The releases of the owners that a transaction found dead. -/
def recoveries (out : Outside) (self : OwnerId) (db : Database) : List Event :=
  (reaped self out.dead db).map fun owner => .released owner 0

def committedBy (db : Database) : Op → List Event
  | .openStore owner ns booted now out =>
    match (openStore owner ns booted now out db).committed with
    | none => []
    | some _ => if booted then [] else recoveries out owner db
  | .turn p out =>
    match (turn p out db).committed with
    | none => []
    | some (.error _) => recoveries out p.owner db
    | some (.ok _) => recoveries out p.owner db ++ p.events
  | .cancel p out =>
    match (cancel p out db).committed with
    | none => []
    | some _ => recoveries out p.owner db
  | .release owner u now out =>
    match (undoRelease owner u now out db).committed with
    | none => []
    | some _ => recoveries out owner db ++ [.released owner u.id]
  | .close owner now out =>
    match (close owner now out db).committed with
    | none => []
    | some _ => recoveries out owner db ++ [.released owner 0]

/-- The database and what was committed, after a history from an empty store. -/
def history (ops : List Op) : Database × List Event :=
  ops.foldl (fun (db, log) op => (step db op, log ++ committedBy db op)) ({}, [])

section

variable {db : Database}

theorem empty_sound : ({} : Database).Sound where
  range := nofun
  bounded := nofun
  backed := nofun

variable {ns : Nat} {dead : OwnerId → Except Errno Bool} {s' : Session} {u : Unit}

theorem admitOwner_ok {now : Int} (run : (admitOwner owner ns now dead).run s = .ok u s') :
    Effect ((reaped owner dead s.db).map fun owner => .released owner 0) s.db s'.db := by
  obtain ⟨_, t, gone, run⟩ := run_bind_ok.mp run
  obtain ⟨_, t₁, put, run⟩ := run_bind_ok.mp run
  rw [ask_ok run]
  refine (reap_ok gone).1.trans_nil ?_
  have put := insert_ok put
  split at put
  · cases put
  · rw [← Option.some.inj put]
    exact insertOwner_effect

variable {booted : Bool}

theorem openBody_ok {now : Int} (run : (openBody owner ns booted now dead).run s = .ok u s') :
    Effect (if booted then [] else (reaped owner dead s.db).map fun owner => .released owner 0) s.db s'.db := by
  obtain ⟨_, t, asked, run⟩ := run_bind_ok.mp run
  have same : t.db = s.db := ask_ok asked
  split at run
  next boot =>
    obtain ⟨_, t₁, first, run⟩ := run_bind_ok.mp run
    obtain ⟨_, t₂, two, run⟩ := run_bind_ok.mp run
    have cleared := execute_ok first
    have gone := execute_ok two
    rw [same] at cleared
    -- No row is left that refers to an object, so that the owners have nothing to undo.
    have nothing : ∀ row ∈ t₁.db.undo.rows, False := by
      intro row mem
      have there := t₁.db.undoObject row mem
      rw [cleared] at there
      simp [removeObjects, Table.find?_remove] at there
    have emptied : Effect [] s.db t₂.db := by
      rw [gone]
      refine .nil_trans ?_ (removeOwners_effect fun row mem => (nothing row mem).elim)
      rw [cleared]
      exact removeObjects_effect
    have rows : t₂.db.owners.rows = [] := by
      rw [gone]
      simp [removeOwners, Table.remove]
    have fine := admitOwner_ok run
    rw [reaped, rows] at fine
    simpa [boot] using emptied.nil_trans fine
  next boot =>
    rw [← same, if_neg boot]
    exact admitOwner_ok run

variable {out : Outside}

theorem openStore_effect {now : Int} :
    Effect (committedBy db (.openStore owner ns booted now out))
      db (step db (.openStore owner ns booted now out)) := by
  simp only [committedBy, step, openStore]
  cases run : (openBody owner ns booted now out.dead).run { db, answers := out.answers } with
  | error stop final => exact .refl db
  | ok u final => exact openBody_ok run

theorem turn_effect {p : Pending} (sound : db.Sound) :
    Effect (committedBy db (.turn p out)) db (step db (.turn p out)) := by
  simp only [committedBy, step]
  generalize is : turn p out db = outcome
  obtain ⟨none, same, -⟩ | ⟨res, t, mid, some, back, waits, performed, undone, -⟩ := turn_cases sound outcome is.symm
  · rw [none, same]
    exact .refl db
  · rw [some]
    have begun := (recover_effect back).1
    cases res with
    | error stop =>
      refine begun.trans_nil ?_
      rw [← undone stop rfl]
      exact waits.effect
    | ok reply => exact begun.trans ((performed reply rfl).effect.trans_nil waits.effect)

theorem transact_effect {now : Int} {self : OwnerId} {body : Statement Unit} {log : List Event} (does : Does log body) :
    Effect (match (transact out now self db body).committed with
      | none => []
      | some _ => recoveries out self db ++ log) db (transact out now self db body).db := by
  generalize is : transact out now self db body = outcome
  obtain ⟨none, same, -⟩ | ⟨res, t, t', some, back, run, same, -⟩ := transact_cases outcome is.symm
  · rw [none, same]
    exact .refl db
  · rw [some, same]
    exact (recover_effect back).1.trans (does t t' res run)

theorem step_effect (sound : db.Sound) (op : Op) : Effect (committedBy db op) db (step db op) := by
  cases op with
  | openStore owner ns booted now out => exact openStore_effect
  | turn p out => exact turn_effect sound
  | cancel p out =>
    have effect := @transact_effect db out p.now p.owner (unregister p) [] fun s s' u run => (unregister_ok run).effect
    simpa [committedBy, step, cancel] using effect
  | release owner u now out =>
    by_cases kept : u.refs ≠ 1 ∨ ¬ u.used
    · simp only [committedBy, step, undoRelease, if_pos kept]
      exact .refl db
    · simp only [committedBy, step, undoRelease, if_neg kept]
      exact transact_effect fun s s' _ run => (undoApply_ok run).effect
  | close owner now out => exact transact_effect fun s s' _ run => removeOwner_ok run

theorem history_effect (ops : List Op) : Effect (history ops).2 {} (history ops).1 := by
  induction ops using List.reverseRecOn with
  | nil => exact .refl _
  | append_singleton old op ih =>
    rw [history, List.foldl_append]
    exact ih.trans (step_effect (ih.sound empty_sound) op)

end

section

theorem query_run {α : Type} {read : Database → α} (quiet : s.answers = []) :
    (query read).run s = .ok (read s.db) s := by
  simp [query, ask, run, quiet, bind, EStateM.bind, get, getThe, MonadStateOf.get, EStateM.get, pure, EStateM.pure]

variable {write : Database → Database}

variable (quiet : s.answers = [])

include quiet

theorem execute_run : (execute write).run s = .ok () { s with db := write s.db } := by
  simp [execute, ask, run, quiet, bind, EStateM.bind, get, getThe, MonadStateOf.get, EStateM.get, pure,
    EStateM.pure, modify, modifyGet, MonadStateOf.modifyGet, EStateM.modifyGet]

theorem execute_noted_run :
    (do execute write; noteChange).run s = .ok () { s with db := write s.db, changed := true } :=
  run_bind_ok.mpr ⟨(), _, execute_run quiet, rfl⟩

theorem undoRow_succeeds {now : Int} {row : UndoRow} (has : s.db.Holds row.object row.n) :
    ∃ s', (undoRow now row).run s = .ok () s' ∧ s'.answers = [] ∧ ∀ o n, s.db.Holds o n → s'.db.Holds o n := by
  obtain ⟨isSem, there⟩ := has
  obtain ⟨sem, found⟩ := Option.isSome_iff_exists.mp there
  cases known : s.db.objects.find? row.object with
  | none => simp [known] at isSem
  | some object =>
    have kind : object.kind = .sem := by simpa [known] using isSem
    have read : (value row.object row.n).run s = .ok sem s := by
      refine run_bind_ok.mpr ⟨_, s, query_run quiet, ?_⟩
      rw [found]
      rfl
    let stored := s.db.setSem row.object row.n (clamp (sem.value + row.delta)) row.process
    refine ⟨{ s with db := stored.setInfo row.object fun info => { info with otime := now }, changed := true }, ?_,
      quiet,
      fun o n has => has.setSem.setInfo⟩
    refine run_bind_ok.mpr ⟨_, s, query_run quiet, ?_⟩
    rw [known]
    refine run_rejectIf_bind_ok.mpr ⟨by simp [kind], run_bind_ok.mpr ⟨sem, s, read, ?_⟩⟩
    exact run_bind_ok.mpr ⟨(), { s with db := stored, changed := true }, execute_noted_run quiet,
      execute_noted_run quiet⟩

/-- Nothing but the database itself keeps an undo from being applied. -/
theorem undoApply_succeeds {now : Int} {space : SpaceId} (sound : s.db.Sound) :
    ∃ s', (undoApply now owner space).run s = .ok () s' := by
  have loop : ∃ t, ((s.db.undoRows owner space).forM (undoRow now)).run s = .ok () t ∧
      t.answers = [] ∧ ∀ o n, s.db.Holds o n → t.db.Holds o n := by
    refine run_forM_succeeds (fun t : Session => t.answers = [] ∧ ∀ o n, s.db.Holds o n → t.db.Holds o n)
      ⟨quiet, fun _ _ held => held⟩ ?_
    rintro row mem old ⟨quiet, held⟩
    have backed := sound.backed row (List.mem_filter.mp ((List.mem_insertionSort _).mp mem)).1
    obtain ⟨new, run, still, kept⟩ := undoRow_succeeds quiet (held _ _ backed)
    exact ⟨new, run, still, fun o n has => kept o n (held o n has)⟩
  obtain ⟨t, looped, quiet', -⟩ := loop
  exact ⟨_, run_bind_ok.mpr ⟨_, s, query_run quiet, run_bind_ok.mpr ⟨(), t, looped, execute_run quiet'⟩⟩⟩

end

/-- For every history of transactions: the values and what is to be undone are within their
bounds; what is stored to be undone is what was committed and not ended since; a semaphore
operation that fails, or waits, leaves the values and the undo rows as they were or as the
recovery of dead owners left them, and one that succeeds does its list one after the other; an
undo adds each row's delta within the bounds and removes the rows it was asked to undo. -/
theorem semaphore_history (ops : List Op) : let db := (history ops).1
    (∀ row ∈ db.sems.rows, 0 ≤ row.value ∧ row.value ≤ semvmx) ∧ (∀ key : UndoKey, db.Has key.object →
        db.delta key = -(owed (history ops).2 key) ∧ -semaem ≤ db.delta key ∧ db.delta key ≤ semaem) ∧
      (∀ (p : Pending) (out : Outside) (object : ObjectId) (list : List SemBuf), p.request = .semop object list →
        let outcome := turn p out db
        (∀ reply, outcome.returned = .ok reply → ∃ before, recover out p.now p.owner db = some before ∧
          list.foldlM SemBuf.apply (before.db.level object) = some (outcome.db.level object) ∧
          (∀ other, other ≠ object → outcome.db.level other = before.db.level other)) ∧
        (∀ stop, outcome.returned = .error stop → out.announced = true → outcome.db.sems = db.sems ∧
          outcome.db.undo = db.undo ∨
            ∃ before, recover out p.now p.owner db = some before ∧ outcome.db.sems = before.db.sems ∧
              outcome.db.undo = before.db.undo ∧
                ((∀ owner, owner ≠ p.owner → out.dead owner ≠ .ok true) → before.db = db))) ∧
      (∀ (s : Session) (now : Int) (owner : OwnerId) (space : SpaceId), s.db = db →
        (s.answers = [] → ∃ s', (undoApply now owner space).run s = .ok () s') ∧
        ∀ s', (undoApply now owner space).run s = .ok () s' → s'.db.undo = db.undo.remove (UndoRow.isOf owner space) ∧
          s'.db.level = (db.undoRows owner space).foldl settle db.level) := by
  intro db
  have sound : db.Sound := (history_effect ops).sound empty_sound
  refine ⟨sound.range, fun key there => ?_, fun p out object list req => ?_, fun s now owner space same => ?_⟩
  · have books := (history_effect ops).books key there
    have sub : -semaem ≤ db.delta key ∧ db.delta key ≤ semaem := by
      unfold delta
      cases found : db.undo.find? key with
      | none => exact ⟨by decide, by decide⟩
      | some row => exact sound.bounded row (Table.find?_eq_some.mp found).1
    refine ⟨?_, sub⟩
    rw [owed, ← neg_eq_iff_eq_neg]
    exact books
  · intro outcome
    obtain ⟨-, same, stop, bad⟩ | ⟨res, t, mid, -, back, waits, performed, undone, told⟩ := turn_cases sound outcome rfl
    · refine ⟨fun reply ret => ?_, fun _ _ _ => .inl ⟨by rw [same], by rw [same]⟩⟩
      rw [Outcome.returned, bad] at ret
      cases ret
    · have level : outcome.db.level = mid.level := level_congr waits.sems
      refine ⟨fun reply ret => ⟨t, back, ?_⟩, fun stop ret announced => .inr ⟨t, back, ?_⟩⟩
      · obtain told | ⟨-, stop, told⟩ := told
        · have did : res = .ok reply := by simpa [Outcome.returned, told, Except.bind] using ret
          rw [level]
          exact (performed reply did).levels object list req
        · rw [Outcome.returned, told] at ret
          cases ret
      · obtain told | ⟨silent, -⟩ := told
        · have bad : res = .error stop := by simpa [Outcome.returned, told, Except.bind] using ret
          rw [waits.sems, waits.undo, undone stop bad]
          exact ⟨rfl, rfl, (recover_effect back).2⟩
        · rw [announced] at silent
          cases silent
  · rw [← same] at sound ⊢
    exact ⟨fun quiet => undoApply_succeeds quiet sound,
      fun s' run => ⟨(undoApply_ok run).undo, (undoApply_ok run).level⟩⟩

/-- Two supervisors of one store. The second makes a set, raises its semaphore by one to be undone,
and dies. -/
def crashed : List Op :=
  [.openStore 1 0 true 0 {}, .openStore 2 0 false 0 {},
    .turn { owner := 2, namespaceId := 0, request := .semget 7 1 true false 384 } {},
    .turn { owner := 2, namespaceId := 0, request := .semop 1 [{ num := 0, op := 1, undo := true }] } {}]

/-- The first then asks for five without waiting, and finds the other's lease free. -/
def impatient : Pending :=
  { owner := 1, namespaceId := 0, request := .semop 1 [{ num := 0, op := -5, nowait := true }] }

def lostLease : Outside := { dead := fun owner => .ok (owner = 2) }

/-- A semaphore operation that fails can leave other values and undo rows than it found: its
transaction recovers the dead owners first, and that is committed. -/
theorem recovery_outlives_failure :
    ¬ ∀ (ops : List Op) (p : Pending) (out : Outside) (object : ObjectId) (list : List SemBuf),
      p.request = .semop object list →
      out.announced = true → (∀ reply, (turn p out (history ops).1).returned ≠ .ok reply) →
      (turn p out (history ops).1).db.sems.rows = (history ops).1.sems.rows ∧
        (turn p out (history ops).1).db.undo.rows = (history ops).1.undo.rows := by
  intro same
  have bad : (turn impatient lostLease (history crashed).1).returned = .error (.errno .EAGAIN) := by rfl
  obtain ⟨sems, -⟩ := same crashed impatient lostLease 1 _ rfl rfl fun reply is => by rw [bad] at is; cases is
  exact absurd sems (by decide)

end Shroot.Semaphore
