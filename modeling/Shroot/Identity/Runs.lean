import Shroot.Identity.Steps

namespace Shroot

open General

variable {start : Identity} {next : Identity} {call : IdentityCall}

/-- What any exec does to the credentials. -/
structure Identity.ExecStep (v next : Identity) : Prop where
  nested : v.caps.Nested → next.caps.Nested
  bounding : next.caps.bounding = v.caps.bounding
  securebits : next.caps.securebits = v.caps.securebits &&& ~~~flag 32 secureKeepCaps
  noNewPrivs : next.noNewPrivs = v.noNewPrivs
  restricted : v.noNewPrivs = true → v.caps.Nested → next.uid.effective = v.uid.effective ∧
    next.gid.effective = v.gid.effective ∧
      Within next.caps.permitted v.caps.permitted

/-- The capability rules act on a candidate that so far differs only in its ids. -/
theorem execCapabilities_step {v candidate : Identity} {file : Option FileCapabilities} {secure : Bool}
    (run : execCapabilities v candidate file = .ok (next, secure)) (caps : candidate.caps = v.caps)
    (privs : candidate.noNewPrivs = v.noNewPrivs)
    (ids : v.noNewPrivs = true → candidate.uid.effective = v.uid.effective ∧
      candidate.gid.effective = v.gid.effective) :
    v.ExecStep next := by
  simp only [execCapabilities, failIf_bind_ok, pure_ok, Prod.mk.injEq] at run
  obtain ⟨_, rfl, _⟩ := run
  have ambientKept (condition : Bool) : Within (if condition then 0 else v.caps.ambient) v.caps.ambient := by
    cases condition
    · exact .refl _
    · exact .zero _
  refine ⟨fun nested => ⟨?_, ?_, ?_⟩, ?_, ?_, privs, fun set nested => ⟨(ids set).1, (ids set).2, ?_⟩⟩
  all_goals dsimp only; try rw [caps]
  · split
    · exact .refl _
    · exact (Within.refl _).or_right _
  · exact (Within.refl _).or_right _
  · exact (ambientKept _).trans nested.ambient_inheritable
  · rw [if_pos set]
    exact ((Within.refl _).and_right _).or ((ambientKept _).trans nested.ambient_permitted)

theorem setIdOnExec_caps (v : Identity) (image : ExecImage) (nosuid : Bool) :
    (setIdOnExec v image nosuid).caps = v.caps ∧ (setIdOnExec v image nosuid).noNewPrivs = v.noNewPrivs := by
  unfold setIdOnExec
  split <;> exact ⟨rfl, rfl⟩

theorem setIdOnExec_restricted {v : Identity} (set : v.noNewPrivs = true) (image : ExecImage) (nosuid : Bool) :
    setIdOnExec v image nosuid = v := by
  simp [setIdOnExec, set]

theorem identityPrepareExec_step {v : Identity} {image : Option ExecImage} {nosuid : Bool} {next : ExecIdentity}
    (run : identityPrepareExec v image nosuid = .ok next) : v.ExecStep next.value := by
  cases image with
  | none => cases run
  | some image =>
    simp only [identityPrepareExec, failIf_bind_ok] at run
    obtain ⟨⟨val, secure⟩, run, made⟩ := bind_ok.mp run.2
    rw [← pure_ok.mp made]
    obtain ⟨caps, privs⟩ := setIdOnExec_caps v image nosuid
    refine execCapabilities_step run caps privs fun set => ?_
    rw [setIdOnExec_restricted set]
    exact ⟨rfl, rfl⟩

theorem identityExec_step {v : Identity} (run : identityExec v = .ok next) : v.ExecStep next := by
  obtain ⟨⟨val, secure⟩, run, made⟩ := bind_ok.mp run
  rw [← pure_ok.mp made]
  exact execCapabilities_step run rfl rfl fun _ => ⟨rfl, rfl⟩

theorem IdentityCall.perform_exec {v : Identity} (run : call.perform v = .ok next) (exec : call.isExec = true) :
    v.ExecStep next := by
  cases call with
  | prepareExec image nosuid =>
    obtain ⟨val, made, rfl⟩ := map_ok run
    exact identityPrepareExec_step made
  | exec => exact identityExec_step run
  | _ => cases exec

theorem IdentityCall.perform_namespace {v : Identity} (run : call.perform v = .ok next)
    (changes : call.changesNamespace = true) :
    next.caps = (identityNew 0 0).caps ∧ next.noNewPrivs = v.noNewPrivs := by
  cases call with
  | enterUserNamespace birth =>
    obtain ⟨n, _, made⟩ := bind_ok.mp run
    rw [← pure_ok.mp made]
    exact ⟨rfl, rfl⟩
  | joinUserNamespace target =>
    simp only [perform, identityJoinUserNamespace, failIf_bind_ok, pure_ok] at run
    obtain ⟨_, _, rfl⟩ := run
    exact ⟨rfl, rfl⟩
  | _ => cases changes

/-- Every call is one of three kinds, a failed one being a plain step in place. -/
theorem IdentityCall.apply_cases (v : Identity) (call : IdentityCall) :
    v.PlainStep (apply v call) ∨ (call.isExec = true ∧ v.ExecStep (apply v call)) ∨
      (call.changesNamespace = true ∧ (apply v call).caps = (identityNew 0 0).caps ∧
        (apply v call).noNewPrivs = v.noNewPrivs) := by
  unfold apply
  cases made : call.perform v with
  | error _ => exact .inl (.refl v)
  | ok next =>
    by_cases exec : call.isExec = true
    · exact .inr (.inl ⟨exec, perform_exec made exec⟩)
    by_cases changes : call.changesNamespace = true
    · exact .inr (.inr ⟨changes, perform_namespace made changes⟩)
    · exact .inl (perform_plain made (by simpa using exec) (by simpa using changes))

theorem IdentityCall.apply_nested {v : Identity} (nested : v.caps.Nested) (call : IdentityCall) :
    (apply v call).caps.Nested := by
  rcases apply_cases v call with plain | ⟨_, exec⟩ | ⟨_, caps, _⟩
  · exact plain.caps.nested nested
  · exact exec.nested nested
  · rw [caps]
    exact identityNew_nested 0 0

theorem IdentityCall.apply_noNewPrivs {v : Identity} (set : v.noNewPrivs = true) (call : IdentityCall) :
    (apply v call).noNewPrivs = true := by
  rcases apply_cases v call with plain | ⟨_, exec⟩ | ⟨_, _, same⟩
  · exact plain.noNewPrivs set
  · exact exec.noNewPrivs.trans set
  · exact same.trans set

theorem IdentityCall.apply_bounding (v : Identity) (stays : call.changesNamespace = false) :
    Within (apply v call).caps.bounding v.caps.bounding := by
  rcases apply_cases v call with plain | ⟨_, exec⟩ | ⟨changes, _⟩
  · exact plain.caps.bounding
  · rw [exec.bounding]
    exact .refl _
  · exact absurd (stays.symm.trans changes) Bool.false_ne_true

/-- An invariant of single calls holds after a whole run. -/
theorem IdentityCall.run_induction {motive : Identity → Prop} (calls : List IdentityCall)
    (initial : motive start) (step : ∀ v, motive v → ∀ call ∈ calls, motive (apply v call)) :
    motive (run start calls) := by
  induction calls generalizing start with
  | nil => exact initial
  | cons call rest ih =>
    exact ih (step start initial call (by simp)) fun v held next mem => step v held next (by simp [mem])

/-- From a fresh identity on, whatever the calls and their outcomes: the sets
stay nested, and the bounding set only shrinks within one namespace. -/
theorem identityRun_caps_nested (uid gid : UInt32) (calls : List IdentityCall) :
    (IdentityCall.run (identityNew uid gid) calls).caps.Nested ∧
      ∀ before call after, calls = before ++ call :: after → call.changesNamespace = false →
        Within (IdentityCall.run (identityNew uid gid) (before ++ [call])).caps.bounding
          (IdentityCall.run (identityNew uid gid) before).caps.bounding := by
  refine ⟨IdentityCall.run_induction (motive := fun v => v.caps.Nested) calls (identityNew_nested uid gid)
    fun v nested call _ => IdentityCall.apply_nested nested call, fun before call after _ stays => ?_⟩
  rw [IdentityCall.run, List.foldl_append]
  exact IdentityCall.apply_bounding _ stays

theorem identityRun_caps_nested_capbset :
    Within (IdentityCall.run (identityNew 0 0) ([] ++ [.capPrctl prCapbsetDrop ⟨21, 0, 0, 0⟩])).caps.bounding
      (IdentityCall.run (identityNew 0 0) []).caps.bounding :=
  (identityRun_caps_nested 0 0 [.capPrctl prCapbsetDrop ⟨21, 0, 0, 0⟩]).2 [] _ [] rfl rfl

/-- Identities a task can come to hold: fresh ones, admitted snapshots, and
whatever calls make of them. -/
inductive IdentityObtained : Identity → Prop
  | new (uid gid : UInt32) : IdentityObtained (identityNew uid gid)
  | imported {s owner allocated v} : identitySnapshotImport s owner allocated = .ok v → IdentityObtained v
  | next {v} (call : IdentityCall) : IdentityObtained v → IdentityObtained (call.apply v)

theorem IdentityObtained.nested {v : Identity} (obtained : IdentityObtained v) : v.caps.Nested := by
  induction obtained with
  | new uid gid => exact identityNew_nested uid gid
  | imported fine =>
    simp only [identitySnapshotImport, failIf_bind_ok, not_or, not_not] at fine
    obtain ⟨⟨_, _, _, _, _, _, effective, ambient⟩, _, run⟩ := fine
    obtain ⟨groups, rfl⟩ := identityGroups_ok run
    exact ⟨effective, ambient.trans ((Within.refl _).and_left _), ambient.trans ((Within.refl _).and_right _)⟩
  | next call _ ih => exact IdentityCall.apply_nested ih call

theorem Identity.ExecStep.locks {v : Identity} (exec : v.ExecStep next) {lock : Nat}
    (mem : secureLocks.getLsbD lock = true) (set : v.caps.securebits.getLsbD lock = true) :
    next.caps.securebits.getLsbD lock = true ∧
      (next.caps.securebits.getLsbD (lock - 1) = v.caps.securebits.getLsbD (lock - 1) ∨
        lock = secureKeepCapsLocked ∧ next.caps.securebits.getLsbD (lock - 1) = false) := by
  rw [exec.securebits]
  have pos := (secureLocks_iff lock).mp mem
  have other : lock ≠ secureKeepCaps := by
    simp only [secureKeepCaps]
    omega
  refine ⟨(getLsbD_clear_flag _ other).trans set, ?_⟩
  by_cases keep : lock = secureKeepCapsLocked
  · exact .inr ⟨keep, by simp [keep, secureKeepCaps, secureKeepCapsLocked]⟩
  · refine .inl (getLsbD_clear_flag _ ?_)
    simp only [secureKeepCaps, secureKeepCapsLocked] at keep ⊢
    omega

/-- Privileges given up stay given up: `no_new_privs` over whole runs, and the
locked securebits at every call that stays in its namespace. -/
theorem identityRun_restrictions_kept (obtained : IdentityObtained start) (calls : List IdentityCall) :
    let v := IdentityCall.run start calls
    (start.noNewPrivs = true → v.noNewPrivs = true ∧
      ∀ image nosuid next, identityPrepareExec v image nosuid = .ok next →
        next.value.uid.effective = v.uid.effective ∧ next.value.gid.effective = v.gid.effective ∧
          Within next.value.caps.permitted v.caps.permitted) ∧
    ∀ call : IdentityCall, call.changesNamespace = false →
      ∀ lock, secureLocks.getLsbD lock = true → v.caps.securebits.getLsbD lock = true →
        (call.apply v).caps.securebits.getLsbD lock = true ∧
          ((call.apply v).caps.securebits.getLsbD (lock - 1) = v.caps.securebits.getLsbD (lock - 1) ∨
            call.isExec = true ∧ lock = secureKeepCapsLocked ∧
              (call.apply v).caps.securebits.getLsbD (lock - 1) = false) := by
  intro v
  have nested : v.caps.Nested :=
    IdentityCall.run_induction (motive := fun v => v.caps.Nested) calls obtained.nested
      fun _ nested call _ => IdentityCall.apply_nested nested call
  refine ⟨fun set => ?_, fun call stays lock mem held => ?_⟩
  · have still : v.noNewPrivs = true :=
      IdentityCall.run_induction (motive := fun v => v.noNewPrivs = true) calls set
        fun _ set call _ => IdentityCall.apply_noNewPrivs set call
    exact ⟨still, fun image nosuid next run => (identityPrepareExec_step run).restricted still nested⟩
  · rcases IdentityCall.apply_cases v call with plain | ⟨isExec, exec⟩ | ⟨changes, _⟩
    · exact ⟨(plain.caps.locks lock mem held).1, .inl (plain.caps.locks lock mem held).2⟩
    · exact ⟨(exec.locks mem held).1, (exec.locks mem held).2.imp_right fun keep => ⟨isExec, keep⟩⟩
    · exact absurd (stays.symm.trans changes) Bool.false_ne_true

/-- An identity that asked for no new privileges, and then to keep its capabilities and lock that. -/
def restrictedIdentity : Identity :=
  IdentityCall.run (IdentityCall.apply (identityNew 0 0) (.noNewPrivs 1)) [.capPrctl prSetSecurebits ⟨48, 0, 0, 0⟩]

def setuidImage : ExecImage := ⟨7, 7, 0x9ed, 0, 0, 0, false, false⟩

theorem identityRun_restrictions_kept_fresh :
    restrictedIdentity.caps.securebits.getLsbD secureKeepCapsLocked = true ∧
      (∃ next, identityPrepareExec restrictedIdentity (some setuidImage) false = .ok next ∧
        next.value.uid.effective = restrictedIdentity.uid.effective) ∧
      (IdentityCall.exec.apply restrictedIdentity).caps.securebits.getLsbD secureKeepCapsLocked = true := by
  have kept :=
    identityRun_restrictions_kept (.next (.noNewPrivs 1) (.new 0 0)) [.capPrctl prSetSecurebits ⟨48, 0, 0, 0⟩]
  refine ⟨by decide, ⟨_, rfl, ?_⟩, (kept.2 .exec rfl secureKeepCapsLocked (by decide) (by decide)).1⟩
  exact ((kept.1 rfl).2 (some setuidImage) false _ rfl).1

/-- A lock bit that is not set yet is no obstacle: a task with `CAP_SETPCAP`
sets it by `prctl`. -/
theorem setSecurebits_sets_lock :
    (identityNew 0 0).caps.securebits.getLsbD secureNorootLocked = false ∧
      (IdentityCall.apply (identityNew 0 0) (.capPrctl prSetSecurebits ⟨2, 0, 0, 0⟩)).caps.securebits.getLsbD
        secureNorootLocked = true := by
  decide

/-- The run so far only lowered the capabilities of `start`. -/
structure Identity.LoweredFrom (start v : Identity) : Prop where
  nested : v.caps.Nested
  permitted : Within v.caps.permitted start.caps.permitted

theorem Identity.LoweredFrom.incapable {v : Identity} (lowered : start.LoweredFrom v) {cap : Nat}
    (lacking : start.caps.permitted.getLsbD cap = false) : identityCapable v cap = false := by
  refine Bool.eq_false_iff.mpr fun capable => ?_
  have effective := (Bool.and_eq_true_iff.mp capable).2
  have permitted := lowered.permitted.mem (lowered.nested.effective.mem effective)
  exact Bool.false_ne_true (lacking.symm.trans permitted)

theorem IdentityCall.apply_plain (v : Identity) (noExec : call.isExec = false)
    (stays : call.changesNamespace = false) : v.PlainStep (apply v call) := by
  rcases apply_cases v call with plain | ⟨isExec, _⟩ | ⟨changes, _⟩
  · exact plain
  · exact absurd (noExec.symm.trans isExec) Bool.false_ne_true
  · exact absurd (stays.symm.trans changes) Bool.false_ne_true

/-- Without the capability in the permitted set, no sequence of calls short of
an exec or a change of namespace brings in an id not held at the start. -/
theorem identityRun_ids_among (obtained : IdentityObtained start) (calls : List IdentityCall)
    (plain : ∀ call ∈ calls, call.isExec = false ∧ call.changesNamespace = false) :
    (start.caps.permitted.getLsbD capSetuid = false → start.uid.Among (IdentityCall.run start calls).uid) ∧
      (start.caps.permitted.getLsbD capSetgid = false → start.gid.Among (IdentityCall.run start calls).gid) := by
  have held := IdentityCall.run_induction
    (motive := fun v => start.LoweredFrom v ∧ (start.caps.permitted.getLsbD capSetuid = false → start.uid.Among v.uid) ∧
      (start.caps.permitted.getLsbD capSetgid = false → start.gid.Among v.gid))
    calls ⟨⟨obtained.nested, .refl _⟩, fun _ => .refl _, fun _ => .refl _⟩ ?_
  · exact held.2
  · rintro v ⟨lowered, uid, gid⟩ call mem
    have step := IdentityCall.apply_plain v (plain call mem).1 (plain call mem).2
    refine ⟨⟨step.caps.nested lowered.nested, step.caps.permitted.trans lowered.permitted⟩, ?_, ?_⟩
    · exact fun lacking => (uid lacking).trans (step.uid (lowered.incapable lacking))
    · exact fun lacking => (gid lacking).trans (step.gid (lowered.incapable lacking))

/-- An identity whose three ids differ, and which has no capability left. -/
def droppedIdentity : Identity := IdentityCall.apply (identityNew 0 0) (.setresuid 1 2 3)

theorem identityRun_ids_among_setresuid :
    let moved := IdentityCall.run droppedIdentity [.setresuid 2 3 1, .setresuid 0 3 1, .setfsuid 1]
    moved.uid.effective = 3 ∧ moved.uid.fs = 1 ∧ droppedIdentity.uid.Among moved.uid :=
  ⟨rfl, rfl, (identityRun_ids_among (.next (.setresuid 1 2 3) (.new 0 0))
    [.setresuid 2 3 1, .setresuid 0 3 1, .setfsuid 1] (by decide)).1 (by decide)⟩

end Shroot
