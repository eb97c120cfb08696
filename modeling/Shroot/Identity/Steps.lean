import Shroot.Identity.Model

namespace Shroot

open General Prod

section

structure FileCapabilities where
  permitted : BitVec 64
  inheritable : BitVec 64
  rootid : UInt32
  present : Bool
  effective : Bool

/-- Logical owner, mode and capabilities of an admitted executable. -/
structure ExecImage where
  uid : UInt32
  gid : UInt32
  mode : BitVec 32
  capabilities : FileCapabilities

structure ExecIdentity where
  value : Identity
  secure : Bool

def modeIxoth : BitVec 32 := flag 32 0
def modeIxgrp : BitVec 32 := flag 32 3
def modeIxusr : BitVec 32 := flag 32 6
def modeIsgid : BitVec 32 := flag 32 10
def modeIsuid : BitVec 32 := flag 32 11

/-- Is the file's root id the root of the namespace or of one of its parents? -/
def rootOfSomeParent (rootid : UInt32) : UserNamespace → Bool
  | [] => userNamespaceFrom [] false rootid == 0
  | n :: parent => userNamespaceFrom (n :: parent) false rootid == 0 || rootOfSomeParent rootid parent

def fileCapabilitiesApply (id : Identity) (file : Option FileCapabilities) : Option FileCapabilities :=
  file.filter fun file => file.present && file.rootid != uint32Max && rootOfSomeParent file.rootid id.userNamespace

def execCapabilities (old next : Identity) (file : Option FileCapabilities) : Except Errno (Identity × Bool) := do
  let file := fileCapabilitiesApply next file
  let effective := file.any (·.effective)
  let permitted := match file with
    | some file => (next.caps.bounding &&& file.permitted) ||| (next.caps.inheritable &&& file.inheritable)
    | none => 0
  let permitted := permitted &&& capValid
  failIf (effective ∧ file.any fun file => ¬ Within (file.permitted &&& capValid) permitted) .EPERM
  let privileged := old.uid.effective != next.uid.effective || old.gid.effective != next.gid.effective
  let root := identityRoot next
  -- Root gains everything in its bounds, unless set-uid root meets file capabilities.
  let rooted := !next.caps.securebits.getLsbD secureNoroot &&
    !(file.isSome && next.uid.real != root && next.uid.effective == root)
  let permitted := if rooted && (next.uid.real == root || next.uid.effective == root) then
    next.caps.bounding ||| next.caps.inheritable else permitted
  let effective := effective || (rooted && next.uid.effective == root)
  let permitted := if old.noNewPrivs then permitted &&& old.caps.permitted else permitted
  let ambient := if privileged || file.isSome then 0 else next.caps.ambient
  let permitted := permitted ||| ambient
  let secure := next.uid.real != next.uid.effective || next.gid.real != next.gid.effective ||
    (next.uid.real != root && (effective || decide (¬ Within permitted ambient)))
  return ({ next with caps := { next.caps with
    permitted := permitted
    effective := if effective then permitted else ambient
    ambient := ambient
    securebits := next.caps.securebits &&& ~~~flag 32 secureKeepCaps } }, secure)

def identityFileCapable (id : Identity) (uid gid : UInt32) (cap : Nat) : Bool :=
  identityCapable id cap && userNamespaceFrom id.userNamespace false uid != uint32Max &&
    (cap == capFowner || userNamespaceFrom id.userNamespace true gid != uint32Max)

/-- The saved and filesystem ids follow the effective ones across an exec. -/
def settleIds (ids : IdentityIds) : IdentityIds := { ids with saved := ids.effective, fs := ids.effective }

variable (current : Identity)

/-- The set-id bits of an image, where they may act at all. -/
def setIdOnExec (image : ExecImage) (nosuid : Bool) : Identity :=
  if !current.noNewPrivs && !nosuid && userNamespaceFrom current.userNamespace false image.uid != uint32Max &&
      userNamespaceFrom current.userNamespace true image.gid != uint32Max then
    { current with
      uid := if image.mode &&& modeIsuid ≠ 0 then { current.uid with effective := image.uid } else current.uid
      gid := if image.mode &&& (modeIsgid ||| modeIxgrp) = modeIsgid ||| modeIxgrp then
          { current.gid with effective := image.gid }
        else current.gid }
  else current

def identityPrepareExec (image : Option ExecImage) (nosuid : Bool) : Except Errno ExecIdentity :=
  match image with
  | none => .error .EACCES
  | some image => do
    let permission := if current.uid.fs = image.uid then modeIxusr
      else if identityInGroup current image.gid then modeIxgrp else modeIxoth
    let permission := if identityFileCapable current image.uid image.gid capDacOverride then
      modeIxusr ||| modeIxgrp ||| modeIxoth else permission
    failIf (image.mode &&& permission = 0) .EACCES
    let next := setIdOnExec current image nosuid
    let next := { next with uid := settleIds next.uid, gid := settleIds next.gid }
    let (value, secure) ← execCapabilities current next (if nosuid then none else some image.capabilities)
    return { value := value, secure := secure }

/-- `image_identity_prepare` for an image nobody admitted: the current ids are
settled and `md_identity_exec` sees no file. -/
def identityExec : Except Errno Identity := do
  let (next, _) ← execCapabilities current
    { current with uid := settleIds current.uid, gid := settleIds current.gid } none
  return next

structure IdentitySnapshot where
  version : UInt32
  userNamespace : UInt64
  uid : IdentityIds
  gid : IdentityIds
  caps : Capabilities
  noNewPrivs : UInt32
  groups : List UInt32

def userNamespaceInode : UserNamespace → UInt64
  | [] => 1
  | n :: _ => n.page.inode

def idsMapped (ids : IdentityIds) : Bool :=
  ids.real != uint32Max && ids.effective != uint32Max && ids.saved != uint32Max && ids.fs != uint32Max

def identitySnapshotImport (s : IdentitySnapshot) (owner : UserNamespace) (allocated : Bool) : Except Errno Identity :=
  do
  let caps := s.caps
  failIf (s.version ≠ 1 ∨ s.groups.length > identityGroupsMax ∨ s.userNamespace ≠ userNamespaceInode owner ∨
    s.noNewPrivs > 1 ∨
    ¬ Within (caps.permitted ||| caps.effective ||| caps.inheritable ||| caps.bounding ||| caps.ambient) capValid ∨
    ¬ Within caps.securebits 255 ∨ ¬ Within caps.effective caps.permitted ∨
      ¬ Within caps.ambient (caps.permitted &&& caps.inheritable)) .EPROTO
  failIf (!idsMapped s.uid || !idsMapped s.gid) .EPROTO
  identityGroups
    { uid := s.uid, gid := s.gid, caps := caps, noNewPrivs := s.noNewPrivs != 0, groups := [], userNamespace := owner }
    s.groups allocated

/-- Every way a task's credentials change. `pages` is not a call of the task:
another writer publishes maps of the namespaces it lives in. -/
inductive IdentityCall where
  | setresuid (r e s : UInt32)
  | setreuid (r e : UInt32)
  | setuid (id : UInt32)
  | setfsuid (id : UInt32)
  | setresgid (r e s : UInt32)
  | setregid (r e : UInt32)
  | setgid (id : UInt32)
  | setfsgid (id : UInt32)
  | setgroups (ids : List UInt32) (allocated : Bool)
  | capset (permitted effective inheritable : BitVec 64)
  | capPrctl (op : Nat) (args : PrctlArgs)
  | noNewPrivs (enable : UInt32)
  | enterUserNamespace (birth : NamespaceBirth)
  | joinUserNamespace (target : UserNamespace)
  | prepareExec (image : Option ExecImage) (nosuid : Bool)
  | exec
  | pages (chain : UserNamespace)

namespace IdentityCall

variable (v : Identity)

def perform : IdentityCall → Except Errno Identity
  | setresuid r e s => identitySetresuid v r e s
  | setreuid r e => identitySetreuid v r e
  | setuid id => identitySetuid v id
  | setfsuid id => .ok (identitySetfsuid v id).2
  | setresgid r e s => identitySetresgid v r e s
  | setregid r e => identitySetregid v r e
  | setgid id => identitySetgid v id
  | setfsgid id => .ok (identitySetfsgid v id).2
  | setgroups ids allocated => identitySetgroups v ids allocated
  | capset p e i => identityCapset v p e i
  | capPrctl op args => (identityCapPrctl v op args).map (·.2)
  | noNewPrivs enable => identityNoNewPrivs v enable
  | enterUserNamespace birth => identityEnterUserNamespace v birth
  | joinUserNamespace target => identityJoinUserNamespace v target
  | prepareExec image nosuid => (identityPrepareExec v image nosuid).map (·.value)
  | exec => identityExec v
  | pages chain => .ok { v with userNamespace := chain }

/-- A failed call leaves the identity as it was. -/
def apply (call : IdentityCall) : Identity :=
  match call.perform v with
  | .ok next => next
  | .error _ => v

def run (calls : List IdentityCall) : Identity := calls.foldl apply v

def changesNamespace : IdentityCall → Bool
  | enterUserNamespace _ | joinUserNamespace _ => true
  | _ => false

def isExec : IdentityCall → Bool
  | prepareExec _ _ | exec => true
  | _ => false

end IdentityCall

/-- Effective below permitted, ambient below permitted and inheritable. -/
structure Capabilities.Nested (caps : Capabilities) : Prop where
  effective : Within caps.effective caps.permitted
  ambient_permitted : Within caps.ambient caps.permitted
  ambient_inheritable : Within caps.ambient caps.inheritable

theorem identityNew_nested (uid gid : UInt32) : (identityNew uid gid).caps.Nested := ⟨.refl _, .zero _, .zero _⟩

/-- A set lock bit stays, and so does the bit it locks, which is the one below. -/
def LocksKept (before after : BitVec 32) : Prop :=
  ∀ lock, secureLocks.getLsbD lock = true → before.getLsbD lock = true →
    after.getLsbD lock = true ∧ after.getLsbD (lock - 1) = before.getLsbD (lock - 1)

theorem LocksKept.refl (bits : BitVec 32) : LocksKept bits bits := fun _ _ set => ⟨set, rfl⟩

theorem secureLocks_iff (i : Nat) : secureLocks.getLsbD i = true ↔ i = 1 ∨ i = 3 ∨ i = 5 ∨ i = 7 := by
  simp only [secureLocks, BitVec.getLsbD_or, getLsbD_flag, secureNorootLocked, secureNoSetuidFixupLocked,
    secureKeepCapsLocked, secureNoCapAmbientRaiseLocked]
  grind

/-- What every call short of an exec or a change of namespace can do to the
capabilities: it never raises them and keeps what is locked. -/
structure Capabilities.Lowered (before after : Capabilities) : Prop where
  nested : before.Nested → after.Nested
  permitted : Within after.permitted before.permitted
  bounding : Within after.bounding before.bounding
  locks : LocksKept before.securebits after.securebits

theorem Capabilities.Lowered.refl (caps : Capabilities) : caps.Lowered caps := ⟨id, .refl _, .refl _, .refl _⟩

theorem LocksKept.trans {a b c : BitVec 32} (first : LocksKept a b) (two : LocksKept b c) : LocksKept a c := by
  intro lock mem set
  obtain ⟨kept, below⟩ := first lock mem set
  obtain ⟨kept', below'⟩ := two lock mem kept
  exact ⟨kept', below'.trans below⟩

theorem Capabilities.Lowered.trans {a b c : Capabilities} (first : a.Lowered b) (second : b.Lowered c) :
    a.Lowered c where
  nested start := second.nested (first.nested start)
  permitted := second.permitted.trans first.permitted
  bounding := second.bounding.trans first.bounding
  locks := first.locks.trans second.locks

theorem Capabilities.Lowered.ite {a b : Capabilities} {condition : Prop} [Decidable condition]
    (step : a.Lowered b) : a.Lowered (if condition then b else a) := by
  split
  · exact step
  · exact .refl a

variable {caps : Capabilities}

theorem Capabilities.Lowered.withEffective {effective : BitVec 64}
    (below : caps.Nested → Within effective caps.permitted) :
    caps.Lowered { caps with effective := effective } :=
  ⟨fun nested => ⟨below nested, nested.2, nested.3⟩, .refl _, .refl _, .refl _⟩

theorem Capabilities.Lowered.withAmbient {ambient : BitVec 64}
    (below : caps.Nested → Within ambient caps.permitted ∧ Within ambient caps.inheritable) :
    caps.Lowered { caps with ambient := ambient } :=
  ⟨fun nested => ⟨nested.1, (below nested).1, (below nested).2⟩, .refl _, .refl _, .refl _⟩

/-- A call on the capabilities alone. -/
structure Identity.OnlyLowered (v next : Identity) : Prop where
  caps : v.caps.Lowered next.caps
  uid : next.uid = v.uid
  gid : next.gid = v.gid
  noNewPrivs : next.noNewPrivs = v.noNewPrivs

variable (v : Identity) (old : IdentityIds)

theorem uidChanged_lowered : v.caps.Lowered (uidChanged v old).caps := by
  unfold uidChanged
  split
  · exact .refl _
  refine .trans (.ite ?_) (.trans (.ite ?_) (.trans (.ite ?_) (.trans (.ite ?_) (.ite ?_))))
  · refine ⟨fun _ => ⟨.zero _, .zero _, .zero _⟩, ?_, .refl _, .refl _⟩
    split
    · exact .refl _
    · exact .zero _
  · exact .withEffective fun _ => .zero _
  · exact .withEffective fun _ => .refl _
  · exact .withEffective fun nested => nested.effective.and_left _
  · exact .withEffective fun nested => nested.effective.or ((Within.refl _).and_left _)

theorem uidChanged_uid : (uidChanged v old).uid = v.uid := by
  unfold uidChanged
  split <;> rfl

theorem uidChanged_gid : (uidChanged v old).gid = v.gid := by
  unfold uidChanged
  split <;> rfl

theorem uidChanged_noNewPrivs : (uidChanged v old).noNewPrivs = v.noNewPrivs := by
  unfold uidChanged
  split <;> rfl

theorem identityCapset_lowered {v next : Identity} {p e i : BitVec 64} (run : identityCapset v p e i = .ok next) :
    v.OnlyLowered next := by
  simp only [identityCapset, failIf_bind_ok, pure_ok, not_or, not_not] at run
  obtain ⟨⟨permitted, effective, _⟩, rfl⟩ := run
  refine ⟨⟨fun _ => ⟨effective, ?_, ?_⟩, permitted, .refl _, .refl _⟩, rfl, rfl, rfl⟩
  · exact ((Within.refl p).and_left i).and_right _
  · exact ((Within.refl i).and_right p).and_right _

variable {result : Nat}

theorem setSecurebits_locks {v next : Identity} {a0 : BitVec 64} (run : setSecurebits v a0 = .ok (result, next)) :
    LocksKept v.caps.securebits next.caps.securebits := by
  simp only [setSecurebits, failIf_bind_ok, pure_ok, mk.injEq, not_not] at run
  obtain ⟨_, _, kept, differ, _, rfl⟩ := run
  intro lock mem set
  have bound : lock < 32 := BitVec.lt_of_getLsbD set
  have wide : lock < 64 := by omega
  have pos : ¬ lock < 1 := by rcases (secureLocks_iff lock).mp mem with rfl | rfl | rfl | rfl <;> omega
  have held : ((v.caps.securebits.setWidth 64) &&& secureLocks.setWidth 64).getLsbD lock = true := by
    simp [wide, set, mem]
  have stays := kept.mem held
  have bit := congrArg (·.getLsbD lock) differ
  simp only [BitVec.getLsbD_and, BitVec.getLsbD_shiftLeft, BitVec.getLsbD_xor, BitVec.getLsbD_setWidth, wide, pos,
    set, mem, show lock - 1 < 64 by omega, decide_true, Bool.true_and, Bool.and_true, decide_false,
    Bool.not_false] at bit
  refine ⟨by simpa [bound] using stays, ?_⟩
  have same : a0.getLsbD (lock - 1) = v.caps.securebits.getLsbD (lock - 1) :=
    (bne_eq_false_iff_eq.mp (bit.trans BitVec.getLsbD_zero)).symm
  simp only [BitVec.getLsbD_setWidth, same, show lock - 1 < 32 by omega, decide_true, Bool.true_and]

variable {a : PrctlArgs}

theorem capAmbientPrctl_lowered {v next : Identity} (run : capAmbientPrctl v a = .ok (result, next)) :
    v.OnlyLowered next := by
  simp only [capAmbientPrctl, failIf_bind_ok] at run
  obtain ⟨_, run⟩ := run
  split at run
  · simp only [failIf_bind_ok, pure_ok, mk.injEq] at run
    obtain ⟨_, _, rfl⟩ := run
    exact ⟨.withAmbient fun _ => ⟨.zero _, .zero _⟩, rfl, rfl, rfl⟩
  simp only [failIf_bind_ok] at run
  obtain ⟨bound, run⟩ := run
  split at run
  · obtain ⟨_, rfl⟩ := run
    exact ⟨.refl _, rfl, rfl, rfl⟩
  split at run
  · obtain ⟨_, rfl⟩ := run
    exact ⟨.withAmbient fun nested => ⟨nested.2.and_left _, nested.3.and_left _⟩, rfl, rfl, rfl⟩
  simp only [failIf_bind_ok, pure_ok, mk.injEq] at run
  obtain ⟨_, raised, _, rfl⟩ := run
  simp only [Bool.or_eq_true, not_or, BitVec.getLsbD_and, Bool.not_eq_true, Bool.not_eq_false', Bool.and_eq_true]
    at raised
  refine ⟨.withAmbient fun nested => ⟨nested.2.or ?_, nested.3.or ?_⟩, rfl, rfl, rfl⟩
  · refine within_iff.mpr fun i mem => ?_
    simp only [getLsbD_flag, Bool.and_eq_true, decide_eq_true_eq] at mem
    rw [mem.2]
    exact raised.1.1
  · refine within_iff.mpr fun i mem => ?_
    simp only [getLsbD_flag, Bool.and_eq_true, decide_eq_true_eq] at mem
    rw [mem.2]
    exact raised.1.2

theorem setKeepcaps_locks {bits next : BitVec 32} (unlocked : bits.getLsbD secureKeepCapsLocked = false)
    (same : ∀ i, i ≠ secureKeepCaps → next.getLsbD i = bits.getLsbD i) : LocksKept bits next := by
  intro lock mem set
  have notKeep : lock ≠ secureKeepCapsLocked := by
    rintro rfl
    exact Bool.false_ne_true (unlocked.symm.trans set)
  simp only [secureKeepCapsLocked, secureKeepCaps] at notKeep same
  rcases (secureLocks_iff lock).mp mem with rfl | rfl | rfl | rfl
  all_goals first | exact absurd rfl notKeep | exact ⟨(same _ (by omega)).trans set, same _ (by omega)⟩

theorem identityCapPrctl_lowered {v next : Identity} {op : Nat} (run : identityCapPrctl v op a = .ok (result, next)) :
    v.OnlyLowered next := by
  unfold identityCapPrctl at run
  split at run
  · obtain ⟨_, rfl⟩ := run
    exact ⟨.refl _, rfl, rfl, rfl⟩
  · simp only [failIf_bind_ok, pure_ok, mk.injEq, Bool.not_eq_true] at run
    obtain ⟨_, unlocked, _, rfl⟩ := run
    refine ⟨⟨fun nested => ⟨nested.1, nested.2, nested.3⟩, .refl _, .refl _,
      setKeepcaps_locks unlocked fun i other => ?_⟩, rfl, rfl, rfl⟩
    split
    · exact getLsbD_clear_flag _ other
    · rw [getLsbD_set_flag _ other, getLsbD_clear_flag _ other]
  · obtain ⟨_, rfl⟩ := run
    exact ⟨.refl _, rfl, rfl, rfl⟩
  · have locks := setSecurebits_locks run
    simp only [setSecurebits, failIf_bind_ok, pure_ok, mk.injEq] at run
    obtain ⟨_, _, _, _, _, rfl⟩ := run
    exact ⟨⟨fun nested => ⟨nested.1, nested.2, nested.3⟩, .refl _, .refl _, locks⟩, rfl, rfl, rfl⟩
  · simp only [failIf_bind_ok, pure_ok, mk.injEq] at run
    obtain ⟨_, _, rfl⟩ := run
    exact ⟨.refl _, rfl, rfl, rfl⟩
  · simp only [failIf_bind_ok, pure_ok, mk.injEq] at run
    obtain ⟨_, _, _, rfl⟩ := run
    exact ⟨⟨fun nested => ⟨nested.1, nested.2, nested.3⟩, Within.refl _, (Within.refl _).and_left _, LocksKept.refl _⟩,
      rfl, rfl, rfl⟩
  · exact capAmbientPrctl_lowered run
  · cases run

end

variable {e id r : UInt32} {ids next : IdentityIds} {v : Identity}

open General List Except

def IdentityIds.held (ids : IdentityIds) : List UInt32 := [ids.real, ids.effective, ids.saved, ids.fs]

/-- Every id now held was held before. -/
def IdentityIds.Among (before after : IdentityIds) : Prop := ∀ id ∈ after.held, id ∈ before.held

theorem IdentityIds.Among.refl (ids : IdentityIds) : ids.Among ids := fun _ mem => mem

theorem IdentityIds.Among.trans {a b c : IdentityIds} (first : a.Among b) (two : b.Among c) : a.Among c :=
  fun id mem => first id (two id mem)

theorem IdentityIds.among_iff {old new : IdentityIds} :
    old.Among new ↔ new.real ∈ old.held ∧ new.effective ∈ old.held ∧ new.saved ∈ old.held ∧ new.fs ∈ old.held := by
  simp [Among, held]

theorem existing_setIfGiven {old : UInt32} (known : existing ids id = true) (mem : old ∈ ids.held) :
    setIfGiven id old ∈ ids.held := by
  unfold setIfGiven
  split
  next given =>
    simp only [existing, Bool.or_eq_true, beq_iff_eq, given, false_or] at known
    simp only [IdentityIds.held, mem_cons]
    tauto
  · exact mem

theorem setres_among {s : UInt32} (run : setres ids false r e s = .ok next) : ids.Among next := by
  simp only [setres, failIf_bind_ok, pure_ok, Bool.not_false, Bool.true_and, Bool.or_eq_true, not_or,
    Bool.not_eq_true, Bool.not_eq_false'] at run
  obtain ⟨⟨⟨real, effective⟩, saved⟩, rfl⟩ := run
  have changed : setIfGiven e ids.effective ∈ ids.held := existing_setIfGiven effective (by simp [IdentityIds.held])
  exact IdentityIds.among_iff.mpr ⟨existing_setIfGiven real (by simp [IdentityIds.held]), changed,
    existing_setIfGiven saved (by simp [IdentityIds.held]), changed⟩

theorem setid_among (run : setid ids false id = .ok next) : ids.Among next := by
  simp only [setid, failIf_bind_ok, pure_ok, Bool.false_eq_true, if_false] at run
  obtain ⟨_, known, rfl⟩ := run
  have mem : id ∈ ids.held := by
    simp only [IdentityIds.held, mem_cons]
    tauto
  exact IdentityIds.among_iff.mpr ⟨by simp [IdentityIds.held], mem, by simp [IdentityIds.held], mem⟩

theorem setre_among (run : setre ids false r e = .ok next) : ids.Among next := by
  simp only [setre, failIf_bind_ok, pure_ok] at run
  obtain ⟨known, rfl⟩ := run
  simp only [Bool.not_false, Bool.true_and, Bool.or_eq_true, not_or, Bool.and_eq_true, bne_iff_ne, not_and,
    not_not, Bool.not_eq_true, Bool.not_eq_false', ne_eq] at known
  have real : setIfGiven r ids.real ∈ ids.held := by
    refine existing_setIfGiven ?_ (by simp [IdentityIds.held])
    simp only [existing, Bool.or_eq_true, beq_iff_eq]
    tauto
  have effective : setIfGiven e ids.effective ∈ ids.held := existing_setIfGiven known.2 (by simp [IdentityIds.held])
  refine IdentityIds.among_iff.mpr ⟨real, effective, ?_, effective⟩
  split
  · exact effective
  · simp [IdentityIds.held]

theorem setfs_among (ids : IdentityIds) (id : UInt32) : ids.Among (setfs ids false id).2 := by
  unfold setfs
  split
  next may =>
    have mem : id ∈ ids.held := by
      simp only [existing, Bool.or_eq_true, beq_iff_eq, Bool.false_eq_true, false_or] at may
      simp only [IdentityIds.held, mem_cons]
      tauto
    exact IdentityIds.among_iff.mpr ⟨by simp [IdentityIds.held], by simp [IdentityIds.held], by
      simp [IdentityIds.held], mem⟩
  · exact .refl ids

/-- Everything a call other than an exec or a change of namespace can do. -/
structure Identity.PlainStep (v next : Identity) : Prop where
  caps : v.caps.Lowered next.caps
  noNewPrivs : v.noNewPrivs = true → next.noNewPrivs = true
  uid : identityCapable v capSetuid = false → v.uid.Among next.uid
  gid : identityCapable v capSetgid = false → v.gid.Among next.gid

theorem Identity.PlainStep.refl (v : Identity) : v.PlainStep v := ⟨.refl _, id, fun _ => .refl _, fun _ => .refl _⟩

theorem Identity.OnlyLowered.plain {next : Identity} (only : v.OnlyLowered next) : v.PlainStep next :=
  ⟨only.caps, fun set => only.noNewPrivs.trans set, fun _ => only.uid ▸ .refl _, fun _ => only.gid ▸ .refl _⟩

theorem withUid_plain {uid : IdentityIds} (among : identityCapable v capSetuid = false → v.uid.Among uid) :
    v.PlainStep (withUid v uid) where
  caps := uidChanged_lowered { v with uid := uid } v.uid
  noNewPrivs set := (uidChanged_noNewPrivs _ _).trans set
  uid incapable := by
    rw [withUid, uidChanged_uid]
    exact among incapable
  gid _ := by
    rw [withUid, uidChanged_gid]
    exact .refl _

theorem withGid_plain {gid : IdentityIds} (among : identityCapable v capSetgid = false → v.gid.Among gid) :
    v.PlainStep { v with gid := gid } :=
  ⟨.refl _, id, fun _ => .refl _, among⟩

theorem identityGroups_ok {next : Identity} {ids : List UInt32} {allocated : Bool}
    (run : identityGroups v ids allocated = .ok next) : ∃ groups, next = { v with groups := groups } := by
  simp only [identityGroups, failIf_bind_ok, pure_ok] at run
  exact ⟨_, run.2.2.2.symm⟩

theorem IdentityCall.perform_plain {next : Identity} {call : IdentityCall} (run : call.perform v = .ok next)
    (noExec : call.isExec = false) (sameNamespace : call.changesNamespace = false) : v.PlainStep next := by
  cases call with
  | setresuid r e s =>
    obtain ⟨r', _, run⟩ := bind_ok.mp run
    obtain ⟨e', _, run⟩ := bind_ok.mp run
    obtain ⟨s', _, run⟩ := bind_ok.mp run
    obtain ⟨uid, set, run⟩ := bind_ok.mp run
    rw [← pure_ok.mp run]
    exact withUid_plain fun weak => setres_among (weak ▸ set)
  | setreuid r e =>
    obtain ⟨r', _, run⟩ := bind_ok.mp run
    obtain ⟨e', _, run⟩ := bind_ok.mp run
    obtain ⟨uid, set, run⟩ := bind_ok.mp run
    rw [← pure_ok.mp run]
    exact withUid_plain fun weak => setre_among (weak ▸ set)
  | setuid id =>
    obtain ⟨uid, set, run⟩ := bind_ok.mp run
    rw [← pure_ok.mp run]
    exact withUid_plain fun weak => setid_among (weak ▸ set)
  | setfsuid id =>
    rw [← ok.inj run]
    refine withUid_plain fun weak => ?_
    rw [weak]
    exact setfs_among _ _
  | setresgid r e s =>
    obtain ⟨r', _, run⟩ := bind_ok.mp run
    obtain ⟨e', _, run⟩ := bind_ok.mp run
    obtain ⟨s', _, run⟩ := bind_ok.mp run
    obtain ⟨gid, set, run⟩ := bind_ok.mp run
    rw [← pure_ok.mp run]
    exact withGid_plain fun weak => setres_among (weak ▸ set)
  | setregid r e =>
    obtain ⟨r', _, run⟩ := bind_ok.mp run
    obtain ⟨e', _, run⟩ := bind_ok.mp run
    obtain ⟨gid, set, run⟩ := bind_ok.mp run
    rw [← pure_ok.mp run]
    exact withGid_plain fun weak => setre_among (weak ▸ set)
  | setgid id =>
    obtain ⟨gid, set, run⟩ := bind_ok.mp run
    rw [← pure_ok.mp run]
    exact withGid_plain fun weak => setid_among (weak ▸ set)
  | setfsgid id =>
    rw [← ok.inj run]
    refine withGid_plain fun weak => ?_
    rw [weak]
    exact setfs_among _ _
  | setgroups ids allocated =>
    simp only [perform, identitySetgroups, failIf_bind_ok] at run
    obtain ⟨groups, rfl⟩ := identityGroups_ok run.2.2.2
    exact ⟨.refl _, id, fun _ => .refl _, fun _ => .refl _⟩
  | capset p e i => exact (identityCapset_lowered run).plain
  | capPrctl op args =>
    obtain ⟨⟨res, val⟩, made, rfl⟩ := map_ok run
    exact (identityCapPrctl_lowered made).plain
  | noNewPrivs enable =>
    simp only [perform, identityNoNewPrivs, failIf_bind_ok, pure_ok] at run
    obtain ⟨_, rfl⟩ := run
    exact ⟨.refl _, fun _ => rfl, fun _ => .refl _, fun _ => .refl _⟩
  | pages chain =>
    rw [← ok.inj run]
    exact ⟨.refl _, id, fun _ => .refl _, fun _ => .refl _⟩
  | enterUserNamespace birth => cases sameNamespace
  | joinUserNamespace target => cases sameNamespace
  | prepareExec image nosuid => cases noExec
  | exec => cases noExec

end Shroot
