import Shroot.General.Bits
import Shroot.UserNamespace.Model

namespace Shroot

open General

structure IdentityIds where
  real : UInt32
  effective : UInt32
  saved : UInt32
  fs : UInt32

structure Capabilities where
  permitted : BitVec 64
  effective : BitVec 64
  inheritable : BitVec 64
  bounding : BitVec 64
  ambient : BitVec 64
  securebits : BitVec 32

/-- Guest credentials. The supplementary groups are kept sorted. -/
structure Identity where
  uid : IdentityIds
  gid : IdentityIds
  caps : Capabilities
  noNewPrivs : Bool
  groups : List UInt32
  userNamespace : UserNamespace

def capChown : Nat := 0
def capDacOverride : Nat := 1
def capFowner : Nat := 3
def capFsetid : Nat := 4
def capSetpcap : Nat := 8
def capLast : Nat := 40
def capValid : BitVec 64 := flag 64 (capLast + 1) - 1

def secureNoroot : Nat := 0
def secureNorootLocked : Nat := 1
def secureNoSetuidFixup : Nat := 2
def secureNoSetuidFixupLocked : Nat := 3
def secureKeepCaps : Nat := 4
def secureKeepCapsLocked : Nat := 5
def secureNoCapAmbientRaise : Nat := 6
def secureNoCapAmbientRaiseLocked : Nat := 7

def secureLocks : BitVec 32 :=
  flag 32 secureNorootLocked ||| flag 32 secureNoSetuidFixupLocked ||| flag 32 secureKeepCapsLocked |||
    flag 32 secureNoCapAmbientRaiseLocked

def identityGroupsMax : Nat := 65536
def userOverflowId : UInt32 := 65534

def identityNew (uid gid : UInt32) : Identity :=
  { uid := ⟨uid, uid, uid, uid⟩
    gid := ⟨gid, gid, gid, gid⟩
    caps :=
      { permitted := if uid = 0 then capValid else 0
        effective := if uid = 0 then capValid else 0
        inheritable := 0
        bounding := capValid
        ambient := 0
        securebits := 0 }
    noNewPrivs := false
    groups := []
    userNamespace := [] }

variable (v : Identity)

def identityGroups (ids : List UInt32) (allocated : Bool) : Except Errno Identity := do
  failIf (ids.length > identityGroupsMax) .EINVAL
  failIf (uint32Max ∈ ids) .EINVAL
  failIf (ids ≠ [] ∧ ¬ allocated) .ENOMEM
  return { v with groups := ids.mergeSort }

def identityInGroup (gid : UInt32) : Bool := v.gid.fs == gid || v.groups.contains gid

def identityCapable (cap : Nat) : Bool := cap < 64 && v.caps.effective.getLsbD cap

def identityCapableIn (target : UserNamespace) (cap : Nat) : Bool :=
  userNamespaceCapable v.userNamespace v.uid.effective v.caps.effective target cap

def identityVisibleId (group : Bool) (id : UInt32) : UInt32 :=
  let mapped := userNamespaceFrom v.userNamespace group id
  if mapped = uint32Max then userOverflowId else mapped

def identityRoot : UInt32 := userNamespaceInto v.userNamespace false 0

def identitySetgroups (ids : List UInt32) (allocated : Bool) : Except Errno Identity := do
  failIf (!identityCapable v capSetgid || !userNamespaceMaySetgroups v.userNamespace) .EPERM
  failIf (ids.length > identityGroupsMax) .EINVAL
  let mapped := ids.map (userNamespaceInto v.userNamespace true)
  failIf (uint32Max ∈ mapped) .EINVAL
  identityGroups v mapped allocated

def identityEnterUserNamespace (birth : NamespaceBirth) : Except Errno Identity := do
  let n ← userNamespaceNew v.userNamespace v.uid.effective v.gid.effective (identityCapable v capSetfcap) birth
  return { v with userNamespace := n, caps := (identityNew 0 0).caps }

def identityJoinUserNamespace (target : UserNamespace) : Except Errno Identity := do
  failIf (userNamespaceSame v.userNamespace target) .EINVAL
  failIf (!identityCapableIn v target capSysAdmin) .EPERM
  return { v with userNamespace := target, caps := (identityNew 0 0).caps }

def filesystemCaps : BitVec 64 :=
  flag 64 capChown ||| flag 64 capDacOverride ||| flag 64 capFowner ||| flag 64 capFsetid

/-- Capabilities after the uids went from `old` to those of `v`. Each line is
one statement of the source, in its order. -/
def uidChanged (old : IdentityIds) : Identity :=
  if v.caps.securebits.getLsbD secureNoSetuidFixup then v
  else
    let root := identityRoot v
    let caps := v.caps
    let caps :=
      if (old.real = root ∨ old.effective = root ∨ old.saved = root) ∧ v.uid.real ≠ root ∧ v.uid.effective ≠ root ∧
        v.uid.saved ≠ root then
        { caps with
          permitted := if caps.securebits.getLsbD secureKeepCaps then caps.permitted else 0
          effective := 0
          ambient := 0 }
      else caps
    let caps := if old.effective = root ∧ v.uid.effective ≠ root then { caps with effective := 0 } else caps
    let caps := if old.effective ≠ root ∧ v.uid.effective = root then { caps with effective := caps.permitted }
      else caps
    let caps := if old.fs = root ∧ v.uid.fs ≠ root then { caps with effective := caps.effective &&& ~~~filesystemCaps }
      else caps
    let caps := if old.fs ≠ root ∧ v.uid.fs = root then
        { caps with effective := caps.effective ||| (caps.permitted &&& filesystemCaps) }
      else caps
    { v with caps := caps }

def identityCapset (permitted effective inheritable : BitVec 64) : Except Errno Identity := do
  let allowed := v.caps.inheritable ||| v.caps.permitted
  let allowed := if identityCapable v capSetpcap then allowed ||| v.caps.bounding else allowed
  failIf (¬ Within permitted v.caps.permitted ∨ ¬ Within effective permitted ∨ ¬ Within inheritable allowed ∨
    ¬ Within inheritable (v.caps.inheritable ||| v.caps.bounding)) .EPERM
  return { v with caps := { v.caps with
    permitted := permitted
    effective := effective
    inheritable := inheritable
    ambient := v.caps.ambient &&& (permitted &&& inheritable) } }

@[match_pattern] def prGetKeepcaps : Nat := 7
@[match_pattern] def prSetKeepcaps : Nat := 8
@[match_pattern] def prCapbsetRead : Nat := 23
@[match_pattern] def prCapbsetDrop : Nat := 24
@[match_pattern] def prGetSecurebits : Nat := 27
@[match_pattern] def prSetSecurebits : Nat := 28
@[match_pattern] def prCapAmbient : Nat := 47
def prCapAmbientIsSet : BitVec 64 := 1
def prCapAmbientRaise : BitVec 64 := 2
def prCapAmbientLower : BitVec 64 := 3
def prCapAmbientClearAll : BitVec 64 := 4

/-- The four arguments after the operation of a `prctl` call. -/
structure PrctlArgs where
  a0 : BitVec 64
  a1 : BitVec 64
  a2 : BitVec 64
  a3 : BitVec 64

def setSecurebits (a0 : BitVec 64) : Except Errno (Nat × Identity) := do
  let locks := secureLocks.setWidth 64
  let bits := v.caps.securebits.setWidth 64
  failIf (¬ Within a0 (locks ||| (locks >>> 1))) .EINVAL
  failIf (!identityCapable v capSetpcap) .EPERM
  failIf (¬ Within (bits &&& locks) a0) .EPERM
  failIf (((bits ^^^ a0) <<< 1) &&& bits &&& locks ≠ 0) .EPERM
  return (0, { v with caps := { v.caps with securebits := a0.setWidth 32 } })

def capAmbientPrctl (a : PrctlArgs) : Except Errno (Nat × Identity) := do
  failIf (a.a2 ≠ 0 ∨ a.a3 ≠ 0) .EINVAL
  if a.a0 = prCapAmbientClearAll then
    failIf (a.a1 ≠ 0) .EINVAL
    return (0, { v with caps := { v.caps with ambient := 0 } })
  failIf (a.a1.toNat > capLast) .EINVAL
  let cap := a.a1.toNat
  if a.a0 = prCapAmbientIsSet then
    return ((v.caps.ambient.getLsbD cap).toNat, v)
  if a.a0 = prCapAmbientLower then
    return (0, { v with caps := { v.caps with ambient := v.caps.ambient &&& ~~~flag 64 cap } })
  failIf (a.a0 ≠ prCapAmbientRaise) .EINVAL
  failIf (!(v.caps.permitted &&& v.caps.inheritable).getLsbD cap ||
    v.caps.securebits.getLsbD secureNoCapAmbientRaise) .EPERM
  return (0, { v with caps := { v.caps with ambient := v.caps.ambient ||| flag 64 cap } })

def identityCapPrctl (op : Nat) (a : PrctlArgs) : Except Errno (Nat × Identity) :=
  match op with
  | prGetKeepcaps => return ((v.caps.securebits.getLsbD secureKeepCaps).toNat, v)
  | prSetKeepcaps => do
    failIf (a.a0.toNat > 1) .EINVAL
    failIf (v.caps.securebits.getLsbD secureKeepCapsLocked) .EPERM
    let cleared := v.caps.securebits &&& ~~~flag 32 secureKeepCaps
    return (0, { v with caps := { v.caps with
      securebits := if a.a0 = 0 then cleared else cleared ||| flag 32 secureKeepCaps } })
  | prGetSecurebits => return (v.caps.securebits.toNat, v)
  | prSetSecurebits => setSecurebits v a.a0
  | prCapbsetRead => do
    failIf (a.a0.toNat > capLast) .EINVAL
    return ((v.caps.bounding.getLsbD a.a0.toNat).toNat, v)
  | prCapbsetDrop => do
    failIf (a.a0.toNat > capLast) .EINVAL
    failIf (!identityCapable v capSetpcap) .EPERM
    return (0, { v with caps := { v.caps with bounding := v.caps.bounding &&& ~~~flag 64 a.a0.toNat } })
  | prCapAmbient => capAmbientPrctl v a
  | _ => .error .EOPNOTSUPP

variable (ids : IdentityIds) (id : UInt32)

def existing : Bool := id == uint32Max || id == ids.real || id == ids.effective || id == ids.saved

/-- `map_optional`: the omitted id stays, any other one has to be mapped. -/
def mapOptional (group : Bool) (id : UInt32) : Except Errno UInt32 :=
  if id = uint32Max then .ok id
  else
    let mapped := userNamespaceInto v.userNamespace group id
    if mapped = uint32Max then .error .EINVAL else .ok mapped

def setIfGiven (id old : UInt32) : UInt32 := if id ≠ uint32Max then id else old

def setres (privileged : Bool) (r e s : UInt32) : Except Errno IdentityIds := do
  failIf (!privileged && (!existing ids r || !existing ids e || !existing ids s)) .EPERM
  let effective := setIfGiven e ids.effective
  return { real := setIfGiven r ids.real, effective := effective, saved := setIfGiven s ids.saved, fs := effective }

variable (root : Bool)

def setid (id : UInt32) : Except Errno IdentityIds := do
  failIf (id = uint32Max) .EINVAL
  if root then return ⟨id, id, id, id⟩
  failIf (id ≠ ids.real ∧ id ≠ ids.saved) .EPERM
  return { ids with effective := id, fs := id }

variable (r e : UInt32)

def setre : Except Errno IdentityIds := do
  failIf (!root && ((r != uint32Max && r != ids.real && r != ids.effective) || !existing ids e)) .EPERM
  let effective := setIfGiven e ids.effective
  let saved := if r ≠ uint32Max ∨ (e ≠ uint32Max ∧ e ≠ ids.real) then effective else ids.saved
  return { real := setIfGiven r ids.real, effective := effective, saved := saved, fs := effective }

/-- Returns the old filesystem id beside the new ids. -/
def setfs (id : UInt32) : UInt32 × IdentityIds :=
  (ids.fs, if id ≠ uint32Max ∧ (root ∨ existing ids id ∨ id = ids.fs) then { ids with fs := id } else ids)

def withUid (uid : IdentityIds) : Identity := uidChanged { v with uid := uid } v.uid

def identitySetresuid (r e s : UInt32) : Except Errno Identity := do
  let r ← mapOptional v false r
  let e ← mapOptional v false e
  let s ← mapOptional v false s
  return withUid v (← setres v.uid (identityCapable v capSetuid) r e s)

def identitySetresgid (r e s : UInt32) : Except Errno Identity := do
  let r ← mapOptional v true r
  let e ← mapOptional v true e
  let s ← mapOptional v true s
  return { v with gid := ← setres v.gid (identityCapable v capSetgid) r e s }

def identitySetuid : Except Errno Identity := do
  return withUid v (← setid v.uid (identityCapable v capSetuid) (userNamespaceInto v.userNamespace false id))

def identitySetgid : Except Errno Identity := do
  return { v with gid := ← setid v.gid (identityCapable v capSetgid) (userNamespaceInto v.userNamespace true id) }

def identitySetreuid : Except Errno Identity := do
  let r ← mapOptional v false r
  let e ← mapOptional v false e
  return withUid v (← setre v.uid (identityCapable v capSetuid) r e)

def identitySetregid : Except Errno Identity := do
  let r ← mapOptional v true r
  let e ← mapOptional v true e
  return { v with gid := ← setre v.gid (identityCapable v capSetgid) r e }

def identitySetfsuid : UInt32 × Identity :=
  let (result, uid) := setfs v.uid (identityCapable v capSetuid) (userNamespaceInto v.userNamespace false id)
  let next := withUid v uid
  (identityVisibleId next false result, next)

def identitySetfsgid : UInt32 × Identity :=
  let (result, gid) := setfs v.gid (identityCapable v capSetgid) (userNamespaceInto v.userNamespace true id)
  let next := { v with gid := gid }
  (identityVisibleId next true result, next)

def identityNoNewPrivs (enable : UInt32) : Except Errno Identity := do
  failIf (enable ≠ 1) .EINVAL
  return { v with noNewPrivs := true }

end Shroot
