import Shroot.General.Image
import Shroot.MountTopology.Forest

namespace Shroot.MountGraph

open General List

structure FdIdentity where
  device : UInt64 := 0
  inode : UInt64 := 0
  deriving DecidableEq, Inhabited

structure ProcfsPolicy where
  hidepid : UInt32 := 0
  pidonly : UInt32 := 0
  gid : UInt32 := 0
  pressure : UInt32 := 0
  deriving DecidableEq, Inhabited

def procfsPolicyValid (p : ProcfsPolicy) : Bool :=
  (p.hidepid ≤ 2 || p.hidepid == 4) && p.pidonly ≤ 1 && p.gid != 4294967295 && p.pressure ≤ 1

structure Entry where
  parent : UInt32 := 0
  flags : UInt32 := 0
  source : FdIdentity := {}
  target : FdIdentity := {}
  policy : FdIdentity := {}
  superPolicy : FdIdentity := {}
  storage : UInt32 := 0
  descriptor : UInt32 := 0
  generation : UInt64 := 0
  procNamespace : UInt64 := 0
  shared : UInt32 := 0
  master : UInt32 := 0
  unbindable : UInt32 := 0
  reserved : UInt32 := 0
  procPolicy : ProcfsPolicy := {}
  deriving DecidableEq, Inhabited

structure Storage where
  root : FdIdentity
  start : UInt32
  count : UInt32
  deriving Inhabited

structure Header where
  magic : UInt32
  version : UInt32
  count : UInt32 := 0
  storages : UInt32 := 0
  rootPolicy : FdIdentity := {}
  stream : FdIdentity
  pin : FdIdentity := {}
  revision : UInt64
  unavailable : UInt64 := 0
  baseSource : FdIdentity := {}
  baseTarget : FdIdentity := {}
  root : UInt32 := 0
  baseParent : UInt32 := 0
  baseFlags : UInt32 := 0
  baseDescriptor : UInt32 := 0
  shared : UInt32 := 0
  master : UInt32 := 0
  unbindable : UInt32 := 0
  reserved : UInt32 := 0
  deriving Inhabited

/-- A header together with the arrays its pointers name. -/
structure Manifest where
  header : Header
  entries : List Entry
  storage : List Storage
  deriving Inhabited

def magic : UInt32 := 0x4d444d47
def version : UInt32 := 17
def headerSize : Nat := 144
def entrySize : Nat := 128
def storageSize : Nat := 24

/-- `EOPNOTSUPP` as the host numbers it. -/
def unavailableCode : UInt64 := 95

def inodeCustodyFds : Nat := 514 + 33

def INODE : UInt32 := 1
def DETACHED : UInt32 := 2
def RETIRED : UInt32 := 4
def LOCKED : UInt32 := 8
def PROC : UInt32 := 16
def PARENTLESS : UInt32 := 32
def ROOT_PROVIDERS : UInt32 := 64
def HOST_SYSFS : UInt32 := 128
def HOST_DEVFS : UInt32 := 256
def HOST_DEVICES : UInt32 := 512
def HOST_PROCFS : UInt32 := 1024
def HOST_PROVIDERS : UInt32 := HOST_SYSFS ||| HOST_DEVFS ||| HOST_DEVICES ||| HOST_PROCFS

section

open Image

def fdIdentityImage : Image FdIdentity 16 :=
  record ⟨fun f => (f.device, f.inode), fun f => ⟨f.1, f.2⟩, fun _ => rfl, fun _ => rfl⟩ (pair uint64 uint64)

def procfsPolicyImage : Image ProcfsPolicy 16 :=
  record ⟨fun p => (p.hidepid, p.pidonly, p.gid, p.pressure), fun p => ⟨p.1, p.2.1, p.2.2.1, p.2.2.2⟩,
    fun _ => rfl, fun _ => rfl⟩ (pair uint32 (pair uint32 (pair uint32 uint32)))

def entryFields : Entry ≃ (UInt32 × UInt32) × (FdIdentity × FdIdentity × FdIdentity × FdIdentity) ×
    (UInt32 × UInt32) × (UInt64 × UInt64) × (UInt32 × UInt32 × UInt32 × UInt32) × ProcfsPolicy where
  toFun e := ((e.parent, e.flags), (e.source, e.target, e.policy, e.superPolicy), (e.storage, e.descriptor),
    (e.generation, e.procNamespace), (e.shared, e.master, e.unbindable, e.reserved), e.procPolicy)
  invFun := fun ((parent, flags), (source, target, policy, superPolicy), (storage, descriptor),
      (generation, procNamespace), (shared, master, unbindable, reserved), procPolicy) =>
    ⟨parent, flags, source, target, policy, superPolicy, storage, descriptor, generation, procNamespace,
      shared, master, unbindable, reserved, procPolicy⟩
  left_inv _ := rfl
  right_inv _ := rfl

def entryImage : Image Entry entrySize :=
  record entryFields (pair (pair uint32 uint32)
    (pair (pair fdIdentityImage (pair fdIdentityImage (pair fdIdentityImage fdIdentityImage)))
    (pair (pair uint32 uint32) (pair (pair uint64 uint64)
    (pair (pair uint32 (pair uint32 (pair uint32 uint32))) procfsPolicyImage)))))

def storageImage : Image Storage storageSize :=
  record ⟨fun s => (s.root, s.start, s.count), fun s => ⟨s.1, s.2.1, s.2.2⟩, fun _ => rfl, fun _ => rfl⟩
    (pair fdIdentityImage (pair uint32 uint32))

def headerFields : Header ≃ (UInt32 × UInt32 × UInt32 × UInt32) × FdIdentity × (FdIdentity × FdIdentity) ×
    (UInt64 × UInt64) × (FdIdentity × FdIdentity) × (UInt32 × UInt32 × UInt32 × UInt32) ×
    (UInt32 × UInt32 × UInt32 × UInt32) where
  toFun h := ((h.magic, h.version, h.count, h.storages), h.rootPolicy, (h.stream, h.pin),
    (h.revision, h.unavailable), (h.baseSource, h.baseTarget),
    (h.root, h.baseParent, h.baseFlags, h.baseDescriptor), (h.shared, h.master, h.unbindable, h.reserved))
  invFun := fun ((magic, version, count, storages), rootPolicy, (stream, pin), (revision, unavailable),
      (baseSource, baseTarget), (root, baseParent, baseFlags, baseDescriptor),
      (shared, master, unbindable, reserved)) =>
    ⟨magic, version, count, storages, rootPolicy, stream, pin, revision, unavailable, baseSource, baseTarget,
      root, baseParent, baseFlags, baseDescriptor, shared, master, unbindable, reserved⟩
  left_inv _ := rfl
  right_inv _ := rfl

def headerImage : Image Header headerSize :=
  record headerFields (pair (pair uint32 (pair uint32 (pair uint32 uint32)))
    (pair fdIdentityImage (pair (pair fdIdentityImage fdIdentityImage) (pair (pair uint64 uint64)
    (pair (pair fdIdentityImage fdIdentityImage) (pair (pair uint32 (pair uint32 (pair uint32 uint32)))
    (pair uint32 (pair uint32 (pair uint32 uint32)))))))))

end

variable (m : Manifest)

def Manifest.count : Nat := m.header.count.toNat

/-- `entries[i]`; the code reads only indices below `count`. -/
def Manifest.entry (i : Nat) : Entry := m.entries.getD i {}

def manifestSize (h : Header) : Nat := headerSize + h.count.toNat * entrySize + h.storages.toNat * storageSize

def manifestBytes : List UInt8 :=
  headerImage.encode m.header ++ entryImage.encodeAll m.entries ++ storageImage.encodeAll m.storage

def manifestSame (a b : Manifest) : Bool :=
  a.header.count == b.header.count && a.header.storages == b.header.storages
    && headerImage.encode a.header == headerImage.encode b.header
    && (a.header.count == 0 || entryImage.encodeAll a.entries == entryImage.encodeAll b.entries)
    && (a.header.storages == 0 || storageImage.encodeAll a.storage == storageImage.encodeAll b.storage)

/-- The propagation fields of the base mount and of every entry meet one rule. -/
def linksRejected (reserved unbindable shared master : UInt32) : Bool :=
  reserved != 0 || unbindable > 1 || (unbindable != 0 && (shared != 0 || master != 0))
    || (shared != 0 && shared == master)

/-- The parent array `topology` builds: node 0 is the base, node `i+1` the entry `i`. -/
def Manifest.parents : List Nat :=
  (if m.header.root ≠ 0 then m.header.baseParent.toNat + 1 else 0) ::
    (range m.count).map fun i =>
      if has (m.entry i).flags (RETIRED ||| PARENTLESS) ∨ m.header.root.toNat = i + 1 then 0
      else (m.entry i).parent.toNat + 1

def topology : Except Errno Unit := do
  let h := m.header
  failIf (linksRejected h.reserved h.unbindable h.shared h.master) .EPROTO
  failIf (h.root > h.count ∨ h.baseParent > h.count ∨
    has h.baseFlags (~~~(DETACHED ||| LOCKED ||| ROOT_PROVIDERS))) .EPROTO
  failIf (if h.root ≠ 0 then h.baseDescriptor = 0 ∨ h.baseParent = 0
    else h.baseParent ≠ 0 ∨ has h.baseFlags DETACHED) .EPROTO
  failIf (h.baseParent ≠ 0 ∧ has (m.entry (h.baseParent.toNat - 1)).flags RETIRED) .EPROTO
  failIf (h.root ≠ 0 ∧
    ((m.entry (h.root.toNat - 1)).parent ≠ 0 ∨ has (m.entry (h.root.toNat - 1)).flags (DETACHED ||| RETIRED))) .EPROTO
  failIf (∃ i ∈ range m.count, let e := m.entry i
    linksRejected e.reserved e.unbindable e.shared e.master ∨
    has e.flags PARENTLESS ∧ (e.parent ≠ 0 ∨ ¬ has e.flags DETACHED ∨ h.root.toNat = i + 1)) .EPROTO
  let _ ← mountTopologyOrder m.parents
  return ()

/-- Two attached entries, neither of them the root, in one place. -/
def samePlace (i j : Nat) : Bool :=
  let a := m.entry i
  let b := m.entry j
  !has a.flags DETACHED && !has b.flags DETACHED && m.header.root.toNat != i + 1 && m.header.root.toNat != j + 1
    && a.parent == b.parent && a.target == b.target

/-- The running totals of the entry loop. -/
structure Tally where
  owners : Nat
  next : Nat

/-- The descriptors an entry's rights take. -/
def entryRights (flags : UInt32) : Nat := 3 + if has flags HOST_PROVIDERS then 1 else 0

def typeBits (flags : UInt32) : UInt32 :=
  flags &&& (INODE ||| HOST_PROVIDERS ||| if has flags HOST_PROCFS then 0 else PROC)

def knownFlags : UInt32 :=
  INODE ||| DETACHED ||| RETIRED ||| LOCKED ||| PROC ||| PARENTLESS ||| ROOT_PROVIDERS ||| HOST_PROVIDERS

/-- The part of the entry checks that does not read the other entries. -/
def checkShape (e : Entry) : Except Errno Unit := do
  failIf (e.generation = 0 ∨ has e.flags (~~~knownFlags) ∨ e.storage ≠ 0 ∧ ¬ has e.flags INODE) .EPROTO
  failIf (has e.flags PROC ≠ (e.procNamespace != 0) ∨ e.flags &&& (INODE ||| PROC) = INODE ||| PROC) .EPROTO
  failIf (if has e.flags HOST_PROCFS then ¬ has e.flags PROC ∨ ¬ procfsPolicyValid e.procPolicy
    else e.procPolicy ≠ {}) .EPROTO
  failIf (typeBits e.flags ≠ 0 ∧ has (typeBits e.flags) (typeBits e.flags - 1)) .EPROTO

def checkEntry (tally : Tally) (i : Nat) : Except Errno Tally := do
  let e := m.entry i
  failIf (e.storage > m.header.storages ∨ e.storage.toNat > tally.owners + 1) .EPROTO
  checkShape e
  if has e.flags RETIRED then
    failIf (e ≠ { flags := DETACHED ||| RETIRED, generation := e.generation }) .EPROTO
    return tally
  failIf (e.descriptor.toNat ≠ tally.next) .EPROTO
  failIf (¬ has e.flags HOST_PROVIDERS ∧ e.superPolicy ≠ {}) .EPROTO
  failIf (e.parent ≠ 0 ∧ (e.parent > m.header.count ∨ has (m.entry (e.parent.toNat - 1)).flags RETIRED)) .EPROTO
  failIf (∃ j ∈ range i, samePlace m i j) .EPROTO
  return { owners := if e.storage.toNat = tally.owners + 1 then tally.owners + 1 else tally.owners
           next := tally.next + entryRights e.flags }

def checkStorage (next : Nat) (i : Nat) : Except Errno Nat := do
  let s := m.storage.getD i default
  failIf (s.start.toNat ≠ next ∨ s.count.toNat < 2 ∨ s.count.toNat > inodeCustodyFds) .EPROTO
  failIf (∃ j ∈ range i, s.root = (m.storage.getD j default).root) .EPROTO
  return next + s.count.toNat

/-- Where the entries' descriptors start. -/
def firstDescriptor (h : Header) : Nat := if h.baseDescriptor ≠ 0 then 5 else 3

/-- The checks `parse_manifest` makes on an available graph. -/
def checkGraph : Except Errno Unit := do
  let h := m.header
  failIf (if h.baseDescriptor ≠ 0 then h.baseDescriptor ≠ 3
    else h.baseSource ≠ {} ∨ h.baseTarget ≠ {}) .EPROTO
  let tally ← (range m.count).foldlM (checkEntry m) { owners := 0, next := firstDescriptor h }
  failIf (tally.owners ≠ h.storages.toNat) .EPROTO
  let _ ← (range tally.owners).foldlM (checkStorage m) tally.next
  match topology m with
  | .ok () => return ()
  | .error _ => throw .EPROTO

def parseManifest (bytes : List UInt8) : Except Errno Manifest := do
  failIf (bytes.length < headerSize) .EPROTO
  let h := headerImage.decode (bytes.take headerSize)
  failIf (h.magic ≠ magic ∨ h.version ≠ version ∨ h.storages > h.count ∨ h.count.toNat > fsMountsMax ∨
    manifestSize h ≠ bytes.length ∨ h.revision = 0) .EPROTO
  if h.unavailable ≠ 0 then
    let expected : Header :=
      { magic := magic, version := version, stream := h.stream, revision := h.revision
        unavailable := unavailableCode }
    failIf (bytes.length ≠ headerSize ∨ headerImage.encode h ≠ headerImage.encode expected) .EPROTO
    return { header := h, entries := [], storage := [] }
  let m : Manifest :=
    { header := h
      entries := entryImage.decodeAll h.count.toNat (bytes.drop headerSize)
      storage := storageImage.decodeAll h.storages.toNat (bytes.drop (headerSize + h.count.toNat * entrySize)) }
  checkGraph m
  return m

end Shroot.MountGraph
