import Shroot.MountGraph.Parse

namespace Shroot.MountGraph

open General UInt32

section

abbrev Fd := Nat

/-- A retained inode store. `scope` is the object the projection is rooted at; of the
supplementary sources only whether each of them is held matters here. -/
structure InodeLifetime where
  device : UInt64
  inode : UInt64
  scope : List UInt8
  ownerDepth : Nat
  scopeLease : Bool
  overlayIdentity : Bool
  sources : List Bool
  ownerDepth_le : ownerDepth ≤ 33
  sources_length : sources.length = 255

def InodeLifetime.root (owner : InodeLifetime) : FdIdentity := ⟨owner.device, owner.inode⟩

def inodeLifetimeSame (a b : InodeLifetime) : Bool := a.device == b.device && a.inode == b.inode && a.scope == b.scope

/-- The number of descriptors that carry a store to another process. -/
def inodeCustodyRights (owner : InodeLifetime) : Nat :=
  2 + owner.ownerDepth + owner.scopeLease.toNat + owner.overlayIdentity.toNat + 2 * owner.sources.count true

/-- The mount a pointer names. -/
inductive MountRef where
  | null
  | base
  | slot (index : Nat)
  deriving DecidableEq

inductive Backing where
  | native | inode | proc | devpts | cgroup | sysfs | mqueue | provider
  deriving DecidableEq

/-- The operations a provider tree was made with. A tree is only made for a valid procfs policy. -/
inductive ProviderKind where
  | sysfs | devfs | devices
  | procfs (policy : {policy : ProcfsPolicy // procfsPolicyValid policy})
  | other

structure Provider where
  kind : ProviderKind
  root : Fd

def hostFsKind (provider : Provider) : Bool :=
  match provider.kind with
  | .sysfs | .devfs | .devices => true
  | .procfs _ | .other => false

def procfsExport (provider : Provider) : Option ProcfsPolicy :=
  match provider.kind with
  | .procfs policy => some policy.val
  | _ => none

/-- Group ids, zero for none. -/
structure MountLinks where
  shared : UInt32
  master : UInt32
  unbindable : UInt32

/-- A mount in use. The presence of the process-local owners is all that is read of them. -/
structure ViewMount where
  generation : UInt64
  parent : MountRef
  backing : Backing
  storage : Option InodeLifetime
  pidNamespace : Option {inode : UInt64 // inode ≠ 0}
  provider : Option Provider
  devpts : Bool
  cgroup : Bool
  sysfs : Bool
  ipcNamespace : Bool
  file : Bool
  source : Fd
  target : Fd
  native : FdIdentity
  guest : FdIdentity
  links : MountLinks
  detached : Bool
  locked : Bool
  rootProviders : Bool
  /-- Host projections are only mounted as providers. -/
  host_backing : ∀ tree ∈ provider, hostFsKind tree → backing = .provider

/-- A slot of a layout. Retirement keeps the generation and nothing else. -/
inductive Slot where
  | retired (generation : UInt64)
  | live (mount : ViewMount)

/-- The base mount has an inode store behind it and no provider. `source` is absent until
the namespace root has moved away from it. -/
structure BaseMount where
  parent : MountRef
  source : Option Fd
  target : Fd
  native : FdIdentity
  guest : FdIdentity
  links : MountLinks
  detached : Bool
  locked : Bool
  rootProviders : Bool

structure MountLayout where
  base : BaseMount
  root : MountRef
  entries : List Slot

/-- What the view's graph contributes. -/
structure GraphState where
  identity : FdIdentity
  revision : UInt64
  pin : Fd

structure OpenMode where
  path : Bool
  readOnly : Bool

structure Stat where
  identity : FdIdentity
  directory : Bool

/-- The answers of the calls `describe` makes. The descriptor of a policy belongs to the policy, which makes it when it
is first shared, and not to the call. -/
structure Kernel where
  allocated : Bool
  statusFlags : Fd → Except Errno OpenMode
  fstat : Fd → Except Errno Stat
  temporaryDirectoryCheck : Fd → Except Errno Unit
  providerTreePrivate : MountRef → Fd → Bool
  mountPolicyShare : MountRef → Except Errno Fd
  superPolicyShare : Nat → Except Errno Fd

variable (k : Kernel)

def pathObject (fd : Fd) (expected : FdIdentity) (directory : Bool) : Except Errno Unit := do
  let mode ← k.statusFlags fd
  failIf (¬ mode.path) .EPROTO
  let stat ← k.fstat fd
  failIf (directory ∧ ¬ stat.directory) .EPROTO
  failIf (stat.identity ≠ expected) .EPROTO

def sourceObject (fd : Fd) (expected : FdIdentity) (flags : UInt32) : Except Errno Unit :=
  if has flags HOST_PROVIDERS then do
    let mode ← k.statusFlags fd
    failIf (mode.path ∨ ¬ mode.readOnly) .EPROTO
    let stat ← k.fstat fd
    failIf (stat.identity ≠ expected) .EPROTO
    k.temporaryDirectoryCheck fd
  else pathObject k fd expected false

/-- `none` stands for `-ESTALE`. -/
def viewMountSlot (m : MountRef) (count : Nat) : Option Nat :=
  match m with
  | .null | .base => some 0
  | .slot index => if index < count then some (index + 1) else none

def mountPortable (m : ViewMount) : Bool :=
  !(m.devpts || m.cgroup || m.sysfs || m.ipcNamespace || m.file) &&
  match m.provider with
  | none => true
  | some tree =>
    (hostFsKind tree || (m.backing == .proc && (procfsExport tree).isSome)) &&
    match k.fstat tree.root with
    | .error _ => false
    | .ok stat => m.native == stat.identity

variable (l : MountLayout)

def slotProvider (slot : Nat) : Option Provider :=
  match slot with
  | 0 => none
  | index + 1 =>
    match l.entries[index]? with
    | some (.live m) => m.provider
    | _ => none

/-- The attachment point of a mount can travel. -/
def parentPortable (parent : MountRef) (target : Fd) : Bool :=
  parent == .null ||
  match viewMountSlot parent l.entries.length with
  | none => false
  | some slot => (slotProvider l slot).isNone || k.providerTreePrivate parent target

def layoutPortable : Bool :=
  parentPortable k l l.base.parent l.base.target &&
  l.entries.all fun slot =>
    match slot with
    | .retired _ => true
    | .live m => mountPortable k m && parentPortable k l m.parent m.target

def Slot.storage : Slot → Option InodeLifetime
  | .retired _ => none
  | .live m => m.storage

def addStore (owners : List InodeLifetime) (slot : Slot) : List InodeLifetime :=
  match slot.storage with
  | none => owners
  | some owner => if owners.any (inodeLifetimeSame owner) then owners else owners ++ [owner]

/-- The distinct owners of the slots, in the order of their first use. -/
def stores (slots : List Slot) : List InodeLifetime := slots.foldl addStore []

def Slot.rights : Slot → Nat
  | .retired _ => 0
  | .live m => 3 + m.provider.isSome.toNat

def describeStorage : Nat → List InodeLifetime → List Storage
  | _, [] => []
  | next, owner :: rest =>
    { root := owner.root, start := ofNat next, count := ofNat (inodeCustodyRights owner) } ::
      describeStorage (next + inodeCustodyRights owner) rest

def flagIf (condition : Bool) (flag : UInt32) : UInt32 := if condition then flag else 0

def providerFlag (provider : Option Provider) : UInt32 :=
  match provider with
  | none => 0
  | some tree =>
    match tree.kind with
    | .procfs _ => HOST_PROCFS
    | .sysfs => HOST_SYSFS
    | .devices => HOST_DEVICES
    | .devfs | .other => HOST_DEVFS

def mountFlags (i : Nat) (m : ViewMount) : UInt32 :=
  flagIf (m.backing == .inode) INODE ||| flagIf m.detached DETACHED ||| flagIf m.locked LOCKED
    ||| flagIf m.rootProviders ROOT_PROVIDERS ||| providerFlag m.provider
    ||| flagIf (m.parent == .null && l.root != .slot i) PARENTLESS ||| flagIf (m.backing == .proc) PROC

def pidNamespaceInode (space : Option {inode : UInt64 // inode ≠ 0}) : UInt64 :=
  match space with
  | some inode => inode.val
  | none => 0xeffffffc

/-- The state of the entry loop: the next descriptor, the entries so far and the placement
descriptors from position 1 on. -/
structure Description where
  next : Nat
  entries : List Entry
  fds : List Fd

def parentIndex (parent : MountRef) : Except Errno Nat :=
  match parent with
  | .null | .base => .ok 0
  | .slot index =>
    match l.entries[index]? with
    | some (.live _) => .ok (index + 1)
    | _ => .error .EINVAL

def storageIndex (owners : List InodeLifetime) (m : ViewMount) : Except Errno Nat :=
  match m.storage with
  | none => .ok 0
  | some owner => do
    failIf (m.backing ≠ .inode) .EINVAL
    failIf (¬ owners.any (inodeLifetimeSame owner)) .ESTALE
    return owners.findIdx (inodeLifetimeSame owner) + 1

variable (root : Nat)

/-- `describe` compares an entry with the ones already written. -/
def placeTaken (done : List Entry) (e : Entry) : Bool :=
  !has e.flags DETACHED && root != done.length + 1 &&
  (List.range done.length).any fun j =>
    let other := done.getD j {}
    !has other.flags DETACHED && root != j + 1 && e.parent == other.parent && e.target == other.target

def describeMount (owners : List InodeLifetime) (state : Description) (i : Nat) (m : ViewMount) :
    Except Errno Description := do
  failIf (m.generation = 0) .EINVAL
  failIf (¬ mountPortable k m) .EOPNOTSUPP
  let storage ← storageIndex owners m
  let flags := mountFlags l i m
  let parent ← parentIndex l m.parent
  let source := match m.provider with | some tree => tree.root | none => m.source
  sourceObject k source m.native flags
  pathObject k m.target m.guest false
  let e : Entry :=
    { parent := ofNat parent
      flags := flags
      source := m.native
      target := m.guest
      storage := ofNat storage
      descriptor := ofNat state.next
      generation := m.generation
      procNamespace := if m.backing = .proc then pidNamespaceInode m.pidNamespace else 0
      shared := m.links.shared
      master := m.links.master
      unbindable := m.links.unbindable
      procPolicy := (m.provider.bind procfsExport).getD {} }
  failIf (placeTaken root state.entries e) .EINVAL
  let policy ← k.mountPolicyShare (.slot i)
  let stat ← k.fstat policy
  match m.provider with
  | none =>
    return { next := state.next + 3
             entries := state.entries ++ [{ e with policy := stat.identity }]
             fds := state.fds ++ [source, m.target, policy] }
  | some _ =>
    let super ← k.superPolicyShare i
    let superStat ← k.fstat super
    return { next := state.next + 4
             entries := state.entries ++ [{ e with policy := stat.identity, superPolicy := superStat.identity }]
             fds := state.fds ++ [source, m.target, policy, super] }

def describeEntry (owners : List InodeLifetime) (state : Description) (i : Nat) : Except Errno Description :=
  match l.entries.getD i (.retired 0) with
  | .retired generation => do
    failIf (generation = 0) .EINVAL
    return { state with
      entries := state.entries ++ [{ flags := DETACHED ||| RETIRED, generation := generation }] }
  | .live m => describeMount k l root owners state i m

/-- A manifest, the placement descriptors after the manifest's own, and the owners of its storages. -/
structure Described where
  manifest : Manifest
  fds : List Fd
  owners : List InodeLifetime

/-- A base that has moved shows its descriptors. -/
def baseObjects (base : BaseMount) : Except Errno Unit :=
  match base.source with
  | none => .ok ()
  | some source => do
    pathObject k source base.native true
    pathObject k base.target base.guest true

def describe (g : GraphState) (l : MountLayout) : Except Errno Described := do
  let count := l.entries.length
  failIf (count > fsMountsMax) .EINVAL
  failIf (¬ layoutPortable k l) .EOPNOTSUPP
  failIf (¬ k.allocated) .ENOMEM
  let policy ← k.mountPolicyShare .base
  let policyStat ← k.fstat policy
  let pinStat ← k.fstat g.pin
  failIf (viewMountSlot l.root count = none ∨ viewMountSlot l.base.parent count = none) .EINVAL
  let root := (viewMountSlot l.root count).getD 0
  baseObjects k l.base
  let moved := l.base.source.isSome
  let owners := stores l.entries
  let first := if moved then 5 else 3
  let start : Description :=
    { next := first
      entries := []
      fds := [policy, g.pin] ++ match l.base.source with | some source => [source, l.base.target] | none => [] }
  let placed ← (List.range count).foldlM (describeEntry k l root owners) start
  let m : Manifest :=
    { header :=
        { magic := magic
          version := version
          count := ofNat count
          storages := ofNat owners.length
          rootPolicy := policyStat.identity
          stream := g.identity
          pin := pinStat.identity
          revision := g.revision
          baseSource := if moved then l.base.native else {}
          baseTarget := if moved then l.base.guest else {}
          root := ofNat root
          baseParent := ofNat ((viewMountSlot l.base.parent count).getD 0)
          baseFlags := flagIf l.base.detached DETACHED ||| flagIf l.base.locked LOCKED
            ||| flagIf l.base.rootProviders ROOT_PROVIDERS
          baseDescriptor := if moved then 3 else 0
          shared := l.base.links.shared
          master := l.base.links.master
          unbindable := l.base.links.unbindable }
      entries := placed.entries
      storage := describeStorage (first + (l.entries.map Slot.rights).sum) owners }
  topology m
  return { manifest := m, fds := placed.fds, owners := owners }

/-- The revision `prepare_update` writes over the described one. -/
def Manifest.published (m : Manifest) (revision : UInt64) : Manifest :=
  { m with header := { m.header with revision := revision } }

end

open List

/-- A kernel that answers every query for the descriptors below: 1 and 2 are policies, 3 the
pin, 10 and 11 the sources, 20 and 21 the targets. -/
def sampleKernel : Kernel where
  allocated := true
  statusFlags fd := .ok ⟨fd ≥ 10, true⟩
  fstat fd := .ok ⟨⟨1, UInt64.ofNat fd⟩, true⟩
  temporaryDirectoryCheck _ := .ok ()
  providerTreePrivate _ _ := true
  mountPolicyShare _ := .ok 1
  superPolicyShare _ := .ok 2

def sampleGraph : GraphState where
  identity := ⟨1, 40⟩
  revision := 0
  pin := 3

def sampleStore (scope : UInt8) : InodeLifetime where
  device := 1
  inode := 99
  scope := [scope]
  ownerDepth := 0
  scopeLease := false
  overlayIdentity := false
  sources := replicate 255 false
  ownerDepth_le := by decide
  sources_length := length_replicate

def sampleMount (scope : UInt8) (source target : Fd) : ViewMount where
  generation := 1
  parent := .base
  backing := .inode
  storage := some (sampleStore scope)
  pidNamespace := none
  provider := none
  devpts := false
  cgroup := false
  sysfs := false
  ipcNamespace := false
  file := false
  source := source
  target := target
  native := ⟨1, UInt64.ofNat source⟩
  guest := ⟨1, UInt64.ofNat target⟩
  links := ⟨0, 0, 0⟩
  detached := false
  locked := false
  rootProviders := false
  host_backing := by simp

/-- Two mounts of one store, rooted at the given objects. -/
def sampleLayout (first second : UInt8) : MountLayout where
  base :=
    { parent := .null
      source := none
      target := 0
      native := {}
      guest := {}
      links := ⟨0, 0, 0⟩
      detached := false
      locked := false
      rootProviders := false }
  root := .base
  entries := [.live (sampleMount first 10 20), .live (sampleMount second 11 21)]

variable {owners : List InodeLifetime} {i : Nat} {m : ViewMount} {owner : InodeLifetime}

section

variable {slots : List Slot}

theorem inodeLifetimeSame_iff {a b : InodeLifetime} : inodeLifetimeSame a b ↔ a.root = b.root ∧ a.scope = b.scope := by
  simp [inodeLifetimeSame, InodeLifetime.root, and_assoc]

theorem inodeLifetimeSame_self (owner : InodeLifetime) : inodeLifetimeSame owner owner :=
  inodeLifetimeSame_iff.mpr ⟨rfl, rfl⟩

theorem prefix_addStore (slot : Slot) : owners <+: addStore owners slot := by
  unfold addStore
  split
  · exact prefix_rfl
  · split
    · exact prefix_rfl
    · exact prefix_append _ _

theorem prefix_foldl_addStore (slots : List Slot) : owners <+: slots.foldl addStore owners := by
  induction slots generalizing owners with
  | nil => exact prefix_rfl
  | cons slot rest ih => exact (prefix_addStore slot).trans ih

theorem stores_take_initial (slots : List Slot) (i : Nat) : stores (slots.take i) <+: stores slots := by
  have split : stores slots = (slots.drop i).foldl addStore (stores (slots.take i)) := by
    rw [stores, stores, ← foldl_append, take_append_drop]
  rw [split]
  exact prefix_foldl_addStore _

theorem stores_take_succ {slot : Slot} (found : slots[i]? = some slot) :
    stores (slots.take (i + 1)) = addStore (stores (slots.take i)) slot := by
  simp only [stores, take_add_one, found, Option.toList_some, foldl_append, foldl_cons, foldl_nil]

theorem length_addStore_le (owners : List InodeLifetime) (slot : Slot) :
    (addStore owners slot).length ≤ owners.length + 1 := by
  unfold addStore
  split
  · omega
  · split <;> simp

theorem length_stores_le (slots : List Slot) : (stores slots).length ≤ slots.length := by
  suffices general : ∀ owners, (slots.foldl addStore owners).length ≤ owners.length + slots.length by
    simpa [stores] using general []
  induction slots with
  | nil => simp
  | cons slot rest ih =>
    intro owners
    have grown := length_addStore_le owners slot
    have := ih (addStore owners slot)
    simp only [foldl_cons, length_cons]
    omega

/-- Owners are numbered by first use: an owner met before has an old number, a new one
the next. -/
theorem findIdx_owner (found : slots[i]? = some (.live m)) (stored : m.storage = some owner) :
    let before := stores (slots.take i)
    let number := (stores slots).findIdx (inodeLifetimeSame owner) + 1
    let after := stores (slots.take (i + 1))
    number ≤ before.length + 1 ∧ number ≤ (stores slots).length ∧
      after.length = if number = before.length + 1 then before.length + 1 else before.length := by
  intro before number after
  obtain ⟨rest, total⟩ := stores_take_initial slots i
  have grown : after = addStore before (.live m) := stores_take_succ found
  by_cases known : before.any (inodeLifetimeSame owner)
  · have fits : before.findIdx (inodeLifetimeSame owner) < before.length := by simpa using known
    have pos : (stores slots).findIdx (inodeLifetimeSame owner) = before.findIdx (inodeLifetimeSame owner) := by
      rw [← total, findIdx_append, if_pos fits]
    have total : before.length ≤ (stores slots).length := (stores_take_initial slots i).length_le
    have same : after = before := by simp [grown, addStore, Slot.storage, stored, known]
    simp only [number, pos, same]
    refine ⟨by omega, by omega, ?_⟩
    rw [if_neg (by omega)]
  · have appended : after = before ++ [owner] := by simp [grown, addStore, Slot.storage, stored, known]
    obtain ⟨tail, whole⟩ := stores_take_initial slots (i + 1)
    have outside : ¬ before.findIdx (inodeLifetimeSame owner) < before.length := by simpa using known
    have pos : (stores slots).findIdx (inodeLifetimeSame owner) = before.length := by
      rw [← whole, show stores (slots.take (i + 1)) = before ++ [owner] from appended, append_assoc, findIdx_append,
        if_neg outside]
      simp [findIdx_cons, inodeLifetimeSame_self]
    have total := (stores_take_initial slots (i + 1)).length_le
    have length : (stores (slots.take (i + 1))).length = before.length + 1 := by
      rw [show stores (slots.take (i + 1)) = before ++ [owner] from appended]
      simp
    simp only [number, pos, appended]
    refine ⟨le_rfl, by omega, by simp⟩

end

theorem inodeCustodyRights_bounds (owner : InodeLifetime) :
    2 ≤ inodeCustodyRights owner ∧ inodeCustodyRights owner ≤ inodeCustodyFds := by
  have depth := owner.ownerDepth_le
  have sources : owner.sources.count true ≤ 255 := owner.sources_length ▸ count_le_length
  have lease := Bool.toNat_le owner.scopeLease
  have overlay := Bool.toNat_le owner.overlayIdentity
  simp only [inodeCustodyRights, inodeCustodyFds]
  omega

theorem sum_rights_le (slots : List Slot) : (slots.map Slot.rights).sum ≤ 4 * slots.length := by
  induction slots with
  | nil => simp
  | cons slot rest ih =>
    have one : slot.rights ≤ 4 := by
      cases slot with
      | retired _ => simp [Slot.rights]
      | live m =>
        have := Bool.toNat_le m.provider.isSome
        simp only [Slot.rights]
        omega
    simp only [map_cons, sum_cons, length_cons]
    omega

theorem sum_custody_le (owners : List InodeLifetime) :
    (owners.map inodeCustodyRights).sum ≤ inodeCustodyFds * owners.length := by
  induction owners with
  | nil => simp
  | cons owner rest ih =>
    have := (inodeCustodyRights_bounds owner).2
    simp only [map_cons, sum_cons, length_cons, Nat.mul_succ]
    omega

theorem length_describeStorage (next : Nat) (owners : List InodeLifetime) :
    (describeStorage next owners).length = owners.length := by
  induction owners generalizing next with
  | nil => rfl
  | cons owner rest ih => simp [describeStorage, ih]

theorem describeStorage_at (next : Nat) (found : owners[i]? = some owner) :
    (describeStorage next owners).getD i default =
      { root := owner.root
        start := ofNat (next + ((owners.take i).map inodeCustodyRights).sum)
        count := ofNat (inodeCustodyRights owner) } := by
  induction owners generalizing next i with
  | nil => simp at found
  | cons first rest ih =>
    cases i with
    | zero =>
      obtain rfl : first = owner := by simpa using found
      simp [describeStorage]
    | succ i =>
      have := ih (next + inodeCustodyRights first) (i := i) (by simpa using found)
      simp only [describeStorage, getD_cons_succ, this, take_succ_cons, map_cons, sum_cons, Nat.add_assoc]

def flagWord (provider : UInt32) (inode detached locked rootProviders parentless proc : Bool) : UInt32 :=
  flagIf inode INODE ||| flagIf detached DETACHED ||| flagIf locked LOCKED
    ||| flagIf rootProviders ROOT_PROVIDERS ||| provider ||| flagIf parentless PARENTLESS ||| flagIf proc PROC

/-- A provider other than procfs stands on no other backing. -/
def backingFits (provider : UInt32) (inode proc : Bool) : Bool :=
  !(inode && proc) && (provider == 0 || !inode) && (provider == 0 || provider == HOST_PROCFS || !proc)

/-- What the bits of a flag word say. `inode` and `proc` are the backing's. -/
@[mk_iff flagBits_iff] structure FlagBits (provider : UInt32) (inode proc : Bool) (flags : UInt32) : Prop where
  retired : has flags RETIRED = false
  inodeBit : has flags INODE = inode
  procBit : has flags PROC = proc
  known : has flags (~~~knownFlags) = false
  procfs : has flags HOST_PROCFS = (provider == HOST_PROCFS)
  providers : has flags HOST_PROVIDERS = (provider != 0)
  backing : backingFits provider inode proc → flags &&& (INODE ||| PROC) ≠ INODE ||| PROC
  type : backingFits provider inode proc → has (typeBits flags) (typeBits flags - 1) = false

instance (provider : UInt32) (inode proc : Bool) (flags : UInt32) : Decidable (FlagBits provider inode proc flags) :=
  decidable_of_iff' _ (flagBits_iff provider inode proc flags)

theorem flagWord_bits {provider : UInt32} (flag : provider ∈ [0, HOST_SYSFS, HOST_DEVFS, HOST_DEVICES, HOST_PROCFS])
    (inode detached locked rootProviders parentless proc : Bool) :
    FlagBits provider inode proc (flagWord provider inode detached locked rootProviders parentless proc) := by
  simp only [mem_cons, not_mem_nil, or_false] at flag
  -- Six bits and five provider flags: the table is checked one provider at a time.
  rcases flag with rfl | rfl | rfl | rfl | rfl <;>
    revert inode detached locked rootProviders parentless proc <;> decide +kernel

theorem providerFlag_mem (provider : Option Provider) :
    providerFlag provider ∈ [0, HOST_SYSFS, HOST_DEVFS, HOST_DEVICES, HOST_PROCFS] := by
  unfold providerFlag
  split
  · simp
  · split <;> simp

/-- What `describe` writes for a mount in use. -/
structure MountEntry (l : MountLayout) (owners : List InodeLifetime) (next i : Nat) (m : ViewMount) (e : Entry) :
    Prop where
  flags : e.flags = mountFlags l i m
  generation : e.generation ≠ 0
  storage : ∃ number, storageIndex owners m = .ok number ∧ e.storage = ofNat number
  parent : ∃ index, parentIndex l m.parent = .ok index ∧ e.parent = ofNat index
  descriptor : e.descriptor = ofNat next
  procNamespace : e.procNamespace = if m.backing = .proc then pidNamespaceInode m.pidNamespace else 0
  procPolicy : e.procPolicy = (m.provider.bind procfsExport).getD {}
  superPolicy : m.provider = none → e.superPolicy = {}
  provider : ∀ tree ∈ m.provider, hostFsKind tree ∨ m.backing = .proc ∧ (procfsExport tree).isSome

def SlotEntry (l : MountLayout) (owners : List InodeLifetime) (next i : Nat) (slot : Slot) (e : Entry) : Prop :=
  match slot with
  | .retired gen => gen ≠ 0 ∧ e = { flags := DETACHED ||| RETIRED, generation := gen }
  | .live m => MountEntry l owners next i m e

variable {k : Kernel}

theorem mountPortable_provider (portable : mountPortable k m) :
    ∀ tree ∈ m.provider, hostFsKind tree ∨ m.backing = .proc ∧ (procfsExport tree).isSome := by
  intro tree held
  rw [Option.mem_def] at held
  simp only [mountPortable, held, Bool.and_eq_true, Bool.or_eq_true, beq_iff_eq] at portable
  exact portable.2.1

theorem describeMount_ok {l : MountLayout} {root : Nat} {state next : Description}
    (run : describeMount k l root owners state i m = .ok next) :
    ∃ e, MountEntry l owners state.next i m e ∧ ¬ placeTaken root state.entries e ∧
      next.entries = state.entries ++ [e] ∧ next.next = state.next + 3 + m.provider.isSome.toNat := by
  simp only [describeMount, failIf_bind_ok] at run
  obtain ⟨gen, portable, run⟩ := run
  obtain ⟨num, storage, run⟩ := bind_ok.mp run
  obtain ⟨parent, parented, run⟩ := bind_ok.mp run
  obtain ⟨_, -, run⟩ := bind_ok.mp run
  obtain ⟨_, -, run⟩ := bind_ok.mp run
  rw [failIf_bind_ok] at run
  obtain ⟨vacant, run⟩ := run
  obtain ⟨policy, -, run⟩ := bind_ok.mp run
  obtain ⟨stat, -, run⟩ := bind_ok.mp run
  have provider := mountPortable_provider (not_not.mp portable)
  cases held : m.provider with
  | none =>
    simp only [held, pure_ok] at run
    subst run
    refine ⟨_, ⟨rfl, gen, ⟨num, storage, rfl⟩, ⟨parent, parented, rfl⟩, rfl, rfl, by
      simp [held], fun _ => rfl, provider⟩, ?_, rfl, rfl⟩
    simpa [placeTaken, held] using vacant
  | some tree =>
    simp only [held] at run
    obtain ⟨super, -, run⟩ := bind_ok.mp run
    obtain ⟨superStat, -, run⟩ := bind_ok.mp run
    rw [pure_ok] at run
    subst run
    refine ⟨_, ⟨rfl, gen, ⟨num, storage, rfl⟩, ⟨parent, parented, rfl⟩, rfl, rfl, by simp [held], by
      simp [held], provider⟩, ?_, rfl, rfl⟩
    simpa [placeTaken, held] using vacant

end Shroot.MountGraph
