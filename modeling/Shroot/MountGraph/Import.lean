import Shroot.MountGraph.Describe

namespace Shroot.MountGraph

open General List

/-- The answers of the further calls that an import makes. -/
structure ImportKernel extends Kernel where
  closeOnExec : Fd → Except Errno Bool
  /-- The bytes of a sealed manifest. -/
  sealedRead : Fd → Except Errno (List UInt8)
  socket : Fd → Bool
  /-- A regular file without links and without bytes. -/
  emptyFile : Fd → Bool
  custodyImport : List Fd → Except Errno InodeLifetime
  linksObserve : UInt32 → UInt32 → UInt32 → Except Errno MountLinks
  pidNamespaceKnown : UInt64 → Bool
  /-- The root of a provider tree that is made for an entry. -/
  providerImport : Entry → Fd → Except Errno Fd
  policyImport : Fd → Except Errno Unit
  mountIdAllocate : Nat → Except Errno Unit
  namespaceNew : Except Errno Unit
  graphCreated : Bool
  treeCreated : Bool
  /-- Reading the two manifests once more; sealed bytes stay what they were. -/
  reread : Except Errno Unit

/-- A view of a mount namespace with its graph. `manifest` is what the graph's descriptor holds. -/
structure GraphView where
  graph : GraphState
  writer : Bool
  observed : UInt64
  manifest : Manifest
  layout : MountLayout
  anchors : Nat → Nat

def kindFlags (e : Entry) : UInt32 := e.flags &&& (INODE ||| PROC ||| HOST_PROVIDERS)

/-- What stays with a mount as long as its generation does. -/
def otherObjects (a b : Entry) : Bool :=
  kindFlags a != kindFlags b || a.procNamespace != b.procNamespace || a.procPolicy != b.procPolicy ||
    a.source != b.source
    || a.policy != b.policy || a.superPolicy != b.superPolicy || (a.storage != 0) != (b.storage != 0)

def Manifest.storageRoot (m : Manifest) (e : Entry) : FdIdentity := (m.storage.getD (e.storage.toNat - 1) default).root

variable (old next : Manifest)

/-- One slot in two manifests, the older first. -/
def sameEntry (i : Nat) : Except Errno Unit :=
  let a := old.entry i
  let b := next.entry i
  if a.generation > b.generation then .error .ESTALE
  else if a.generation < b.generation then .ok ()
  else if has b.flags RETIRED then .ok ()
  else if has a.flags RETIRED then .error .ESTALE
  else do
    failIf (otherObjects a b) .ESTALE
    failIf (a.storage ≠ 0 ∧ old.storageRoot a ≠ next.storageRoot b) .ESTALE

def sameOrdered : Except Errno Unit := do
  failIf (old.header.rootPolicy ≠ next.header.rootPolicy ∨ old.header.pin ≠ next.header.pin) .ESTALE
  failIf (old.header.baseDescriptor ≠ 0 ∧
    (next.header.baseDescriptor = 0 ∨ old.header.baseSource ≠ next.header.baseSource)) .ESTALE
  (range (min old.count next.count)).forM (sameEntry old next)

def sameObjects : Except Errno Unit :=
  if old.header.revision > next.header.revision then sameOrdered next old else sameOrdered old next

def entryRightsOf (e : Entry) : Nat := if has e.flags RETIRED then 0 else entryRights e.flags

/-- `placement_rights`, and the rights of the storages. -/
def manifestRights (m : Manifest) : Nat :=
  (if m.header.baseDescriptor ≠ 0 then 5 else 3) + ((range m.count).map fun i => entryRightsOf (m.entry i)).sum
    + ((range m.header.storages.toNat).map fun i => (m.storage.getD i default).count.toNat).sum

def fdAt (fds : List Fd) (i : Nat) : Fd := fds.getD i 0

variable (k : ImportKernel) (fd : Fd) (expected : FdIdentity)

def checkIdentity : Except Errno Unit := do
  let stat ← k.fstat fd
  failIf (stat.identity ≠ expected) .EPROTO

def checkStream : Except Errno Unit := do
  let stat ← k.fstat fd
  failIf (¬ k.socket fd ∨ stat.identity ≠ expected) .EPROTO

def checkPin : Except Errno Unit := do
  let stat ← k.fstat fd
  failIf (stat.identity ≠ expected ∨ ¬ k.emptyFile fd) .EPROTO

def checkEntryRights (fds : List Fd) (m : Manifest) (i : Nat) : Except Errno Unit := do
  let e := m.entry i
  if has e.flags RETIRED then return ()
  let first := e.descriptor.toNat
  sourceObject k.toKernel (fdAt fds first) e.source e.flags
  pathObject k.toKernel (fdAt fds (first + 1)) e.target false
  checkIdentity k (fdAt fds (first + 2)) e.policy
  if has e.flags HOST_PROVIDERS then checkIdentity k (fdAt fds (first + 3)) e.superPolicy

def importStorage (fds : List Fd) (s : Storage) : Except Errno InodeLifetime := do
  checkIdentity k (fdAt fds (s.start.toNat + 1)) s.root
  k.custodyImport ((range s.count.toNat).map fun j => fdAt fds (s.start.toNat + j))

/-- The rights are those that the manifest names. -/
def checkRights (fds : List Fd) (out : Option GraphView) (m : Manifest) : Except Errno (List InodeLifetime) := do
  let h := m.header
  failIf (fds.length ≠ manifestRights m + 1) .EPROTO
  checkIdentity k (fdAt fds 1) h.rootPolicy
  checkPin k (fdAt fds 2) h.pin
  checkStream k (fdAt fds (manifestRights m)) h.stream
  failIf (out.any fun v => v.graph.identity ≠ h.stream) .ESTALE
  if h.baseDescriptor ≠ 0 then
    pathObject k.toKernel (fdAt fds 3) h.baseSource true
    pathObject k.toKernel (fdAt fds 4) h.baseTarget true
  (range m.count).forM (checkEntryRights k fds m)
  (range h.storages.toNat).mapM fun i => importStorage k fds (m.storage.getD i default)

def backingOf (flags : UInt32) : Backing :=
  if has flags INODE then .inode else if has flags PROC then .proc else if has flags HOST_PROVIDERS then .provider
  else .native

def importProvider (fds : List Fd) (e : Entry) : Except Errno (Option Provider) :=
  if has e.flags HOST_PROVIDERS then do
    let source := fdAt fds e.descriptor.toNat
    let root ← k.providerImport e source
    k.policyImport (fdAt fds (e.descriptor.toNat + 3))
    if has e.flags HOST_PROCFS then
      if valid : procfsPolicyValid e.procPolicy then return some ⟨.procfs ⟨e.procPolicy, valid⟩, root⟩
      else throw .EINVAL
    else return some ⟨if has e.flags HOST_SYSFS then .sysfs else if has e.flags HOST_DEVICES then .devices
      else .devfs, root⟩
  else return none

def importPidNamespace (e : Entry) : Except Errno (Option {inode : UInt64 // inode ≠ 0}) :=
  if has e.flags PROC ∧ e.procNamespace ≠ pidNamespaceInode none then
    if known : e.procNamespace ≠ 0 ∧
      k.pidNamespaceKnown e.procNamespace then return some ⟨e.procNamespace, known.1⟩ else throw .EXDEV
  else return none

/-- A reference by number, zero for the base. -/
def refOf (number : UInt32) : MountRef := if number ≠ 0 then .slot (number.toNat - 1) else .base

def importMount (fds : List Fd) (owners : List InodeLifetime) (m : Manifest) (i : Nat) : Except Errno Slot := do
  let e := m.entry i
  if has e.flags RETIRED then return .retired e.generation
  let links ← k.linksObserve e.shared e.master e.unbindable
  let space ← importPidNamespace k e
  let source := fdAt fds e.descriptor.toNat
  let target := fdAt fds (e.descriptor.toNat + 1)
  let native ← k.fstat source
  let guest ← k.fstat target
  let provider ← importProvider k fds e
  k.policyImport (fdAt fds (e.descriptor.toNat + 2))
  k.mountIdAllocate i
  -- parse_manifest lets an entry be of one kind only
  if kinds : ∀ tree ∈ provider, hostFsKind tree → backingOf e.flags = .provider then
    return .live
      { generation := e.generation
        parent := if m.header.root.toNat = i + 1 ∨ has e.flags PARENTLESS then .null else refOf e.parent
        backing := backingOf e.flags
        storage := if e.storage ≠ 0 then owners[e.storage.toNat - 1]? else none
        pidNamespace := space
        provider := provider
        devpts := false, cgroup := false, sysfs := false, ipcNamespace := false, file := false
        source := source, target := target
        native := native.identity, guest := guest.identity
        links := links
        detached := has e.flags DETACHED, locked := has e.flags LOCKED, rootProviders := has e.flags ROOT_PROVIDERS
        host_backing := kinds }
  else throw .EPROTO

def importBase (fds : List Fd) (m : Manifest) (links : MountLinks) : Except Errno BaseMount := do
  let h := m.header
  let base : BaseMount :=
    { parent := if h.baseParent ≠ 0 then refOf h.baseParent else .null
      source := none, target := 0, native := {}, guest := {}
      links := links
      detached := has h.baseFlags DETACHED, locked := has h.baseFlags LOCKED, rootProviders :=
        has h.baseFlags ROOT_PROVIDERS }
  if h.baseDescriptor ≠ 0 then
    let native ← k.fstat (fdAt fds 3)
    let guest ← k.fstat (fdAt fds 4)
    return { base with
      source := some (fdAt fds 3), target := fdAt fds 4, native := native.identity, guest := guest.identity }
  return base

/-- A view made from a manifest and its rights. -/
def importView (fds : List Fd) (owners : List InodeLifetime) (m : Manifest) : Except Errno GraphView := do
  k.namespaceNew
  failIf (¬ k.graphCreated) .ENOMEM
  k.policyImport (fdAt fds 1)
  let links ← k.linksObserve m.header.shared m.header.master m.header.unbindable
  failIf (m.count ≠ 0 ∧ ¬ k.treeCreated) .ENOMEM
  let slots ← (range m.count).mapM (importMount k fds owners m)
  let base ← importBase k fds m links
  let view : GraphView :=
    { graph := { identity := m.header.stream, revision := m.header.revision, pin := fdAt fds 2 }
      writer := false
      observed := 0
      manifest := m
      layout :=
        { base := base, root := if m.header.root ≠ 0 then .slot (m.header.root.toNat - 1) else .base, entries := slots }
      anchors := fun _ => 0 }
  return view

def Slot.generation : Slot → UInt64
  | .retired generation => generation
  | .live mount => mount.generation

def Slot.isLive : Slot → Bool
  | .retired _ => false
  | .live _ => true

def mergeMount (a b : ViewMount) : ViewMount :=
  { a with
    target := b.target, guest := b.guest, detached := b.detached, locked := b.locked, rootProviders := b.rootProviders
    links := b.links, parent := b.parent }

/-- A slot and whether it is another one than before. -/
def mergeSlot (old : Option Slot) (next : Slot) : Slot × Bool :=
  match old, next with
  | some (.live a), .live b => if a.generation = b.generation then (.live (mergeMount a b), false) else (.live b, true)
  | _, next => (next, true)

/-- A slot that an anchor holds and that the newer manifest replaces or retires. -/
def heldSlot (v : GraphView) (before after : Manifest) (i : Nat) : Bool :=
  ((before.entry i).generation != (after.entry i).generation || has (after.entry i).flags RETIRED) && v.anchors i != 0

def mergeKnown (v next : GraphView) (before after : Manifest) : Except Errno GraphView := do
  sameObjects before after
  failIf (before.count > after.count) .ESTALE
  failIf (∃ i ∈ range before.count, heldSlot v before after i) .EBUSY
  failIf (v.layout.entries = [] ∧ after.count ≠ 0 ∧ ¬ k.treeCreated) .ENOMEM
  let merged :=
    (range after.count).map fun i => mergeSlot v.layout.entries[i]? (next.layout.entries.getD i (.retired 0))
  let view : GraphView :=
    { v with
      graph := { v.graph with revision := next.graph.revision }
      manifest := next.manifest
      layout := { base := next.layout.base, root := next.layout.root, entries := merged.map Prod.fst }
      anchors := fun i => if (merged[i]?.map Prod.snd).getD false then 0 else v.anchors i }
  return view

/-- The graph that a view has, as `import_known` finds it. -/
def importKnownView (fds : List Fd) (owners : List InodeLifetime) (v : GraphView) (data : Manifest) :
    Except Errno GraphView := do
  let known ← describe k.toKernel v.graph v.layout
  failIf (known.manifest.header.revision = data.header.revision ∧ ¬ manifestSame known.manifest data) .ESTALE
  sameObjects known.manifest data
  failIf (known.manifest.header.revision < data.header.revision ∧ v.writer) .ESTALE
  if known.manifest.header.revision ≥ data.header.revision then return v
  let next ← importView k fds owners data
  k.reread
  mergeKnown k v next v.manifest data

/-- `import_known`: the view after a manifest. -/
def importKnown (fds : List Fd) (out : Option GraphView) (data : Manifest) : Except Errno GraphView := do
  if data.header.unavailable ≠ 0 then
    failIf (fds.length ≠ 2) .EPROTO
    checkStream k (fdAt fds 1) data.header.stream
    failIf (out.any fun v => v.graph.identity ≠ data.header.stream ∨ data.header.revision ≤ v.graph.revision) .ESTALE
    throw .EOPNOTSUPP
  let owners ← checkRights k fds out data
  match out with
  | some v => importKnownView k fds owners v data
  | none => importView k fds owners data

def mountGraphFds : Nat := 6 + 4 * fsMountsMax + fsMountsMax * inodeCustodyFds

def validateRights (fds : List Fd) : Except Errno Unit := do
  failIf (¬ fds.Nodup) .EPROTO
  fds.forM fun fd => do
    let closes ← k.closeOnExec fd
    failIf (¬ closes) .EINVAL

def readManifest : Except Errno Manifest := do
  let bytes ← k.sealedRead fd
  parseManifest bytes

def graphImport (fds : List Fd) (out : Option GraphView) : Except Errno GraphView := do
  failIf (fds = [] ∨ fds.length > mountGraphFds) .EINVAL
  validateRights k fds
  let data ← readManifest k (fdAt fds 0)
  importKnown k fds out data

/-- What the stream of a graph answers: its sequence and its snapshot, and whether the snapshot is final. -/
structure Stream where
  sequence : Except Errno UInt64
  snapshot : Except Errno (UInt64 × List Fd)
  settled : Bool
  allocated : Bool
  reader : Except Errno Fd

/-- The import of a snapshot of another revision. -/
def syncSnapshot (s : Stream) (v : GraphView) : Except Errno GraphView := do
  let (revision, fds) ← s.snapshot
  failIf (revision < v.graph.revision) .ESTALE
  if revision = v.graph.revision then return v
  failIf (¬ s.allocated) .ENOMEM
  let reader ← s.reader
  graphImport k (fds ++ [reader]) (some v)

def graphSync (s : Stream) (v : GraphView) : Except Errno GraphView := do
  if v.writer then return v
  let sequence ← s.sequence
  if sequence = v.observed then return v
  failIf (sequence < v.observed) .ESTALE
  let synced ← syncSnapshot k s v
  return if s.settled then { synced with observed := sequence } else synced

end Shroot.MountGraph
