import Shroot.MountGraph.Describe

namespace Shroot.MountGraph

open General List

section

variable {tally : Tally} {i n first : Nat}

/-- The mount a node hangs under when the graph is imported: node 0 is the base. -/
def Manifest.mountParent (m : Manifest) : Nat → Option Nat
  | 0 => if m.header.baseParent = 0 then none else some m.header.baseParent.toNat
  | i + 1 =>
    if m.count ≤ i ∨ has (m.entry i).flags (RETIRED ||| PARENTLESS) ∨ m.header.root.toNat = i + 1 then none
    else some (m.entry i).parent.toNat

/-- The descriptors of the first `n` entries, start and number. -/
def Manifest.entryRanges (m : Manifest) (n : Nat) : List (Nat × Nat) :=
  (range n).filterMap fun i =>
    if has (m.entry i).flags RETIRED then none
    else some ((m.entry i).descriptor.toNat, entryRights (m.entry i).flags)

def Manifest.storageRanges (m : Manifest) (n : Nat) : List (Nat × Nat) :=
  (range n).map fun i => ((m.storage.getD i default).start.toNat, (m.storage.getD i default).count.toNat)

/-- Every descriptor range a graph names, in the order of the parcel. -/
def Manifest.ranges (m : Manifest) : List (Nat × Nat) :=
  (if m.header.baseDescriptor ≠ 0 then [(m.header.baseDescriptor.toNat, 2)] else []) ++
    m.entryRanges m.count ++ m.storageRanges m.header.storages.toNat

/-- Entry `i` is attached and is not the namespace root. -/
def Manifest.attached (m : Manifest) (i : Nat) : Prop :=
  i < m.count ∧ ¬ has (m.entry i).flags DETACHED ∧ m.header.root.toNat ≠ i + 1

/-- A mount tree a worker can adopt: no mount hangs under itself, the descriptors follow each
other, and a place holds one mount. -/
structure WellFormed (m : Manifest) : Prop where
  acyclic : Acyclic m.mountParent
  contiguous : ∃ last, Tiles 3 m.ranges last
  disjoint : m.ranges.Pairwise fun a b => a.1 + a.2 ≤ b.1
  places : ∀ i j, m.attached i → m.attached j → (m.entry i).parent = (m.entry j).parent →
    (m.entry i).target = (m.entry j).target → i = j

variable {m : Manifest}

theorem checkEntry_ok {next : Tally} (run : checkEntry m tally i = .ok next) :
    (has (m.entry i).flags RETIRED ∧ has (m.entry i).flags DETACHED ∧ next = tally) ∨
    (¬ has (m.entry i).flags RETIRED ∧ (m.entry i).descriptor.toNat = tally.next ∧
      next.next = tally.next + entryRights (m.entry i).flags ∧ ∀ j < i, ¬ samePlace m i j) := by
  simp only [checkEntry, failIf_bind_ok] at run
  obtain ⟨-, run⟩ := run
  obtain ⟨_, -, run⟩ := bind_ok.mp run
  split at run
  next gone =>
    simp only [failIf_bind_ok, pure_ok] at run
    obtain ⟨empty, rfl⟩ := run
    refine .inl ⟨gone, ?_, rfl⟩
    rw [not_not.mp empty]
    exact (by decide : has (DETACHED ||| RETIRED) DETACHED = true)
  next used =>
    simp only [failIf_bind_ok, pure_ok] at run
    obtain ⟨descriptor, -, -, vacant, rfl⟩ := run
    refine .inr ⟨used, not_not.mp descriptor, rfl, fun j prior taken => ?_⟩
    exact vacant ⟨j, mem_range.mpr prior, taken⟩

theorem entryRanges_succ (i : Nat) : m.entryRanges (i + 1) = m.entryRanges i ++ if has (m.entry i).flags RETIRED then []
    else [((m.entry i).descriptor.toNat, entryRights (m.entry i).flags)] := by
  simp only [Manifest.entryRanges, range_succ, filterMap_append]
  split <;> simp [*]

theorem checkEntries_ok (run : (range n).foldlM (checkEntry m) { owners := 0, next := first } = .ok tally) :
    Tiles first (m.entryRanges n) tally.next ∧ ∀ i < n, ∀ j < i, ¬ samePlace m i j := by
  refine foldlM_range_ok (fun n (tally : Tally) => Tiles first (m.entryRanges n) tally.next ∧
    ∀ i < n, ∀ j < i, ¬ samePlace m i j) ?_ ?_ run
  · exact ⟨rfl, by simp⟩
  rintro n tally next - ⟨tiles, places⟩ step
  rw [entryRanges_succ]
  rcases checkEntry_ok step with ⟨gone, detached, rfl⟩ | ⟨used, descriptor, advanced, vacant⟩
  · refine ⟨by simpa [gone] using tiles, fun i bound j prior => ?_⟩
    rcases Nat.lt_succ_iff_lt_or_eq.mp bound with old | rfl
    · exact places i old j prior
    · simp [samePlace, detached]
  · refine ⟨?_, fun i bound j prior => ?_⟩
    · rw [if_neg used, descriptor, advanced]
      exact tiles.append (tiles_singleton _ _)
    · rcases Nat.lt_succ_iff_lt_or_eq.mp bound with old | rfl
      · exact places i old j prior
      · exact vacant j prior

theorem checkStorage_ok {next new : Nat} (run : checkStorage m next i = .ok new) :
    (m.storage.getD i default).start.toNat = next ∧ new = next + (m.storage.getD i default).count.toNat ∧
      ∀ j < i, (m.storage.getD i default).root ≠ (m.storage.getD j default).root := by
  simp only [checkStorage, failIf_bind_ok, pure_ok] at run
  obtain ⟨bounds, nodup, rfl⟩ := run
  refine ⟨by omega, rfl, fun j prior same => nodup ⟨j, mem_range.mpr prior, same⟩⟩

theorem checkStorages_ok {last : Nat} (run : (List.range n).foldlM (checkStorage m) first = .ok last) :
    Tiles first (m.storageRanges n) last ∧
    ∀ i < n, ∀ j < i, (m.storage.getD i default).root ≠ (m.storage.getD j default).root := by
  refine foldlM_range_ok (fun n last => Tiles first (m.storageRanges n) last ∧
    ∀ i < n, ∀ j < i, (m.storage.getD i default).root ≠ (m.storage.getD j default).root)
    ?_ ?_ run
  · exact ⟨rfl, by simp⟩
  rintro n next new - ⟨tiles, roots⟩ step
  obtain ⟨start, rfl, nodup⟩ := checkStorage_ok step
  refine ⟨?_, fun i bound j prior => ?_⟩
  · rw [Manifest.storageRanges, range_succ, map_append, map_singleton, start]
    exact tiles.append (tiles_singleton _ _)
  · rcases Nat.lt_succ_iff_lt_or_eq.mp bound with old | rfl
    · exact roots i old j prior
    · exact nodup j prior

/-- The array `topology` orders spells the links of the graph. -/
theorem topology_acyclic (run : topology m = .ok ()) : Acyclic m.mountParent := by
  simp only [topology, failIf_bind_ok] at run
  obtain ⟨-, -, bases, -, -, -, run⟩ := run
  obtain ⟨order, asc, -⟩ := bind_ok.mp run
  suffices links : m.mountParent = parentLink m.parents from links ▸ mountTopologyOrder_acyclic asc
  funext node
  cases node with
  | zero =>
    have head : parentOf m.parents 0 = if m.header.root ≠ 0 then m.header.baseParent.toNat + 1 else 0 := rfl
    simp only [Manifest.mountParent, parentLink, head]
    by_cases root : m.header.root = 0 <;> simp_all
  | succ i =>
    have link : parentOf m.parents (i + 1) = if i < m.count then
        if has (m.entry i).flags (RETIRED ||| PARENTLESS) ∨ m.header.root.toNat = i + 1 then 0
        else (m.entry i).parent.toNat + 1 else 0 := by
      by_cases inside : i < m.count
      · simp [parentOf, Manifest.parents, getD_eq_getElem?_getD, inside]
      · simp [parentOf, Manifest.parents, getD_eq_getElem?_getD, inside]
    simp only [Manifest.mountParent, parentLink, link]
    by_cases inside : i < m.count
    · simp only [inside, Nat.not_le.mpr inside, if_true, false_or]
      split <;> simp
    · simp [inside, Nat.not_lt.mp inside]

theorem checkGraph_wellFormed (run : checkGraph m = .ok ()) : WellFormed m := by
  simp only [checkGraph, failIf_bind_ok] at run
  obtain ⟨base, run⟩ := run
  obtain ⟨tally, entries, run⟩ := bind_ok.mp run
  rw [failIf_bind_ok] at run
  obtain ⟨nums, run⟩ := run
  obtain ⟨last, storages, run⟩ := bind_ok.mp run
  have asc : topology m = .ok () := by
    split at run
    · assumption
    · cases run
  obtain ⟨entryTiles, places⟩ := checkEntries_ok entries
  obtain ⟨storageTiles, -⟩ := checkStorages_ok storages
  rw [not_not.mp nums] at storageTiles
  have tiles : Tiles 3 m.ranges last := by
    have front : Tiles 3 (if m.header.baseDescriptor ≠ 0 then [(m.header.baseDescriptor.toNat, 2)] else [])
        (firstDescriptor m.header) := by
      by_cases moved : m.header.baseDescriptor = 0
      · simp [moved, firstDescriptor, Tiles]
      · have three : m.header.baseDescriptor = 3 := by simpa [moved] using base
        simp [three, firstDescriptor, Tiles]
    exact (front.append entryTiles).append storageTiles
  refine ⟨topology_acyclic asc, ⟨last, tiles⟩, tiles.disjoint, fun i j first two parent target => ?_⟩
  have taken : ∀ a b, m.attached a → m.attached b → (m.entry a).parent = (m.entry b).parent →
      (m.entry a).target = (m.entry b).target → ¬ b < a := by
    intro a b attachedA attachedB parent target prior
    refine places a attachedA.1 b prior ?_
    simp [samePlace, attachedA.2, attachedB.2, parent, target]
  have := taken i j first two parent target
  have := taken j i two first parent.symm target.symm
  omega

/-- Every available graph the parser lets through can be adopted. -/
theorem parseManifest_wellFormed {bytes : List UInt8} (run : parseManifest bytes = .ok m)
    (available : m.header.unavailable = 0) : WellFormed m := by
  simp only [parseManifest, failIf_bind_ok] at run
  obtain ⟨-, -, run⟩ := run
  split at run
  next unavailable =>
    simp only [failIf_bind_ok, pure_ok] at run
    obtain ⟨-, rfl⟩ := run
    exact absurd available unavailable
  · obtain ⟨_, fine, run⟩ := bind_ok.mp run
    obtain rfl := pure_ok.mp run
    exact checkGraph_wellFormed fine

end

open Option Nat

variable {i : Nat} {e : Entry} {k : Kernel} {l : MountLayout} {m : Manifest}

/-- The descriptors before slot `i`, counted from the first entry. -/
def rightsBefore (l : MountLayout) (i : Nat) : Nat := ((l.entries.take i).map Slot.rights).sum

theorem rightsBefore_succ {slot : Slot} (found : l.entries[i]? = some slot) :
    rightsBefore l (i + 1) = rightsBefore l i + slot.rights := by
  simp [rightsBefore, take_add_one, found]

theorem rightsBefore_le (l : MountLayout) (i : Nat) : rightsBefore l i ≤ 4 * l.entries.length := by
  have sum := sum_rights_le (l.entries.take i)
  have short : (l.entries.take i).length ≤ l.entries.length := by
    rw [length_take]
    omega
  unfold rightsBefore
  omega

/-- The state of `describe`'s entry loop after `n` slots. -/
structure Placed (l : MountLayout) (root first n : Nat) (state : Description) : Prop where
  length : state.entries.length = n
  next : state.next = first + rightsBefore l n
  entry : ∀ i < n, ∃ slot, l.entries[i]? = some slot ∧
    SlotEntry l (stores l.entries) (first + rightsBefore l i) i slot (state.entries.getD i {})
  vacant : ∀ i < n, ¬ placeTaken root (state.entries.take i) (state.entries.getD i {})

variable {state after : Description} {root first n : Nat}

theorem Placed.push (slot : Slot) (placed : Placed l root first n state) (found : l.entries[n]? = some slot)
    (desc : SlotEntry l (stores l.entries) (first + rightsBefore l n) n slot e)
    (vacant : ¬ placeTaken root state.entries e) (entries : after.entries = state.entries ++ [e])
    (next : after.next = state.next + slot.rights) : Placed l root first (n + 1) after := by
  have old : ∀ i < n, (state.entries ++ [e]).getD i {} = state.entries.getD i {} := fun i bound => by
    rw [getD_eq_getElem?_getD, getElem?_append_left (placed.length ▸ bound), getD_eq_getElem?_getD]
  have new : (state.entries ++ [e]).getD n {} = e := by
    rw [getD_eq_getElem?_getD, ← placed.length, getElem?_concat_length]
    rfl
  refine ⟨by simp [entries, placed.length], ?_, fun i bound => ?_, fun i bound => ?_⟩
  · rw [next, placed.next, rightsBefore_succ found, add_assoc]
  · rw [entries]
    rcases Nat.lt_succ_iff_lt_or_eq.mp bound with pre | rfl
    · rw [old i pre]
      exact placed.entry i pre
    · rw [new]
      exact ⟨slot, found, desc⟩
  · rw [entries, take_append_of_le_length (by have := placed.length; omega)]
    rcases Nat.lt_succ_iff_lt_or_eq.mp bound with pre | rfl
    · rw [old i pre]
      exact placed.vacant i pre
    · rw [new, ← placed.length, take_length]
      exact vacant

theorem describeEntry_placed (bound : n < l.entries.length) (placed : Placed l root first n state)
    (run : describeEntry k l root (stores l.entries) state n = .ok after) :
    Placed l root first (n + 1) after := by
  have found := getElem?_eq_getElem bound
  cases slot : l.entries[n] with
  | retired gen =>
    simp only [describeEntry, getD_eq_getElem?_getD, found, slot, getD_some, failIf_bind_ok, pure_ok] at run
    obtain ⟨ne, rfl⟩ := run
    have detached : has (DETACHED ||| RETIRED) DETACHED = true := by decide
    exact placed.push (.retired gen) (slot ▸ found) ⟨ne, rfl⟩ (by simp [placeTaken, detached]) rfl rfl
  | live mount =>
    simp only [describeEntry, getD_eq_getElem?_getD, found, slot, getD_some] at run
    obtain ⟨e, desc, vacant, entries, next⟩ := describeMount_ok run
    exact placed.push (.live mount) (slot ▸ found) (placed.next ▸ desc) vacant entries
      (by rw [next, Slot.rights, add_assoc])

/-- What a successful `describe` says about its manifest, the revision apart. -/
structure DescribedBy (l : MountLayout) (m : Manifest) : Prop where
  magic : m.header.magic = MountGraph.magic
  version : m.header.version = MountGraph.version
  unavailable : m.header.unavailable = 0
  small : l.entries.length ≤ fsMountsMax
  count : m.header.count.toNat = l.entries.length
  entriesLength : m.entries.length = l.entries.length
  storages : m.header.storages.toNat = (stores l.entries).length
  base : ¬ if m.header.baseDescriptor ≠ 0 then m.header.baseDescriptor ≠ 3
    else m.header.baseSource ≠ {} ∨ m.header.baseTarget ≠ {}
  entry : ∀ i < l.entries.length, ∃ slot, l.entries[i]? = some slot ∧
    SlotEntry l (stores l.entries) (firstDescriptor m.header + rightsBefore l i) i slot (m.entry i)
  vacant : ∀ i < l.entries.length, ¬ placeTaken m.header.root.toNat (m.entries.take i) (m.entry i)
  storage : m.storage =
    describeStorage (firstDescriptor m.header + rightsBefore l l.entries.length) (stores l.entries)
  ordered : topology m = .ok ()

theorem viewMountSlot_le {ref : MountRef} {count slot : Nat} (found : viewMountSlot ref count = some slot) :
    slot ≤ count := by
  cases ref with
  | null | base =>
    simp only [viewMountSlot, some.injEq] at found
    omega
  | slot idx =>
    simp only [viewMountSlot, ite_none_right_eq_some, some.injEq] at found
    omega

theorem toNat_ofNat_of_le {val : Nat} (small : val ≤ fsMountsMax) : (UInt32.ofNat val).toNat = val := by
  rw [UInt32.toNat_ofNat']
  have : fsMountsMax = 4096 := rfl
  omega

theorem describe_ok {g : GraphState} {d : Described} (run : describe k g l = .ok d) : DescribedBy l d.manifest := by
  simp only [describe, failIf_bind_ok] at run
  obtain ⟨small, -, -, run⟩ := run
  obtain ⟨policy, -, run⟩ := bind_ok.mp run
  obtain ⟨policyStat, -, run⟩ := bind_ok.mp run
  obtain ⟨pinStat, -, run⟩ := bind_ok.mp run
  rw [failIf_bind_ok] at run
  obtain ⟨slots, run⟩ := run
  obtain ⟨root, rootSlot⟩ := ne_none_iff_exists'.mp (not_or.mp slots).1
  obtain ⟨_, -, run⟩ := bind_ok.mp run
  obtain ⟨placed, loop, run⟩ := bind_ok.mp run
  obtain ⟨_, asc, run⟩ := bind_ok.mp run
  obtain rfl := pure_ok.mp run
  have bound : l.entries.length ≤ fsMountsMax := not_lt.mp small
  have rootSmall : root ≤ fsMountsMax := (viewMountSlot_le rootSlot).trans bound
  have owners := (length_stores_le l.entries).trans bound
  have first : (if l.base.source.isSome then 5 else 3) = if (if l.base.source.isSome then (3 : UInt32) else 0) ≠ 0
      then 5 else 3 := by
    cases l.base.source <;> rfl
  have final := foldlM_range_ok (Placed l root (if l.base.source.isSome then 5 else 3))
    ⟨rfl, rfl, by simp, by simp⟩
      (fun n state after bound placed step => describeEntry_placed bound placed (by simpa [rootSlot] using step)) loop
  refine ⟨rfl, rfl, rfl, bound, toNat_ofNat_of_le bound, final.length, toNat_ofNat_of_le owners, ?_, ?_, ?_, ?_, asc⟩
  · cases l.base.source <;> simp
  · simpa only [Manifest.entry, firstDescriptor, ← first] using final.entry
  · simpa [Manifest.entry, rootSlot, toNat_ofNat_of_le rootSmall] using final.vacant
  · simp only [firstDescriptor, ← first, rightsBefore, take_length]

theorem DescribedBy.published (desc : DescribedBy l m) (revision : UInt64) : DescribedBy l (m.published revision) := by
  obtain ⟨magic, version, unavailable, small, count, entriesLength, storages, base, entry, vacant, storage, asc⟩ := desc
  exact ⟨magic, version, unavailable, small, count, entriesLength, storages, base, entry, vacant, storage, asc⟩

variable {owners : List InodeLifetime} {next : Nat} {mount : ViewMount}

section

variable (desc : MountEntry l owners next i mount e)

include desc

theorem MountEntry.bits :
    FlagBits (providerFlag mount.provider) (mount.backing == .inode) (mount.backing == .proc) e.flags :=
  desc.flags ▸ flagWord_bits (providerFlag_mem _) ..

theorem MountEntry.backingFits :
    backingFits (providerFlag mount.provider) (mount.backing == .inode) (mount.backing == .proc) := by
  cases held : mount.provider with
  | none => cases mount.backing <;> rfl
  | some tree =>
    have portable := desc.provider tree held
    have host := mount.host_backing tree held
    cases kind : tree.kind <;>
      simp_all [MountGraph.backingFits, providerFlag, hostFsKind, procfsExport]

theorem MountEntry.rights : entryRights e.flags = (Slot.live mount).rights := by
  simp only [entryRights, desc.bits.providers, Slot.rights, add_right_inj]
  cases held : mount.provider with
  | none => rfl
  | some tree => cases kind : tree.kind <;> simp [providerFlag, kind] <;> decide

end

theorem pidNamespaceInode_ne_zero (space : Option {inode : UInt64 // inode ≠ 0}) : pidNamespaceInode space ≠ 0 := by
  cases space with
  | none => decide
  | some inode => exact inode.property

theorem MountEntry.storage_inode (desc : MountEntry l owners next i mount e) (used : e.storage ≠ 0) :
    mount.backing = .inode := by
  obtain ⟨num, idx, stored⟩ := desc.storage
  cases held : mount.storage with
  | none =>
    simp only [storageIndex, held, Except.ok.injEq] at idx
    subst idx
    exact absurd stored used
  | some owner =>
    simp only [storageIndex, held, failIf_bind_ok] at idx
    exact not_not.mp idx.1

theorem MountEntry.checkShape (desc : MountEntry l owners next i mount e) : checkShape e = .ok () := by
  have bits := desc.bits
  have fits := desc.backingFits
  have storage := desc.storage_inode
  simp only [MountGraph.checkShape, failIf_bind_ok, failIf_ok, bits.known, bits.inodeBit, bits.procBit, bits.type fits]
  refine ⟨?_, ?_, ?_, by simp⟩
  · simp [desc.generation]
    exact storage
  · rw [desc.procNamespace]
    have ne := pidNamespaceInode_ne_zero mount.pidNamespace
    have backing := bits.backing fits
    by_cases proc : mount.backing = .proc <;> simp [proc, ne, backing]
  · rw [bits.procfs, desc.procPolicy]
    cases held : mount.provider with
    | none => simp [providerFlag, HOST_PROCFS]
    | some tree =>
      have portable := desc.provider tree held
      cases kind : tree.kind with
      | procfs policy =>
        have valid := policy.property
        simp_all [providerFlag, procfsExport, hostFsKind]
      | sysfs | devfs | devices | other =>
        simp [providerFlag, procfsExport, kind, HOST_PROCFS, HOST_SYSFS, HOST_DEVFS, HOST_DEVICES]

end Shroot.MountGraph
