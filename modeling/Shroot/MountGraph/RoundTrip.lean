import Shroot.MountGraph.Accepted

namespace Shroot.MountGraph

open General List UInt32 Except

variable {owners : List InodeLifetime} {next i : Nat} {slot : Slot}

variable {l : MountLayout} {m : Manifest}

/-- No two mounts of the layout show different projections of one inode store. -/
def OneProjectionPerStore (l : MountLayout) : Prop :=
  ∀ a ∈ l.entries, ∀ b ∈ l.entries, ∀ x ∈ a.storage, ∀ y ∈ b.storage, x.root = y.root → x.scope = y.scope

variable {mount : ViewMount} {i : Nat}

theorem DescribedBy.retired_iff (desc : DescribedBy l m)
    (found : l.entries[i]? = some (.live mount)) : has (m.entry i).flags RETIRED = false := by
  obtain ⟨bound, -⟩ := List.getElem?_eq_some_iff.mp found
  obtain ⟨slot, same, spec⟩ := desc.entry i bound
  obtain rfl : Slot.live mount = slot := Option.mem_unique found same
  exact spec.bits.retired

variable {e : Entry}

theorem DescribedBy.parent_ok (desc : DescribedBy l m) (spec : MountEntry l owners next i mount e) :
    ¬ (e.parent ≠ 0 ∧ (e.parent > m.header.count ∨ has (m.entry (e.parent.toNat - 1)).flags RETIRED)) := by
  obtain ⟨idx, indexed, parent⟩ := spec.parent
  rintro ⟨linked, bad⟩
  cases ref : mount.parent with
  | null | base =>
    simp only [parentIndex, ref, ok.injEq] at indexed
    subst indexed
    exact linked parent
  | slot pos =>
    simp only [parentIndex, ref] at indexed
    split at indexed
    next above found =>
      obtain rfl : pos + 1 = idx := ok.inj indexed
      obtain ⟨bound, -⟩ := List.getElem?_eq_some_iff.mp found
      have val : e.parent.toNat = pos + 1 := by rw [parent, toNat_ofNat_of_le (by have := desc.small; omega)]
      rcases bad with beyond | gone
      · have := lt_iff_toNat_lt.mp beyond
        have := desc.count
        omega
      · rw [val, Nat.add_sub_cancel, desc.retired_iff found] at gone
        cases gone
    · cases indexed

theorem DescribedBy.samePlace_free (desc : DescribedBy l m) {j : Nat} (bound : i < l.entries.length) (prior : j < i) :
    ¬ samePlace m i j := by
  intro same
  have vacant := desc.vacant i bound
  have short : (m.entries.take i).length = i := by
    rw [length_take, desc.entriesLength]
    omega
  have other : (m.entries.take i).getD j {} = m.entry j := by simp [Manifest.entry, getD_eq_getElem?_getD, prior]
  apply vacant
  simp only [samePlace, Bool.and_eq_true] at same
  obtain ⟨⟨⟨⟨⟨attached, otherAttached⟩, notRoot⟩, otherNotRoot⟩, parent⟩, target⟩ := same
  simp only [placeTaken, short, Bool.and_eq_true, any_eq_true]
  refine ⟨⟨attached, notRoot⟩, j, mem_range.mpr prior, ?_⟩
  rw [other]
  exact ⟨⟨⟨otherAttached, otherNotRoot⟩, parent⟩, target⟩

theorem MountEntry.storage_number (small : l.entries.length ≤ fsMountsMax) (found : l.entries[i]? = some (.live mount))
    (spec : MountEntry l (stores l.entries) next i mount e) :
    e.storage.toNat ≤ (stores l.entries).length ∧ e.storage.toNat ≤ (stores (l.entries.take i)).length + 1 ∧
    (stores (l.entries.take (i + 1))).length =
      if e.storage.toNat = (stores (l.entries.take i)).length + 1 then (stores (l.entries.take i)).length + 1
      else (stores (l.entries.take i)).length := by
  obtain ⟨num, indexed, storage⟩ := spec.storage
  have total := (length_stores_le l.entries).trans small
  cases held : mount.storage with
  | none =>
    simp only [storageIndex, held, ok.injEq] at indexed
    subst indexed
    have zero : e.storage.toNat = 0 := by rw [storage]; rfl
    simp [zero, stores_take_succ found, addStore, Slot.storage, held]
  | some owner =>
    simp only [storageIndex, held, failIf_bind_ok, pure_ok] at indexed
    obtain ⟨-, -, rfl⟩ := indexed
    obtain ⟨old, sub, new⟩ := findIdx_owner found held
    rw [storage, toNat_ofNat_of_le (sub.trans total)]
    exact ⟨sub, old, new⟩

/-- The tally of the parser's entry loop at slot `i`. -/
def DescribedBy.tallyAt (_ : DescribedBy l m) (i : Nat) : Tally where
  owners := (stores (l.entries.take i)).length
  next := firstDescriptor m.header + rightsBefore l i

theorem firstDescriptor_le (h : Header) : firstDescriptor h ≤ 5 := by
  unfold firstDescriptor
  split <;> omega

theorem DescribedBy.checkEntry (desc : DescribedBy l m) (bound : i < l.entries.length) :
    checkEntry m (desc.tallyAt i) i = .ok (desc.tallyAt (i + 1)) := by
  obtain ⟨slot, found, spec⟩ := desc.entry i bound
  cases slot with
  | retired gen =>
    obtain ⟨ne, entry⟩ := spec
    have tally : desc.tallyAt (i + 1) = desc.tallyAt i := by
      simp [tallyAt, stores_take_succ found, addStore, Slot.storage, rightsBefore_succ found, Slot.rights]
    have shape : MountGraph.checkShape { flags := DETACHED ||| RETIRED, generation := gen } = .ok () := by
      have flags : has (DETACHED ||| RETIRED) (~~~knownFlags) = false ∧ has (DETACHED ||| RETIRED) PROC = false ∧
          has (DETACHED ||| RETIRED) HOST_PROCFS = false ∧
          (DETACHED ||| RETIRED) &&& (INODE ||| PROC) ≠ INODE ||| PROC ∧ typeBits (DETACHED ||| RETIRED) = 0 := by
        decide
      simp [MountGraph.checkShape, flags, ne]
    have retired : has (DETACHED ||| RETIRED) RETIRED = true := by decide
    simp [MountGraph.checkEntry, entry, shape, retired, tally, failIf, bind, Except.bind, pure, Except.pure]
  | live mount =>
    obtain ⟨sub, old, new⟩ := MountEntry.storage_number desc.small found spec
    have small := desc.small
    have rights := rightsBefore_le l i
    have first := firstDescriptor_le m.header
    have descriptor : (m.entry i).descriptor.toNat = firstDescriptor m.header + rightsBefore l i := by
      rw [spec.descriptor, toNat_ofNat']
      have : fsMountsMax = 4096 := rfl
      omega
    have storages : ¬ (m.entry i).storage > m.header.storages := by
      have := desc.storages
      rw [gt_iff_lt, lt_iff_toNat_lt]
      omega
    simp only [MountGraph.checkEntry, failIf_bind_ok, spec.checkShape]
    refine ⟨not_or.mpr ⟨storages, by simp only [tallyAt]; omega⟩, bind_ok.mpr ⟨(), rfl, ?_⟩⟩
    rw [if_neg (by simp [spec.bits.retired])]
    simp only [failIf_bind_ok, pure_ok]
    refine ⟨not_not.mpr descriptor, ?_, desc.parent_ok spec, ?_, ?_⟩
    · rintro ⟨noProvider, policy⟩
      rw [spec.bits.providers] at noProvider
      cases held : mount.provider with
      | none => exact policy (spec.superPolicy held)
      | some tree =>
        cases kind : tree.kind <;> simp [providerFlag, held, kind] at noProvider <;> revert noProvider <;> decide
    · rintro ⟨j, prior, same⟩
      exact desc.samePlace_free bound (mem_range.mp prior) same
    · rw [tallyAt, tallyAt, new, rightsBefore_succ found, spec.rights, Nat.add_assoc]

section

variable {slots : List Slot} {x : InodeLifetime}

theorem stores_concat (slots : List Slot) (slot : Slot) : stores (slots ++ [slot]) = addStore (stores slots) slot := by
  simp [stores]

theorem mem_addStore (mem : x ∈ addStore owners slot) : x ∈ owners ∨ x ∈ slot.storage := by
  unfold addStore at mem
  split at mem
  · exact .inl mem
  next owner held =>
    split at mem
    · exact .inl mem
    · rcases mem_append.mp mem with old | new
      · exact .inl old
      · obtain rfl : x = owner := by simpa using new
        exact .inr held

theorem mem_stores (mem : x ∈ stores slots) : ∃ slot ∈ slots, x ∈ slot.storage := by
  induction slots using reverseRecOn with
  | nil => cases mem
  | append_singleton slots slot ih =>
    rw [stores_concat] at mem
    rcases mem_addStore mem with old | new
    · obtain ⟨source, sub, stored⟩ := ih old
      exact ⟨source, by simp [sub], stored⟩
    · exact ⟨slot, by simp, new⟩

theorem stores_cover (mem : slot ∈ slots) (stored : x ∈ slot.storage) : ∃ y ∈ stores slots, inodeLifetimeSame x y := by
  induction slots using reverseRecOn with
  | nil => cases mem
  | append_singleton slots last ih =>
    rw [stores_concat]
    rcases mem_append.mp mem with old | new
    · obtain ⟨y, held, same⟩ := ih old
      exact ⟨y, (prefix_addStore last).subset held, same⟩
    · obtain rfl : slot = last := by simpa using new
      rw [Option.mem_def] at stored
      simp only [addStore, stored]
      split
      next known => simpa using known
      · exact ⟨x, by simp, inodeLifetimeSame_self x⟩

theorem stores_distinct (slots : List Slot) : (stores slots).Pairwise fun a b => ¬ inodeLifetimeSame b a := by
  induction slots using reverseRecOn with
  | nil => exact .nil
  | append_singleton slots slot ih =>
    rw [stores_concat]
    unfold addStore
    split
    · exact ih
    · split
      · exact ih
      next fresh =>
        refine pairwise_append.mpr ⟨ih, pairwise_singleton _ _, fun a old b new => ?_⟩
        obtain rfl := mem_singleton.mp new
        simp only [any_eq_true, not_exists, not_and] at fresh
        exact fresh a old

/-- One projection per store is what makes the roots of the numbered owners distinct. -/
theorem roots_distinct_iff : (stores l.entries).Pairwise (fun a b => a.root ≠ b.root) ↔ OneProjectionPerStore l := by
  constructor
  · intro nodup a inA b inB x storedX y storedY root
    obtain ⟨first, heldX, sameX⟩ := stores_cover inA storedX
    obtain ⟨two, heldY, sameY⟩ := stores_cover inB storedY
    rw [inodeLifetimeSame_iff] at sameX sameY
    have eq : first = two :=
      inj_on_of_nodup_map (pairwise_map.mpr nodup) heldX heldY (sameX.1.symm.trans (root.trans sameY.1))
    rw [sameX.2, sameY.2, eq]
  · intro one
    refine (stores_distinct l.entries).imp_of_mem fun {a b} heldA heldB differ root => differ ?_
    obtain ⟨slotA, inA, storedA⟩ := mem_stores heldA
    obtain ⟨slotB, inB, storedB⟩ := mem_stores heldB
    exact inodeLifetimeSame_iff.mpr ⟨root.symm, (one slotA inA slotB inB a storedA b storedB root).symm⟩

end

section

variable (desc : DescribedBy l m)

include desc

theorem DescribedBy.storage_at {owner : InodeLifetime} (found : (stores l.entries)[i]? = some owner) :
    let s := m.storage.getD i default
    s.root = owner.root ∧ s.count.toNat = inodeCustodyRights owner ∧ s.start.toNat =
      firstDescriptor m.header + rightsBefore l l.entries.length +
        (((stores l.entries).take i).map inodeCustodyRights).sum := by
  have small := desc.small
  have owners := length_stores_le l.entries
  have custody := sum_custody_le ((stores l.entries).take i)
  have short : ((stores l.entries).take i).length ≤ (stores l.entries).length := by
    rw [length_take]
    omega
  have rights := rightsBefore_le l l.entries.length
  have first := firstDescriptor_le m.header
  have bound := (inodeCustodyRights_bounds owner).2
  have limits : fsMountsMax = 4096 ∧ inodeCustodyFds = 547 := ⟨rfl, rfl⟩
  rw [desc.storage, describeStorage_at _ found]
  refine ⟨rfl, ?_, ?_⟩
  · rw [toNat_ofNat']
    omega
  · have fits : inodeCustodyFds * ((stores l.entries).take i).length ≤ 547 * 4096 := by
      exact Nat.mul_le_mul_left _ (by omega)
    rw [toNat_ofNat']
    omega

theorem DescribedBy.root_at (bound : i < (stores l.entries).length) :
    (m.storage.getD i default).root = (stores l.entries)[i].root :=
  (desc.storage_at (getElem?_eq_getElem bound)).1

theorem DescribedBy.checkStorages (one : OneProjectionPerStore l) :
    ∃ last, (range (stores l.entries).length).foldlM (checkStorage m)
      (firstDescriptor m.header + rightsBefore l l.entries.length) = .ok last := by
  suffices loop : ∃ last, (range (stores l.entries).length).foldlM (checkStorage m)
      (firstDescriptor m.header + rightsBefore l l.entries.length) = .ok last ∧
      last = firstDescriptor m.header + rightsBefore l l.entries.length +
        (((stores l.entries).take (stores l.entries).length).map inodeCustodyRights).sum from
    loop.imp fun _ held => held.1
  refine foldlM_range_succeeds _ (fun i next => next =
    firstDescriptor m.header + rightsBefore l l.entries.length +
      (((stores l.entries).take i).map inodeCustodyRights).sum) ?_ ?_
  · simp
  · rintro i next bound rfl
    have found := getElem?_eq_getElem bound
    obtain ⟨root, count, first⟩ := desc.storage_at found
    have rights := inodeCustodyRights_bounds (stores l.entries)[i]
    refine ⟨_, ?_, rfl⟩
    simp only [checkStorage, failIf_bind_ok, pure_ok, count]
    refine ⟨by omega, ?_, ?_⟩
    · rintro ⟨j, prior, same⟩
      have old := mem_range.mp prior
      rw [root, desc.root_at (old.trans bound)] at same
      exact pairwise_iff_getElem.mp (roots_distinct_iff.mpr one) j i _ bound old same.symm
    · rw [take_add_one, found, Option.toList_some, map_append, sum_append, map_singleton,
        sum_singleton, Nat.add_assoc _ (sum _)]

/-- The validator accepts a described manifest exactly when no store appears in two projections. -/
theorem DescribedBy.checkGraph_iff : checkGraph m = .ok () ↔ OneProjectionPerStore l := by
  have start : desc.tallyAt 0 = { owners := 0, next := firstDescriptor m.header } := by
    simp [tallyAt, stores, rightsBefore]
  obtain ⟨tally, entries, final⟩ := foldlM_range_succeeds (MountGraph.checkEntry m)
    (fun i tally => tally = desc.tallyAt i) start.symm
    fun i tally bound held => ⟨_, held ▸ desc.checkEntry bound, rfl⟩
  subst final
  have owners : (desc.tallyAt l.entries.length).owners = (stores l.entries).length := by simp [tallyAt]
  have count : m.count = l.entries.length := desc.count
  constructor
  · intro run
    simp only [checkGraph, failIf_bind_ok, count, entries] at run
    obtain ⟨-, run⟩ := run
    obtain ⟨_, same, run⟩ := bind_ok.mp run
    obtain rfl := ok.inj same
    rw [failIf_bind_ok] at run
    obtain ⟨-, run⟩ := run
    obtain ⟨last, storages, -⟩ := bind_ok.mp run
    rw [owners] at storages
    obtain ⟨-, nodup⟩ := checkStorages_ok storages
    refine roots_distinct_iff.mp (pairwise_iff_getElem.mpr fun j i inJ inI old same => ?_)
    apply nodup i inI j old
    rw [desc.root_at inI, desc.root_at inJ, same]
  · intro one
    obtain ⟨last, storages⟩ := desc.checkStorages one
    simp only [checkGraph, failIf_bind_ok, count, entries]
    refine ⟨desc.base, bind_ok.mpr ⟨_, rfl, ?_⟩⟩
    rw [failIf_bind_ok, owners, desc.storages]
    refine ⟨by simp, bind_ok.mpr ⟨last, storages, ?_⟩⟩
    rw [desc.ordered]
    rfl

end

/-- Reading back the bytes of a manifest whose arrays have the length its header says
leaves the graph checks. -/
theorem parseManifest_manifestBytes (good : DescribedBy l m) (revision : m.header.revision ≠ 0) :
    parseManifest (manifestBytes m) = (checkGraph m >>= fun _ => pure m) := by
  have storageLength : m.storage.length = m.header.storages.toNat := by
    rw [good.storage, length_describeStorage, good.storages]
  have entriesLength : m.entries.length = m.header.count.toNat := good.entriesLength.trans good.count.symm
  have headerLength := headerImage.length_encode m.header
  have entriesBytes := entryImage.length_encodeAll m.entries
  have storageBytes := storageImage.length_encodeAll m.storage
  have length : (manifestBytes m).length = manifestSize m.header := by
    simp only [manifestBytes, manifestSize, length_append, headerLength, entriesBytes, storageBytes, entriesLength,
      storageLength]
  have header : headerImage.decode ((manifestBytes m).take headerSize) = m.header := by
    rw [manifestBytes, append_assoc, take_left' headerLength, headerImage.decode_encode]
  have entries : entryImage.decodeAll m.header.count.toNat ((manifestBytes m).drop headerSize) = m.entries := by
    rw [manifestBytes, append_assoc, drop_left' headerLength, ← entriesLength, entryImage.decodeAll_encodeAll]
  have storage : storageImage.decodeAll m.header.storages.toNat
      ((manifestBytes m).drop (headerSize + m.header.count.toNat * entrySize)) = m.storage := by
    have front : (headerImage.encode m.header ++ entryImage.encodeAll m.entries).length =
        headerSize + m.header.count.toNat * entrySize := by
      rw [length_append, headerLength, entriesBytes, entriesLength]
    rw [manifestBytes, drop_left' front, ← storageLength, ← append_nil (storageImage.encodeAll _),
      storageImage.decodeAll_encodeAll]
  have long : ¬ manifestSize m.header < headerSize := by
    rw [manifestSize]
    omega
  have fits : m.header.storages.toNat ≤ m.header.count.toNat := by
    rw [good.storages, good.count]
    exact length_stores_le _
  have storages : ¬ m.header.storages > m.header.count := by
    rw [gt_iff_lt, UInt32.lt_iff_toNat_lt]
    omega
  have small : ¬ m.header.count.toNat > fsMountsMax := by
    have := good.small
    rw [good.count]
    omega
  simp only [parseManifest, header, entries, storage]
  simp [failIf, long, good.magic, good.version, storages, small, length, revision, good.unavailable, bind, Except.bind]

/-- A published graph reaches its readers unchanged exactly when no inode store is mounted in
two projections, and a graph that reaches them is a tree they can adopt. -/
theorem publishedManifest_round_trip (k : Kernel) (g : GraphState) (l : MountLayout) (d : Described) (revision : UInt64)
    (run : describe k g l = .ok d) (nonzero : revision ≠ 0) (bytes : List UInt8) (graph : Manifest) :
    ((∃ m, parseManifest (manifestBytes (d.manifest.published revision)) = .ok m ∧
      manifestSame (d.manifest.published revision) m) ↔ OneProjectionPerStore l) ∧
    (parseManifest bytes = .ok graph → graph.header.unavailable = 0 → WellFormed graph) := by
  refine ⟨?_, parseManifest_wellFormed⟩
  have good := (describe_ok run).published revision
  rw [parseManifest_manifestBytes good nonzero, ← good.checkGraph_iff]
  constructor
  · rintro ⟨m, accepted, -⟩
    obtain ⟨_, fine, -⟩ := bind_ok.mp accepted
    exact fine
  · intro fine
    exact ⟨_, bind_ok.mpr ⟨(), fine, rfl⟩, by simp [manifestSame]⟩

theorem sharedProjection_accepted :
    ∃ d, describe sampleKernel sampleGraph (sampleLayout 5 5) = .ok d ∧
      ∃ m, parseManifest (manifestBytes (d.manifest.published 1)) = .ok m ∧
        manifestSame (d.manifest.published 1) m := by
  refine ⟨_, rfl, (publishedManifest_round_trip sampleKernel sampleGraph (sampleLayout 5 5) _ 1 rfl (by decide)
    [] default).1.mpr ?_⟩
  intro a inA b inB x storedX y storedY _
  have scope : ∀ slot ∈ (sampleLayout 5 5).entries, ∀ owner ∈ slot.storage, owner.scope = [5] := by decide
  rw [scope a inA x storedX, scope b inB y storedY]

/-- Two projections of one store are described without an error and rejected on import. -/
theorem twoProjections_rejected :
    ∃ d, describe sampleKernel sampleGraph (sampleLayout 5 6) = .ok d ∧
      parseManifest (manifestBytes (d.manifest.published 1)) = .error .EPROTO := by
  have run : ∃ d, describe sampleKernel sampleGraph (sampleLayout 5 6) = .ok d ∧
      checkGraph (d.manifest.published 1) = .error .EPROTO := ⟨_, rfl, by decide +kernel⟩
  obtain ⟨d, good, rejected⟩ := run
  refine ⟨d, good, ?_⟩
  have revision : (d.manifest.published 1).header.revision ≠ 0 := (by decide : (1 : UInt64) ≠ 0)
  rw [parseManifest_manifestBytes ((describe_ok good).published 1) revision, rejected]
  rfl

end Shroot.MountGraph
