import Shroot.MountGraph.Import

namespace Shroot.MountGraph

open General List Except

variable {v v' : GraphView} {k : ImportKernel} {data : Manifest} {fds : List Fd} {owners : List InodeLifetime}
  {known : Described} {i : Nat} {slot : Slot}

section

/-- One slot of two manifests, the older first, that cannot both be right: its generation goes back, or the
mount of one generation comes back or becomes another. -/
def SlotConflict (old next : Manifest) (i : Nat) : Prop :=
  let a := old.entry i
  let b := next.entry i
  b.generation < a.generation ∨ (a.generation = b.generation ∧ ¬ has b.flags RETIRED ∧
      (has a.flags RETIRED ∨ otherObjects a b ∨ (a.storage ≠ 0 ∧ old.storageRoot a ≠ next.storageRoot b)))

/-- Two manifests of one graph, the older first, that cannot both be right. -/
def Conflict (old next : Manifest) : Prop :=
  old.header.rootPolicy ≠ next.header.rootPolicy ∨ old.header.pin ≠ next.header.pin ∨
    (old.header.baseDescriptor ≠ 0 ∧
      (next.header.baseDescriptor = 0 ∨ old.header.baseSource ≠ next.header.baseSource)) ∨
    ∃ i < min old.count next.count, SlotConflict old next i

variable {old next : Manifest}

theorem sameEntry_checks (old next : Manifest) (i : Nat) :
    Checks (SlotConflict old next i) .ESTALE (sameEntry old next i) := by
  unfold sameEntry SlotConflict
  dsimp only
  split_ifs with back later retired gone
  · exact .inr ⟨rfl, .inl back⟩
  · exact .inl ⟨rfl, by grind⟩
  · exact .inl ⟨rfl, by grind⟩
  · exact .inr ⟨rfl, by grind⟩
  · exact (Checks.failIf.bind Checks.failIf).congr (by grind)

theorem sameOrdered_checks (old next : Manifest) : Checks (Conflict old next) .ESTALE (sameOrdered old next) := by
  have slots := Checks.forM (sameEntry_checks old next) (range (min old.count next.count))
  exact (Checks.failIf.bind (Checks.failIf.bind slots)).congr (by simp [Conflict, or_assoc])

/-- Two manifests conflict in the order of their revisions. -/
def Conflicting (a b : Manifest) : Prop := if a.header.revision > b.header.revision then Conflict b a else Conflict a b

theorem sameObjects_checks (a b : Manifest) : Checks (Conflicting a b) .ESTALE (sameObjects a b) := by
  unfold sameObjects Conflicting
  split
  · exact sameOrdered_checks b a
  · exact sameOrdered_checks a b

end

/-- A foreign view whose slots are those of its manifest. -/
structure Agrees (v : GraphView) : Prop where
  foreign : v.writer = false
  revision : v.graph.revision = v.manifest.header.revision
  length : v.layout.entries.length = v.manifest.count
  slots : ∀ (i : Nat) slot, v.layout.entries[i]? = some slot →
    slot.generation = (v.manifest.entry i).generation ∧ slot.isLive = !has (v.manifest.entry i).flags RETIRED

theorem Agrees.bound (agrees : Agrees v) (is : v.layout.entries[i]? = some slot) :
    i < v.manifest.count := agrees.length ▸ (List.getElem?_eq_some_iff.mp is).1

theorem importMount_gives (k : ImportKernel) (fds : List Fd) (owners : List InodeLifetime) (m : Manifest) (i : Nat) :
    Gives (fun slot => slot.generation = (m.entry i).generation ∧ slot.isLive = !has (m.entry i).flags RETIRED)
      (importMount k fds owners m i) := by
  refine .ite (fun gone => .pure (by simp [gone, Slot.generation, Slot.isLive])) fun live => ?_
  iterate 7 refine .bind fun _ _ => ?_
  split
  · exact .pure (by simp [live, Slot.generation, Slot.isLive])
  · exact .error

theorem importView_ok {m : Manifest}
    (run : importView k fds owners m = .ok v) : Agrees v ∧ v.manifest = m ∧ v.graph.revision = m.header.revision := by
  simp only [importView, bind_ok, pure_ok] at run
  obtain ⟨_, -, _, -, _, -, links, -, _, -, slots, made, base, -, rfl⟩ := run
  obtain ⟨length, each⟩ := mapM_ok made
  rw [length_range] at length
  refine ⟨⟨rfl, rfl, length, fun i slot is => ?_⟩, rfl, rfl⟩
  have bound : i < m.count := length ▸ (List.getElem?_eq_some_iff.mp is).1
  obtain ⟨slot', there, into⟩ := each i i (by rw [getElem?_range bound])
  obtain rfl := Option.mem_unique there is
  exact importMount_gives k fds owners m i _ into

theorem describe_revision {k : Kernel} {g : GraphState} {l : MountLayout} {d : Described}
    (run : describe k g l = .ok d) :
    d.manifest.header.revision = g.revision := by
  simp only [describe, bind_ok, pure_ok] at run
  obtain ⟨_, -, _, -, _, -, _, -, _, -, _, -, _, -, _, -, _, -, _, -, rfl⟩ := run
  rfl

section

variable {next : GraphView}

/-- A view after something happened to it: neither the graph nor a slot is older. -/
structure Follows (v v' : GraphView) : Prop where
  revision : v.graph.revision ≤ v'.graph.revision
  slots : ∀ (i : Nat) slot, v.layout.entries[i]? = some slot → ∃ slot', v'.layout.entries[i]? = some slot' ∧
    slot.generation ≤ slot'.generation

/-- What an anchor holds is neither replaced nor retired. -/
def Held (v v' : GraphView) : Prop :=
  ∀ (i : Nat) slot, v.layout.entries[i]? = some slot → v.anchors i ≠ 0 →
    ∃ slot', v'.layout.entries[i]? = some slot' ∧ slot'.generation = slot.generation ∧ slot'.isLive = slot.isLive ∧
      v'.anchors i = v.anchors i

theorem Follows.refl (v : GraphView) : Follows v v := ⟨UInt64.le_refl _, fun _ slot is => ⟨slot, is, UInt64.le_refl _⟩⟩

theorem Follows.trans {a b c : GraphView} (first : Follows a b) (two : Follows b c) : Follows a c := by
  refine ⟨UInt64.le_trans first.revision two.revision, fun i slot is => ?_⟩
  obtain ⟨mid, there, le⟩ := first.slots i slot is
  obtain ⟨slot', new, le'⟩ := two.slots i mid there
  exact ⟨slot', new, UInt64.le_trans le le'⟩

theorem Held.refl (v : GraphView) : Held v v := fun _ slot is _ => ⟨slot, is, rfl, rfl, rfl⟩

theorem mergeSlot_slot (old : Option Slot) (slot : Slot) :
    (mergeSlot old slot).1.generation = slot.generation ∧ (mergeSlot old slot).1.isLive = slot.isLive := by
  unfold mergeSlot
  split
  · split
    next same => exact ⟨same, rfl⟩
    · exact ⟨rfl, rfl⟩
  · exact ⟨rfl, rfl⟩

theorem mergeSlot_kept {next : Slot} (live : slot.isLive) (nextLive : next.isLive)
    (same : next.generation = slot.generation) :
    (mergeSlot (some slot) next).2 = false := by
  cases slot with
  | retired gen => cases live
  | live a =>
    cases next with
    | retired gen => cases nextLive
    | live b =>
      have eq : a.generation = b.generation := same.symm
      simp only [mergeSlot, eq, if_true]

theorem heldSlot_free {old new : Manifest} (free : ¬ heldSlot v old new i) (anchored : v.anchors i ≠ 0) :
    (old.entry i).generation = (new.entry i).generation ∧ ¬ has (new.entry i).flags RETIRED := by
  simp only [heldSlot, Bool.and_eq_true, Bool.or_eq_true, bne_iff_ne, ne_eq, not_and] at free
  constructor
  · by_contra replaced
    exact free (.inl replaced) anchored
  · intro gone
    exact free (.inr gone) anchored

theorem mergedSlots (into : Agrees next) (i : Nat) (bound : i < next.manifest.count) :
    ∃ slot, next.layout.entries[i]? = some slot ∧
      ((range next.manifest.count).map fun i =>
        mergeSlot v.layout.entries[i]? (next.layout.entries.getD i (.retired 0)))[i]? =
        some (mergeSlot v.layout.entries[i]? slot) := by
  have fits : i < next.layout.entries.length := by rwa [into.length]
  refine ⟨next.layout.entries[i], getElem?_eq_getElem fits, ?_⟩
  rw [getElem?_map, getElem?_range bound, Option.map_some, getD_eq_getElem?_getD, getElem?_eq_getElem fits,
    Option.getD_some]

/-- A newer manifest that is merged keeps the view in step with it. -/
theorem mergeKnown_ok (agrees : Agrees v) (into : Agrees next) (newer : v.graph.revision < next.graph.revision)
    (run : mergeKnown k v next v.manifest next.manifest = .ok v') : Agrees v' ∧ Follows v v' ∧ Held v v' := by
  simp only [mergeKnown, bind_ok, failIf_ok, pure_ok] at run
  obtain ⟨_, same, _, grown, _, free, _, -, rfl⟩ := run
  have order : ¬ v.manifest.header.revision > next.manifest.header.revision := by
    rw [← agrees.revision, ← into.revision]
    exact UInt64.not_lt.mpr (UInt64.le_of_lt newer)
  have fine : ∀ i < v.manifest.count, ¬ SlotConflict v.manifest next.manifest i := by
    intro i bound conflict
    have agreeing := (sameObjects_checks v.manifest next.manifest).ok_iff.mp same
    rw [Conflicting, if_neg order] at agreeing
    exact agreeing (.inr (.inr (.inr ⟨i, by omega, conflict⟩)))
  refine ⟨⟨agrees.foreign, into.revision, by simp, fun i slot is => ?_⟩, ⟨UInt64.le_of_lt newer, fun i slot is => ?_⟩,
    fun i slot is anchored => ?_⟩
  · have bound : i < next.manifest.count := by simpa using (List.getElem?_eq_some_iff.mp is).1
    obtain ⟨other, there, atI⟩ := mergedSlots (v := v) into i bound
    rw [getElem?_map, atI, Option.map_some] at is
    obtain rfl := Option.some.inj is
    obtain ⟨gen, live⟩ := mergeSlot_slot v.layout.entries[i]? other
    rw [gen, live]
    exact into.slots i other there
  · have bound := agrees.bound is
    obtain ⟨other, there, atI⟩ := mergedSlots (v := v) into i (by omega)
    refine ⟨(mergeSlot v.layout.entries[i]? other).1, by rw [getElem?_map, atI, Option.map_some], ?_⟩
    rw [(mergeSlot_slot _ other).1, (agrees.slots i slot is).1, (into.slots i other there).1]
    exact UInt64.not_lt.mp fun lower => fine i bound (.inl lower)
  · have bound := agrees.bound is
    obtain ⟨other, there, atI⟩ := mergedSlots (v := v) into i (by omega)
    obtain ⟨oldGeneration, oldLive⟩ := agrees.slots i slot is
    obtain ⟨newGeneration, newLive⟩ := into.slots i other there
    obtain ⟨gen, notRetired⟩ := heldSlot_free (fun held => free ⟨i, mem_range.mpr bound, held⟩) anchored
    have wasLive : ¬ has (v.manifest.entry i).flags RETIRED :=
      fun gone => fine i bound (.inr ⟨gen, notRetired, .inl gone⟩)
    have slotLive : slot.isLive = true := by rw [oldLive, Bool.not_eq_true _ |>.mp wasLive, Bool.not_false]
    have otherLive : other.isLive = true := by rw [newLive, Bool.not_eq_true _ |>.mp notRetired, Bool.not_false]
    have same : other.generation = slot.generation := by rw [newGeneration, ← gen, oldGeneration]
    refine ⟨(mergeSlot v.layout.entries[i]? other).1, by rw [getElem?_map, atI, Option.map_some], ?_, ?_, ?_⟩
    · rw [(mergeSlot_slot _ other).1, same]
    · rw [(mergeSlot_slot _ other).2, otherLive, slotLive]
    · dsimp only
      rw [atI, is, Option.map_some, Option.getD_some, mergeSlot_kept slotLive otherLive same]
      rfl

end

/-- A manifest that is not what the graph's owner published before or after what is known. -/
def Disagrees (known data : Manifest) : Prop :=
  (known.header.revision = data.header.revision ∧ ¬ manifestSame known data) ∨ Conflicting known data

theorem disagrees_checks (known data : Manifest) : Checks (Disagrees known data) .ESTALE (do
    failIf (known.header.revision = data.header.revision ∧ ¬ manifestSame known data) .ESTALE
    sameObjects known data) :=
  Checks.failIf.bind (sameObjects_checks known data)

theorem importKnownView_eq (desc : describe k.toKernel v.graph v.layout = .ok known) :
    importKnownView k fds owners v data = ((do
      failIf (known.manifest.header.revision = data.header.revision ∧ ¬ manifestSame known.manifest data) .ESTALE
      sameObjects known.manifest data) >>= fun _ => do
        failIf (v.graph.revision < data.header.revision ∧ v.writer) .ESTALE
        if data.header.revision ≤ v.graph.revision then return v
        let next ← importView k fds owners data
        k.reread
        mergeKnown k v next v.manifest data) := by
  have revision := describe_revision desc
  simp only [importKnownView, desc, ok_bind, bind_assoc, revision, ge_iff_le]

/-- What `import_known` answers to a manifest whose revision the view has reached. -/
theorem importKnownView_old (desc : describe k.toKernel v.graph v.layout = .ok known)
    (old : data.header.revision ≤ v.graph.revision) :
    (importKnownView k fds owners v data = .error .ESTALE ∧ Disagrees known.manifest data) ∨
      (importKnownView k fds owners v data = .ok v ∧ ¬ Disagrees known.manifest data) := by
  have notNewer : ¬ (v.graph.revision < data.header.revision ∧ v.writer) := fun both => UInt64.not_lt.mpr old both.1
  rw [importKnownView_eq desc]
  rcases disagrees_checks known.manifest data with ⟨run, fine⟩ | ⟨run, conflict⟩
  · refine .inr ⟨?_, fine⟩
    rw [run]
    exact failIf_bind_ok.mpr ⟨notNewer, if_pos old⟩
  · rw [run]
    exact .inl ⟨rfl, conflict⟩

theorem importKnownView_ok (run : importKnownView k fds owners v data = .ok v') :
    v' = v ∨ (v.graph.revision < data.header.revision ∧ ∃ next, importView k fds owners data = .ok next ∧
      mergeKnown k v next v.manifest data = .ok v') := by
  obtain ⟨known, desc, -⟩ := bind_ok.mp run
  rw [importKnownView_eq desc] at run
  obtain ⟨_, -, run⟩ := bind_ok.mp run
  obtain ⟨-, run⟩ := failIf_bind_ok.mp run
  split at run
  · exact .inl (pure_ok.mp run).symm
  next newer =>
    obtain ⟨next, made, run⟩ := bind_ok.mp run
    obtain ⟨_, -, run⟩ := bind_ok.mp run
    exact .inr ⟨UInt64.not_le.mp newer, next, made, run⟩

theorem graphImport_ok {out : Option GraphView} (run : graphImport k fds out = .ok v') :
    ∃ data owners, readManifest k (fdAt fds 0) = .ok data ∧
      ((∃ v, out = some v ∧ importKnownView k fds owners v data = .ok v') ∨
        (out = none ∧ importView k fds owners data = .ok v')) := by
  simp only [graphImport, bind_ok] at run
  obtain ⟨_, -, _, -, data, read, run⟩ := run
  unfold importKnown at run
  dsimp only at run
  split at run
  · obtain ⟨-, run⟩ := failIf_bind_ok.mp run
    obtain ⟨_, -, run⟩ := bind_ok.mp run
    obtain ⟨-, run⟩ := failIf_bind_ok.mp run
    cases run
  · obtain ⟨owners, -, run⟩ := bind_ok.mp run
    refine ⟨data, owners, read, ?_⟩
    cases out with
    | none => exact .inr ⟨rfl, run⟩
    | some v => exact .inl ⟨v, rfl, run⟩

theorem graphImport_some (run : graphImport k fds (some v) = .ok v') :
    ∃ data owners, readManifest k (fdAt fds 0) = .ok data ∧ (v' = v ∨ (v.graph.revision < data.header.revision ∧
      ∃ next, importView k fds owners data = .ok next ∧ mergeKnown k v next v.manifest data = .ok v')) := by
  obtain ⟨data, owners, read, ⟨_, same, run⟩ | ⟨gone, -⟩⟩ := graphImport_ok run
  · obtain rfl := Option.some.inj same
    exact ⟨data, owners, read, importKnownView_ok run⟩
  · cases gone

theorem graphImport_known (agrees : Agrees v) (run : graphImport k fds (some v) = .ok v') :
    Agrees v' ∧ Follows v v' ∧ Held v v' := by
  obtain ⟨data, owners, -, rfl | ⟨newer, next, made, run⟩⟩ := graphImport_some run
  · exact ⟨agrees, Follows.refl _, .refl _⟩
  · obtain ⟨into, rfl, revision⟩ := importView_ok made
    rw [← revision] at newer
    exact mergeKnown_ok agrees into newer run

theorem graphImport_old (read : readManifest k (fdAt fds 0) = .ok data) (old : data.header.revision ≤ v.graph.revision)
    (run : graphImport k fds (some v) = .ok v') : v' = v := by
  obtain ⟨data', owners, again, rfl | ⟨newer, -⟩⟩ := graphImport_some run
  · rfl
  · obtain rfl : data = data' := ok.inj (read.symm.trans again)
    exact absurd newer (UInt64.not_lt.mpr old)

theorem graphSync_ok (run : graphSync k s v = .ok v') :
    ∃ synced, (synced = v ∨ ∃ fds, graphImport k fds (some v) = .ok synced) ∧
      ∃ observed, v' = { synced with observed := observed } := by
  unfold graphSync at run
  split at run
  · exact ⟨v, .inl rfl, v.observed, (pure_ok.mp run).symm⟩
  obtain ⟨sequence, -, run⟩ := bind_ok.mp run
  split at run
  · exact ⟨v, .inl rfl, v.observed, (pure_ok.mp run).symm⟩
  obtain ⟨-, run⟩ := failIf_bind_ok.mp run
  obtain ⟨synced, taken, run⟩ := bind_ok.mp run
  refine ⟨synced, ?_, if s.settled then sequence else synced.observed, ?_⟩
  · obtain ⟨⟨revision, fds⟩, -, taken⟩ := bind_ok.mp taken
    obtain ⟨-, taken⟩ := failIf_bind_ok.mp taken
    split at taken
    · exact .inl (pure_ok.mp taken).symm
    · obtain ⟨-, taken⟩ := failIf_bind_ok.mp taken
      obtain ⟨reader, -, taken⟩ := bind_ok.mp taken
      exact .inr ⟨_, taken⟩
  · rw [← pure_ok.mp run]
    split <;> rfl

/-- The mount that `detach` leaves to a foreign view. -/
def Slot.detach : Slot → Slot
  | .retired gen => .retired gen
  | .live mount => .live { mount with detached := true, links := ⟨0, 0, 0⟩ }

/-- `detach`: a reader that finds a mount point deleted marks what stood on it. -/
def GraphView.detach (v : GraphView) (base : Bool) (removed : Nat → Bool) : GraphView :=
  { v with
    layout :=
      { v.layout with
        base := if base then { v.layout.base with detached := true, links := ⟨0, 0, 0⟩ } else v.layout.base
        entries := v.layout.entries.mapIdx fun i slot => if removed i then slot.detach else slot } }

/-- What happens to a foreign view, with whatever the system answers. -/
inductive GraphEvent where
  | received (k : ImportKernel) (fds : List Fd)
  | synced (k : ImportKernel) (s : Stream)
  | anchored (slot count : Nat)
  | detached (base : Bool) (removed : Nat → Bool)

def happen (out : Option GraphView) : GraphEvent → Option GraphView
  | .received k fds =>
    match graphImport k fds out with
    | .ok v => some v
    | .error _ => out
  | .synced k s =>
    out.map fun v =>
      match graphSync k s v with
      | .ok v' => v'
      | .error _ => v
  | .anchored slot count => out.map fun v => { v with anchors := Function.update v.anchors slot count }
  | .detached base removed => out.map fun v => v.detach base removed

def run (out : Option GraphView) (events : List GraphEvent) : Option GraphView := events.foldl happen out

theorem detach_slot (slot : Slot) : slot.detach.generation = slot.generation ∧ slot.detach.isLive = slot.isLive := by
  cases slot <;> exact ⟨rfl, rfl⟩

theorem steady_of_slots (v' : GraphView) (agrees : Agrees v) (change : Nat → Slot → Slot)
    (same : ∀ i slot, (change i slot).generation = slot.generation ∧ (change i slot).isLive = slot.isLive)
    (graph : v'.graph = v.graph) (writer : v'.writer = v.writer) (manifest : v'.manifest = v.manifest)
    (entries : v'.layout.entries = v.layout.entries.mapIdx change) :
    Agrees v' ∧ Follows v v' ∧ (v'.anchors = v.anchors → Held v v') := by
  have slots : ∀ i : Nat, v'.layout.entries[i]? = v.layout.entries[i]?.map (change i) := by simp [entries]
  refine ⟨⟨?_, ?_, ?_, fun i slot is => ?_⟩, ⟨by rw [graph]; exact UInt64.le_refl _, fun i slot is => ?_⟩,
    fun anchors i slot is _ => ?_⟩
  · rw [writer, agrees.foreign]
  · rw [graph, manifest, agrees.revision]
  · rw [entries, length_mapIdx, agrees.length, manifest]
  · rw [slots] at is
    obtain ⟨old, was, rfl⟩ := Option.map_eq_some_iff.mp is
    rw [(same i old).1, (same i old).2, manifest]
    exact agrees.slots i old was
  · exact ⟨change i slot, by rw [slots, is]; rfl, (same i slot).1 ▸ UInt64.le_refl _⟩
  · exact ⟨change i slot, by rw [slots, is]; rfl, (same i slot).1, (same i slot).2, by rw [anchors]⟩

/-- One event leaves a view that agrees with its manifest and that follows the one before. -/
theorem happen_steady (agrees : Agrees v) (event : GraphEvent) :
    ∃ v', happen (some v) event = some v' ∧ Agrees v' ∧ Follows v v' ∧
      ((∀ slot count, event ≠ .anchored slot count) → Held v v') := by
  cases event with
  | received k fds =>
    cases run : graphImport k fds (some v) with
    | ok v' =>
      obtain ⟨agrees', follows, held⟩ := graphImport_known agrees run
      exact ⟨v', by simp only [happen, run], agrees', follows, fun _ => held⟩
    | error e => exact ⟨v, by simp only [happen, run], agrees, Follows.refl _, fun _ => .refl _⟩
  | synced k s =>
    cases run : graphSync k s v with
    | ok v' =>
      obtain ⟨mid, taken, observed, rfl⟩ := graphSync_ok run
      have steady : Agrees mid ∧ Follows v mid ∧ Held v mid := by
        rcases taken with rfl | ⟨fds, taken⟩
        · exact ⟨agrees, Follows.refl _, .refl _⟩
        · exact graphImport_known agrees taken
      obtain ⟨agrees', follows, held⟩ := steady
      refine ⟨{ mid with observed := observed }, by simp only [happen, Option.map_some, run], ?_, ?_, fun _ => held⟩
      · exact ⟨agrees'.foreign, agrees'.revision, agrees'.length, agrees'.slots⟩
      · exact ⟨follows.revision, follows.slots⟩
    | error e => exact ⟨v, by simp only [happen, Option.map_some, run], agrees, Follows.refl _, fun _ => .refl _⟩
  | anchored slot count =>
    obtain ⟨agrees', follows, -⟩ := steady_of_slots { v with anchors := Function.update v.anchors slot count } agrees
      (fun _ slot => slot) (fun _ _ => ⟨rfl, rfl⟩) rfl rfl rfl (by simp [mapIdx_eq_zipIdx_map])
    exact ⟨_, rfl, agrees', follows, fun other => absurd rfl (other slot count)⟩
  | detached base gone =>
    have same : ∀ i (slot : Slot), (if gone i then slot.detach else slot).generation = slot.generation ∧
        (if gone i then slot.detach else slot).isLive = slot.isLive := by
      intro i slot
      split
      · exact detach_slot slot
      · exact ⟨rfl, rfl⟩
    obtain ⟨agrees', follows, held⟩ := steady_of_slots (v.detach base gone) agrees _ same rfl rfl rfl rfl
    exact ⟨_, rfl, agrees', follows, fun _ => held rfl⟩

theorem run_steady (agrees : Agrees v) (events : List GraphEvent) :
    ∃ v', run (some v) events = some v' ∧ Agrees v' ∧ Follows v v' := by
  induction events generalizing v with
  | nil => exact ⟨v, rfl, agrees, Follows.refl v⟩
  | cons event rest ih =>
    obtain ⟨mid, step, agrees', follows, -⟩ := happen_steady agrees event
    obtain ⟨v', later, agrees'', follows'⟩ := ih agrees'
    refine ⟨v', ?_, agrees'', follows.trans follows'⟩
    rw [run, foldl_cons, step]
    exact later

theorem run_agrees (events : List GraphEvent) (got : run none events = some v) : Agrees v := by
  induction events with
  | nil => cases got
  | cons event rest ih =>
    have gone : happen none event = none → Agrees v := fun step => ih (by rwa [run, foldl_cons, step] at got)
    cases event with
    | received k fds =>
      cases first : graphImport k fds none with
      | ok made =>
        obtain ⟨data, owners, -, ⟨_, absurdity, -⟩ | ⟨-, into⟩⟩ := graphImport_ok first
        · cases absurdity
        · obtain ⟨v', later, agrees, -⟩ := run_steady (importView_ok into).1 rest
          have step : happen none (.received k fds) = some made := by simp only [happen, first]
          rw [run, foldl_cons, step] at got
          obtain rfl := Option.mem_unique got later
          exact agrees
      | error e => exact gone (by simp only [happen, first])
    | synced k s => exact gone rfl
    | anchored slot count => exact gone rfl
    | detached base removed => exact gone rfl

/-- A manifest whose rights are in order, offered to a view that can be described. -/
structure Offered (k : ImportKernel) (fds : List Fd) (v : GraphView) (data : Manifest) (owners : List InodeLifetime)
    (known : Described) : Prop where
  sized : fds ≠ [] ∧ fds.length ≤ mountGraphFds
  rights : validateRights k fds = .ok ()
  read : readManifest k (fdAt fds 0) = .ok data
  available : data.header.unavailable = 0
  checked : checkRights k fds (some v) data = .ok owners
  described : describe k.toKernel v.graph v.layout = .ok known

/-- A newer manifest that only an anchor can be in the way of. -/
structure Mergeable (k : ImportKernel) (fds : List Fd) (v : GraphView) (data : Manifest) (owners : List InodeLifetime)
    (known : Described) : Prop where
  newer : v.graph.revision < data.header.revision
  agreeing : ¬ Disagrees known.manifest data
  made : ∃ next, importView k fds owners data = .ok next
  reread : k.reread = .ok ()
  following : ¬ Conflicting v.manifest data
  grown : v.manifest.count ≤ data.count

theorem Offered.answer (offered : Offered k fds v data owners known) :
    graphImport k fds (some v) = importKnownView k fds owners v data := by
  have bounded : ¬ (fds = [] ∨ fds.length > mountGraphFds) := by
    rintro (empty | long)
    · exact offered.sized.1 empty
    · exact absurd offered.sized.2 (by omega)
  have present : ¬ data.header.unavailable ≠ 0 := fun other => other offered.available
  simp only [graphImport, failIf, if_neg bounded, offered.rights, offered.read, importKnown, if_neg present,
    offered.checked, bind, Except.bind]

theorem Mergeable.busy (agrees : Agrees v) (desc : describe k.toKernel v.graph v.layout = .ok known)
    (mergeable : Mergeable k fds v data owners known) (bound : i < v.manifest.count)
    (held : heldSlot v v.manifest data i) :
    importKnownView k fds owners v data = .error .EBUSY := by
  obtain ⟨next, made⟩ := mergeable.made
  have agreeing := (disagrees_checks known.manifest data).ok_iff.mpr mergeable.agreeing
  have same := (sameObjects_checks v.manifest data).ok_iff.mpr mergeable.following
  have newer : ¬ data.header.revision ≤ v.graph.revision := UInt64.not_le.mpr mergeable.newer
  have grown : ¬ v.manifest.count > data.count := Nat.not_lt.mpr mergeable.grown
  have busy : ∃ i < v.manifest.count, heldSlot v v.manifest data i := ⟨i, bound, held⟩
  rw [importKnownView_eq desc, agreeing]
  simp [failIf, ok_bind, error_bind, agrees.foreign, newer, made, mergeable.reread, mergeKnown, same, grown, busy]

/-- A slot that an anchor holds stops a manifest that takes the slot's mount away. -/
theorem graphImport_held (agrees : Agrees v) (is : v.layout.entries[i]? = some slot) (anchored : v.anchors i ≠ 0)
    (read : readManifest k (fdAt fds 0) = .ok data)
    (taken : (data.entry i).generation ≠ slot.generation ∨ has (data.entry i).flags RETIRED)
    (run : graphImport k fds (some v) = .ok v') : v' = v := by
  obtain ⟨data', owners, again, rfl | ⟨-, next, -, merged⟩⟩ := graphImport_some run
  · rfl
  · obtain rfl : data = data' := ok.inj (read.symm.trans again)
    obtain ⟨_, -, merged⟩ := bind_ok.mp merged
    obtain ⟨-, merged⟩ := failIf_bind_ok.mp merged
    obtain ⟨free, -⟩ := failIf_bind_ok.mp merged
    obtain ⟨gen, notRetired⟩ := heldSlot_free (fun held => free ⟨i, mem_range.mpr (agrees.bound is), held⟩) anchored
    rcases taken with other | gone
    · exact absurd (gen.symm.trans (agrees.slots i slot is).1.symm) other
    · exact absurd gone notRetired

/-- How a foreign view answers to whatever it receives from here on. -/
structure Steady (v : GraphView) : Prop where
  forward : ∀ later, ∃ v', run (some v) later = some v' ∧ Follows v v'
  old : ∀ k fds data, readManifest k (fdAt fds 0) = .ok data → data.header.revision ≤ v.graph.revision →
    happen (some v) (.received k fds) = some v
  stale : ∀ k fds data owners known, Offered k fds v data owners known → data.header.revision ≤ v.graph.revision →
    (graphImport k fds (some v) = .error .ESTALE ↔ Disagrees known.manifest data)
  oldSnapshot : ∀ k s revision fds, s.snapshot = .ok (revision, fds) → revision < v.graph.revision →
    happen (some v) (.synced k s) = some v ∧
      ∀ sequence, s.sequence = .ok sequence → v.observed < sequence → graphSync k s v = .error .ESTALE
  held : ∀ event, (∀ slot count, event ≠ .anchored slot count) → ∃ v', happen (some v) event = some v' ∧ Held v v'
  taken : ∀ (i : Nat) slot, v.layout.entries[i]? = some slot → v.anchors i ≠ 0 →
    ∀ k fds data, readManifest k (fdAt fds 0) = .ok data →
    (data.entry i).generation ≠ slot.generation ∨
      has (data.entry i).flags RETIRED → happen (some v) (.received k fds) = some v ∧
        ∀ owners known, Offered k fds v data owners known → Mergeable k fds v data owners known →
          graphImport k fds (some v) = .error .EBUSY

theorem received_same (same : ∀ v', graphImport k fds (some v) = .ok v' → v' = v) :
    happen (some v) (.received k fds) = some v := by
  cases run : graphImport k fds (some v) with
  | ok v' => simp only [happen, run, same v' run]
  | error e => simp only [happen, run]

theorem oldSnapshot_stale (foreign : v.writer = false) {s : Stream} {revision : UInt64}
    (snapshot : s.snapshot = .ok (revision, fds)) (old : revision < v.graph.revision) :
    happen (some v) (.synced k s) = some v ∧
    ∀ sequence, s.sequence = .ok sequence → v.observed < sequence → graphSync k s v = .error .ESTALE := by
  have bad : syncSnapshot k s v = .error .ESTALE := by
    simp only [syncSnapshot, snapshot, failIf, if_pos old, bind, Except.bind]
  constructor
  · cases run : graphSync k s v with
    | error e => simp only [happen, Option.map_some, run]
    | ok v' =>
      suffices v' = v by simp only [happen, Option.map_some, run, this]
      unfold graphSync at run
      rw [foreign, bad] at run
      obtain ⟨sequence, -, run⟩ := bind_ok.mp run
      split at run
      · exact (pure_ok.mp run).symm
      · obtain ⟨-, run⟩ := failIf_bind_ok.mp run
        cases run
  · intro sequence answer later
    have other : ¬ sequence = v.observed := fun same => UInt64.lt_irrefl _ (same ▸ later)
    have forward : ¬ sequence < v.observed := UInt64.not_lt.mpr (UInt64.le_of_lt later)
    simp only [graphSync, foreign, answer, if_neg other, failIf, if_neg forward, bad, bind, Except.bind,
      Bool.false_eq_true, if_false, pure,
      pure]

theorem Agrees.steady (agrees : Agrees v) : Steady v where
  forward later := by
    obtain ⟨v', got, -, follows⟩ := run_steady agrees later
    exact ⟨v', got, follows⟩
  old k fds data read old := received_same fun v' run => graphImport_old read old run
  stale k fds data owners known offered old := by
    rw [offered.answer]
    rcases importKnownView_old offered.described old with ⟨run, disagrees⟩ | ⟨run, agreeing⟩
    · exact ⟨fun _ => disagrees, fun _ => run⟩
    · refine ⟨fun bad => ?_, fun disagrees => absurd disagrees agreeing⟩
      rw [run] at bad
      cases bad
  oldSnapshot k s revision fds snapshot old := oldSnapshot_stale agrees.foreign snapshot old
  held event other := by
    obtain ⟨v', step, -, -, held⟩ := happen_steady agrees event
    exact ⟨v', step, held other⟩
  taken i slot is anchored k fds data read taken := by
    refine ⟨received_same fun v' run => graphImport_held agrees is anchored read taken run,
      fun owners known offered mergeable => ?_⟩
    have held : heldSlot v v.manifest data i := by
      rw [(agrees.slots i slot is).1] at taken
      simp only [heldSlot, Bool.and_eq_true, Bool.or_eq_true, bne_iff_ne, ne_eq]
      exact ⟨taken.imp (fun other same => other same.symm) id, anchored⟩
    rw [offered.answer]
    exact mergeable.busy agrees offered.described (agrees.bound is) held

/-- Every view that any history of manifests, snapshots, anchors and deletions leads to is steady. -/
theorem views_steady (history : List GraphEvent) : ∀ v ∈ run none history, Steady v :=
  fun _ got => (run_agrees history got).steady

/-- A graph of one mount at a revision, with the mount's generation. -/
def loneManifest (revision gen : UInt64) : Manifest :=
  { header := { magic := magic, version := version, count := 1, rootPolicy := ⟨1, 11⟩, stream := ⟨1, 16⟩
                pin := ⟨1, 12⟩, revision := revision }
    entries := [{ source := ⟨1, 13⟩, target := ⟨1, 14⟩, policy := ⟨1, 15⟩, descriptor := 3, generation := gen }]
    storage := [] }

def loneRights : List Fd := [10, 11, 12, 13, 14, 15, 16]

/-- A system where every descriptor is a directory of its own number. -/
def loneKernel (m : Manifest) : ImportKernel where
  allocated := true
  statusFlags _ := .ok ⟨true, true⟩
  fstat fd := .ok ⟨⟨1, UInt64.ofNat fd⟩, true⟩
  temporaryDirectoryCheck _ := .ok ()
  providerTreePrivate _ _ := true
  mountPolicyShare mount := .ok (if mount = .base then 11 else 15)
  superPolicyShare _ := .ok 15
  closeOnExec _ := .ok true
  sealedRead _ := .ok (manifestBytes m)
  socket _ := true
  emptyFile _ := true
  custodyImport _ := .error .EPROTO
  linksObserve shared master unbindable := .ok ⟨shared, master, unbindable⟩
  pidNamespaceKnown _ := true
  providerImport _ _ := .error .EPROTO
  policyImport _ := .ok ()
  mountIdAllocate _ := .ok ()
  namespaceNew := .ok ()
  graphCreated := true
  treeCreated := true
  reread := .ok ()

/-- Two manifests, and an anchor on the mount of the second. -/
def loneHistory : List GraphEvent :=
  [.received (loneKernel (loneManifest 1 1)) loneRights, .received (loneKernel (loneManifest 2 2)) loneRights,
    .anchored 0 1]

theorem loneHistory_view : (run none loneHistory).isSome := by decide +kernel

theorem views_steady_lone : ∃ v ∈ run none loneHistory, Steady v ∧ v.graph.revision = 2 ∧
    (graphImport (loneKernel (loneManifest 3 3)) loneRights (some v)).map (fun _ => ()) = .error .EBUSY := by
  have mem := Option.get_mem loneHistory_view
  refine ⟨_, mem, views_steady loneHistory _ mem, ?_, ?_⟩
  · decide +kernel
  · decide +kernel

end Shroot.MountGraph
