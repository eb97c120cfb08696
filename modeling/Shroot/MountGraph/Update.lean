import Shroot.General.Descriptors
import Shroot.General.Triples
import Shroot.MountGraph.Describe

namespace Shroot.MountGraph

open General Function List Prod Option MonadExcept

variable {outside : Nat → Prop} {prepared : List Prepared} {ids : List GraphId}

/-! Exported graphs and the call that publishes a new revision of several of them at once. -/

abbrev GraphId := Nat

/-- A graph; `writer` and `fd` are empty where the source has a negative descriptor. -/
structure Graph extends GraphState where
  reader : Fd
  writer : Option Fd
  fd : Option Fd

structure StreamChange where
  reader : Fd
  writer : Fd
  previous : UInt64
  rights : List Fd

structure Prepared where
  manifest : Option Fd := none
  parcel : List Fd := []
  stream : Option StreamChange := none

/-- The answers of the kernel and the allocator to the preparation of one graph; an export of
custody gives that many descriptors. -/
structure Answers where
  kernel : Kernel
  bytes : Bool
  sealed : Except Errno Unit
  rights : Bool
  dup : Nat → Except Errno Unit
  custodyExport : Nat → Except Errno Nat

/-- A preparation: the process's descriptors, what it hands out, the parcel being filled. -/
structure Preparing where
  table : Descriptors
  out : Prepared := {}
  candidate : List Fd := []

def placementRights (data : Manifest) : Nat :=
  data.entries.foldl
    (fun count e => if e.flags &&& RETIRED = 0
      then count + 3 + (decide (e.flags &&& HOST_PROVIDERS ≠ 0)).toNat else count)
    (if data.header.baseDescriptor ≠ 0 then 5 else 3)

variable (n : Numbering) (answers : Answers)

def dupRight (i : Nat) : EStateM Errno Preparing Unit := do
  ofExcept (answers.dup i)
  modify fun s =>
    let (fd, table) := s.table.create n
    { s with table := table, candidate := s.candidate ++ [fd] }

def exportStorage (rights : Nat) : Storage × Nat → EStateM Errno Preparing Unit := fun (storage, i) => do
  let count ← ofExcept (answers.custodyExport i)
  let s ← get
  let (fds, table) := s.table.createMany n count
  if count ≠ storage.count.toNat ∨ s.candidate.length ≠ storage.start.toNat ∨
    count > rights - s.candidate.length then do
    set { s with table := table.closeAll fds }
    throw .ESTALE
  else
    set { s with table := table, candidate := s.candidate ++ fds }

/-- The two loops of `parcel`. -/
def fillParcel (data : Manifest) : EStateM Errno Preparing Unit := do
  let placement := placementRights data
  let rights := placement + (data.storage.map fun storage => storage.count.toNat).sum
  (range placement).forM (dupRight n answers)
  data.storage.zipIdx.forM (exportStorage n answers rights)

def parcel (data : Manifest) : EStateM Errno Preparing Unit := do
  rejectIf (¬ answers.rights) .ENOMEM
  tryCatch (fillParcel n answers data) fun error => do
    modify fun s => { s with table := s.table.closeAll s.candidate, candidate := [] }
    throw error
  modify fun s => { s with out := { s.out with parcel := s.candidate }, candidate := [] }

/-- A layout that may not leave the process is published as an unavailable revision. -/
def publishable (k : Kernel) (g : GraphState) (l : MountLayout) : Except Errno Manifest :=
  match describe k g l with
  | .ok described => .ok described.manifest
  | .error .EOPNOTSUPP =>
    .ok
      { header :=
          { magic := magic, version := version, stream := g.identity, revision := 0, unavailable := unavailableCode }
        entries := []
        storage := [] }
  | .error error => .error error

def prepareUpdate (g : Graph) (l : MountLayout) : EStateM Errno Preparing Unit := do
  let some writer := g.writer | throw .EPERM
  rejectIf (g.revision.toNat = 2 ^ 64 - 1) .EOVERFLOW
  rejectIf (l.entries.length > fsMountsMax) .EINVAL
  let described ← ofExcept (publishable answers.kernel g.toGraphState l)
  let data := described.published (g.revision + 1)
  rejectIf (¬ answers.bytes) .ENOMEM
  ofExcept answers.sealed
  modify fun s =>
    let (fd, table) := s.table.create n
    { s with table := table, out := { s.out with manifest := some fd } }
  if data.header.unavailable = 0 then parcel n answers data else pure ()
  modify fun s =>
    let rights := if data.header.unavailable = 0 then s.out.parcel else s.out.manifest.toList
    { s with out := { s.out with stream := some ⟨g.reader, writer, g.revision, rights⟩ } }

/-- One change of the call: no graph where the view has none. -/
structure GraphChange where
  graph : Option GraphId
  layout : MountLayout
  answers : Answers

/-- The graphs of a process, its descriptors, and the streams as their readers find them. -/
structure Exports where
  graphs : GraphId → Graph
  table : Descriptors
  published : List StreamChange

def prepareAll (graphs : GraphId → Graph) :
    List (GraphId × GraphChange) → Descriptors → (List Prepared × Descriptors) × Except Errno Unit
  | [], table => (([], table), .ok ())
  | (id, change) :: rest, table =>
    match (prepareUpdate n change.answers (graphs id) change.layout).run { table := table } with
    | .error error s => (([s.out], s.table), .error error)
    | .ok _ s =>
      let ((prepared, table), result) := prepareAll graphs rest s.table
      ((s.out :: prepared, table), result)

/-- `publish_many` publishes all of its streams, or none and tells why. -/
def publishMany (outcome : Except Errno Unit) (streams : List StreamChange) : Except Errno Unit := do
  failIf (¬ (streams.map StreamChange.reader).Nodup) .EINVAL
  outcome

def Graph.renewed (g : Graph) (manifest : Option Fd) : Graph := { g with fd := manifest, revision := g.revision + 1 }

def installOne (w : Exports) (pair : GraphId × Prepared) : Exports :=
  let g := w.graphs pair.1
  { w with
    graphs := update w.graphs pair.1 (g.renewed pair.2.manifest)
    table := w.table.closeAll g.fd.toList }

def install (w : Exports) (pairs : List (GraphId × Prepared)) : Exports := pairs.foldl installOne w

def Prepared.fds (p : Prepared) : List Fd := p.manifest.toList ++ p.parcel

def discard (table : Descriptors) (prepared : List Prepared) : Descriptors :=
  prepared.foldl (fun table p => table.closeAll p.fds) table

def GraphChange.used (change : GraphChange) : Option (GraphId × GraphChange) := change.graph.map (·, change)

/-- Publishes a revision of each graph; no list of changes is a null pointer with a count. -/
def updateMany (arrays : Bool) (outcome : Except Errno Unit) (changes : Option (List GraphChange)) (w : Exports) :
    Except Errno Unit × Exports :=
  match changes with
  | none => (.error .EINVAL, w)
  | some changes =>
    let used := changes.filterMap GraphChange.used
    if used.isEmpty then (.ok (), w)
    else if ¬ arrays then (.error .ENOMEM, w)
    else
      let ((prepared, table), result) := prepareAll n w.graphs used w.table
      let streams := prepared.filterMap Prepared.stream
      match result >>= fun _ => publishMany outcome streams with
      | .ok _ =>
        let after :=
          install { w with table := table, published := w.published ++ streams } ((used.map fst).zip prepared)
        (.ok (), { after with table := discard after.table (prepared.map fun p => { p with manifest := none }) })
      | .error error => (.error error, { w with table := discard table prepared })

def manifests (graphs : GraphId → Graph) (id : GraphId) : Option Fd := (graphs id).fd

section

variable {n answers} {held : GraphId → Option Fd} {rest : List Fd} {out : Prepared} {s : Preparing}

/-- What is accounted for while a parcel is filled. -/
def Filling (outside : Nat → Prop) (held : GraphId → Option Fd) (rest : List Fd) (out : Prepared) (s : Preparing) :
    Prop :=
  s.out = out ∧ Accounts outside held (s.candidate ++ (out.fds ++ rest)) s.table

theorem dupRight_filling (i : Nat) (filling : Filling outside held rest out s) :
    Ensures s (fun _ => Filling outside held rest out) (Filling outside held rest out) (dupRight n answers i) := by
  refine .ofExcept_bind filling fun _ _ => .modify ⟨filling.1, ?_⟩
  refine (filling.2.create n).perm ?_
  rw [append_assoc]
  exact perm_middle.symm

theorem exportStorage_filling (rights : Nat) (item : Storage × Nat) (filling : Filling outside held rest out s) :
    Ensures s (fun _ => Filling outside held rest out) (Filling outside held rest out)
      (exportStorage n answers rights item) := by
  refine .ofExcept_bind filling fun count _ => .get_bind ?_
  have made := filling.2.createMany n count
  refine .ite (fun _ => ?_) fun _ => ?_
  · exact ⟨filling.1, made.closeAll⟩
  · refine ⟨filling.1, made.perm ?_⟩
    rw [← append_assoc]
    exact perm_append_comm.append_right _

theorem fillParcel_filling (data : Manifest) (filling : Filling outside held rest out s) :
    Ensures s (fun _ => Filling outside held rest out) (Filling outside held rest out) (fillParcel n answers data) := by
  refine .bind (.forM filling fun i _ _ filled => dupRight_filling i filled) fun _ _ filled => ?_
  exact .forM filled fun item _ _ filled => exportStorage_filling _ item filled

/-- A parcel is filled whole, or what was put into it is closed. -/
theorem parcel_accounts (data : Manifest) (filling : Filling outside held rest out s) (fresh : out.parcel = [])
    (empty : s.candidate = []) :
    Ensures s (fun _ s' => s'.out.manifest = out.manifest ∧ Accounts outside held (s'.out.fds ++ rest) s'.table)
      (fun s' => Accounts outside held (s'.out.fds ++ rest) s'.table) (parcel n answers data) := by
  have old : Accounts outside held (s.out.fds ++ rest) s.table := by
    have accounts := filling.2
    rwa [empty, ← filling.1] at accounts
  refine .rejectIf_bind old fun _ => ?_
  refine (Ensures.tryCatch (fillParcel_filling data filling) (fun _ _ filled => filled) ?_).bind ?_
  · rintro e between ⟨same, accounts⟩
    subst same
    exact accounts.closeAll
  · rintro _ between ⟨same, accounts⟩
    subst same
    refine ⟨rfl, accounts.perm ?_⟩
    simp only [Prepared.fds, fresh, append_nil, append_assoc]
    exact perm_append_comm_assoc ..

/-- A preparation accounts for every descriptor it opened, and one that succeeds has sealed a
manifest and may raise the revision. -/
structure Ready (g : Graph) (p : Prepared) : Prop where
  manifest : p.manifest.isSome
  stream : ∃ change, p.stream = some change ∧ change.reader = g.reader
  next : (g.revision + 1).toNat = g.revision.toNat + 1

theorem prepareUpdate_accounts (n : Numbering) (answers : Answers) (g : Graph) (l : MountLayout) (table : Descriptors)
    (accounts : Accounts outside held rest table) :
    Ensures { table := table } (fun _ s => Ready g s.out ∧ Accounts outside held (s.out.fds ++ rest) s.table)
      (fun s => Accounts outside held (s.out.fds ++ rest) s.table) (prepareUpdate n answers g l) := by
  unfold prepareUpdate
  cases g.writer with
  | none => exact accounts
  | some writer =>
    refine .rejectIf_bind accounts fun room => .rejectIf_bind accounts fun _ => ?_
    refine .ofExcept_bind accounts fun good _ => .rejectIf_bind accounts fun _ => ?_
    refine .ofExcept_bind accounts fun _ _ => .modify_bind ?_
    have sealed : Filling outside held rest { manifest := some (table.create n).1 }
        { table := (table.create n).2, out := { manifest := some (table.create n).1 } } := ⟨rfl, accounts.create n⟩
    have next : (g.revision + 1).toNat = g.revision.toNat + 1 := by
      have := g.revision.toNat_lt
      rw [UInt64.toNat_add]
      simp only [UInt64.toNat_one]
      omega
    refine .ite (fun _ => (parcel_accounts _ sealed rfl rfl).bind ?_) fun _ => ⟨⟨rfl, ⟨_, rfl, rfl⟩, next⟩, sealed.2⟩
    rintro _ between ⟨manifest, kept⟩
    exact ⟨⟨by rw [manifest]; rfl, ⟨_, rfl, rfl⟩, next⟩, kept⟩

/-- The graphs of a call that prepares everything are ready, one by one. -/
theorem prepareAll_accounts (n : Numbering) (graphs : GraphId → Graph) (used : List (GraphId × GraphChange))
    (table : Descriptors) (accounts : Accounts outside held rest table) :
    let ((prepared, final), result) := prepareAll n graphs used table
    Accounts outside held (prepared.flatMap Prepared.fds ++ rest) final ∧
      (result = .ok () → List.Forall₂ (fun id p => Ready (graphs id) p) (used.map fst) prepared) := by
  induction used generalizing table rest with
  | nil => exact ⟨accounts, fun _ => .nil⟩
  | cons change others ih =>
    have one := prepareUpdate_accounts n change.2.answers (graphs change.1) change.2.layout table accounts
    unfold Ensures at one
    simp only [prepareAll]
    cases run : (prepareUpdate n change.2.answers (graphs change.1) change.2.layout).run { table := table } with
    | error error s =>
      rw [run] at one
      exact ⟨by simpa using one, nofun⟩
    | ok _ s =>
      rw [run] at one
      have later := ih s.table one.2
      refine ⟨later.1.perm ?_, fun done => .cons one.1 (later.2 done)⟩
      simp only [flatMap_cons, append_assoc]
      exact perm_append_comm_assoc ..

theorem discard_accounts (prepared : List Prepared) (table : Descriptors)
    (accounts : Accounts outside held (prepared.flatMap Prepared.fds ++ rest) table) :
    Accounts outside held rest (discard table prepared) := by
  induction prepared generalizing table with
  | nil => exact accounts
  | cons p others ih =>
    rw [flatMap_cons, append_assoc] at accounts
    exact ih _ accounts.closeAll

theorem manifests_update (graphs : GraphId → Graph) (id : GraphId) (g : Graph) :
    manifests (update graphs id g) = update (manifests graphs) id g.fd :=
  funext fun other => apply_update (fun _ graph => graph.fd) graphs id g other

theorem installOne_accounts (w : Exports) (pair : GraphId × Prepared) (sealed : pair.2.manifest.isSome)
    (accounts : Accounts outside (manifests w.graphs) (pair.2.fds ++ rest) w.table) :
    Accounts outside (manifests (installOne w pair).graphs) (pair.2.parcel ++ rest) (installOne w pair).table := by
  obtain ⟨fd, manifest⟩ := isSome_iff_exists.mp sealed
  rw [Prepared.fds, manifest, append_assoc] at accounts
  have swapped := (accounts.swap pair.1).closeAll
  rw [installOne, manifests_update, Graph.renewed, manifest]
  exact swapped

theorem install_accounts (rest : List Fd) (pairs : List (GraphId × Prepared)) (w : Exports)
    (sealed : ∀ pair ∈ pairs, pair.2.manifest.isSome)
    (accounts : Accounts outside (manifests w.graphs) (pairs.flatMap (fun pair => pair.2.fds) ++ rest) w.table) :
    Accounts outside (manifests (install w pairs).graphs) (pairs.flatMap (fun pair => pair.2.parcel) ++ rest)
      (install w pairs).table := by
  induction pairs generalizing w rest with
  | nil => exact accounts
  | cons pair others ih =>
    rw [flatMap_cons, append_assoc] at accounts ⊢
    have first := installOne_accounts w pair (sealed pair (by simp)) accounts
    have put := ih _ _ (fun pair mem => sealed pair (by simp [mem])) (first.perm (perm_append_comm_assoc ..))
    exact put.perm (perm_append_comm_assoc ..)

theorem install_graphs (pairs : List (GraphId × Prepared)) (w : Exports) (distinct : (pairs.map fst).Nodup) :
    (∀ id ∉ pairs.map fst, (install w pairs).graphs id = w.graphs id) ∧
      ∀ pair ∈ pairs, (install w pairs).graphs pair.1 = (w.graphs pair.1).renewed pair.2.manifest := by
  induction pairs generalizing w with
  | nil => exact ⟨fun _ _ => rfl, nofun⟩
  | cons pair others ih =>
    have apart := nodup_cons.mp distinct
    obtain ⟨untouched, renewed⟩ := ih (installOne w pair) apart.2
    have off : ∀ id ≠ pair.1, (installOne w pair).graphs id = w.graphs id := fun id ne => update_of_ne ne ..
    refine ⟨fun id other => ?_, fun one mem => ?_⟩
    · rw [map_cons, mem_cons, not_or] at other
      exact (untouched id other.2).trans (off id other.1)
    · rcases mem_cons.mp mem with rfl | mem
      · exact (untouched one.1 apart.1).trans (update_self ..)
      · have ne : one.1 ≠ pair.1 := fun same => apart.1 (same ▸ mem_map_of_mem mem)
        rw [← off one.1 ne]
        exact renewed one mem

/-- Streams with readers of their own belong to graphs of their own. -/
theorem Ready.distinct {graphs : GraphId → Graph} (ready : List.Forall₂ (fun id p => Ready (graphs id) p) ids prepared)
    (readers : ((prepared.filterMap Prepared.stream).map StreamChange.reader).Nodup) : ids.Nodup := by
  have same : (prepared.filterMap Prepared.stream).map StreamChange.reader = ids.map fun id => (graphs id).reader := by
    clear readers
    induction ready with
    | nil => rfl
    | cons one _ ih =>
      obtain ⟨change, stream, reader⟩ := one.stream
      rw [filterMap_cons_some stream, map_cons, map_cons, ih, reader]
  rw [same] at readers
  exact readers.of_map

end

def exported (changes : Option (List GraphChange)) : List GraphId := (changes.getD []).filterMap GraphChange.graph

theorem map_used (changes : List GraphChange) :
    (changes.filterMap GraphChange.used).map fst = exported (some changes) := by
  rw [map_filterMap]
  refine filterMap_congr fun change _ => ?_
  cases graph : change.graph <;> simp [GraphChange.used, graph]

section

variable {w : Exports} {table : Descriptors}
variable (accounts : Accounts outside (manifests w.graphs) [] w.table)
variable (during : Accounts outside (manifests w.graphs) (prepared.flatMap Prepared.fds) table)

include accounts during

theorem failed_accounts : Accounts outside (manifests w.graphs) [] (discard table prepared) ∧
    (discard table prepared).opened = w.table.opened := by
  have final : Accounts outside (manifests w.graphs) [] (discard table prepared) := by
    refine discard_accounts prepared table ?_
    rwa [append_nil]
  refine ⟨final, Finset.ext fun fd => ?_⟩
  rw [final.opened, accounts.opened]

theorem installed_accounts (published : List StreamChange)
    (ready : List.Forall₂ (fun id p => Ready (w.graphs id) p) ids prepared) (nodup : ids.Nodup) :
    let after := install { w with table := table, published := published } (ids.zip prepared)
    Accounts outside (manifests after.graphs) []
      (discard after.table (prepared.map fun p => { p with manifest := none })) ∧
      ∀ id, if id ∈ ids then
          ∃ fd ∉ w.table.opened, after.graphs id = (w.graphs id).renewed (some fd) ∧
            (after.graphs id).revision.toNat = (w.graphs id).revision.toNat + 1
        else after.graphs id = w.graphs id := by
  have lengths := ready.length_eq
  have zipped : ∀ f : Prepared → List Fd, (ids.zip prepared).flatMap (fun pair => f pair.2) = prepared.flatMap f := by
    intro f
    have seconds : (ids.zip prepared).map snd = prepared := map_snd_zip lengths.ge
    rw [← flatMap_map, seconds]
  have ids_zip : (ids.zip prepared).map fst = ids := map_fst_zip lengths.le
  have each : ∀ pair ∈ ids.zip prepared, Ready (w.graphs pair.1) pair.2 := fun _ mem => forall₂_zip ready mem
  refine ⟨discard_accounts _ _ ?_, fun id => ?_⟩
  · rw [flatMap_map, append_nil]
    have installed := install_accounts [] (ids.zip prepared) { w with table := table, published := published }
      (fun pair mem => (each pair mem).manifest) (by rwa [zipped, append_nil])
    rwa [zipped, append_nil] at installed
  · obtain ⟨same, renewed⟩ := install_graphs (ids.zip prepared) { w with table := table, published := published }
      (by rwa [ids_zip])
    rw [ids_zip] at same
    split
    next published =>
      rw [← ids_zip] at published
      obtain ⟨pair, mem, rfl⟩ := mem_map.mp published
      have after := renewed pair mem
      obtain ⟨fd, manifest⟩ := isSome_iff_exists.mp (each pair mem).manifest
      have loose : fd ∈ prepared.flatMap Prepared.fds := by
        rw [← zipped, mem_flatMap]
        exact ⟨pair, mem, by simp [Prepared.fds, manifest]⟩
      refine ⟨fd, fun opened => ?_, by rw [after, manifest], by rw [after]; exact (each pair mem).next⟩
      have apart := during.apart fd loose
      rcases (accounts.opened fd).mp opened with out | ⟨i, held⟩ | none
      · exact apart.1 out
      · exact apart.2 i held
      · cases none
    next mem => exact same id mem

end

/-- A call that fails leaves every graph as it was. One that succeeds raises the revision of
each graph it publishes by one and gives it a manifest of its own, new descriptor. Either
way each descriptor that is open at the end is a manifest of a graph or was nobody's of the
call, and none was closed twice. -/
theorem updateMany_accounts (arrays : Bool) (outcome : Except Errno Unit) (changes : Option (List GraphChange))
    (w : Exports) (outside : Nat → Prop) (accounts : Accounts outside (manifests w.graphs) [] w.table) :
    let (result, after) := updateMany n arrays outcome changes w
    Accounts outside (manifests after.graphs) [] after.table ∧ match result with
      | .error _ => after.graphs = w.graphs ∧ after.table.opened = w.table.opened ∧ after.published = w.published
      | .ok _ => ∀ id,
        if id ∈ exported changes then
          ∃ fd ∉ w.table.opened, after.graphs id = (w.graphs id).renewed (some fd) ∧
            (after.graphs id).revision.toNat = (w.graphs id).revision.toNat + 1
        else after.graphs id = w.graphs id := by
  cases changes with
  | none => exact ⟨accounts, rfl, rfl, rfl⟩
  | some changes =>
    simp only [updateMany, ← map_used]
    generalize changes.filterMap GraphChange.used = used
    split
    next nothing =>
      rw [isEmpty_iff.mp nothing]
      exact ⟨accounts, fun id => by simp⟩
    split
    · exact ⟨accounts, rfl, rfl, rfl⟩
    have during := prepareAll_accounts n w.graphs used w.table accounts
    generalize prepareAll n w.graphs used w.table = attempt at during ⊢
    obtain ⟨⟨prepared, table⟩, result⟩ := attempt
    simp only [append_nil] at during ⊢
    cases publishing : result >>= fun _ => publishMany outcome (prepared.filterMap Prepared.stream) with
    | error error =>
      have bad := failed_accounts accounts during.1
      exact ⟨bad.1, rfl, bad.2, rfl⟩
    | ok _ =>
      obtain ⟨_, done, published⟩ := bind_ok.mp publishing
      have readers := (failIf_bind_ok.mp published).1
      have ready := during.2 done
      exact installed_accounts accounts during.1 _ ready (Ready.distinct ready (not_not.mp readers))

def upwards : Numbering where
  pick taken := taken.sup id + 1
  fresh taken mem := by
    have := Finset.le_sup (f := id) mem
    simp only [id] at this
    omega

def obliging : Answers where
  kernel := sampleKernel
  bytes := true
  sealed := .ok ()
  rights := true
  dup _ := .ok ()
  custodyExport _ := .ok 2

/-- The graph 0 has the manifest 6, and the graph 1 none. -/
def earlier : Exports where
  graphs id :=
    if id = 0 then { sampleGraph with revision := 4, reader := 4, writer := some 5, fd := some 6 }
    else { sampleGraph with reader := 7, writer := some 8, fd := none }
  table := ⟨{0, 1, 2, 3, 4, 5, 6, 7, 8}, false⟩
  published := []

def twoChanges : Option (List GraphChange) := some ([0, 1].map fun id => ⟨some id, sampleLayout 5 5, obliging⟩)

/-- A process publishes two graphs of two mounts. -/
theorem updateMany_accounts_first :
    let after := (updateMany upwards true (.ok ()) twoChanges earlier).2
    Accounts (· ∈ earlier.table.opened.erase 6) (manifests after.graphs) [] after.table ∧
      ∀ id < 2, ∃ fd ∉ earlier.table.opened, after.graphs id = (earlier.graphs id).renewed (some fd) := by
  have held : ∀ id fd, manifests earlier.graphs id = some fd → id = 0 ∧ fd = 6 := by
    intro id fd is
    by_cases first : id = 0
    · subst first
      exact ⟨rfl, (some.inj is).symm⟩
    · simp [manifests, earlier, first] at is
  have accounts : Accounts (· ∈ earlier.table.opened.erase 6) (manifests earlier.graphs) [] earlier.table := by
    refine ⟨fun fd => ?_, nofun, fun id fd is => ?_, fun i j fd one two => ?_, .nil, rfl⟩
    · by_cases same : fd = 6
      · subst same
        exact ⟨fun _ => .inr (.inl ⟨0, rfl⟩), fun _ => by decide⟩
      · have none : ∀ id, manifests earlier.graphs id ≠ some fd := fun id is => same (held id fd is).2
        simp [same, none]
    · rw [(held id fd is).2]
      decide
    · rw [(held i fd one).1, (held j fd two).1]
  have done : (updateMany upwards true (.ok ()) twoChanges earlier).1 = .ok () := by decide +kernel
  have both : ∀ id < 2, id ∈ exported twoChanges := by decide
  generalize twoChanges = changes at done both ⊢
  have published := updateMany_accounts upwards true (.ok ()) changes earlier _ accounts
  generalize updateMany upwards true (.ok ()) changes earlier = outcome at done published ⊢
  obtain ⟨result, after⟩ := outcome
  subst done
  refine ⟨published.1, fun id small => ?_⟩
  have each := published.2 id
  rw [if_pos (both id small)] at each
  obtain ⟨fd, new, renewed, -⟩ := each
  exact ⟨fd, new, renewed⟩

end Shroot.MountGraph
