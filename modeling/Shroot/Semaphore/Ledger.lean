import Shroot.Semaphore.Model

namespace Shroot.Semaphore

open General List Option Database

variable {a b : Database} {log : List Event} {n : Nat} {id : ObjectId} {key : UndoKey} {object : ObjectId} {op : SemBuf}

/-- What was committed that the undo rows account for. -/
inductive Event where
  | operated (owner : OwnerId) (space : SpaceId) (object : ObjectId) (b : SemBuf)
  /-- `SETVAL` of a semaphore, or with a negative number `SETALL`. -/
  | reset (object : ObjectId) (number : Int)
  /-- The undo of an owner, in one space or with 0 in all. -/
  | released (owner : OwnerId) (space : SpaceId)

/-- The sum of an owner's operations on a semaphore that are still to be undone, after an event. -/
def Event.tally (key : UndoKey) (sum : Int) : Event → Int
  | .operated owner space object b => if key = ⟨owner, space, object, b.num⟩ ∧ b.undo then sum + b.op else sum
  | .reset object number => if key.object = object ∧ (number < 0 ∨ key.n = number) then 0 else sum
  | .released owner space => if key.owner = owner ∧ (space = 0 ∨ key.space = space) then 0 else sum

/-- The sum of the operations that can be undone since the last event that ended it. -/
def owed (log : List Event) (key : UndoKey) : Int := log.foldl (Event.tally key) 0

/-- The semaphore exists, in an object of its kind. -/
def Database.Holds (db : Database) (object : ObjectId) (n : Nat) : Prop :=
  (db.objects.find? object).any (fun row => row.kind = .sem) ∧ (db.sems.find? (object, n)).isSome

/-- What is kept in the rows of semaphores and of their undo. -/
structure Database.Sound (db : Database) : Prop where
  range : ∀ row ∈ db.sems.rows, 0 ≤ row.value ∧ row.value ≤ semvmx
  bounded : ∀ row ∈ db.undo.rows, -semaem ≤ row.delta ∧ row.delta ≤ semaem
  backed : ∀ row ∈ db.undo.rows, db.Holds row.object row.n

/-- What a committed piece of work does, with the events that it stands for. -/
structure Effect (log : List Event) (a b : Database) : Prop where
  advances : a.sequence ≤ b.sequence
  older : ∀ id, b.Has id → id ≤ a.sequence → a.Has id
  books : ∀ key : UndoKey, b.Has key.object → -(b.delta key) = log.foldl (Event.tally key) (-(a.delta key))
  named : ∀ owner space object op, Event.operated owner space object op ∈ log → object ≤ b.sequence
  sound : a.Sound → b.Sound

variable {db : Database}

theorem Database.Has.issued (there : db.Has id) : id ≤ db.sequence := by
  obtain ⟨row, found⟩ := isSome_iff_exists.mp there
  obtain ⟨mem, rfl⟩ := Table.find?_eq_some.mp found
  exact db.issued row mem

theorem Database.delta_of_not_has (away : ¬ db.Has key.object) : db.delta key = 0 := by
  cases found : db.undo.find? key with
  | none => simp [delta, found]
  | some row =>
    obtain ⟨mem, rfl⟩ := Table.find?_eq_some.mp found
    exact absurd (db.undoObject row mem) away

theorem tally_unnamed
    (unnamed : ∀ owner space object op, Event.operated owner space object op ∈ log → object ≠ key.object) :
    log.foldl (Event.tally key) 0 = 0 := by
  induction log with
  | nil => rfl
  | cons event rest ih =>
    have first : Event.tally key 0 event = 0 := by
      cases event with
      | operated owner space object op =>
        have other := unnamed owner space object op (by simp)
        have ne : key ≠ ⟨owner, space, object, op.num⟩ := fun same => other (by rw [same])
        simp [Event.tally, ne]
      | reset object num => simp [Event.tally]
      | released owner space => simp [Event.tally]
    rw [foldl_cons, first]
    exact ih fun owner space object op mem => unnamed owner space object op (by simp [mem])

namespace Effect

variable {c : Database} {log' : List Event}

theorem refl (a : Database) : Effect [] a a where
  advances := le_rfl
  older := fun _ there _ => there
  books := fun _ _ => rfl
  named := nofun
  sound := id

theorem trans (first : Effect log a b) (two : Effect log' b c) : Effect (log ++ log') a c where
  advances := first.advances.trans two.advances
  older := fun id there early => first.older id (two.older id there (early.trans first.advances)) early
  books := by
    intro key there
    rw [two.books key there, foldl_append]
    by_cases early : key.object ≤ b.sequence
    · rw [first.books key (two.older _ there early)]
    · -- The object is newer than the first piece of work: nothing was to be undone in it.
      have away : ¬ b.Has key.object := fun found => early found.issued
      have old : ¬ a.Has key.object := fun found => early (found.issued.trans first.advances)
      have still : log.foldl (Event.tally key) 0 = 0 := by
        refine tally_unnamed ?_
        intro owner space object op mem same
        exact early (same ▸ first.named owner space object op mem)
      rw [delta_of_not_has away, delta_of_not_has old, neg_zero, still]
  named := by
    intro owner space object op mem
    rcases mem_append.mp mem with mem | mem
    · exact (first.named owner space object op mem).trans two.advances
    · exact two.named owner space object op mem
  sound := two.sound ∘ first.sound

theorem nil_trans (first : Effect [] a b) (second : Effect log b c) : Effect log a c := first.trans second

theorem trans_nil (first : Effect log a b) (two : Effect [] b c) : Effect log a c := by simpa using first.trans two

theorem of_same_undo (sequence : b.sequence = a.sequence) (objects : b.objects = a.objects) (undo : b.undo = a.undo)
    (range : a.Sound → ∀ row ∈ b.sems.rows, 0 ≤ row.value ∧ row.value ≤ semvmx)
    (sems : ∀ k, (a.sems.find? k).isSome → (b.sems.find? k).isSome) : Effect [] a b where
  advances := sequence.ge
  older := fun id there _ => by simpa [Database.Has, objects] using there
  books := fun key _ => by simp [delta, undo]
  named := nofun
  sound := fun sound => {
    range := range sound
    bounded := fun row mem => sound.bounded row (undo ▸ mem)
    backed := fun row mem =>
      have held := sound.backed row (undo ▸ mem)
      ⟨by rw [objects]; exact held.1, sems _ held.2⟩ }

end Effect

variable {process : Process} {value : Int}

theorem setSem_effect (low : 0 ≤ value) (high : value ≤ semvmx) : Effect [] a (a.setSem object n value process) := by
  refine .of_same_undo rfl rfl rfl ?_ fun k there => ?_
  swap
  · simp only [setSem, Table.find?_update]
    split
    · simpa using there
    · exact there
  intro sound row mem
  have mem : row ∈ (a.sems.update _ _ (SemRow.key_store value process)).rows := mem
  obtain ⟨old, was, rfl⟩ := Table.mem_update.mp mem
  split
  · exact ⟨low, high⟩
  · exact sound.range old was

theorem insertSem_effect {row : SemRow} (low : 0 ≤ row.value) (high : row.value ≤ semvmx)
    (put : a.insertSem row = some b) : Effect [] a b := by
  unfold insertSem at put
  split at put
  · cases put
    refine .of_same_undo rfl rfl rfl ?_ fun k there => isSome_put there
    exact fun sound => Table.forall_mem_put sound.range ⟨low, high⟩
  · cases put

theorem putWaiter_effect {row : WaiterRow} (put : a.putWaiter row = some b) : Effect [] a b := by
  unfold putWaiter at put
  split at put
  · cases put
    exact .of_same_undo rfl rfl rfl (fun sound => sound.range) fun _ there => there
  · cases put

theorem removeWaiters_effect {gone : WaiterRow → Bool} : Effect [] a (a.removeWaiters gone) :=
  .of_same_undo rfl rfl rfl (fun sound => sound.range) fun _ there => there

theorem insertOwner_effect {row : OwnerRow} : Effect [] a (a.insertOwner row) :=
  .of_same_undo rfl rfl rfl (fun sound => sound.range) fun _ there => there

theorem setInfo_kind {k : ObjectId} {change : Info → Info} :
    ((a.setInfo id change).objects.find? k).map (·.kind) = (a.objects.find? k).map (·.kind) := by
  simp only [setInfo, Table.find?_update]
  split
  · rw [Option.map_map]
    rfl
  · rfl

theorem Database.Holds.setInfo {change : Info → Info} (has : a.Holds object n) :
    (a.setInfo id change).Holds object n := by
  have isSem : ∀ {found : Option ObjectRow},
      found.any (fun row => row.kind = .sem) = (found.map (·.kind)).any (· = .sem) := by
    intro found
    cases found <;> rfl
  refine ⟨?_, has.2⟩
  rw [isSem, setInfo_kind, ← isSem]
  exact has.1

theorem Database.Holds.setSem {o : ObjectId} {m : Nat} (has : a.Holds o m) :
    (a.setSem object n value process).Holds o m := by
  refine ⟨has.1, ?_⟩
  simp only [Database.setSem, Table.find?_update]
  split
  · simpa using has.2
  · exact has.2

theorem setInfo_effect {change : Info → Info} : Effect [] a (a.setInfo id change) := by
  have there : ∀ k, (a.setInfo id change).Has k ↔ a.Has k := by
    intro k
    have same := congrArg isSome (@setInfo_kind a id k change)
    rw [isSome_map, isSome_map] at same
    rw [Database.Has, Database.Has, same]
  refine ⟨le_rfl, fun k found _ => (there k).mp found, fun _ _ => rfl, nofun, ?_⟩
  intro sound
  exact ⟨sound.range, sound.bounded, fun row mem => (sound.backed row mem).setInfo⟩

theorem insertObject_effect {kind : Kind} {key : Int} {info : Info} {namespaceId : Nat} :
    Effect [] a (a.insertObject kind key info namespaceId) := by
  have found : ∀ k, k ≤ a.sequence →
      (a.insertObject kind key info namespaceId).objects.find? k = a.objects.find? k := by
    intro k early
    simp only [insertObject, Table.find?_put]
    have other : a.sequence + 1 ≠ k := by omega
    rw [if_neg other]
  refine ⟨Nat.le_succ _, fun k there early => ?_, fun _ _ => rfl, nofun, fun sound => ?_⟩
  · rwa [Database.Has, found k early] at there
  · refine ⟨sound.range, sound.bounded, fun row mem => ⟨?_, (sound.backed row mem).2⟩⟩
    rw [found _ (Database.Has.issued (a.undoObject row mem))]
    exact (sound.backed row mem).1

variable {gone : UndoRow → Bool}

theorem delta_remove (undo : b.undo = a.undo.remove gone) (key : UndoKey) :
    b.delta key = if (a.undo.find? key).any gone then 0 else a.delta key := by
  rw [delta, undo, Table.find?_remove, delta]
  cases found : a.undo.find? key with
  | none => rfl
  | some row =>
    cases goes : gone row <;> simp [Option.filter, goes]

theorem removeUndo_delta (dropped : UndoKey → Bool) (byKey : ∀ row, gone row = dropped row.key)
    (key : UndoKey) : (a.removeUndo gone).delta key = if dropped key then 0 else a.delta key := by
  rw [delta_remove (b := a.removeUndo gone) rfl key]
  cases found : a.undo.find? key with
  | none => simp [delta, found]
  | some row =>
    have same := (Table.find?_eq_some.mp found).2
    simp [byKey, same]

theorem removeUndo_sound (sound : a.Sound) : (a.removeUndo gone).Sound where
  range := sound.range
  bounded := Table.forall_mem_remove sound.bounded
  backed := Table.forall_mem_remove sound.backed

theorem removeUndo_effect (dropped : UndoKey → Bool) {event : Event} (byKey : ∀ row, gone row = dropped row.key)
    (ends : ∀ key sum, event.tally key sum = if dropped key then 0 else sum)
    (unnamed : ∀ owner space object op, event ≠ .operated owner space object op) :
    Effect [event] a (a.removeUndo gone) where
  advances := le_rfl
  older := fun _ there _ => there
  books := by
    intro key _
    rw [removeUndo_delta dropped byKey, foldl_cons, foldl_nil, ends]
    split <;> simp
  named := by
    intro owner space object op mem
    exact absurd (mem_singleton.mp mem).symm (unnamed owner space object op)
  sound := removeUndo_sound

theorem clearUndo_effect {num : Int} :
    Effect [.reset object num] a (a.removeUndo fun row => row.object = object ∧ (num < 0 ∨ row.n = num)) :=
  removeUndo_effect (fun key => key.object = object ∧ (num < 0 ∨ key.n = num)) (fun _ => rfl)
    (fun key sum => by simp [Event.tally]) nofun

variable {owner : OwnerId} {space : SpaceId}

theorem release_effect : Effect [.released owner space] a (a.removeUndo (UndoRow.isOf owner space)) :=
  removeUndo_effect (fun key => key.owner = owner ∧ (space = 0 ∨ key.space = space)) (fun _ => rfl)
    (fun key sum => by simp [Event.tally]) nofun

/-- An operation with `SEM_UNDO`, as its undo row accounts for it. -/
theorem putUndo_effect {delta : Int} (undone : op.undo = true) (has : a.Holds object op.num)
    (sum : delta = -op.op + a.delta ⟨owner, space, object, op.num⟩) (low : -semaem ≤ delta) (high : delta ≤ semaem)
    (put : a.putUndo ⟨owner, space, object, op.num, delta, process⟩ = some b) :
    Effect [.operated owner space object op] a b := by
  unfold putUndo at put
  split at put
  next there =>
    cases put
    refine ⟨le_rfl, fun _ found _ => found, ?_, ?_, fun sound => ⟨sound.range, ?_, ?_⟩⟩
    · intro key _
      simp only [Database.delta, Table.find?_put, UndoRow.key, foldl_cons, foldl_nil, Event.tally]
      by_cases same : key = ⟨owner, space, object, op.num⟩
      · subst same
        simp only [if_true, map_some, getD_some, undone, and_self, sum, Database.delta]
        ring
      · simp [same, Ne.symm same]
    · intro _ _ found _ mem
      cases mem_singleton.mp mem
      exact Database.Has.issued there.1
    · exact Table.forall_mem_put sound.bounded ⟨low, high⟩
    · exact Table.forall_mem_put sound.backed has
  · cases put

theorem untallied_effect (plain : op.undo = false)
    (there : b.Has object) (effect : Effect [] a b) : Effect [.operated owner space object op] a b where
  advances := effect.advances
  older := effect.older
  books := fun key found => by simpa [Event.tally, plain] using effect.books key found
  named := by
    intro _ _ _ _ mem
    cases mem_singleton.mp mem
    exact there.issued
  sound := effect.sound

theorem removeObjects_effect {gone : ObjectRow → Bool} : Effect [] a (a.removeObjects gone) := by
  have spared : ∀ {id}, (a.removeObjects gone).Has id → (a.objects.find? id).any gone = false := by
    intro id there
    simp only [Database.Has, removeObjects, Table.find?_remove] at there
    cases found : a.objects.find? id with
    | none => rfl
    | some row =>
      rw [found] at there
      simpa [filter, Bool.apply_cond] using there
  refine ⟨le_rfl, fun id there _ => ?_, fun key there => ?_, nofun, fun sound => ?_⟩
  · simp only [Database.Has, removeObjects, Table.find?_remove] at there ⊢
    cases found : a.objects.find? id with
    | none => simp [found] at there
    | some row => rfl
  · rw [delta_remove (a := a) (b := a.removeObjects gone) rfl key, if_neg, foldl_nil]
    cases found : a.undo.find? key with
    | none => simp
    | some row =>
      have same : row.object = key.object := by
        rw [← (Table.find?_eq_some.mp found).2]
        rfl
      simp [same, spared there]
  · refine ⟨Table.forall_mem_remove sound.range,
      Table.forall_mem_remove sound.bounded, fun row mem => ?_⟩
    obtain ⟨was, kept⟩ := Table.mem_remove.mp mem
    obtain ⟨kind, sem⟩ := sound.backed row was
    refine ⟨?_, ?_⟩
    · simp only [removeObjects, Table.find?_remove]
      cases found : a.objects.find? row.object with
      | none => simp [found] at kind
      | some object => simp_all [Option.filter]
    · obtain ⟨found, here⟩ := isSome_iff_exists.mp sem
      have same : found.object = row.object := congrArg Prod.fst (Table.find?_eq_some.mp here).2
      exact isSome_remove sem (by rw [here]; simpa [same] using kept)

theorem removeOwners_effect {gone : OwnerRow → Bool}
    (done : ∀ row ∈ a.undo.rows, (a.owners.find? row.owner).any gone = false) : Effect [] a (a.removeOwners gone) where
  advances := le_rfl
  older := fun _ there _ => there
  books := by
    intro key _
    rw [delta_remove (a := a) (b := a.removeOwners gone) rfl key, if_neg, foldl_nil]
    cases found : a.undo.find? key with
    | none => simp
    | some row => simpa using done row (Table.find?_eq_some.mp found).1
  named := nofun
  sound := fun sound => ⟨sound.range, Table.forall_mem_remove sound.bounded,
    Table.forall_mem_remove sound.backed⟩

end Shroot.Semaphore
