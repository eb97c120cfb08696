import Shroot.General.Tables
import Shroot.Errno
import Shroot.General.Triples

namespace Shroot.Semaphore

open General

abbrev ObjectId := Nat
abbrev OwnerId := Nat
abbrev SpaceId := Nat

inductive Kind where
  | sem | msg
  deriving DecidableEq

structure Perm where
  key : Int
  uid : Nat
  gid : Nat
  cuid : Nat
  cgid : Nat
  mode : Nat

/-- `struct semid64_ds`; a message queue keeps other data in its place. -/
structure Info where
  perm : Perm
  nsems : Nat := 0
  otime : Int := 0
  ctime : Int := 0

/-- The process that a row names: its number and its numbers in the namespaces around it. -/
structure Process where
  pid : Nat := 0
  pids : List Nat := []
  deriving DecidableEq

structure ObjectRow where
  id : ObjectId
  kind : Kind
  key : Int
  info : Info
  namespaceId : Nat

structure SemRow where
  object : ObjectId
  n : Nat
  value : Int
  process : Process
  deriving DecidableEq

structure UndoRow where
  owner : OwnerId
  space : SpaceId
  object : ObjectId
  n : Nat
  delta : Int
  process : Process

structure OwnerRow where
  id : OwnerId
  namespaceId : Nat

structure WaiterRow where
  owner : OwnerId
  tid : Nat
  object : ObjectId
  n : Nat
  zero : Bool

structure UndoKey where
  owner : OwnerId
  space : SpaceId
  object : ObjectId
  n : Nat
  deriving DecidableEq

def SemRow.key (row : SemRow) : ObjectId × Nat := (row.object, row.n)

def SemRow.store (value : Int) (process : Process) (row : SemRow) : SemRow := { row with value, process }

theorem SemRow.key_store (value : Int) (process : Process) (row : SemRow) : (row.store value process).key = row.key :=
  rfl

def UndoRow.key (row : UndoRow) : UndoKey := ⟨row.owner, row.space, row.object, row.n⟩

def WaiterRow.key (row : WaiterRow) : OwnerId × Nat := (row.owner, row.tid)

/-- The database of the supervisors of one store, with the constraints that its schema states:
references that are kept, and an object number above all that were ever in use. -/
structure Database where
  objects : Table ObjectRow.id := .empty
  sems : Table SemRow.key := .empty
  owners : Table OwnerRow.id := .empty
  undo : Table UndoRow.key := .empty
  waiters : Table WaiterRow.key := .empty
  /-- The last object number given. -/
  sequence : Nat := 0
  issued : ∀ object ∈ objects.rows, object.id ≤ sequence := by exact nofun
  semObject : ∀ row ∈ sems.rows, (objects.find? row.object).isSome := by exact nofun
  undoObject : ∀ row ∈ undo.rows, (objects.find? row.object).isSome := by exact nofun
  undoOwner : ∀ row ∈ undo.rows, (owners.find? row.owner).isSome := by exact nofun
  waiterObject : ∀ row ∈ waiters.rows, (objects.find? row.object).isSome := by exact nofun
  waiterOwner : ∀ row ∈ waiters.rows, (owners.find? row.owner).isSome := by exact nofun

namespace Database

section

variable {ρ κ : Type} {key : ρ → κ} [DecidableEq κ] {table : Table key} {gone : ρ → Bool} {k : κ}

theorem isSome_remove (there : (table.find? k).isSome) (spared : ((table.find? k).any gone) = false) :
    ((table.remove gone).find? k).isSome := by
  rw [Table.find?_remove]
  obtain ⟨row, found⟩ := Option.isSome_iff_exists.mp there
  rw [found] at spared ⊢
  simpa using spared

theorem remove_refers {τ ι : Type} {name : τ → ι} {rows : Table name} {k : τ → κ}
    (refers : ∀ row ∈ rows.rows, (table.find? (k row)).isSome) :
    ∀ row ∈ (rows.remove fun row => (table.find? (k row)).any gone).rows,
      ((table.remove gone).find? (k row)).isSome := by
  intro row mem
  obtain ⟨was, kept⟩ := Table.mem_remove.mp mem
  exact isSome_remove (refers row was) kept

theorem isSome_update {changed k : κ} {change : ρ → ρ} {keeps : ∀ row, key (change row) = key row}
    (there : (table.find? k).isSome) : ((table.update changed change keeps).find? k).isSome := by
  rw [Table.find?_update]
  split
  · simpa using there
  · exact there

theorem isSome_put {row : ρ} (there : (table.find? k).isSome) : ((table.put row).find? k).isSome := by
  rw [Table.find?_put]
  split
  · rfl
  · exact there

end

variable (db : Database)

def setInfo (id : ObjectId) (change : Info → Info) : Database :=
  let objects := db.objects.update id (fun row => { row with info := change row.info }) fun _ => rfl
  { db with
    objects
    issued := by
      intro row mem
      obtain ⟨old, was, rfl⟩ := Table.mem_update.mp mem
      have bound := db.issued old was
      split <;> exact bound
    semObject := fun row mem => isSome_update (db.semObject row mem)
    undoObject := fun row mem => isSome_update (db.undoObject row mem)
    waiterObject := fun row mem => isSome_update (db.waiterObject row mem) }

/-- `INSERT INTO objects`, with the next number. -/
def insertObject (kind : Kind) (key : Int) (info : Info) (namespaceId : Nat) : Database :=
  { db with
    objects := db.objects.put { id := db.sequence + 1, kind, key, info, namespaceId }
    sequence := db.sequence + 1
    issued := by
      intro row mem
      obtain rfl | ⟨was, -⟩ := Table.mem_put.mp mem
      · exact le_rfl
      · exact (db.issued row was).trans (Nat.le_succ _)
    semObject := fun row mem => isSome_put (db.semObject row mem)
    undoObject := fun row mem => isSome_put (db.undoObject row mem)
    waiterObject := fun row mem => isSome_put (db.waiterObject row mem) }

/-- `INSERT INTO sems`; no row without its object. -/
def insertSem (row : SemRow) : Option Database :=
  if there : (db.objects.find? row.object).isSome then
    some { db with
      sems := db.sems.put row
      semObject := Table.forall_mem_put db.semObject there }
  else none

/-- `UPDATE sems SET value, pid, pids`. -/
def setSem (object : ObjectId) (n : Nat) (value : Int) (process : Process) : Database :=
  { db with
    sems := db.sems.update (object, n) (SemRow.store value process) (SemRow.key_store value process)
    semObject := by
      intro row mem
      obtain ⟨old, was, rfl⟩ := Table.mem_update.mp mem
      have there := db.semObject old was
      split <;> exact there }

/-- `INSERT INTO undo` with `ON CONFLICT DO UPDATE`; no row without its owner and object. -/
def putUndo (row : UndoRow) : Option Database :=
  if there : (db.objects.find? row.object).isSome ∧ (db.owners.find? row.owner).isSome then
    some { db with
      undo := db.undo.put row
      undoObject := Table.forall_mem_put db.undoObject there.1
      undoOwner := Table.forall_mem_put db.undoOwner there.2 }
  else none

/-- `DELETE FROM undo`. -/
def removeUndo (gone : UndoRow → Bool) : Database :=
  { db with
    undo := db.undo.remove gone
    undoObject := Table.forall_mem_remove db.undoObject
    undoOwner := Table.forall_mem_remove db.undoOwner }

/-- `INSERT INTO waiters` with `ON CONFLICT DO UPDATE`. -/
def putWaiter (row : WaiterRow) : Option Database :=
  if there : (db.objects.find? row.object).isSome ∧ (db.owners.find? row.owner).isSome then
    some { db with
      waiters := db.waiters.put row
      waiterObject := Table.forall_mem_put db.waiterObject there.1
      waiterOwner := Table.forall_mem_put db.waiterOwner there.2 }
  else none

/-- `DELETE FROM waiters`. -/
def removeWaiters (gone : WaiterRow → Bool) : Database :=
  { db with
    waiters := db.waiters.remove gone
    waiterObject := Table.forall_mem_remove db.waiterObject
    waiterOwner := Table.forall_mem_remove db.waiterOwner }

/-- `INSERT INTO owners`. -/
def insertOwner (row : OwnerRow) : Database :=
  { db with
    owners := db.owners.put row
    undoOwner := fun found mem => isSome_put (db.undoOwner found mem)
    waiterOwner := fun found mem => isSome_put (db.waiterOwner found mem) }

/-- `DELETE FROM objects`, with the rows that refer to the objects that go. -/
def removeObjects (gone : ObjectRow → Bool) : Database :=
  let orphan (id : ObjectId) : Bool := (db.objects.find? id).any gone
  { db with
    objects := db.objects.remove gone
    sems := db.sems.remove fun row => orphan row.object
    undo := db.undo.remove fun row => orphan row.object
    waiters := db.waiters.remove fun row => orphan row.object
    issued := Table.forall_mem_remove db.issued
    semObject := remove_refers db.semObject
    undoObject := remove_refers db.undoObject
    undoOwner := Table.forall_mem_remove db.undoOwner
    waiterObject := remove_refers db.waiterObject
    waiterOwner := Table.forall_mem_remove db.waiterOwner }

/-- `DELETE FROM owners`, with the rows that refer to the owners that go. -/
def removeOwners (gone : OwnerRow → Bool) : Database :=
  let orphan (id : OwnerId) : Bool := (db.owners.find? id).any gone
  { db with
    owners := db.owners.remove gone
    undo := db.undo.remove fun row => orphan row.owner
    waiters := db.waiters.remove fun row => orphan row.owner
    undoObject := Table.forall_mem_remove db.undoObject
    undoOwner := remove_refers db.undoOwner
    waiterObject := Table.forall_mem_remove db.waiterObject
    waiterOwner := remove_refers db.waiterOwner }

def Has (id : ObjectId) : Prop := (db.objects.find? id).isSome

def level (object : ObjectId) (n : Nat) : Option Int := (db.sems.find? (object, n)).map (·.value)

/-- What is stored to be undone; nothing where there is no row. -/
def delta (key : UndoKey) : Int := ((db.undo.find? key).map (·.delta)).getD 0

end Database

open List

def semvmx : Int := 32767
def semaem : Int := semvmx
def semmsl : Int := 32000
def semopm : Nat := 500

/-- How a call ends that has no result: with an error, or with `MD_IPC_WAIT` at a semaphore. -/
inductive Stop where
  | errno (error : Errno)
  | wait (number : Nat) (zero : Bool)

/-- `struct md_ipc` within a transaction. `answers` is what the outside says to each thing asked
of it in turn: to a statement, an allocation or a copy. -/
structure Session where
  db : Database
  changed : Bool := false
  answers : List (Option Errno) := []

abbrev Statement := EStateM Stop Session

/-- Something that can fail with the error the outside gives. -/
def ask : Statement Unit := do
  let s ← get
  match s.answers with
  | [] => pure ()
  | answer :: rest =>
    set { s with answers := rest }
    match answer with
    | none => pure ()
    | some error => throw (.errno error)

def query {α : Type} (read : Database → α) : Statement α := do
  ask
  let s ← get
  return read s.db

def execute (write : Database → Database) : Statement Unit := do
  ask
  modify fun s => { s with db := write s.db }

/-- A statement that a constraint of the schema can refuse. -/
def insert (write : Database → Option Database) (refused : Errno) : Statement Unit := do
  ask
  let s ← get
  match write s.db with
  | none => throw (.errno refused)
  | some db => set { s with db }

def noteChange : Statement Unit := modify fun s => { s with changed := true }

/-- What the permission checks ask of an identity. -/
structure Identity where
  uid : Nat := 0
  gid : Nat := 0
  inGroup : Nat → Bool := fun _ => false
  /-- `CAP_IPC_OWNER` and `CAP_SYS_ADMIN` in the namespace of the store. -/
  ipcOwner : Bool := false
  sysAdmin : Bool := false
  /-- `md_user_namespace_into` and `md_identity_visible_id`. -/
  uidInto : Nat → Option Nat := some
  gidInto : Nat → Option Nat := some
  uidVisible : Nat → Nat := id
  gidVisible : Nat → Nat := id

def permAccess (id : Identity) (p : Perm) (mode : Nat) : Option Errno :=
  if id.ipcOwner then none
  else
    let shift := if id.uid = p.uid ∨ id.uid = p.cuid then 6 else if id.inGroup p.gid ∨ id.inGroup p.cgid then 3 else 0
    if (p.mode >>> shift) &&& mode = mode then none else some .EACCES

def permOwner (id : Identity) (p : Perm) : Option Errno :=
  if id.uid = p.uid ∨ id.uid = p.cuid ∨ id.sysAdmin then none else some .EPERM

def permVisible (id : Identity) (p : Perm) : Perm :=
  { p with
    uid := id.uidVisible p.uid, cuid := id.uidVisible p.cuid
    gid := id.gidVisible p.gid, cgid := id.gidVisible p.cgid }

def permSet (id : Identity) (p : Perm) (uid gid mode : Nat) : Except Errno Perm :=
  match id.uidInto uid, id.gidInto gid with
  | some uid, some gid => .ok { p with uid, gid, mode := p.mode / 512 * 512 + mode % 512 }
  | _, _ => .error .EINVAL

/-- `struct sembuf`, with the two of its flags that are read. -/
structure SemBuf where
  num : Nat
  op : Int
  nowait : Bool := false
  undo : Bool := false

/-- The commands of `semctl`, with what they read from the caller's memory. -/
inductive Command where
  | rmid
  | set (uid gid mode : Nat)
  | stat
  | getall
  | setall (array : Nat → UInt16)
  | getval
  | getpid
  | setval (value : Int)
  | getncnt
  | getzcnt
  | other

/-- The requests, with those on message queues that make or remove an object: the others keep to
the messages and to the queue's own data. `semtimedop` is `semop` with a deadline. -/
inductive Request where
  | semget (key count : Int) (create exclusive : Bool) (mode : Nat)
  | semop (object : ObjectId) (ops : List SemBuf)
  | semctl (object : ObjectId) (number : Int) (command : Command)
  | msgget (key : Int) (create exclusive : Bool) (mode : Nat)
  | msgctlRmid (object : ObjectId)

/-- `struct md_ipc_pending`: a request, who makes it, and how far it came. -/
structure Pending where
  owner : OwnerId
  namespaceId : Nat
  tid : Nat := 0
  process : Process := {}
  /-- `p->undo`. -/
  space : SpaceId := 1
  identity : Identity := {}
  request : Request
  /-- What `md_ipc_pid_visible` shows of a row's process. -/
  observer : Process → Except Errno Int := fun process => .ok process.pid
  now : Int := 0
  registered : Bool := false
  blocked : Bool := false
  deadline : Option Int := none

inductive Reply where
  | value (number : Int)
  | array (values : List Int)
  | status (info : Info)

variable (p : Pending) (kind : Kind) (key : Int)

def ipcGet (create exclusive : Bool) : Statement (Option ObjectId) := do
  let found ← query fun db => db.objects.rows.find? fun row => row.kind = kind ∧ row.key = key ∧ row.key ≠ 0 ∧
    row.namespaceId = p.namespaceId
  rejectIf (found.isSome ∧ create ∧ exclusive) (.errno .EEXIST)
  rejectIf (found.isNone ∧ key ≠ 0 ∧ ¬ create) (.errno .ENOENT)
  return found.map (·.id)

def ipcLoad (id : ObjectId) : Statement Info := do
  let row ← query fun db => (db.objects.find? id).filter fun row => row.kind = kind ∧ row.namespaceId = p.namespaceId
  match row with
  | none => throw (.errno .EINVAL)
  | some row => return row.info

def ipcSave (id : ObjectId) (change : Info → Info) : Statement Unit := do
  execute fun db => db.setInfo id change
  noteChange

def ipcCreate (info : Info) : Statement ObjectId := do
  -- The unique index over the keys that are not `IPC_PRIVATE`.
  insert (fun db =>
    if key ≠ 0 ∧ ∃ row ∈ db.objects.rows, row.kind = kind ∧ row.key = key ∧ row.namespaceId = p.namespaceId then none
    else some (db.insertObject kind key info p.namespaceId)) .EEXIST
  let s ← get
  rejectIf (s.db.sequence > 2147483647) (.errno .ENOSPC)
  noteChange
  return s.db.sequence

def ipcRemove (id : ObjectId) : Statement Unit := do
  execute fun db => db.removeObjects fun row => row.id = id
  noteChange

/-- `value`: the row of a semaphore. -/
def value (object : ObjectId) (number : Nat) : Statement SemRow := do
  let row ← query fun db => db.sems.find? (object, number)
  match row with
  | none => throw (.errno .EINVAL)
  | some row => return row

/-- `set`, and `set_process` with the caller's process. -/
def setValue (object : ObjectId) (number : Nat) (val : Int) (process : Process) : Statement Unit := do
  execute fun db => db.setSem object number val process
  noteChange

/-- `undo`: adds to what the caller's space takes back of a semaphore. -/
def undo (object : ObjectId) (number : Nat) (delta : Int) : Statement Unit := do
  let row ← query fun db => db.undo.find? ⟨p.owner, p.space, object, number⟩
  let delta := delta + (row.map (·.delta)).getD 0
  rejectIf (delta < -semaem ∨ delta > semaem) (.errno .ERANGE)
  insert (fun db => db.putUndo { owner := p.owner, space := p.space, object, n := number, delta, process := p.process })
    Errno.EIO

/-- `clear_undo`: for one semaphore of a set, or with a negative number for all. -/
def clearUndo (object : ObjectId) (number : Int) : Statement Unit :=
  execute fun db => db.removeUndo fun row => row.object = object ∧ (number < 0 ∨ row.n = number)

variable (owner : OwnerId)

/-- The rows of an owner, of one of its spaces or with 0 of all. -/
def UndoRow.isOf (space : SpaceId) (row : UndoRow) : Bool := row.owner = owner ∧ (space = 0 ∨ row.space = space)

/-- `ORDER BY u.space,u.object,u.n`. -/
def UndoRow.upTo (a b : UndoRow) : Prop :=
  a.space < b.space ∨ a.space = b.space ∧ (a.object < b.object ∨ a.object = b.object ∧ a.n ≤ b.n)

instance : DecidableRel UndoRow.upTo := fun _ _ => inferInstanceAs (Decidable (_ ∨ _))

variable (db : Database)

/-- The undo rows that `md_ipc_undo_apply` goes through. -/
def Database.undoRows (owner : OwnerId) (space : SpaceId) : List UndoRow :=
  (db.undo.rows.filter (UndoRow.isOf owner space)).insertionSort UndoRow.upTo

def clamp (val : Int) : Int := if val < 0 then 0 else if val > semvmx then semvmx else val

variable (now : Int)

/-- What is done for one row. -/
def undoRow (row : UndoRow) : Statement Unit := do
  let object ← query fun db => db.objects.find? row.object
  match object with
  -- The join leaves out a row without its object.
  | none => pure ()
  | some object =>
    rejectIf (object.kind ≠ .sem) (.errno Errno.EIO)
    let sem ← value row.object row.n
    setValue row.object row.n (clamp (sem.value + row.delta)) row.process
    ipcSave row.object fun info => { info with otime := now }

def undoApply (owner : OwnerId) (space : SpaceId) : Statement Unit := do
  let rows ← query fun db => db.undoRows owner space
  rows.forM (undoRow now)
  execute fun db => db.removeUndo (UndoRow.isOf owner space)

/-- The rights that opening an object with a mode asks for. -/
def openMode (mode : Nat) : Nat := ((mode >>> 6) ||| (mode >>> 3) ||| mode) &&& 7

def newPerm (mode : Nat) : Perm :=
  { key, uid := p.identity.uid, cuid := p.identity.uid, gid := p.identity.gid, cgid := p.identity.gid
    mode := mode % 512 }

/-- A check that says which error it found. -/
def permit (refused : Option Errno) : Statement Unit :=
  match refused with
  | none => pure ()
  | some error => throw (.errno error)

/-- `get` of semaphore sets. -/
def semGet (key count : Int) (create exclusive : Bool) (mode : Nat) : Statement Reply := do
  rejectIf (count < 0 ∨ count > semmsl) (.errno .EINVAL)
  let found ← ipcGet p .sem key create exclusive
  match found with
  | some object =>
    let info ← ipcLoad p .sem object
    rejectIf (count > info.nsems) (.errno .EINVAL)
    permit (permAccess p.identity info.perm (openMode mode))
    return .value object
  | none =>
    rejectIf (count = 0) (.errno .EINVAL)
    let object ← ipcCreate p .sem key { perm := newPerm p key mode, nsems := count.toNat, ctime := p.now }
    (range count.toNat).forM fun i => insert (fun db => db.insertSem ⟨object, i, 0, {}⟩) Errno.EIO
    return .value object

/-- `get` of message queues. -/
def msgGet (create exclusive : Bool) (mode : Nat) : Statement Reply := do
  let found ← ipcGet p .msg key create exclusive
  match found with
  | some object =>
    let info ← ipcLoad p .msg object
    permit (permAccess p.identity info.perm (openMode mode))
    return .value object
  | none =>
    let object ← ipcCreate p .msg key { perm := newPerm p key mode, ctime := p.now }
    return .value object

def operateOne (object : ObjectId) (b : SemBuf) : Statement Unit := do
  let sem ← value object b.num
  let val := sem.value
  if (b.op = 0 ∧ val ≠ 0) ∨ (b.op < 0 ∧ val < -b.op) then
    if b.nowait then throw (.errno .EAGAIN) else throw (.wait b.num (b.op = 0))
  rejectIf (val + b.op > semvmx) (.errno .ERANGE)
  if b.undo then undo p object b.num (-b.op)
  setValue object b.num (val + b.op) p.process

def operate (object : ObjectId) (ops : List SemBuf) (st : Info) : Statement Reply := do
  rejectIf (∃ b ∈ ops, b.num ≥ st.nsems) (.errno .EFBIG)
  permit (permAccess p.identity st.perm (ops.foldl (fun mode b => mode ||| if b.op ≠ 0 then 2 else 4) 0))
  ops.forM (operateOne p object)
  ipcSave object fun info => { info with otime := p.now }
  return .value 0

/-- `IPC_SET`. -/
def setPerm (object : ObjectId) (st : Info) (uid gid mode : Nat) : Statement Reply := do
  ask
  match permSet p.identity st.perm uid gid mode with
  | .error error => throw (.errno error)
  | .ok perm =>
    ipcSave object fun info => { info with perm, ctime := p.now }
    return .value 0

def getAll (object : ObjectId) (st : Info) : Statement Reply := do
  ask
  let values ← (range st.nsems).mapM fun i => value object i
  ask
  return .array (values.map (·.value))

def setAll (object : ObjectId) (st : Info) (array : Nat → UInt16) : Statement Reply := do
  ask
  rejectIf (∃ i < st.nsems, ((array i).toNat : Int) > semvmx) (.errno .ERANGE)
  (range st.nsems).forM fun i => setValue object i (array i).toNat p.process
  clearUndo object (-1)
  ipcSave object fun info => { info with ctime := p.now }
  return .value 0

def setVal (object : ObjectId) (number : Nat) (val : Int) : Statement Reply := do
  rejectIf (val < 0 ∨ val > semvmx) (.errno .ERANGE)
  setValue object number val p.process
  clearUndo object number
  ipcSave object fun info => { info with ctime := p.now }
  return .value 0

/-- `GETNCNT` and `GETZCNT`. -/
def countWaiters (object : ObjectId) (number : Nat) (zero : Bool) : Statement Reply := do
  let count ← query fun db => (db.waiters.rows.filter fun row => row.object = object ∧ row.n = number ∧
    row.zero = zero).length
  return .value count

/-- `semctl`, after the set has been found. -/
def control (object : ObjectId) (number : Int) (command : Command) (st : Info) : Statement Reply :=
  match command with
  | .rmid => do
    permit (permOwner p.identity st.perm)
    ipcRemove object
    return .value 0
  | .set uid gid mode => do
    permit (permOwner p.identity st.perm)
    setPerm p object st uid gid mode
  | .stat => do
    permit (permAccess p.identity st.perm 4)
    ask
    return .status { st with perm := permVisible p.identity st.perm }
  | .getall => do
    permit (permAccess p.identity st.perm 4)
    getAll object st
  | .setall array => do
    permit (permAccess p.identity st.perm 2)
    setAll p object st array
  | .getval => do
    permit (permAccess p.identity st.perm 4)
    rejectIf (number < 0 ∨ number ≥ st.nsems) (.errno .EINVAL)
    let row ← value object number.toNat
    return .value row.value
  | .getpid => do
    permit (permAccess p.identity st.perm 4)
    rejectIf (number < 0 ∨ number ≥ st.nsems) (.errno .EINVAL)
    let row ← value object number.toNat
    match p.observer row.process with
    | .ok pid => return .value pid
    | .error error => throw (.errno error)
  | .setval val => do
    permit (permAccess p.identity st.perm 2)
    rejectIf (number < 0 ∨ number ≥ st.nsems) (.errno .EINVAL)
    setVal p object number.toNat val
  | .getncnt => do
    permit (permAccess p.identity st.perm 4)
    rejectIf (number < 0 ∨ number ≥ st.nsems) (.errno .EINVAL)
    countWaiters object number.toNat false
  | .getzcnt => do
    permit (permAccess p.identity st.perm 4)
    rejectIf (number < 0 ∨ number ≥ st.nsems) (.errno .EINVAL)
    countWaiters object number.toNat true
  | .other => do
    permit (permAccess p.identity st.perm 4)
    rejectIf (number < 0 ∨ number ≥ st.nsems) (.errno .EINVAL)
    throw (.errno .EOPNOTSUPP)

/-- `md_ipc_load` of the object of a call: one that went while the call was waiting was removed. -/
def loadFor (object : ObjectId) : Statement Info := fun s =>
  match ipcLoad p kind object s with
  | .error (.errno .EINVAL) s => .error (.errno (if p.blocked then .EIDRM else .EINVAL)) s
  | result => result

/-- `md_ipc_sem` and `md_ipc_msg`. -/
def perform : Statement Reply :=
  match p.request with
  | .semget key count create exclusive mode => semGet p key count create exclusive mode
  | .semop object ops => do
    let st ← loadFor p .sem object
    operate p object ops st
  | .semctl object number command => do
    let st ← loadFor p .sem object
    control p object number command st
  | .msgget key create exclusive mode => msgGet p key create exclusive mode
  | .msgctlRmid object => do
    let st ← loadFor p .msg object
    permit (permOwner p.identity st.perm)
    ipcRemove object
    return .value 0

/-- What the outside says to a transaction: to everything asked within it, to the lease of each
owner, to the clock, and to the event written after the commit. -/
structure Outside where
  answers : List (Option Errno) := []
  /-- Whether an owner is dead, by its lease. -/
  dead : OwnerId → Except Errno Bool := fun _ => .ok false
  clock : Except Errno Int := .ok 0
  announced : Bool := true

def removeOwner (owner : OwnerId) : Statement Unit := do
  undoApply now owner 0
  execute fun db => db.removeOwners fun row => row.id = owner
  execute fun db => db.removeObjects fun object => object.namespaceId ≠ 0 ∧
    ∀ row ∈ db.owners.rows, row.namespaceId ≠ object.namespaceId

/-- What is done for one owner that is met. -/
def reapOne (self : OwnerId) (dead : OwnerId → Except Errno Bool) (owner : OwnerId) : Statement Unit := do
  ask
  if owner = self then pure ()
  else match dead owner with
    | .error error => throw (.errno error)
    | .ok true => removeOwner now owner
    | .ok false => pure ()

def reap (self : OwnerId) (dead : OwnerId → Except Errno Bool) : Statement Unit := do
  let owners ← query fun db => (db.owners.rows.map (·.id)).insertionSort (· ≤ ·)
  owners.forM (reapOne now self dead)

/-- What a transaction leaves: the database, what was committed, and what is returned. -/
structure Outcome (α : Type) where
  db : Database
  committed : Option α
  result : Except Stop α

/-- `md_ipc_begin`, the statements between, and `md_ipc_finish`. A transaction that fails leaves
nothing. The event is written after the commit, and its failure is that of the call. -/
def transact {α : Type} (outside : Outside) (now : Int) (self : OwnerId) (db : Database) (body : Statement α) :
    Outcome α :=
  let statements : Statement α := do
    ask
    reap now self outside.dead
    let result ← body
    ask
    return result
  match statements.run { db, answers := outside.answers } with
  | .error stop _ => { db, committed := none, result := .error stop }
  | .ok result s =>
    { db := s.db, committed := some result
      result := if s.changed ∧ ¬ outside.announced then .error (.errno Errno.EIO) else .ok result }

def registerWait (object : ObjectId) (number : Nat) (zero : Bool) : Statement Unit :=
  insert (fun db => db.putWaiter { owner := p.owner, tid := p.tid, object, n := number, zero }) Errno.EIO

def unregister : Statement Unit :=
  if p.registered then execute fun db => db.removeWaiters fun row => row.owner = p.owner ∧ row.tid = p.tid
  else pure ()

def Request.object : Request → ObjectId
  | .semop object _ => object
  | .semctl object _ _ => object
  | .msgctlRmid object => object
  | _ => 0

/-- The call within its savepoint: what it did is taken back when it does not succeed. -/
def operation : Statement (Except Stop Reply) := do
  ask
  let before ← get
  match (perform p).run before with
  | .ok reply after =>
    set after
    ask
    return .ok reply
  | .error stop after =>
    set { after with db := before.db, changed := before.changed }
    ask
    ask
    return .error stop

/-- What a deadline makes of a call that would wait. -/
def expire (deadline : Option Int) (clock : Except Errno Int) : Except Stop Reply → Except Stop Reply
  | .error (.wait number zero) =>
    match deadline with
    | none => .error (.wait number zero)
    | some deadline =>
      match clock with
      | .error error => .error (.errno error)
      | .ok now => if now ≥ deadline then .error (.errno .EAGAIN) else .error (.wait number zero)
  | result => result

/-- The statements of one turn of `md_ipc_call`. -/
def turnBody (clock : Except Errno Int) : Statement (Except Stop Reply) := do
  let result ← operation p
  let result := expire p.deadline clock result
  match result with
  | .error (.wait number zero) => registerWait p p.request.object number zero
  | _ => unregister p
  return result

/-- What `prepare` checks of a request. -/
def prepare : Request → Except Errno Unit
  | .semop _ ops => if ops = [] then .error .EINVAL else if ops.length > semopm then .error .E2BIG else .ok ()
  | _ => .ok ()

/-- One turn of the loop of `md_ipc_call`. Between two turns of a call that waits, other
supervisors can run. -/
def turn (outside : Outside) (db : Database) : Outcome (Except Stop Reply) :=
  match prepare p.request with
  | .error error => { db, committed := none, result := .error (.errno error) }
  | .ok () => transact outside p.now p.owner db (turnBody p outside.clock)

/-- What a turn says: the reply to the call, its error or that it waits. -/
def Outcome.returned (outcome : Outcome (Except Stop Reply)) : Except Stop Reply := outcome.result.bind id

/-- `md_ipc_cancel` of a call that is registered. -/
def cancel (outside : Outside) (db : Database) : Outcome Unit := transact outside p.now p.owner db (unregister p)

/-- `struct md_ipc_undo`. -/
structure UndoSpace where
  refs : Nat
  used : Bool
  id : SpaceId

def undoRelease (u : UndoSpace) (now : Int) (outside : Outside) (db : Database) : Outcome Unit :=
  if u.refs ≠ 1 ∨ ¬ u.used then { db, committed := none, result := .ok () }
  else transact outside now owner db (undoApply now owner u.id)

/-- The statements of `md_ipc_close`. -/
def close (now : Int) (outside : Outside) (db : Database) : Outcome Unit :=
  transact outside now owner db (removeOwner now owner)

variable (namespaceId : Nat)

/-- The new owner of a store, once the dead ones are gone. -/
def admitOwner (now : Int) (dead : OwnerId → Except Errno Bool) : Statement Unit := do
  reap now owner dead
  insert (fun db => if (db.owners.find? owner).isSome then none else some (db.insertOwner ⟨owner, namespaceId⟩)) .EEXIST
  ask

/-- The statements of `md_ipc_open`. After a boot, nothing of before is kept. -/
def openBody (booted : Bool) (now : Int) (dead : OwnerId → Except Errno Bool) : Statement Unit := do
  ask
  if booted then
    execute fun db => db.removeObjects fun _ => true
    execute fun db => db.removeOwners fun _ => true
  admitOwner owner namespaceId now dead

/-- The transaction of `md_ipc_open`. -/
def openStore (booted : Bool) (now : Int) (outside : Outside) (db : Database) : Outcome Unit :=
  match (openBody owner namespaceId booted now outside.dead).run { db, answers := outside.answers } with
  | .error stop _ => { db, committed := none, result := .error stop }
  | .ok _ s => { db := s.db, committed := some (), result := .ok () }

end Shroot.Semaphore
