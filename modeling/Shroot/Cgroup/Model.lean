import Shroot.General.Ancestry
import Shroot.General.Checks
import Shroot.Errno

namespace Shroot.Cgroup

open General

/-- A group of the unified hierarchy: its own serial number and then those of its ancestors. The
root is the empty list. -/
abbrev GroupId := List Nat

abbrev MemberId := Nat

abbrev Controllers := BitVec 32

def cgPids : Controllers := 1
def cgCpu : Controllers := 2
def cgCpuset : Controllers := 4
def cgMemory : Controllers := 8

def cgControllers : Controllers := cgPids ||| cgCpu ||| cgCpuset ||| cgMemory

def pidsUnlimited : Int := 2 ^ 64 - 1

/-- `struct group`. Counters are integers, so that one that went below zero would show. -/
structure Group where
  removed : Bool := false
  subtree : Controllers := 0
  pidsMax : Int := pidsUnlimited
  pidsCharged : Int := 0
  populated : Int := 0
  stopped : Int := 0
  freeze : Bool := false
  effectiveFreeze : Bool := false
  frozen : Bool := false

/-- `struct md_cgroup_member`, with its group in the unified hierarchy. -/
structure Member where
  id : MemberId
  references : UInt32 := 1
  group : GroupId := []
  tid : Nat := 0
  tgid : Nat := 0
  retiredTid : Nat := 0
  departed : Bool := false
  reserved : Bool := false
  charged : Bool := false
  freezing : Bool := false
  stopped : Bool := false
  deriving DecidableEq

/-- The groups of the hierarchy, also the removed ones, and the members, the newest first. -/
structure World where
  group : GroupId → Group
  groups : List GroupId
  members : List Member
  nextMember : MemberId

variable (w : World) (id : MemberId)

def World.find : Option Member := w.members.find? fun m => m.id == id

def World.modify (change : Member → Member) : World :=
  { w with members := w.members.map fun m => if m.id = id then change m else m }

/-- Change a group and its ancestors, up to one that is left out. -/
def World.along (stop : Option GroupId) (g : GroupId) (change : Group → Group) : World :=
  { w with group := climb change stop g w.group }

variable (g : GroupId)

def World.setGroup (group : Group) : World := { w with group := Function.update w.group g group }

/-- `frozen_event`. -/
def Group.refreeze (g : Group) : Group := { g with frozen := g.effectiveFreeze && g.stopped == g.populated }

variable (amount : Int)

def Group.charge (g : Group) : Group := { g with pidsCharged := g.pidsCharged + amount }

/-- One more or one less live member, which may be a stopped one. -/
def Group.populate (stopped : Bool) (g : Group) : Group :=
  { g with populated := g.populated + amount
           stopped := if stopped then g.stopped + amount else g.stopped }.refreeze

def Group.stop (g : Group) : Group := { g with stopped := g.stopped + amount }.refreeze

def pidsCharge : World := w.along none g (Group.charge 1)

def pidsUncharge (m : Member) : World :=
  if !m.charged then w
  else (w.along none m.group (Group.charge (-1))).modify m.id fun m => { m with charged := false }

/-- `pids_reconcile`: a departed member whose task is gone is not charged any more. -/
def pidsReconcile (gone : MemberId → Bool) : World :=
  w.members.foldl (fun w m => if m.departed && m.charged && gone m.id then pidsUncharge w m else w) w

def pidsFull (w : World) : GroupId → Bool
  | [] => (w.group []).pidsCharged ≥ (w.group []).pidsMax
  | serial :: parent =>
    (w.group (serial :: parent)).pidsCharged ≥ (w.group (serial :: parent)).pidsMax || pidsFull w parent

/-- `pids_reserve`, and whether it succeeds. -/
def pidsReserve (gone : MemberId → Bool) : World × Bool :=
  if pidsFull w g then
    let reconciled := pidsReconcile w gone
    if pidsFull reconciled g then (reconciled, false) else (pidsCharge reconciled g, true)
  else (pidsCharge w g, true)

def freezing (group : GroupId → Group) : GroupId → Bool
  | [] => (group []).freeze
  | serial :: parent => (group (serial :: parent)).freeze || freezing group parent

/-- The group from which two branches are one, when both are there. -/
def commonGroup : Option GroupId → Option GroupId → Option GroupId
  | some old, some next => some (meet next old)
  | _, _ => none

/-- `membership_change`: from a group to a group, where no group is `NULL`. -/
def membershipChange (old next : Option GroupId) (stopped : Bool) : World :=
  if old = next then w
  else
    let common := commonGroup old next
    let left := match old with
      | some g => w.along common g (Group.populate (-1) stopped)
      | none => w
    match next with
    | some g => left.along common g (Group.populate 1 stopped)
    | none => left

def addMember : World :=
  { w with
    members := { id := w.nextMember, group := g, reserved := true, charged := true
                 freezing := freezing w.group g } :: w.members
    nextMember := w.nextMember + 1 }

/-- `md_cgroup_member_fork`, with the outcome of its allocations. -/
def memberFork (old : MemberId) (allocated : Bool) (gone : MemberId → Bool) : World × Except Errno Unit :=
  match w.find old with
  | none => (w, .error .EINVAL)
  | some m =>
    if !allocated then (w, .error .ENOMEM)
    else
      let (reserved, fits) := pidsReserve w m.group gone
      if fits then (addMember reserved m.group, .ok ()) else (reserved, .error .EAGAIN)

/-- What a caller may do, as the descriptors and credentials of the call decide it: the writes to
the `cgroup.procs` of the groups, and the boundary of its namespace when the mount delegates. -/
structure Caller where
  procs : GroupId → Except Errno Unit
  boundary : GroupId
  delegates : Bool
  initial : Bool

def attachAllowed (source target : GroupId) (caller : Caller) : Except Errno Unit := do
  caller.procs (meet target source)
  failIf (caller.delegates ∧ (¬ caller.boundary <:+ source ∨ ¬ caller.boundary <:+ target)) .ENOENT
  failIf (target ≠ [] ∧ (w.group target).subtree ≠ 0) .EBUSY

/-- `md_cgroup_member_clone`, after the checks of its descriptor. -/
def memberClone (parent : MemberId) (target : GroupId) (caller : Caller) (thread : Bool)
    (refused : Option Errno) (allocated : Bool) (gone : MemberId → Bool) : World × Except Errno Unit :=
  match w.find parent, refused with
  | none, _ => (w, .error .EXDEV)
  | _, some error => (w, .error error)
  | some m, none =>
    let admitted : Except Errno Unit := do
      failIf (target ∉ w.groups) .EINVAL
      failIf (w.group target).removed .ENODEV
      caller.procs target
      attachAllowed w m.group target caller
      failIf (thread ∧ m.group ≠ target) .EOPNOTSUPP
      failIf (!allocated) .ENOMEM
    match admitted with
    | .error error => (w, .error error)
    | .ok _ =>
      let (reserved, fits) := pidsReserve w target gone
      if fits then (addMember reserved target, .ok ()) else (reserved, .error .EAGAIN)

def memberRetain : World := w.modify id fun m => { m with references := m.references + 1 }

def memberRelease : World :=
  match w.find id with
  | none => w
  | some m =>
    if m.references ≠ 1 then w.modify id fun m => { m with references := m.references - 1 }
    else
      let w := pidsUncharge w m
      let w := if m.tid ≠ 0 then membershipChange w (some m.group) none m.stopped else w
      { w with members := w.members.filter fun other => other.id ≠ id }

def memberPublish (tid tgid : Nat) : World :=
  match w.find id with
  | none => w
  | some m =>
    let w := if tid ≠ 0 ∧ !m.charged then (pidsCharge w m.group).modify id fun m => { m with charged := true } else w
    let w :=
      if m.tid = 0 ∧ tid ≠ 0 then membershipChange w none (some m.group) m.stopped
      else if m.tid ≠ 0 ∧ tid = 0 then membershipChange w (some m.group) none m.stopped
      else w
    w.modify id fun m => { m with tid := tid, tgid := tgid, retiredTid := 0, departed := false, reserved := false }

def memberDepart (tid : Nat) : World :=
  match w.find id with
  | none => w
  | some m =>
    if m.tid = tid ∧ tid ≠ 0 then
      (membershipChange w (some m.group) none m.stopped).modify id fun m =>
        { m with retiredTid := tid, tid := 0, departed := true }
    else w

def memberReaped : World :=
  match w.find id with
  | none => w
  | some m => pidsUncharge w m

def memberFrozen (stopped : Bool) : World :=
  match w.find id with
  | none => w
  | some m =>
    if m.stopped = stopped then w
    else
      let w := w.modify id fun m => { m with stopped := stopped }
      if m.tid ≠ 0 then w.along none m.group (Group.stop (if stopped then 1 else -1)) else w

def available (group : GroupId → Group) : GroupId → Controllers
  | [] => cgControllers
  | _ :: parent => (group parent).subtree

/-- `md_cgroup_mkdir` under a serial number that is not in use. Its first refusal is what the checks
of the name and the descriptors say; the others come later. -/
def mkdir (base : GroupId) (serial : Nat) (refused late : Option Errno) : World × Except Errno Unit :=
  match refused with
  | some error => (w, .error error)
  | none =>
    if base ∉ w.groups ∨ (w.group base).removed then (w, .error .ENOENT)
    else if serial :: base ∈ w.groups then (w, .error .EEXIST)
    else match late with
      | some error => (w, .error error)
      | none =>
        let frozen := freezing w.group base
        ({ w.setGroup (serial :: base) { effectiveFreeze := frozen, frozen := frozen } with
           groups := (serial :: base) :: w.groups }, .ok ())

def rmdir (refused : Option Errno) (unlinked : Option Errno) : World × Except Errno Unit :=
  let admitted : Except Errno Unit := do
    failIf (g ∉ w.groups ∨ (w.group g).removed) .ENOENT
    failIf (g = []) .EBUSY
    match refused with
    | some error => .error error
    | none => pure ()
    failIf (∃ child ∈ w.groups, ¬ (w.group child).removed ∧ child ≠ [] ∧ child.tail = g) .EBUSY
    failIf (∃ m ∈ w.members, (m.tid ≠ 0 ∨ m.reserved) ∧ m.group = g) .EBUSY
    match unlinked with
    | some error => .error error
    | none => pure ()
  match admitted with
  | .error error => (w, .error error)
  | .ok _ => (w.setGroup g { w.group g with removed := true }, .ok ())

/-- The control files of the unified hierarchy that can be written. The others belong to a
resource controller and keep to their policy. -/
inductive ControlFile where
  | procs | threads | subtree | pidsMax | freeze | type
  | resource (controller : Controllers) (root : Bool)
  deriving DecidableEq

/-- A write to a control file, with what the calls it makes say. -/
structure ControlWrite where
  group : GroupId
  file : ControlFile
  data : List Char
  caller : Caller
  actor : Nat
  /-- The numbers of a member and of its process in the actor's namespace, when it has one. -/
  visible : Option (MemberId → Nat × Nat)
  refused : Option Errno := none
  stale : Bool := false
  permission : Option Errno := none
  sampled : Option Errno := none
  created : Option Errno := none
  unlinked : GroupId → Option Errno := fun _ => none
  policy : Option Errno := none

def isBlank (c : Char) : Bool := c = ' ' || c = '\n' || c = '\t'

/-- The text of a write: up to a terminator, without the blanks at its end. -/
def controlText (data : List Char) : List Char := (data.takeWhile (· ≠ '\x00')).rdropWhile isBlank

/-- The words that `strtok_r` finds. -/
def words (text : List Char) : List (List Char) := (text.splitOnP isBlank).filter (· ≠ [])

def isDigit (c : Char) : Bool := '0' ≤ c && c ≤ '9'

def decimal (text : List Char) : Nat := text.foldl (fun n c => 10 * n + (c.toNat - '0'.toNat)) 0

def controller (name : List Char) : Controllers :=
  if name = "cpu".toList then cgCpu
  else if name = "cpuset".toList then cgCpuset
  else if name = "memory".toList then cgMemory
  else if name = "pids".toList then cgPids
  else 0

def processNumber (text : List Char) : Except Errno Nat := do
  failIf (text = [] ∨ ¬ text.all isDigit) .EINVAL
  failIf (decimal text > 2147483647) .EINVAL
  return decimal text

def names (call : ControlWrite) (value : Nat) (m : Member) : Bool :=
  if value = 0 then m.tid == call.actor
  else
    let numbers := (call.visible.map fun number => number m.id).getD (m.tid, m.tgid)
    numbers.1 == value || (call.file == .procs && numbers.2 == value)

variable (w : World) (g : GroupId)

def moveMember (m : Member) : World :=
  let w :=
    if m.charged ∧ m.group ≠ g then (pidsCharge (pidsUncharge w m) g).modify m.id fun m => { m with charged := true }
    else w
  let w := if m.tid ≠ 0 then membershipChange w (some m.group) (some g) m.stopped else w
  w.modify m.id fun m => { m with group := g, freezing := freezing w.group g }

/-- Whether a member goes with the target of a write. -/
def moves (file : ControlFile) (target m : Member) : Bool :=
  m.id == target.id || (file == .procs && m.tid != 0 && m.tgid == target.tgid)

def moveMembers (file : ControlFile) (target : Member) : World :=
  w.members.foldl (fun w m => if moves file target m then moveMember w g m else w) w

/-- The target of a write to `cgroup.procs` or `cgroup.threads`. -/
def migrationTarget (call : ControlWrite) (text : List Char) : Except Errno Member := do
  let value ← processNumber text
  match w.members.find? fun m => m.tid != 0 && names call value m with
  | none => .error .ESRCH
  | some target =>
    failIf (call.file = .threads ∧ target.group ≠ call.group) .EOPNOTSUPP
    attachAllowed w target.group call.group call.caller
    match call.sampled with
    | some error => .error error
    | none => return target

def migrate (call : ControlWrite) (text : List Char) : World × Except Errno Unit :=
  match migrationTarget w call text with
  | .error error => (w, .error error)
  | .ok target => (moveMembers w call.group call.file target, .ok ())

/-- One word of a write to `cgroup.subtree_control`. -/
def subtreeWord (next : Controllers) : List Char → Except Errno Controllers
  | [] => .error .EINVAL
  | sign :: name => do
    failIf ((sign ≠ '+' ∧ sign ≠ '-') ∨ name = []) .EINVAL
    failIf (controller name = 0) .EOPNOTSUPP
    return if sign = '+' then next ||| controller name else next &&& ~~~ controller name

/-- The groups right under one, without the removed ones. -/
def children : List GroupId := w.groups.filter fun child => !(w.group child).removed && child ≠ [] && child.tail = g

/-- The files of the controllers taken away go from the children, one after the other. -/
def dropControllers (unlinked : GroupId → Option Errno) (removed : Controllers) :
    List GroupId → World → World × Except Errno Unit
  | [], w => (w, .ok ())
  | child :: rest, w =>
    match unlinked child with
    | some error => (w, .error error)
    | none =>
      let group := w.group child
      dropControllers unlinked removed rest (w.setGroup child
        (if removed &&& cgPids ≠ 0 then { group with pidsMax := pidsUnlimited } else group))

/-- What `subtree_write` asks before it changes anything, and the controllers it ends with. -/
def subtreeNext (call : ControlWrite) (text : List Char) : Except Errno Controllers := do
  let group := w.group call.group
  let next ← (words text).foldlM subtreeWord group.subtree
  failIf (next &&& ~~~ available w.group call.group ≠ 0) .ENOENT
  failIf (∃ child ∈ children w call.group, (w.group child).subtree &&& (group.subtree &&& ~~~ next) ≠ 0) .EBUSY
  failIf (next &&& ~~~ group.subtree ≠ 0 ∧ call.group ≠ [] ∧ ∃ m ∈ w.members, (m.tid ≠ 0 ∨ m.reserved) ∧
    m.group = call.group) .EBUSY
  match call.created with
  | some error => if next &&& ~~~ group.subtree ≠ 0 then .error error else return next
  | none => return next

def subtreeWrite (call : ControlWrite) (text : List Char) : World × Except Errno Unit :=
  match subtreeNext w call text with
  | .error error => (w, .error error)
  | .ok next =>
    let removed := (w.group call.group).subtree &&& ~~~ next
    let (dropped, outcome) :=
      if removed ≠ 0 then dropControllers call.unlinked removed (children w call.group) w else (w, .ok ())
    match outcome with
    | .error error => (dropped, .error error)
    | .ok _ => (dropped.setGroup call.group { dropped.group call.group with subtree := next }, .ok ())

def Group.freezeAs (g : Group) (effective : Bool) : Group := { g with effectiveFreeze := effective }.refreeze

def refreezeAll : World :=
  let groups := fun g => if g ∈ w.groups then (w.group g).freezeAs (freezing w.group g) else w.group g
  { w with group := groups, members := w.members.map fun m => { m with freezing := (groups m.group).effectiveFreeze } }

def freezeWrite (text : List Char) : World × Except Errno Unit :=
  if text ≠ ['0'] ∧ text ≠ ['1'] then (w, .error .EINVAL)
  else if g = [] ∧ text = ['1'] then (w, .error .EOPNOTSUPP)
  else if (w.group g).freeze = decide (text = ['1']) then (w, .ok ())
  else (refreezeAll (w.setGroup g { w.group g with freeze := decide (text = ['1']) }), .ok ())

/-- `pids.max`. -/
def pidsMaxWrite (text : List Char) : World × Except Errno Unit :=
  if text = "max".toList then (w.setGroup g { w.group g with pidsMax := pidsUnlimited }, .ok ())
  else if text = [] ∨ ¬ text.all isDigit then (w, .error .EINVAL)
  else if decimal text > 2 ^ 63 - 1 then (w, .error .ERANGE)
  else (w.setGroup g { w.group g with pidsMax := decimal text }, .ok ())

def enabled (group : GroupId → Group) (g : GroupId) : ControlFile → Bool
  | .pidsMax => g ≠ [] && available group g &&& cgPids ≠ 0
  | .resource controller root => controller = 0 || ((g ≠ [] || root) && available group g &&& controller ≠ 0)
  | _ => true

/-- The checks of `control_write` before its switch. -/
def controlAdmitted (call : ControlWrite) : Except Errno Unit := do
  match call.refused with
  | some error => .error error
  | none => pure ()
  failIf ((w.group call.group).removed ∨ call.stale ∨ ¬ enabled w.group call.group call.file) .ENODEV
  match call.permission with
  | some error => .error error
  | none => pure ()
  failIf (call.caller.delegates ∧ !call.caller.initial ∧ call.group = call.caller.boundary ∧ call.file ≠ .procs ∧
    call.file ≠ .threads ∧ call.file ≠ .subtree) .EPERM

/-- `control_write` of a file of a group that was opened. -/
def controlWrite (call : ControlWrite) : World × Except Errno Unit :=
  if call.group ∉ w.groups ∨ call.data.length ≥ 4096 then (w, .error .EINVAL)
  else match controlAdmitted w call with
  | .error error => (w, .error error)
  | .ok _ =>
    let text := controlText call.data
    match call.file with
    | .procs | .threads => migrate w call text
    | .subtree => subtreeWrite w call text
    | .pidsMax => pidsMaxWrite w call.group text
    | .freeze => freezeWrite w call.group text
    | .type => (w, if text = "domain".toList then .ok () else .error .EOPNOTSUPP)
    | .resource _ _ => (w, match call.policy with
      | some error => .error error
      | none => .ok ())

/-- `md_cgroup_mount` of the unified hierarchy: the members there are all go to its root. -/
def mount (members : List Member) (nextMember : MemberId) : World where
  group g := if g = [] then members.foldl (fun g m =>
      { g with populated := if m.tid ≠ 0 then g.populated + 1 else g.populated
               pidsCharged := if m.charged then g.pidsCharged + 1 else g.pidsCharged }) {}
    else {}
  groups := [[]]
  members := members.map fun m => { m with group := [] }
  nextMember := nextMember

inductive Op where
  | fork (old : MemberId) (allocated : Bool) (gone : MemberId → Bool)
  | clone (parent : MemberId) (target : GroupId) (caller : Caller) (thread : Bool) (refused : Option Errno)
      (allocated : Bool) (gone : MemberId → Bool)
  | retain (id : MemberId)
  | release (id : MemberId)
  | publish (id : MemberId) (tid tgid : Nat)
  | depart (id : MemberId) (tid : Nat)
  | reaped (id : MemberId)
  | frozen (id : MemberId) (stopped : Bool)
  | write (call : ControlWrite)
  | reconcile (gone : MemberId → Bool)
  | mkdir (base : GroupId) (serial : Nat) (refused late : Option Errno)
  | rmdir (g : GroupId) (refused unlinked : Option Errno)

def step : Op → World
  | .fork old allocated gone => (memberFork w old allocated gone).1
  | .clone parent target caller thread refused allocated gone =>
    (memberClone w parent target caller thread refused allocated gone).1
  | .retain id => memberRetain w id
  | .release id => memberRelease w id
  | .publish id tid tgid => memberPublish w id tid tgid
  | .depart id tid => memberDepart w id tid
  | .reaped id => memberReaped w id
  | .frozen id stopped => memberFrozen w id stopped
  | .write call => (controlWrite w call).1
  | .reconcile gone => pidsReconcile w gone
  | .mkdir base serial refused late => (mkdir w base serial refused late).1
  | .rmdir g refused unlinked => (rmdir w g refused unlinked).1

def run (ops : List Op) : World := ops.foldl step w

end Shroot.Cgroup
