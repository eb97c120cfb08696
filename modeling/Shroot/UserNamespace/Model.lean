import Shroot.General.Checks
import Shroot.Errno

namespace Shroot

open General

def uint32Max : UInt32 := 4294967295

def intMax : Nat := 2147483647

/-- One line of a uid or gid map. -/
structure IdExtent where
  inside : UInt32
  outside : UInt32
  count : UInt32
  deriving DecidableEq

structure UserNamespaceKey where
  device : UInt64
  inode : UInt64
  generation : UInt64
  deriving DecidableEq, Inhabited

/-- The sealed policy page. A map is the list of its published extents. -/
structure NamespacePage where
  magic : UInt32
  version : UInt32
  depth : UInt32
  owner : UInt32
  group : UInt32
  creatorSetfcap : UInt32
  inode : UInt64
  parent : UserNamespaceKey
  groupsAllowed : UInt32
  limits : List UInt32
  uidMap : List IdExtent
  gidMap : List IdExtent
  deriving DecidableEq

variable (page : NamespacePage)

def NamespacePage.maps (group : Bool) : List IdExtent := if group then page.gidMap else page.uidMap

def NamespacePage.publish (group : Bool) (ranges : List IdExtent) : NamespacePage :=
  if group then { page with gidMap := ranges } else { page with uidMap := ranges }

structure UserLevel where
  id : UserNamespaceKey
  writer : Bool
  page : NamespacePage
  deriving DecidableEq

/-- A namespace pointer together with everything its parent links reach, the
namespace itself first. The empty list is `NULL`, the launch's initial one. -/
abbrev UserNamespace := List UserLevel

def namespaceMagic : UInt32 := 0x4d44554e
def namespaceVersion : UInt32 := 4
def userMapExtents : Nat := 340
def userNamespaceDepthLimit : UInt32 := 33
def userResourceCount : Nat := 3

def capSetgid : Nat := 6
def capSetuid : Nat := 7
def capSysAdmin : Nat := 21
def capSetfcap : Nat := 31

structure UserAuthority where
  space : UserNamespace
  uid : UInt32
  gid : UInt32
  caps : BitVec 64

def userNamespaceKey : UserNamespace → UserNamespaceKey
  | [] => default
  | n :: _ => n.id

def userNamespaceDepth : UserNamespace → UInt32
  | [] => 0
  | n :: _ => n.page.depth

/-- Pages are compared by identity; only `NULL` is the initial namespace. -/
def userNamespaceSame : UserNamespace → UserNamespace → Bool
  | [], [] => true
  | a :: _, b :: _ => a.id == b.id
  | _, _ => false

def userNamespaceGroupsAllowed : UserNamespace → Bool
  | [] => true
  | n :: _ => n.page.groupsAllowed != 0

def userNamespaceMaySetgroups : UserNamespace → Bool
  | [] => true
  | n :: parent => userNamespaceGroupsAllowed (n :: parent) && !n.page.gidMap.isEmpty

def userNamespaceContains (ancestor : UserNamespace) : UserNamespace → Bool
  | [] => userNamespaceSame [] ancestor
  | n :: parent => userNamespaceSame (n :: parent) ancestor || userNamespaceContains ancestor parent

def translate (map : List IdExtent) (id : UInt32) (reverse : Bool) : UInt32 :=
  if id = uint32Max then uint32Max
  else
    let start (r : IdExtent) := if reverse then r.outside else r.inside
    match map.find? fun r => start r ≤ id ∧ id - start r < r.count with
    | some r => (if reverse then r.inside else r.outside) + (id - start r)
    | none => uint32Max

def userNamespaceInto : UserNamespace → Bool → UInt32 → UInt32
  | [], _, id => id
  | n :: parent, group, id =>
    if id = uint32Max then id
    else userNamespaceInto parent group (translate (n.page.maps group) id false)

def userNamespaceFrom : UserNamespace → Bool → UInt32 → UInt32
  | [], _, id => id
  | n :: parent, group, id =>
    if id = uint32Max then id
    else translate (n.page.maps group) (userNamespaceFrom parent group id) true

/-- Capability of an actor over `target`: its own set in its own namespace,
everything over a descendant whose branch it owns. -/
def userNamespaceCapableLoop (actor : UserNamespace) (uid : UInt32) (caps : BitVec 64) (cap : Nat) :
    UserNamespace → Bool
  | [] => userNamespaceSame actor [] && caps.getLsbD cap
  | target :: parent =>
    if userNamespaceSame actor (target :: parent) then caps.getLsbD cap
    else if userNamespaceSame parent actor && target.page.owner == uid then true
    else userNamespaceCapableLoop actor uid caps cap parent

def userNamespaceCapable (actor : UserNamespace) (uid : UInt32) (caps : BitVec 64) (target : UserNamespace)
    (cap : Nat) : Bool :=
  if cap ≥ 64 then false else userNamespaceCapableLoop actor uid caps cap target

def UserAuthority.capable (a : UserAuthority) (n : UserNamespace) (cap : Nat) : Bool :=
  userNamespaceCapable a.space a.uid a.caps n cap

/-- The sums are 64-bit in the source and cannot wrap there. -/
def overlap (a an b bn : UInt32) : Bool := a.toNat + an.toNat > b.toNat && b.toNat + bn.toNat > a.toNat

/-- Each extent goes through one extent of every parent. -/
def covered : UserNamespace → Bool → UInt32 → UInt32 → Bool
  | [], _, _, _ => true
  | n :: parent, group, start, count =>
    match (n.page.maps group).find? fun r =>
        r.inside ≤ start ∧ start.toNat + count.toNat ≤ r.inside.toNat + r.count.toNat with
    | some r => covered parent group (r.outside + (start - r.inside)) count
    | none => false

/-- The checks of one extent against its own bounds and the extents before it. -/
def extentAdmitted (previous : List IdExtent) (r : IdExtent) : Bool :=
  r.count != 0 && r.inside.toNat + r.count.toNat ≤ uint32Max.toNat &&
    r.outside.toNat + r.count.toNat ≤ uint32Max.toNat &&
    previous.all fun p => !(overlap r.inside r.count p.inside p.count || overlap r.outside r.count p.outside p.count)

def extentsAdmitted (previous : List IdExtent) : List IdExtent → Bool
  | [] => true
  | r :: rest => extentAdmitted previous r && extentsAdmitted (previous ++ [r]) rest

variable (n : UserNamespace)

def userNamespaceMapAdmit (group : Bool) (opener : Option UserAuthority) :
    Except Errno (UserLevel × UserNamespace × UserAuthority) :=
  match n, opener with
  | level :: parent, some opener => do
    failIf (!level.writer) .EPERM
    failIf (!userNamespaceSame opener.space n && !userNamespaceSame opener.space parent) .EPERM
    failIf (!(level.page.maps group).isEmpty) .EPERM
    failIf (!opener.capable n capSysAdmin) .EPERM
    return (level, parent, opener)
  | _, _ => .error .EPERM

/-- What an opener without authority over the parent may still write: its own
id, on one line, with `setgroups` already denied for a gid map. -/
def ownIdMap (level : UserLevel) (parent : UserNamespace) (group : Bool) (opener : UserAuthority)
    (ranges : List IdExtent) : Bool :=
  match ranges with
  | [r] => r.count == 1 && level.page.owner == opener.uid &&
      userNamespaceInto parent group r.outside == (if group then opener.gid else opener.uid) &&
      !(group && userNamespaceGroupsAllowed (level :: parent))
  | _ => false

def userNamespaceMap (group : Bool) (opener writer : Option UserAuthority) (ranges : List IdExtent) :
    Except Errno UserNamespace := do
  let (level, parent, opener) ← userNamespaceMapAdmit n group opener
  failIf (ranges.isEmpty || ranges.length > userMapExtents) .EINVAL
  failIf (!extentsAdmitted [] ranges) .EINVAL
  let cap := if group then capSetgid else capSetuid
  let privileged := opener.capable parent cap && writer.any (·.capable parent cap)
  failIf (!privileged && !ownIdMap level parent group opener ranges) .EPERM
  let rootAllowed := if userNamespaceSame opener.space n then level.page.creatorSetfcap != 0
    else opener.capable parent capSetfcap
  failIf (ranges.any fun r => (!group && r.outside == 0 && !rootAllowed) || !covered parent group r.outside r.count)
    .EPERM
  return { level with page := level.page.publish group ranges } :: parent

/-- What the kernel and the account of the creator answer to a new namespace. -/
structure NamespaceBirth where
  id : UserNamespaceKey
  failure : Option Errno

def userNamespaceNew (parent : UserNamespace) (owner group : UInt32) (creatorSetfcap : Bool)
    (birth : NamespaceBirth) : Except Errno UserNamespace := do
  let depth := userNamespaceDepth parent
  let page : NamespacePage :=
    { magic := namespaceMagic
      version := namespaceVersion
      depth := depth + 1
      owner := owner
      group := group
      creatorSetfcap := if creatorSetfcap then 1 else 0
      inode := birth.id.generation
      parent := userNamespaceKey parent
      groupsAllowed := if userNamespaceGroupsAllowed parent then 1 else 0
      limits := List.replicate userResourceCount 2147483647
      uidMap := []
      gidMap := [] }
  failIf (userNamespaceDepthLimit ≤ depth) .ENOSPC
  failIf (owner = uint32Max ∨ group = uint32Max) .EINVAL
  failIf (userNamespaceFrom parent false owner = uint32Max ∨ userNamespaceFrom parent true group = uint32Max) .EPERM
  match birth.failure with
  | some error => .error error
  | none => return { id := birth.id, writer := true, page := page } :: parent

def userNamespaceSetgroups (allowed : Bool) : Except Errno UserNamespace :=
  match n with
  | [] => .error .EPERM
  | level :: parent => do
    failIf (!level.writer) .EPERM
    if allowed then
      failIf (!userNamespaceGroupsAllowed n) .EPERM
      return n
    failIf (!level.page.gidMap.isEmpty) .EPERM
    return { level with page := { level.page with groupsAllowed := 0 } } :: parent

def validMap (parent : UserNamespace) (group : Bool) (map : List IdExtent) : Bool :=
  map.length ≤ userMapExtents && extentsAdmitted [] map && map.all fun r => covered parent group r.outside r.count

/-- Import's check of one mapped page below the parents already accepted. -/
def validPage (depth : UInt32) (parent : UserNamespace) : Except Errno Unit := do
  failIf (page.magic ≠ namespaceMagic ∨ page.version ≠ namespaceVersion ∨ page.depth ≠ depth ∨
    page.owner = uint32Max ∨ page.group = uint32Max ∨ page.creatorSetfcap > 1 ∨ page.groupsAllowed > 1 ∨
    page.parent ≠ userNamespaceKey parent) .EPROTO
  failIf (page.limits.any fun limit => limit.toNat > intMax) .EPROTO
  failIf (!validMap parent false page.uidMap) .EPROTO
  failIf (!validMap parent true page.gidMap) .EPROTO

end Shroot
