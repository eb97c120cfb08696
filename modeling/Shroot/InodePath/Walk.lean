import Shroot.General.Checks
import Shroot.General.Loop
import Shroot.Errno

namespace Shroot.InodePath

open General

section

abbrev Id := Bytes

def dot : Bytes := [46]
def pathMax : Nat := 4096
def nameMax : Nat := 255
def symlinkMax : Nat := 40

inductive NodeKind where
  | dir | reg | lnk | sock | fifo | chr | blk
  deriving DecidableEq

structure Node where
  id : Id
  parent : Id
  backing : Bytes
  scope : Id
  kind : NodeKind
  device : UInt64
  logicalDevice : UInt64
  rdev : UInt64
  inode : UInt64
  logicalInode : UInt64
  links : Nat
  attached : Bool
  shared : Bool
  source : Nat
  mode : Int
  uid : UInt32
  gid : UInt32
  aclMask : UInt32
  native : Bool
  descriptor : Bool
  deriving DecidableEq

inductive DependencyKind where
  | object | entry | children | path | backing

/-- The host path a walk stops at. -/
structure RemotePath where
  mountRoot : Bool
  nativeDirectory : Bool
  path : Bytes
  deriving DecidableEq

/-- An error return, with what was left in the boundary record. -/
structure Failure where
  errno : Errno
  remote : Option RemotePath := none
  deriving DecidableEq

/-- The boundary record of a request: whether it has a path buffer, and its size. -/
structure Boundary where
  path : Bool
  capacity : Nat

/-- An inode store as one walk finds it: the catalogue's rows, what the actor may search, the
mount view, and the versions of the read cache. -/
structure Store where
  rootId : Option Id
  scope : Id
  boundary : Option Boundary
  mountBoundary : Option (UInt64 → UInt64 → Bool)
  names : Id → Bytes → Except Errno Id
  objects : Id → Except Errno Node
  fd : Nat → Except Errno Node
  fstatDirectory : Nat → Except Errno Bool
  leafLookup : Node → Bytes → Bool → Bool → Except Errno Node
  permission : Node → Except Errno Unit
  stat : Node → Except Errno Unit
  readlink : Bytes → Except Errno Bytes
  cacheChecked : Bool
  readEpoch : UInt64
  versions : Nat → UInt64
  /-- A row is read back under its own id and is not a native leaf. -/
  objects_row : ∀ id node, objects id = .ok node → node.id = id ∧ node.native = false ∧ node.descriptor = false
  /-- A descriptor names an object row or a native leaf. -/
  fd_row : ∀ number node, fd number = .ok node → node.native = false → node.descriptor = false →
    objects node.id = .ok node
  /-- A leaf outside the catalogue is a native one. -/
  leaf_native : ∀ parent name attributes pin node, leafLookup parent name attributes pin = .ok node → node.native = true

variable (s : Store)

def mdiRoot : Id := s.rootId.getD s.scope

variable (node : Node)

def mdiAccess : Except Errno Unit := if node.kind ≠ .dir then .error .ENOTDIR else s.permission node

def mountContains : Bool :=
  match s.mountBoundary with
  | none => false
  | some contains => contains node.device node.inode

/-- A name found in the catalogue gives its object's row. -/
def catalogueLookup (parent : Id) (name : Bytes) : Except Errno Node := s.names parent name >>= s.objects

def mdiLookup (parent : Node) (name : Bytes) (attributes pin : Bool) : Except Errno Node :=
  match catalogueLookup s parent.id name with
  | .error .ENOENT => s.leafLookup parent name attributes pin
  | .error e => .error e
  | .ok node => if attributes then s.stat node >>= fun _ => .ok node else .ok node

def RESOLVE_NO_XDEV : UInt64 := 1
def RESOLVE_NO_MAGICLINKS : UInt64 := 2
def RESOLVE_NO_SYMLINKS : UInt64 := 4
def RESOLVE_BENEATH : UInt64 := 8
def RESOLVE_IN_ROOT : UInt64 := 16
def RESOLVE_CACHED : UInt64 := 32

def resolves (resolve mask : UInt64) : Bool := resolve &&& mask != 0

inductive Follow where
  | follow | nofollow | entry
  deriving DecidableEq

/-- The arguments of `walk`. No descriptor stands for `MD_INODE_ROOT`; the two optional
outputs are present or not. -/
structure WalkRequest where
  dirfd : Option Nat
  path : Bytes
  follow : Follow
  missing : Bool
  resolve : UInt64
  attributes : Bool
  pin : Bool

variable (cursor : Bytes)

def skipSlashes : Bytes := cursor.dropWhile (· == slash)

def componentName : Bytes := (skipSlashes cursor).takeWhile (· != slash)

def componentRest : Bytes := (skipSlashes cursor).dropWhile (· != slash)

def procName : Bytes := [112, 114, 111, 99]
def devName : Bytes := [100, 101, 118]
def shmName : Bytes := [115, 104, 109]

def hostBoundary (parent : Id) (name tail : Bytes) (resolve : UInt64) : Except Failure Unit :=
  match s.boundary with
  | none => .ok ()
  | some boundary =>
    if mdiRoot s ≠ s.scope ∨ parent ≠ s.scope then .ok ()
    else if name ≠ procName ∧ name ≠ devName then .ok ()
    else
      let next := skipSlashes tail
      if name = devName ∧ next.take 3 = shmName ∧ (next.drop 3 = [] ∨ next[3]? = some slash) then .ok ()
      else
        let remote (path : Bytes) : RemotePath :=
          { mountRoot := next.isEmpty, nativeDirectory := name == devName, path := path }
        if resolves resolve RESOLVE_NO_XDEV ∨ next ≠ [] ∧ name ≠ devName ∧
          resolves resolve (RESOLVE_IN_ROOT ||| RESOLVE_BENEATH) then
          .error { errno := .EXDEV, remote := some (remote []) }
        else if ¬ boundary.path then .error { errno := .EREMOTE, remote := some (remote []) }
        else
          let path := slash :: name ++ tail
          if path.length ≥ boundary.capacity then .error { errno := .ENAMETOOLONG, remote := some (remote []) }
          else .error { errno := .EREMOTE, remote := some (remote path) }

def liftErrno {α : Type} (action : Except Errno α) : Except Failure α :=
  match action with
  | .ok value => .ok value
  | .error errno => .error { errno := errno }

/-- What every step into a directory checks before it looks the name up. -/
def enterDirectory (name tail : Bytes) (resolve : UInt64) : Except Failure Unit :=
  liftErrno (mdiAccess s node) >>= fun _ => hostBoundary s node.id name tail resolve

def statIf (attributes : Bool) (node : Node) : Except Failure Unit :=
  if attributes then liftErrno (s.stat node) else .ok ()

def pathStep (current : Node) (name tail : Bytes) (resolve : UInt64) (attributes pin : Bool) : Except Failure Node := do
  enterDirectory s current name tail resolve
  if name = dot ∨ name = dotDot ∧ current.id = mdiRoot s then
    failIf (mountContains s current) { errno := .EXDEV }
    statIf s attributes current
    return current
  else if name = dotDot then
    let next ← liftErrno (s.objects current.parent)
    failIf (mountContains s next) { errno := .EXDEV }
    statIf s attributes next
    return next
  else
    let next ← liftErrno (mdiLookup s current name attributes pin)
    failIf (mountContains s next) { errno := .EXDEV }
    return next

end

open List

/-- `struct mdi_location`; a node that was not written is absent. -/
structure Location where
  node : Option Node
  parent : Option Node
  name : Bytes
  isPresent : Bool
  special : Bool
  trailing : Bool
  deriving DecidableEq

/-- How a walk returns: with 0, with `-ENOENT` and the component it could not resolve, or
with another error, whose location says nothing. -/
inductive Outcome where
  | done (location : Location)
  | missing (location : Location)
  | failed (failure : Failure)
  deriving DecidableEq

/-- The directories of a plain walk so far, and how much of the path led to them. -/
structure PathPrefix where
  nodes : List Node
  length : Nat
  deriving DecidableEq

def pathPrefixDepth : Nat := 32

/-- The variables of the component loop. `put` is what was handed to the cache. -/
structure WalkState where
  current : Node
  cursor : Bytes
  links : Nat
  remember : Option PathPrefix
  put : Option PathPrefix
  deriving DecidableEq

/-- Hand the remembered directories to the cache and stop remembering. -/
def WalkState.flush (st : WalkState) : WalkState :=
  match st.remember with
  | none => st
  | some remembered => { st with remember := none, put := some remembered }

def WalkState.flushIf (st : WalkState) (condition : Bool) : WalkState := if condition then st.flush else st

/-- Go down to a directory of the path. -/
def WalkState.descend (st : WalkState) (q : WalkRequest) (next : Node) (rest : Bytes) : WalkState :=
  let moved : WalkState := { st with current := next, cursor := rest }
  match st.remember with
  | none => moved
  | some remembered =>
    if next.native ∨ next.descriptor ∨ remembered.nodes.length = pathPrefixDepth then moved.flush
    else { moved with remember := some ⟨remembered.nodes ++ [next], q.path.length - rest.length⟩ }

def isSpecial (name : Bytes) : Bool := name == dot || name == dotDot

def resolveComponent (s : Store) (q : WalkRequest) (base current : Node) (name tail : Bytes) (last : Bool) :
    Except Failure Node :=
  if name = dotDot ∧ resolves q.resolve (RESOLVE_BENEATH ||| RESOLVE_IN_ROOT) ∧ current.id = base.id then do
    liftErrno (mdiAccess s current)
    failIf (resolves q.resolve RESOLVE_BENEATH) { errno := .EXDEV }
    statIf s (last && q.attributes) current
    return current
  else pathStep s current name tail q.resolve (last && q.attributes) (last && q.pin)

/-- Where an absolute link target starts. -/
def linkTop (s : Store) (q : WalkRequest) (base : Node) : Except Failure Node :=
  if resolves q.resolve RESOLVE_IN_ROOT then .ok base else liftErrno (s.objects (mdiRoot s))

def followLink (s : Store) (q : WalkRequest) (base : Node) (st : WalkState) (link : Node) (rest : Bytes) :
    Except Failure WalkState := do
  failIf (resolves q.resolve RESOLVE_NO_SYMLINKS) { errno := .ELOOP }
  failIf (st.links + 1 > symlinkMax) { errno := .ELOOP }
  let target ← liftErrno (s.readlink link.backing)
  failIf (target = []) { errno := .ENOENT }
  failIf (target.length + rest.length ≥ pathMax) { errno := .ENAMETOOLONG }
  let followed : WalkState := { st with cursor := target ++ rest, links := st.links + 1 }
  if target.head? = some slash then
    failIf (resolves q.resolve RESOLVE_BENEATH) { errno := .EXDEV }
    let top ← linkTop s q base
    failIf (mountContains s top) { errno := .EXDEV }
    return { followed with current := top }
  else return followed

/-- The return for a component that does not resolve: an absent one is recorded. -/
def unresolved (q : WalkRequest) (current : Node) (name rest : Bytes) (last : Bool) (failure : Failure) : Outcome :=
  if failure.errno = .ENOENT ∧ ¬ isSpecial name then
    let location : Location :=
      { node := none, parent := some current, name := name, isPresent := false, special := false
        trailing := !rest.isEmpty }
    if last && q.missing then .done location else .missing location
  else .failed failure

/-- The return when the cursor has nothing but slashes left. -/
def atDirectory (s : Store) (q : WalkRequest) (current : Node) : Outcome :=
  match statIf s q.attributes current with
  | .error failure => .failed failure
  | .ok () =>
    .done { node := some current, parent := some current, name := [], isPresent := true, special := true
            trailing := true }

/-- What a resolved component does: replace a link, go down, or return. -/
def arrive (s : Store) (q : WalkRequest) (base : Node) (st : WalkState) (name rest : Bytes) (last : Bool)
    (next : Node) : (Outcome × Option PathPrefix) ⊕ WalkState :=
  let trailing := !rest.isEmpty
  if next.kind = .lnk ∧ (¬ last ∨ q.follow = .follow ∨ q.follow = .nofollow ∧ trailing) then
    match followLink s q base st.flush next rest with
    | .error failure => .inl (.failed failure, st.flush.put)
    | .ok followed => .inr followed
  else if (¬ last ∨ trailing ∧ q.follow ≠ .entry) ∧ next.kind ≠ .dir then
    .inl (.failed { errno := .ENOTDIR }, st.put)
  else if last then
    .inl (.done { node := some next, parent := some st.current, name := name, isPresent := true
                  special := isSpecial name, trailing := trailing }, st.put)
  else .inr (st.descend q next rest)

def walkBody (s : Store) (q : WalkRequest) (base : Node) (st : WalkState) : (Outcome × Option PathPrefix) ⊕ WalkState :=
  if skipSlashes st.cursor = [] then .inl (atDirectory s q st.current, st.put)
  else
    let name := componentName st.cursor
    let rest := componentRest st.cursor
    let last := (skipSlashes rest).isEmpty
    if name.length > nameMax then .inl (.failed { errno := .ENAMETOOLONG }, st.put)
    else
      let flushed := st.flushIf (last || isSpecial name)
      match resolveComponent s q base st.current name rest last with
      | .error failure => .inl (unresolved q st.current name rest last failure, flushed.put)
      | .ok next => arrive s q base flushed name rest last next

theorem dropWhile_slash_head {bytes : Bytes} : ∀ byte ∈ (skipSlashes bytes).head?, byte ≠ slash := by
  intro byte first
  have := head?_dropWhile_not (· == slash) bytes
  simp_all [skipSlashes]

theorem componentRest_length {cursor : Bytes} (more : skipSlashes cursor ≠ []) :
    (componentRest cursor).length < cursor.length := by
  have shorter : (skipSlashes cursor).length ≤ cursor.length := (dropWhile_sublist _).length_le
  obtain ⟨byte, tail, split⟩ := exists_cons_of_ne_nil more
  have named : byte ≠ slash := dropWhile_slash_head byte (by rw [split]; rfl)
  have gone : (componentRest cursor).length ≤ tail.length := by
    rw [componentRest, split, dropWhile_cons_of_pos (by simpa using named)]
    exact (dropWhile_sublist _).length_le
  rw [split, length_cons] at shorter
  omega

theorem WalkState.flush_rest (st : WalkState) :
    st.flush.current = st.current ∧ st.flush.cursor = st.cursor ∧ st.flush.links = st.links := by
  unfold flush
  split <;> exact ⟨rfl, rfl, rfl⟩

theorem WalkState.flushIf_rest (st : WalkState) (condition : Bool) :
    (st.flushIf condition).current = st.current ∧ (st.flushIf condition).cursor = st.cursor ∧
    (st.flushIf condition).links = st.links := by
  unfold flushIf
  split
  · exact st.flush_rest
  · exact ⟨rfl, rfl, rfl⟩

theorem WalkState.descend_rest (st : WalkState) (q : WalkRequest) (next : Node) (rest : Bytes) :
    (st.descend q next rest).current = next ∧ (st.descend q next rest).cursor = rest ∧
    (st.descend q next rest).links = st.links := by
  unfold descend
  split
  · exact ⟨rfl, rfl, rfl⟩
  · split
    · exact WalkState.flush_rest _
    · exact ⟨rfl, rfl, rfl⟩

section

variable {s : Store} {q : WalkRequest} {base : Node} {st : WalkState}

theorem liftErrno_ok {α : Type} {action : Except Errno α} {val : α} (run : liftErrno action = .ok val) :
    action = .ok val := by
  unfold liftErrno at run
  split at run
  next found => rw [Except.ok.inj run]
  · cases run

theorem followLink_ok {link : Node} {followed : WalkState} {rest : Bytes}
    (run : followLink s q base st link rest = .ok followed) :
    ∃ target top, s.readlink link.backing = .ok target ∧ st.links < symlinkMax ∧
      followed = { st with current := top, cursor := target ++ rest, links := st.links + 1 } ∧
      ((target.head? ≠ some slash ∧ top = st.current) ∨
        (resolves q.resolve RESOLVE_BENEATH = false ∧ linkTop s q base = .ok top)) := by
  simp only [followLink, failIf_bind_ok] at run
  obtain ⟨-, few, run⟩ := run
  obtain ⟨target, read, run⟩ := bind_ok.mp run
  simp only [failIf_bind_ok] at run
  obtain ⟨-, -, run⟩ := run
  split at run
  · rw [failIf_bind_ok] at run
    obtain ⟨above, run⟩ := run
    obtain ⟨top, found, run⟩ := bind_ok.mp run
    simp only [failIf_bind_ok, pure_ok] at run
    exact ⟨target, top, liftErrno_ok read, by omega, run.2.symm, .inr ⟨by simpa using above, found⟩⟩
  next relative => exact ⟨target, st.current, liftErrno_ok read, by omega, (pure_ok.mp run).symm, .inl ⟨relative, rfl⟩⟩

/-- The location that a walk returns, also that of a component it could not resolve. -/
def Outcome.location : Outcome → Option Location
  | .done location => some location
  | .missing location => some location
  | .failed _ => none

/-- The node that the component at the cursor resolves to. -/
def resolvedAt (s : Store) (q : WalkRequest) (base : Node) (st : WalkState) : Option Node :=
  if skipSlashes st.cursor = [] ∨ (componentName st.cursor).length > nameMax then none
  else (resolveComponent s q base st.current (componentName st.cursor) (componentRest st.cursor)
    (skipSlashes (componentRest st.cursor)).isEmpty).toOption

theorem resolvedAt_eq_some {next : Node} : resolvedAt s q base st = some next ↔
    skipSlashes st.cursor ≠ [] ∧ (componentName st.cursor).length ≤ nameMax ∧
      resolveComponent s q base st.current (componentName st.cursor) (componentRest st.cursor)
        (skipSlashes (componentRest st.cursor)).isEmpty = .ok next := by
  unfold resolvedAt
  split
  next none =>
    refine ⟨nofun, fun ⟨named, short, _⟩ => ?_⟩
    exact none.elim (fun ended => absurd ended named) fun long => absurd short (Nat.not_le.mpr long)
  next more =>
    rw [not_or, Nat.not_lt] at more
    cases resolveComponent s q base st.current (componentName st.cursor) (componentRest st.cursor)
        (skipSlashes (componentRest st.cursor)).isEmpty with
    | error failure => exact ⟨nofun, fun found => nomatch found.2.2⟩
    | ok node => simp [Except.toOption, more]

/-- Whether a node at the cursor is a symbolic link that the walk goes through. -/
def mustFollow (q : WalkRequest) (st : WalkState) (next : Node) : Bool :=
  next.kind = .lnk ∧ (¬ (skipSlashes (componentRest st.cursor)).isEmpty ∨ q.follow = .follow ∨
    q.follow = .nofollow ∧ !(componentRest st.cursor).isEmpty)

def WalkState.flushed (st : WalkState) : WalkState :=
  st.flushIf ((skipSlashes (componentRest st.cursor)).isEmpty || isSpecial (componentName st.cursor))

theorem WalkState.flushed_rest (st : WalkState) :
    st.flushed.current = st.current ∧ st.flushed.cursor = st.cursor ∧ st.flushed.links = st.links := st.flushIf_rest _

inductive Iteration (s : Store) (q : WalkRequest) (base : Node) (st : WalkState) :
    (Outcome × Option PathPrefix) ⊕ WalkState → Prop
  | unresolved {outcome : Outcome} {put : Option PathPrefix} (none : resolvedAt s q base st = none)
      (kept : put = st.put ∨ put = st.flushed.put)
      (here : ∀ location ∈ outcome.location, ∀ node, location.node = some node ∨
        location.parent = some node → node = st.current) :
      Iteration s q base st (.inl (outcome, put))
  | failed {next : Node} {failure : Failure} {put : Option PathPrefix} (resolved : resolvedAt s q base st = some next)
      (kept : put = st.flushed.put ∨ put = st.flushed.flush.put) : Iteration s q base st (.inl (.failed failure, put))
  | followed {next : Node} {followed : WalkState} (resolved : resolvedAt s q base st = some next)
    (follow : mustFollow q st next = true)
      (run : followLink s q base st.flushed.flush next (componentRest st.cursor) = .ok followed) :
        Iteration s q base st (.inr followed)
  | found {next : Node} {location : Location} (resolved : resolvedAt s q base st = some next)
    (plain : mustFollow q st next = false)
      (node : location.node = some next) (parent : location.parent = some st.current) :
      Iteration s q base st (.inl (.done location, st.flushed.put))
  | down {next : Node} (resolved : resolvedAt s q base st = some next) (plain : mustFollow q st next = false)
      (more : skipSlashes (componentRest st.cursor) ≠ []) (directory : next.kind = .dir) :
      Iteration s q base st (.inr (st.flushed.descend q next (componentRest st.cursor)))

theorem unresolved_location {current node : Node} {name rest : Bytes} {last : Bool} {failure : Failure}
    {location : Location} (found : location ∈ (unresolved q current name rest last failure).location)
    (named : location.node = some node ∨ location.parent = some node) : node = current := by
  dsimp only [unresolved] at found
  split at found
  · split at found <;> cases found <;> exact (Option.some.inj (named.resolve_left nofun)).symm
  · cases found

theorem walkBody_iteration (s : Store) (q : WalkRequest) (base : Node) (st : WalkState) :
    Iteration s q base st (walkBody s q base st) := by
  unfold walkBody
  split
  next ended =>
    refine .unresolved (by simp [resolvedAt, ended]) (.inl rfl) fun location found node named => ?_
    unfold atDirectory at found
    split at found
    · cases found
    · cases found
      rcases named with named | named <;> exact (Option.some.inj named).symm
  rename_i named
  dsimp only
  split
  next long => exact .unresolved (by simp [resolvedAt, long]) (.inl rfl) fun _ found => by cases found
  rename_i short
  split
  next failure bad =>
    refine .unresolved ?_ (.inr rfl) fun location found node named => unresolved_location found named
    simp [resolvedAt, named, bad, Except.toOption]
  rename_i next found
  have known : resolvedAt s q base st = some next := resolvedAt_eq_some.mpr ⟨named, Nat.not_lt.mp short, found⟩
  unfold arrive
  dsimp only
  split
  next link =>
    have follow : mustFollow q st next = true := by simpa [mustFollow] using link
    split
    · exact .failed known (.inr rfl)
    next run => exact .followed known follow run
  rename_i notLink
  have plain : mustFollow q st next = false := by
    rw [mustFollow, decide_eq_false_iff_not]
    simpa using notLink
  split
  · exact .failed known (.inl rfl)
  rename_i directory
  split
  · exact .found known plain rfl (congrArg some (st.flushIf_rest _).1)
  next more => exact .down known plain (by simpa using more) (by_contra fun other => directory ⟨.inl more, other⟩)

theorem walkBody_goes {next : WalkState} (goes : walkBody s q base st = .inr next) :
    Iteration s q base st (.inr next) :=
  goes ▸ walkBody_iteration s q base st

theorem walkBody_decreases (s : Store) (q : WalkRequest) (base : Node) (st next : WalkState)
    (goes : walkBody s q base st = .inr next) :
    Prod.Lex (· < ·) (· < ·) (symlinkMax + 1 - next.links, next.cursor.length)
      (symlinkMax + 1 - st.links, st.cursor.length) := by
  cases walkBody_goes goes with
  | followed known follow run =>
    obtain ⟨target, top, -, few, rfl, -⟩ := followLink_ok run
    rw [st.flushed.flush_rest.2.2, st.flushed_rest.2.2] at few ⊢
    exact .left _ _ (by dsimp only; omega)
  | @down node known plain more directory =>
    obtain ⟨-, cursor, same⟩ := st.flushed.descend_rest q node (componentRest st.cursor)
    rw [cursor, same, st.flushed_rest.2.2]
    exact .right _ (componentRest_length (resolvedAt_eq_some.mp known).1)

end

/-- The component loop. Links are bounded and every other iteration shortens the path. -/
def walkLoop (s : Store) (q : WalkRequest) (base : Node) : Loop WalkState (Outcome × Option PathPrefix) where
  body := walkBody s q base
  size st := (symlinkMax + 1 - st.links, st.cursor.length)
  decreases := walkBody_decreases s q base

def startsAtRoot (q : WalkRequest) : Bool := q.path.head? == some slash && !resolves q.resolve RESOLVE_IN_ROOT

def startNode (s : Store) (q : WalkRequest) : Except Failure Node :=
  match startsAtRoot q, q.dirfd with
  | false, some fd =>
    match s.fd fd with
    | .error .EXDEV => do
      let directory ← liftErrno (s.fstatDirectory fd)
      throw { errno := if directory then .EXDEV else .ENOTDIR }
    | found => liftErrno found
  | _, _ => liftErrno (s.objects (mdiRoot s))

/-- The start of a walk: the checks before the loop and the directory it begins at. -/
def walkStart (s : Store) (q : WalkRequest) : Except Failure Node := do
  failIf (resolves q.resolve (~~~(RESOLVE_BENEATH ||| RESOLVE_IN_ROOT ||| RESOLVE_NO_SYMLINKS |||
    RESOLVE_NO_MAGICLINKS ||| RESOLVE_NO_XDEV ||| RESOLVE_CACHED))) { errno := .EINVAL }
  failIf (resolves q.resolve RESOLVE_BENEATH ∧ resolves q.resolve RESOLVE_IN_ROOT) { errno := .EINVAL }
  failIf (resolves q.resolve RESOLVE_CACHED) { errno := .EAGAIN }
  failIf (q.path = []) { errno := .ENOENT }
  failIf (q.path.head? = some slash ∧ resolves q.resolve RESOLVE_BENEATH) { errno := .EXDEV }
  failIf (q.path.length ≥ pathMax) { errno := .ENAMETOOLONG }
  let current ← startNode s q
  failIf ((startsAtRoot q ∨ q.dirfd = none) ∧ mountContains s current) { errno := .EXDEV }
  failIf (current.kind ≠ .dir) { errno := .ENOTDIR }
  return current

/-- Only unconstrained walks from an object row use the prefix cache. -/
def remembers (q : WalkRequest) (start : Node) : Bool := q.resolve == 0 && !start.native && !start.descriptor

end Shroot.InodePath
