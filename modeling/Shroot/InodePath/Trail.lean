import Shroot.InodePath.Walk

namespace Shroot.InodePath

open General List

section

def fnvStart : UInt64 := 14695981039346656037
def fnvFactor : UInt64 := 1099511628211

def hashByte (hash : UInt64) (byte : UInt8) : UInt64 := (hash ^^^ byte.toUInt64) * fnvFactor

def littleWord (bytes : Bytes) : UInt64 := bytes.foldr (fun byte word => byte.toUInt64 ||| (word <<< 8)) 0

def hashBytes (hash : UInt64) : Bytes → UInt64
  | b0 :: b1 :: b2 :: b3 :: b4 :: b5 :: b6 :: b7 :: rest =>
    let mixed := (hash ^^^ littleWord [b0, b1, b2, b3, b4, b5, b6, b7]) * 0x9e3779b185ebca87
    hashBytes (mixed ^^^ (mixed >>> 32)) rest
  | rest => rest.foldl hashByte hash

def DependencyKind.bytes : DependencyKind → Bytes
  | .object => [0, 0, 0, 0]
  | .entry => [1, 0, 0, 0]
  | .children => [2, 0, 0, 0]
  | .path => [3, 0, 0, 0]
  | .backing => [4, 0, 0, 0]

def dependencies : Nat := 4096

def dependencySlot (kind : DependencyKind) (id name : Bytes) : Nat :=
  (hashBytes (hashBytes (hashBytes fnvStart kind.bytes) id) name).toNat % dependencies

structure Dependency where
  slot : Nat
  version : UInt64
  deriving DecidableEq

variable (s : Store)

def cacheDependency (kind : DependencyKind) (id name : Bytes) : Dependency :=
  let slot := dependencySlot kind id name
  ⟨slot, s.versions slot⟩

def cacheEpoch : UInt64 := if s.cacheChecked then s.readEpoch else 0

def cacheDependenciesCurrent (recorded : List Dependency) : Bool :=
  s.cacheChecked && recorded.all fun d => d.version == s.versions d.slot

structure PrefixNode where
  node : Node
  dependencies : List Dependency
  deriving DecidableEq

/-- A cached directory chain: its first node is the start, the others follow the text. -/
structure CachedPrefix where
  hash : UInt64
  epoch : UInt64
  used : UInt64
  root : Id
  nodes : List PrefixNode
  text : Bytes
  deriving DecidableEq

variable (p : CachedPrefix)

def CachedPrefix.length : Nat := p.text.length

def prefixSets : Nat := 64
def prefixWays : Nat := 2

/-- `struct mdi_path_cache`, by set and way. A store without one has no entries. -/
structure PathCache where
  clock : UInt64
  entries : Nat → Nat → Option CachedPrefix

def PathCache.empty : PathCache where
  clock := 0
  entries _ _ := none

def startHash (start : Node) : UInt64 :=
  (start.id.take 32).foldl hashByte (((mdiRoot s).take 32).foldl hashByte fnvStart)

def prefixHash (start : Node) (text : Bytes) : UInt64 := text.foldl hashByte (startHash s start)

def prefixCurrent : Bool :=
  p.epoch == cacheEpoch s && p.nodes.all fun node => cacheDependenciesCurrent s node.dependencies

def CachedPrefix.startNode : Option Node := p.nodes.head?.map PrefixNode.node

/-- An entry for the path up to position `i`. -/
def prefixMatches (start : Node) (path : Bytes) (i : Nat) (p : CachedPrefix) : Bool :=
  p.hash == prefixHash s start (path.take i) && p.length == i && p.root == mdiRoot s
    && p.startNode.any (fun node => node.id == start.id && node.device == start.device && node.inode == start.inode)
    && p.text == path.take i && prefixCurrent s p

/-- A position where a prefix may end: before a slash that is not the last byte. -/
def prefixEnd (path : Bytes) (i : Nat) : Bool :=
  path[i]? == some slash && i != 0 && path[i - 1]? != some slash && path[i + 1]?.isSome

variable (cache : PathCache)

def bestAt (start : Node) (path : Bytes) (best : Option CachedPrefix) (i : Nat) : Option CachedPrefix :=
  if prefixEnd path i then
    let set := cache.entries ((prefixHash s start (path.take i)).toNat % prefixSets)
    (range prefixWays).foldl
      (fun best way => match set way with
        | none => best
        | some p => if prefixMatches s start path i p then some p else best) best
  else best

def bestPrefix (start : Node) (path : Bytes) : Option CachedPrefix :=
  if cacheEpoch s = 0 then none
  else (range path.length).foldl (bestAt s cache start path) none

/-- Check every directory of an entry again for this actor and mount view. -/
def revalidate (s : Store) : List Node → Bytes → Except Failure Unit
  | node :: next :: rest, cursor => do
    enterDirectory s node (componentName cursor) (componentRest cursor) 0
    failIf (mountContains s next) { errno := .EXDEV }
    revalidate s (next :: rest) (componentRest cursor)
  | _, _ => .ok ()

def PathCache.touch (p : CachedPrefix) : PathCache where
  clock := cache.clock + 1
  entries set way :=
    (cache.entries set way).map fun entry => if entry = p then { entry with used := cache.clock + 1 } else entry

def CachedPrefix.directories : List Node := p.nodes.map PrefixNode.node

def pathPrefixGet (path : Bytes) (start : Node) : Except Failure (PathPrefix × PathCache) :=
  match bestPrefix s cache start path with
  | none => .ok (⟨[start], 0⟩, cache)
  | some best => do
    revalidate s best.directories path
    return (⟨best.directories, best.length⟩, cache.touch best)

/-- The nodes of an entry with the versions they rest on. -/
def recordNodes (s : Store) : List Node → Bytes → List PrefixNode
  | parent :: node :: rest, cursor =>
    { node := node
      dependencies :=
        [cacheDependency s .object node.id [], cacheDependency s .entry parent.id (componentName cursor)] } ::
      recordNodes s (node :: rest) (componentRest cursor)
  | _, _ => []

/-- The way of the set that a new entry takes. -/
def chooseWay (set : Nat → Option CachedPrefix) (epoch : UInt64) : Nat :=
  (range prefixWays).foldl
    (fun slot way => match set way with
      | none => way
      | some p => if p.epoch ≠ epoch ∨ (set slot).any (fun other => p.used < other.used) then way else slot) 0

def prefixHeld (start : Node) (text : Bytes) (p : CachedPrefix) : Bool :=
  p.hash == prefixHash s start text && p.length == text.length && p.root == mdiRoot s
    && p.startNode.any (fun node => node.id == start.id) && p.text == text && prefixCurrent s p

def pathPrefixPut (path : Bytes) (proof : PathPrefix) (allocated : Bool) : PathCache :=
  match proof.nodes with
  | [] => cache
  | start :: others =>
    let text := path.take proof.length
    let hash := prefixHash s start text
    let set := cache.entries (hash.toNat % prefixSets)
    if cacheEpoch s = 0 ∨ others = [] ∨ proof.length = 0 ∨ ¬ allocated then cache
    else if (range prefixWays).any fun way => (set way).any (prefixHeld s start text) then cache
    else
      let way := chooseWay set (cacheEpoch s)
      let entry : CachedPrefix :=
        { hash := hash
          epoch := cacheEpoch s
          used := cache.clock + 1
          root := mdiRoot s
          nodes := { node := start, dependencies := [cacheDependency s .object start.id []] } ::
            recordNodes s (start :: others) path
          text := text }
      { clock := cache.clock + 1
        entries := fun i j => if i = hash.toNat % prefixSets ∧ j = way then some entry else cache.entries i j }

/-- `walk`: what it returns and the cache it leaves. The component loop asks for at most one
`put`, after which it no longer remembers. -/
def walk (q : WalkRequest) (allocated : Bool) : Outcome × PathCache :=
  match walkStart s q with
  | .error failure => (.failed failure, cache)
  | .ok start =>
    let loop (current : Node) (cursor : Bytes) (remember : Option PathPrefix) :=
      (walkLoop s q start).run { current := current, cursor := cursor, links := 0, remember := remember, put := none }
    if remembers q start then
      match pathPrefixGet s cache q.path start with
      | .error failure => (.failed failure, cache)
      | .ok (known, cache) =>
        let result := loop (known.nodes.getLastD start) (q.path.drop known.length) (some known)
        match result.2 with
        | none => (result.1, cache)
        | some proof => (result.1, pathPrefixPut s cache q.path proof allocated)
    else ((loop start q.path none).1, cache)

end

open Except

variable {s : Store} {back rest name : Bytes} {node next cur : Node} {nodes : List Node}

theorem skipSlashes_append {front : Bytes} (more : skipSlashes front ≠ []) :
    skipSlashes (front ++ back) = skipSlashes front ++ back := by
  simp only [skipSlashes, ne_eq, dropWhile_eq_nil_iff] at more ⊢
  rw [dropWhile_append, if_neg (by simpa using more)]

theorem skipSlashes_append_ne_nil (front : Bytes) (more : skipSlashes back ≠ []) :
    skipSlashes (front ++ back) ≠ [] := by
  by_cases named : skipSlashes front = []
  · simp only [skipSlashes, ne_eq, dropWhile_eq_nil_iff, mem_append] at more ⊢
    exact fun all => more fun byte mem => all byte (.inr mem)
  · rw [skipSlashes_append named]
    simp [named]

theorem skipSlashes_ne_nil {cursor : Bytes} (named : componentName cursor ≠ []) : skipSlashes cursor ≠ [] := by
  intro none
  exact named (by rw [componentName, none]; rfl)

theorem componentName_ne_nil {cursor : Bytes} (more : skipSlashes cursor ≠ []) : componentName cursor ≠ [] := by
  obtain ⟨byte, tail, split⟩ := exists_cons_of_ne_nil more
  have named : byte ≠ slash := dropWhile_slash_head byte (by rw [split]; rfl)
  rw [componentName, split, takeWhile_cons_of_pos (by simpa using named)]
  exact cons_ne_nil _ _

/-- A text cut before a slash, or not at all, keeps its first component. -/
theorem component_append {text : Bytes} (named : componentName text ≠ []) (cut : rest = [] ∨ rest.head? = some slash) :
    componentName (text ++ rest) = componentName text ∧ componentRest (text ++ rest) = componentRest text ++ rest := by
  have stops : rest.takeWhile (· != slash) = [] ∧ rest.dropWhile (· != slash) = rest := by
    rcases cut with rfl | first
    · exact ⟨rfl, rfl⟩
    · obtain ⟨tail, rfl⟩ := head?_eq_some_iff.mp first
      exact ⟨takeWhile_cons_of_neg (by simp), dropWhile_cons_of_neg (by simp)⟩
  rw [componentName, componentRest, skipSlashes_append (skipSlashes_ne_nil named), takeWhile_append, dropWhile_append]
  refine ⟨?_, ?_⟩
  · split
    next whole =>
      rw [stops.1, append_nil, componentName]
      exact (( takeWhile_prefix _).eq_of_length whole).symm
    · rfl
  · split
    next nothing => rw [stops.2, componentRest, isEmpty_iff.mp nothing, nil_append]
    · rfl

variable (cursor : Bytes)

theorem componentRest_cut : componentRest cursor = [] ∨ (componentRest cursor).head? = some slash := by
  cases rest : componentRest cursor with
  | nil => exact .inl rfl
  | cons byte tail =>
    have := head?_dropWhile_not (· != slash) (skipSlashes cursor)
    rw [← componentRest, rest] at this
    simp_all

/-- The bytes of one component with its slashes. -/
def componentBytes : Bytes := cursor.takeWhile (· == slash) ++ componentName cursor

theorem componentBytes_append : componentBytes cursor ++ componentRest cursor = cursor := by
  rw [componentBytes, append_assoc, componentName, componentRest, takeWhile_append_dropWhile, skipSlashes,
    takeWhile_append_dropWhile]

theorem component_bytes {cursor : Bytes} (more : skipSlashes cursor ≠ []) :
    componentName (componentBytes cursor) = componentName cursor ∧ componentRest (componentBytes cursor) = [] := by
  have named : ∀ byte ∈ componentName cursor, (byte != slash) = true := by
    intro byte mem
    exact mem_takeWhile_imp (p := (· != slash)) mem
  have skipped : skipSlashes (componentBytes cursor) = componentName cursor := by
    rw [skipSlashes, componentBytes, dropWhile_append]
    have slashes : (cursor.takeWhile (· == slash)).dropWhile (· == slash) = [] :=
      dropWhile_eq_nil_iff.mpr fun byte mem => mem_takeWhile_imp (p := (· == slash)) mem
    rw [slashes]
    obtain ⟨byte, tail, split⟩ := exists_cons_of_ne_nil (componentName_ne_nil more)
    have first := named byte (by rw [split]; exact mem_cons_self)
    simp only [isEmpty_nil, if_true, split]
    exact dropWhile_cons_of_neg (by simpa using first)
  refine ⟨?_, ?_⟩
  · rw [componentName, skipped, takeWhile_eq_self_iff.mpr named]
  · rw [componentRest, skipped, dropWhile_eq_nil_iff.mpr named]

/-- The text names the directories one after the other, each by a plain entry of the one before. -/
def Trail (s : Store) : Node → Bytes → List Node → Prop
  | _, text, [] => text = []
  | node, text, next :: rest =>
    componentName text ≠ [] ∧ isSpecial (componentName text) = false ∧ (componentName text).length ≤ nameMax ∧
    s.names node.id (componentName text) = .ok next.id ∧ s.objects next.id = .ok next ∧ next.kind = .dir ∧
      Trail s next (componentRest text) rest

theorem Trail.snoc {text cursor : Bytes} (trail : Trail s node text nodes)
    (cut : nodes ≠ [] → cursor.head? = some slash) (more : skipSlashes cursor ≠ [])
    (plain : isSpecial (componentName cursor) = false) (short : (componentName cursor).length ≤ nameMax)
    (entry : s.names (nodes.getLastD node).id (componentName cursor) = .ok next.id)
    (row : s.objects next.id = .ok next) (dir : next.kind = .dir) :
    Trail s node (text ++ componentBytes cursor) (nodes ++ [next]) := by
  obtain ⟨name, rest⟩ := component_bytes more
  induction nodes generalizing node text with
  | nil =>
    obtain rfl : text = [] := trail
    simp only [nil_append, Trail, name, rest]
    exact ⟨componentName_ne_nil more, plain, short, entry, row, dir, trivial⟩
  | cons first others ih =>
    obtain ⟨named, firstPlain, firstShort, firstEntry, firstRow, firstDirectory, trail⟩ := trail
    have slashed : (componentBytes cursor).head? = some slash := by
      obtain ⟨tail, rfl⟩ := head?_eq_some_iff.mp (cut (cons_ne_nil _ _))
      simp [componentBytes]
    obtain ⟨sameName, sameRest⟩ := component_append named (.inr slashed)
    simp only [cons_append, Trail, sameName, sameRest]
    refine ⟨named, firstPlain, firstShort, firstEntry, firstRow, firstDirectory, ih trail (fun _ => ?_) ?_⟩
    · exact cut (cons_ne_nil _ _)
    · cases others with
      | nil => exact entry
      | cons two others => exact entry

variable {q : WalkRequest} {base : Node}

/-- How the loop returns a failure met before the last component. -/
def EarlyFailure (fail : Failure) (outcome : Outcome) : Prop :=
  (fail.errno ≠ .ENOENT ∧ outcome = .failed fail) ∨ (fail.errno = .ENOENT ∧ ∃ location, outcome = .missing location)

theorem unresolved_early (plain : isSpecial name = false) (fail : Failure) :
    EarlyFailure fail (unresolved q cur name rest false fail) := by
  by_cases absent : fail.errno = .ENOENT
  · exact .inr ⟨absent, _, by simp only [unresolved, absent, plain]; rfl⟩
  · exact .inl ⟨absent, by simp [unresolved, absent]⟩

theorem isSpecial_eq_false : isSpecial name = false ↔ name ≠ dot ∧ name ≠ dotDot := by simp [isSpecial]

/-- A plain component is entered, looked up and held against the mount view. -/
theorem resolveComponent_plain {tail : Bytes} {last : Bool} (plain : isSpecial name = false)
    (entry : s.names cur.id name = .ok next.id) (row : s.objects next.id = .ok next) :
    resolveComponent s q base cur name tail last = (do
      enterDirectory s cur name tail q.resolve
      statIf s (last && q.attributes) next
      failIf (mountContains s next) { errno := .EXDEV }
      return next) := by
  obtain ⟨noDot, noDotdot⟩ := isSpecial_eq_false.mp plain
  have found : catalogueLookup s cur.id name = .ok next := by
    rw [catalogueLookup, entry]
    exact row
  have lookup : liftErrno (mdiLookup s cur name (last && q.attributes) (last && q.pin)) =
      (statIf s (last && q.attributes) next >>= fun _ => .ok next) := by
    rw [mdiLookup, found]
    unfold statIf
    cases last && q.attributes with
    | false => rfl
    | true =>
      cases stat : s.stat next <;> simp [liftErrno, stat, bind, Except.bind]
  simp only [resolveComponent, pathStep, noDot, noDotdot, false_and, false_or, if_false, lookup]
  cases enterDirectory s cur name tail q.resolve with
  | error _ => rfl
  | ok _ => cases statIf s (last && q.attributes) next <;> rfl

/-- One iteration over a directory component that is not the last one. -/
theorem walkBody_directory (base : Node) (st : WalkState) (free : q.resolve = 0)
    (more : skipSlashes (componentRest st.cursor) ≠ []) (named : componentName st.cursor ≠ [])
    (plain : isSpecial (componentName st.cursor) = false) (short : (componentName st.cursor).length ≤ nameMax)
    (entry : s.names st.current.id (componentName st.cursor) = .ok next.id) (row : s.objects next.id = .ok next)
    (dir : next.kind = .dir) :
    walkBody s q base st =
      match enterDirectory s st.current (componentName st.cursor) (componentRest st.cursor) 0 >>= fun _ =>
          failIf (mountContains s next) { errno := .EXDEV } with
      | .error fail =>
        .inl (unresolved q st.current (componentName st.cursor) (componentRest st.cursor) false fail, st.put)
      | .ok () => .inr (st.descend q next (componentRest st.cursor)) := by
  have last : (skipSlashes (componentRest st.cursor)).isEmpty = false := by simpa using more
  have flushed : st.flushIf (false || isSpecial (componentName st.cursor)) = st := by rw [plain]; rfl
  rw [walkBody, if_neg (skipSlashes_ne_nil named)]
  simp only [last, flushed, if_neg (Nat.not_lt.mpr short), gt_iff_lt]
  rw [resolveComponent_plain plain entry row, free]
  cases enterDirectory s st.current (componentName st.cursor) (componentRest st.cursor) 0 with
  | error _ => rfl
  | ok _ =>
    by_cases mounted : mountContains s next
    · simp [failIf, mounted, statIf, bind, Except.bind]
    · simp [failIf, mounted, statIf, bind, Except.bind, pure, Except.pure, arrive, dir]

/-- The loop follows a trail exactly as its revalidation does, and then stands where the
trail ends with the trail remembered. -/
theorem run_trail {text front : Bytes} {known : List Node}
    (trail : Trail s node text nodes) (cut : nodes ≠ [] → rest.head? = some slash) (more : skipSlashes rest ≠ [])
    (free : q.resolve = 0) (path : q.path = front ++ text ++ rest)
    (depth : known.length + nodes.length ≤ pathPrefixDepth) :
    let start : WalkState := ⟨node, text ++ rest, 0, some ⟨known, front.length⟩, none⟩
    let finish : WalkState := ⟨nodes.getLastD node, rest, 0, some ⟨known ++ nodes, (front ++ text).length⟩, none⟩
    match revalidate s (node :: nodes) (text ++ rest) with
    | .error fail => ∃ outcome, (walkLoop s q base).run start = (outcome, none) ∧ EarlyFailure fail outcome
    | .ok () => (walkLoop s q base).run start = (walkLoop s q base).run finish := by
  induction nodes generalizing node text front known with
  | nil =>
    obtain rfl : text = [] := trail
    simp [revalidate]
  | cons next others ih =>
    obtain ⟨named, plain, short, entry, row, dir, trail⟩ := trail
    have slashed := cut (cons_ne_nil _ _)
    obtain ⟨name, tail⟩ := component_append named (.inr slashed)
    have ahead : skipSlashes (componentRest (text ++ rest)) ≠ [] := tail ▸ skipSlashes_append_ne_nil _ more
    have body := walkBody_directory base ⟨node, text ++ rest, 0, some ⟨known, front.length⟩, none⟩ free ahead
      (name ▸ named) (name ▸ plain) (name ▸ short) (name ▸ entry) row dir
    simp only [revalidate]
    cases entered : enterDirectory s node (componentName (text ++ rest)) (componentRest (text ++ rest)) 0 with
    | error fail =>
      simp only [entered, bind, bind] at body ⊢
      exact ⟨_, Loop.run_stop body, unresolved_early (name ▸ plain) fail⟩
    | ok _ =>
      by_cases mounted : mountContains s next
      · simp only [entered, failIf, mounted, bind, bind, if_true] at body ⊢
        exact ⟨_, Loop.run_stop body, unresolved_early (name ▸ plain) _⟩
      · simp only [entered, failIf, mounted, bind, Except.bind, Bool.false_eq_true, if_false] at body ⊢
        have rowFacts := s.objects_row next.id next row
        have room : known.length ≠ pathPrefixDepth := by
          simp only [length_cons] at depth
          omega
        have consumed : front.length + text.length + rest.length - (componentRest text ++ rest).length =
            (front ++ componentBytes text).length := by
          have whole := congrArg length (componentBytes_append text)
          simp only [length_append] at whole ⊢
          omega
        have descended : WalkState.descend ⟨node, text ++ rest, 0, some ⟨known, front.length⟩, none⟩ q next
            (componentRest (text ++ rest)) =
            ⟨next, componentRest text ++ rest, 0,
              some ⟨known ++ [next], (front ++ componentBytes text).length⟩, none⟩ := by
          simp only [WalkState.descend, rowFacts.2.1, rowFacts.2.2, room, tail, path, length_append] at consumed ⊢
          simp [consumed]
        have step :=
          @ih next (componentRest text) (front ++ componentBytes text) (known ++ [next]) trail (fun _ => slashed)
          (by rw [path, append_assoc front (componentBytes text), componentBytes_append])
          (by simp only [length_append, length_cons, length_nil] at depth ⊢; omega)
        rw [Loop.run_next body, descended]
        rw [tail]
        have last : (next :: others).getLastD node = others.getLastD next := by cases others <;> rfl
        simpa only [last, append_assoc, singleton_append, componentBytes_append] using step

end Shroot.InodePath
