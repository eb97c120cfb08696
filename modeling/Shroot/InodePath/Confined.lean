import Shroot.InodePath.Runs

namespace Shroot.InodePath

open General Except

variable {node next base : Node} {st : WalkState} {s : Store} {q : WalkRequest} {name : Bytes} {link : Node}
  {links : Nat}

/-- A store whose parent pointers agree with its names. What is not in the catalogue is a regular
file: a leaf is one, and so is a descriptor of a leaf. -/
structure Consistent (s : Store) : Prop where
  parents : ∀ parent name id node, s.names parent name = .ok id → s.objects id = .ok node → node.kind = .dir →
    node.parent = parent
  leaves : ∀ parent name attributes pin node, s.leafLookup parent name attributes pin = .ok node → node.kind = .reg
  descriptors : ∀ number node, s.fd number = .ok node → node.native = true ∨ node.descriptor = true → node.kind = .reg

/-- The subtree of a directory: what is reached from it by names. -/
inductive Inside (s : Store) (base : Node) : Node → Prop
  | base : Inside s base base
  | entry {dir node : Node} {name : Bytes} : Inside s base dir → dir.kind = .dir →
    catalogueLookup s dir.id name = .ok node → Inside s base node
  | leaf {dir node : Node} {name : Bytes} {attributes pin : Bool} : Inside s base dir → dir.kind = .dir →
      s.leafLookup dir name attributes pin = .ok node → Inside s base node

/-- A walk that keeps to the subtree of its start. -/
def constrained (q : WalkRequest) : Bool := resolves q.resolve (RESOLVE_BENEATH ||| RESOLVE_IN_ROOT)

/-- Whether the component at the cursor is a symbolic link that the walk goes through. -/
def expands (s : Store) (q : WalkRequest) (base : Node) (st : WalkState) : Bool :=
  (resolvedAt s q base st).any (mustFollow q st)

section

variable (mem : Inside s base node) (sound : Consistent s) (start : s.objects base.id = .ok base)
  (directory : node.kind = .dir)

include mem sound start directory

theorem Inside.row : s.objects node.id = .ok node := by
  cases mem with
  | base => exact start
  | entry _ _ found => exact (catalogueLookup_ok found).2
  | leaf _ _ found =>
    rw [sound.leaves _ _ _ _ _ found] at directory
    cases directory

theorem Inside.parent (below : node.id ≠ base.id) (up : s.objects node.parent = .ok next) : Inside s base next := by
  cases mem with
  | base => exact absurd rfl below
  | @entry dir _ name within isDir found =>
    obtain ⟨named, row⟩ := catalogueLookup_ok found
    rw [sound.parents _ _ _ _ named row directory, within.row sound start isDir] at up
    exact ok.inj up ▸ within
  | leaf _ _ found =>
    rw [sound.leaves _ _ _ _ _ found] at directory
    cases directory

end

theorem resolves_or (resolve a b : UInt64) :
    resolves resolve (a ||| b) = (resolves resolve a || resolves resolve b) := by
  have spread : resolve &&& (a ||| b) = resolve &&& a ||| resolve &&& b := by
    apply UInt64.toBitVec_inj.mp
    simp only [UInt64.toBitVec_and, UInt64.toBitVec_or]
    ext i
    simp only [BitVec.getElem_and, BitVec.getElem_or, Bool.and_or_distrib_left]
  rw [resolves, resolves, resolves, spread, Bool.eq_iff_iff]
  simp only [bne_iff_ne, ne_eq, Bool.or_eq_true, UInt64.or_eq_zero_iff]
  tauto

theorem constrained_iff : constrained q = true ↔ resolves q.resolve RESOLVE_BENEATH = true ∨
    resolves q.resolve RESOLVE_IN_ROOT = true := by
  rw [constrained, resolves_or, Bool.or_eq_true]

section

theorem mdiAccess_dir (run : liftErrno (mdiAccess s node) = .ok ()) : node.kind = .dir := by
  have may := liftErrno_ok run
  unfold mdiAccess at may
  split at may
  · cases may
  next isDir => simpa using isDir

variable {attributes pin : Bool}

theorem mdiLookup_inside {parent : Node} (sub : Inside s base parent)
    (directory : parent.kind = .dir) (found : mdiLookup s parent name attributes pin = .ok next) :
    Inside s base next := by
  rcases mdiLookup_ok found with entry | leaf
  · exact .entry sub directory entry
  · exact .leaf sub directory leaf

variable {cur : Node} {tail : Bytes}

theorem pathStep_inside (sound : Consistent s) (start : s.objects base.id = .ok base) (sub : Inside s base cur)
    (stays : name = dotDot → cur.id ≠ base.id)
    (run : pathStep s cur name tail q.resolve attributes pin = .ok next) : Inside s base next := by
  obtain ⟨_, entered, run⟩ := bind_ok.mp run
  obtain ⟨_, may, -⟩ := bind_ok.mp entered
  have directory := mdiAccess_dir may
  split at run
  · simp only [failIf_bind_ok] at run
    obtain ⟨-, run⟩ := run
    obtain ⟨_, -, run⟩ := bind_ok.mp run
    exact (pure_ok.mp run) ▸ sub
  · split at run
    next up =>
      obtain ⟨found, row, run⟩ := bind_ok.mp run
      simp only [failIf_bind_ok] at run
      obtain ⟨-, run⟩ := run
      obtain ⟨_, -, run⟩ := bind_ok.mp run
      obtain rfl := pure_ok.mp run
      exact sub.parent sound start directory (stays up) (liftErrno_ok row)
    · obtain ⟨found, looked, run⟩ := bind_ok.mp run
      simp only [failIf_bind_ok] at run
      obtain rfl := pure_ok.mp run.2
      exact mdiLookup_inside sub directory (liftErrno_ok looked)

section

variable (sound : Consistent s) (kept : constrained q) (start : s.objects base.id = .ok base)

include sound kept start

theorem resolveComponent_inside {last : Bool} (sub : Inside s base cur)
    (run : resolveComponent s q base cur name tail last = .ok next) : Inside s base next := by
  unfold resolveComponent at run
  split at run
  · obtain ⟨_, -, run⟩ := bind_ok.mp run
    simp only [failIf_bind_ok] at run
    obtain ⟨_, -, run⟩ := bind_ok.mp run.2
    exact (pure_ok.mp run) ▸ sub
  next free => exact pathStep_inside sound start sub (fun up same => free ⟨up, kept, same⟩) run

theorem resolvedAt_inside (sub : Inside s base st.current) (known : resolvedAt s q base st = some next) :
    Inside s base next :=
  resolveComponent_inside sound kept start sub (resolvedAt_eq_some.mp known).2.2

end

/-- A link that is followed within the constraint leads on from where it is, or from the start. -/
theorem followLink_current {followed : WalkState} {rest : Bytes} (kept : constrained q)
    (run : followLink s q base st link rest = .ok followed) :
    followed.current = st.current ∨ followed.current = base := by
  obtain ⟨target, top, -, -, rfl, ⟨-, same⟩ | ⟨above, found⟩⟩ := followLink_ok run
  · exact .inl same
  · have inRoot : resolves q.resolve RESOLVE_IN_ROOT := (constrained_iff.mp kept).resolve_left (by simp [above])
    rw [linkTop, if_pos inRoot] at found
    exact .inr (ok.inj found).symm

end

theorem walkBody_stop {res : Outcome × Option PathPrefix} (stops : walkBody s q base st = .inl res)
    {location : Location} (ret : location ∈ res.1.location)
    (named : location.node = some node ∨ location.parent = some node) :
    node = st.current ∨ resolvedAt s q base st = some node := by
  have step := walkBody_iteration s q base st
  rw [stops] at step
  cases step with
  | unresolved _ _ here => exact .inl (here location ret node named)
  | failed _ _ => cases ret
  | found known _ isNode parent =>
    cases ret
    rcases named with named | named
    · exact .inr (known.trans (isNode.symm.trans named))
    · exact .inl (Option.mem_unique named parent)

/-- The walk fails here: an absolute link target, or a step above the start, under the constraint. -/
theorem walkBody_absolute {target : Bytes} (beneath : resolves q.resolve RESOLVE_BENEATH)
    (known : resolvedAt s q base st = some link) (follow : mustFollow q st link = true)
    (read : s.readlink link.backing = .ok target) (absolute : target.head? = some slash) :
    ∃ fail put, walkBody s q base st = .inl (.failed fail, put) := by
  have step := walkBody_iteration s q base st
  generalize walkBody s q base st = outcome at step
  cases step with
  | unresolved none _ _ =>
    rw [known] at none
    cases none
  | failed _ _ => exact ⟨_, _, rfl⟩
  | followed same _ run =>
    cases known.symm.trans same
    obtain ⟨text, top, isText, -, -, ⟨relative, -⟩ | ⟨above, -⟩⟩ := followLink_ok run
    · cases read.symm.trans isText
      exact absurd absolute relative
    · rw [beneath] at above
      cases above
  | found same plain _ _ =>
    cases known.symm.trans same
    rw [follow] at plain
    cases plain
  | down same plain _ _ =>
    cases known.symm.trans same
    rw [follow] at plain
    cases plain

theorem walkBody_above (beneath : resolves q.resolve RESOLVE_BENEATH) (more : skipSlashes st.cursor ≠ [])
    (up : componentName st.cursor = dotDot) (top : st.current.id = base.id) :
    ∃ fail put, walkBody s q base st = .inl (.failed fail, put) := by
  have short : ¬ (componentName st.cursor).length > nameMax := by
    rw [up]
    decide
  have bad : ∃ fail, resolveComponent s q base st.current (componentName st.cursor) (componentRest st.cursor)
      (skipSlashes (componentRest st.cursor)).isEmpty = .error fail := by
    rw [resolveComponent, if_pos ⟨up, constrained_iff.mpr (.inl beneath), top⟩]
    cases allowed : liftErrno (mdiAccess s st.current) with
    | error fail => exact ⟨fail, rfl⟩
    | ok _ => exact ⟨{ errno := .EXDEV }, by simp [failIf, beneath, bind, Except.bind]⟩
  obtain ⟨fail, bad⟩ := bad
  refine ⟨fail,
    (st.flushIf ((skipSlashes (componentRest st.cursor)).isEmpty || isSpecial (componentName st.cursor))).put, ?_⟩
  rw [walkBody, if_neg more]
  rw [if_neg short, bad]
  dsimp only
  rw [unresolved, if_neg]
  simp [up, isSpecial]

variable {start : Node} {cache : PathCache}

/-- Where the component loop of a walk begins. -/
def walkFrom (s : Store) (cache : PathCache) (q : WalkRequest) (start : Node) : Except Failure WalkState :=
  if remembers q start then
    (pathPrefixGet s cache q.path start).map fun (known, _) =>
      { current := known.nodes.getLastD start, cursor := q.path.drop known.length, links := 0, remember := some known
        put := none }
  else .ok { current := start, cursor := q.path, links := 0, remember := none, put := none }

/-- The states that the component loop of a walk passes, with the links expanded on the way. -/
def Passes (s : Store) (cache : PathCache) (q : WalkRequest) (start : Node) (links : Nat) (st : WalkState) : Prop :=
  ∃ first, walkFrom s cache q start = .ok first ∧ (walkLoop s q start).Passes (expands s q start) first links st

theorem walk_run (begins : walkStart s q = .ok start) (first : walkFrom s cache q start = .ok st)
    (alloc : Bool) : (walk s cache q alloc).1 = ((walkLoop s q start).run st).1 := by
  simp only [walk, begins]
  unfold walkFrom at first
  split at first
  next memo =>
    rw [if_pos memo]
    obtain ⟨⟨known, new⟩, got, rfl⟩ := map_ok first
    rw [got]
    dsimp only
    split <;> rfl
  next plain =>
    rw [if_neg plain]
    cases first
    rfl

theorem walk_refused {fail : Failure} (begins : walkStart s q = .ok start)
    (first : walkFrom s cache q start = .error fail) (alloc : Bool) :
    (walk s cache q alloc).1 = .failed fail := by
  simp only [walk, begins]
  unfold walkFrom at first
  split at first
  next memo =>
    rw [if_pos memo]
    cases got : pathPrefixGet s cache q.path start with
    | error fail' =>
      rw [got] at first
      cases first
      rfl
    | ok known =>
      rw [got] at first
      cases first
  · cases first

theorem walkFrom_constrained (kept : constrained q = true) :
    walkFrom s cache q start = .ok
      { current := start, cursor := q.path, links := 0, remember := none, put := none } := by
  rw [walkFrom, if_neg]
  intro memo
  have plain : q.resolve = 0 := by
    simp only [remembers, Bool.and_eq_true, beq_iff_eq] at memo
    exact memo.1.1
  rw [constrained, plain] at kept
  revert kept
  decide

theorem walkStart_directory (sound : Consistent s) (begins : walkStart s q = .ok start) :
    s.objects start.id = .ok start := by
  obtain ⟨directory, row | ⟨num, found⟩⟩ := walkStart_ok begins
  · exact row
  -- A descriptor of a leaf is not a directory.
  have catalogued : ¬ (start.native = true ∨ start.descriptor = true) := by
    intro outside
    rw [sound.descriptors _ _ found outside] at directory
    cases directory
  rw [not_or, Bool.not_eq_true, Bool.not_eq_true] at catalogued
  exact s.fd_row _ start found catalogued.1 catalogued.2

theorem passes_inside (sound : Consistent s) (kept : constrained q = true)
    (begins : walkStart s q = .ok start) (passes : Passes s cache q start links st) : Inside s start st.current := by
  have row := walkStart_directory sound begins
  obtain ⟨first, from_, passes⟩ := passes
  rw [walkFrom_constrained kept] at from_
  refine passes.invariant (fun st => Inside s start st.current) ?_ ?_
  · cases from_
    exact .base
  · intro st next sub goes
    cases walkBody_goes goes with
    | followed _ _ run =>
      rcases followLink_current kept run with same | same
      · rw [same, st.flushed.flush_rest.1, st.flushed_rest.1]
        exact sub
      · rw [same]
        exact .base
    | down known _ _ _ =>
      rw [(st.flushed.descend_rest q _ _).1]
      exact resolvedAt_inside sound kept row sub known

/-- An iteration that goes on through a link counts it, and there are at most forty. -/
theorem walkBody_links {next : WalkState} (goes : walkBody s q base st = .inr next) :
    next.links = st.links + (expands s q base st).toNat ∧ (next.links ≤ symlinkMax ∨ next.links = st.links) := by
  cases walkBody_goes goes with
  | followed known follow run =>
    obtain ⟨target, top, -, few, rfl, -⟩ := followLink_ok run
    refine ⟨?_, .inl few⟩
    simp [expands, known, follow, st.flushed.flush_rest, st.flushed_rest]
  | down known plain _ _ => simp [expands, known, plain, st.flushed.descend_rest, st.flushed_rest]

theorem passes_links (passes : Passes s cache q start links st) : links ≤ symlinkMax := by
  obtain ⟨first, from_, passes⟩ := passes
  have zero : first.links = 0 := by
    unfold walkFrom at from_
    split at from_
    · obtain ⟨_, -, rfl⟩ := map_ok from_
      rfl
    · cases from_
      rfl
  have good := passes.counted WalkState.links fun st next goes => (walkBody_links goes).1
  have few := passes.invariant (fun st => st.links ≤ symlinkMax) (by omega) fun st next held goes => by
    have := (walkBody_links goes).2
    omega
  omega

theorem walk_failed (begins : walkStart s q = .ok start) (passes : Passes s cache q start links st)
    (ends : ∃ fail put, walkBody s q start st = .inl (.failed fail, put)) (alloc : Bool) :
    ∃ fail, (walk s cache q alloc).1 = .failed fail := by
  obtain ⟨first, from_, passes⟩ := passes
  obtain ⟨fail, put, stops⟩ := ends
  refine ⟨fail, ?_⟩
  have stopped : (walkLoop s q start).body st = .inl (.failed fail, put) := stops
  rw [walk_run begins from_, passes.run_eq, Loop.run_stop stopped]

/-- The error of an absolute path beneath the start: the flags are looked at first. -/
def absoluteErrno (q : WalkRequest) : Errno :=
  if resolves q.resolve (~~~(RESOLVE_BENEATH ||| RESOLVE_IN_ROOT ||| RESOLVE_NO_SYMLINKS |||
    RESOLVE_NO_MAGICLINKS ||| RESOLVE_NO_XDEV ||| RESOLVE_CACHED)) ∨ resolves q.resolve RESOLVE_IN_ROOT then .EINVAL
  else if resolves q.resolve RESOLVE_CACHED then .EAGAIN
  else .EXDEV

theorem walkStart_absolute (absolute : q.path.head? = some slash)
    (beneath : resolves q.resolve RESOLVE_BENEATH = true) :
    walkStart s q = .error { errno := absoluteErrno q } := by
  have some : q.path ≠ [] := by
    intro none
    rw [none] at absolute
    cases absolute
  unfold walkStart absoluteErrno failIf
  generalize resolves q.resolve (~~~_) = unknown
  cases unknown with
  | true => rfl
  | false =>
    by_cases both : resolves q.resolve RESOLVE_IN_ROOT = true
    · simp [beneath, both, bind, Except.bind]
    · by_cases cached : resolves q.resolve RESOLVE_CACHED = true
      · simp [both, cached, bind, Except.bind]
      · simp [both, cached, some, absolute, beneath, bind, Except.bind]

/-- A walk in a store whose parents agree with its names. With `RESOLVE_IN_ROOT` or
`RESOLVE_BENEATH` it visits and returns only what is in the subtree of its start. Beneath, an
absolute path is refused, with `EXDEV` unless the flags are, and so is a walk that comes to an
absolute link or to a dot-dot at the start. Every walk stops, after at most forty links. -/
theorem walk_confined (s : Store) (sound : Consistent s) (cache : PathCache) (q : WalkRequest) (alloc : Bool) :
    (∀ start, walkStart s q = .ok start → constrained q = true →
      (∀ links st, Passes s cache q start links st → Inside s start st.current ∧
        ∀ node, resolvedAt s q start st = some node → Inside s start node) ∧
      ∀ location ∈ (walk s cache q alloc).1.location, ∀ node,
        location.node = some node ∨ location.parent = some node → Inside s start node) ∧
    (resolves q.resolve RESOLVE_BENEATH = true →
      (q.path.head? = some slash → (walk s cache q alloc).1 = .failed { errno := absoluteErrno q }) ∧
      ∀ start links st, walkStart s q = .ok start → Passes s cache q start links st →
        ((∃ link target, resolvedAt s q start st = some link ∧ mustFollow q st link = true ∧
          s.readlink link.backing = .ok target ∧ target.head? = some slash) ∨
        (skipSlashes st.cursor ≠ [] ∧ componentName st.cursor = dotDot ∧ st.current.id = start.id)) →
        ∃ fail, (walk s cache q alloc).1 = .failed fail) ∧
    (∀ start, walkStart s q = .ok start →
      (∀ links st, Passes s cache q start links st → links ≤ symlinkMax) ∧
      ((∃ fail, (walk s cache q alloc).1 = .failed fail) ∨
        ∃ links st result, Passes s cache q start links st ∧ walkBody s q start st = .inl result ∧
          (walk s cache q alloc).1 = result.1)) := by
  refine ⟨fun start begins kept => ?_, fun beneath => ⟨fun absolute => ?_, ?_⟩, fun start begins => ?_⟩
  · have visits : ∀ links st, Passes s cache q start links st → Inside s start st.current ∧
        ∀ node, resolvedAt s q start st = some node → Inside s start node := by
      intro links st passes
      have sub := passes_inside sound kept begins passes
      exact ⟨sub, fun node => resolvedAt_inside sound kept (walkStart_directory sound begins) sub⟩
    refine ⟨visits, ?_⟩
    intro location ret node named
    obtain ⟨links, last, passes, stops⟩ := (walkLoop s q start).run_stops (expands s q start)
      { current := start, cursor := q.path, links := 0, remember := none, put := none }
    rw [walk_run begins (walkFrom_constrained kept)] at ret
    obtain ⟨here, known⟩ := visits links last ⟨_, walkFrom_constrained kept, passes⟩
    rcases walkBody_stop stops ret named with rfl | found
    · exact here
    · exact known node found
  · simp only [walk, walkStart_absolute absolute beneath]
  · rintro start links st begins passes (⟨link, target, known, follow, read, absolute⟩ | ⟨more, up, top⟩)
    · exact walk_failed begins passes (walkBody_absolute beneath known follow read absolute) alloc
    · exact walk_failed begins passes (walkBody_above beneath more up top) alloc
  · refine ⟨fun links st passes => passes_links passes, ?_⟩
    cases first : walkFrom s cache q start with
    | error fail => exact .inl ⟨fail, walk_refused begins first alloc⟩
    | ok st =>
      obtain ⟨links, last, passes, stops⟩ := (walkLoop s q start).run_stops (expands s q start) st
      exact .inr ⟨links, last, _, ⟨st, first, passes⟩, stops, walk_run begins first alloc⟩

theorem smallStore_consistent : Consistent smallStore where
  parents := by
    intro parent name id node named row directory
    simp only [smallStore] at named row
    split at named
    next here =>
      cases named
      cases row
      exact here.1.symm
    · split at named
      next here =>
        cases named
        cases row
        exact here.1.symm
      · cases named
  leaves := fun _ _ _ _ _ found => nomatch found
  descriptors := fun _ _ found => nomatch found

/-- A walk beneath the root that climbs out of `a` and then above the root. -/
def climbing : WalkRequest := { smallLookup [97, 47, 46, 46, 47, 46, 46] with resolve := RESOLVE_BENEATH }

theorem climbing_confined : Consistent smallStore ∧
    ∃ fail, (walk smallStore .empty climbing true).1 = .failed fail := by
  refine ⟨smallStore_consistent, ?_⟩
  have confined := (walk_confined smallStore smallStore_consistent .empty climbing true).2.1 (by decide)
  refine confined.2 smallRoot 0 ⟨smallRoot, [47, 46, 46], 0, none, none⟩ (by decide +kernel) ?_ (.inr (by decide))
  have first : (walkLoop smallStore climbing smallRoot).body ⟨smallRoot, climbing.path, 0, none, none⟩ =
      .inr ⟨smallA, [47, 46, 46, 47, 46, 46], 0, none, none⟩ := by decide +kernel
  have two : (walkLoop smallStore climbing smallRoot).body ⟨smallA, [47, 46, 46, 47, 46, 46], 0, none, none⟩ =
      .inr ⟨smallRoot, [47, 46, 46], 0, none, none⟩ := by decide +kernel
  exact ⟨_, walkFrom_constrained (by decide), (Loop.Passes.start.next first).next two⟩

/-- An absolute path beneath the root that is also to be answered from the cache alone is refused
for the second reason. -/
theorem cachedOnly_again :
    ¬ ∀ (s : Store), Consistent s → ∀ (cache : PathCache) (q : WalkRequest) (alloc : Bool),
      resolves q.resolve RESOLVE_BENEATH = true → q.path.head? = some slash →
      ∃ fail, (walk s cache q alloc).1 = .failed fail ∧ fail.errno = .EXDEV := by
  intro always
  obtain ⟨fail, bad, exdev⟩ := always smallStore smallStore_consistent .empty
    { smallLookup [47, 97] with resolve := RESOLVE_BENEATH ||| RESOLVE_CACHED } true (by decide) rfl
  cases bad
  cases exdev

end Shroot.InodePath
