import Shroot.InodePath.Trail

namespace Shroot.InodePath

open General List

variable {cache : PathCache} {s earlier later : Store} {q : WalkRequest} {start node : Node} {text : Bytes}
  {history : List Store} {p : CachedPrefix} {parent id : Id} {name : Bytes} {next base : Node}

/-- A remembered chain that the store bears out. -/
structure Remembered (s : Store) (q : WalkRequest) (start : Node) (p : PathPrefix) : Prop where
  row : s.objects start.id = .ok start
  chain : ∃ others, p.nodes = start :: others ∧ Trail s start (q.path.take p.length) others ∧
    (others ≠ [] → (q.path.drop p.length).head? = some slash) ∧ others.length < pathPrefixDepth

/-- What the component loop keeps of its remembered chain. -/
structure LoopMemory (s : Store) (q : WalkRequest) (start : Node) (st : WalkState) : Prop where
  remember : ∀ p ∈ st.remember, Remembered s q start p ∧ p.nodes.getLastD start = st.current ∧
    st.cursor = q.path.drop p.length
  put : ∀ p ∈ st.put, Remembered s q start p

variable {st : WalkState}

theorem LoopMemory.flush (memory : LoopMemory s q start st) : LoopMemory s q start st.flush := by
  unfold WalkState.flush
  split
  · exact memory
  next p held =>
    refine ⟨by simp, fun other same => ?_⟩
    obtain rfl : p = other := Option.some.inj same
    exact (memory.remember p held).1

theorem LoopMemory.flushIf (memory : LoopMemory s q start st) (condition : Bool) :
    LoopMemory s q start (st.flushIf condition) := by
  unfold WalkState.flushIf
  split
  · exact memory.flush
  · exact memory

theorem flush_remember (st : WalkState) : st.flush.remember = none := by
  unfold WalkState.flush
  split
  · assumption
  · rfl

theorem catalogueLookup_ok (found : catalogueLookup s parent name = .ok node) :
    s.names parent name = .ok node.id ∧ s.objects node.id = .ok node := by
  obtain ⟨id, named, row⟩ := bind_ok.mp found
  obtain ⟨rfl, -⟩ := s.objects_row id node row
  exact ⟨named, row⟩

theorem mdiLookup_ok {parent : Node} {attrs pin : Bool} (found : mdiLookup s parent name attrs pin = .ok next) :
    catalogueLookup s parent.id name = .ok next ∨ s.leafLookup parent name attrs pin = .ok next := by
  unfold mdiLookup at found
  split at found
  · exact .inr found
  · cases found
  next looked =>
    split at found
    · obtain ⟨_, -, found⟩ := bind_ok.mp found
      exact .inl (looked.trans found)
    · exact .inl (looked.trans found)

theorem resolveComponent_row {cur : Node} {tail : Bytes} {last : Bool}
    (plain : isSpecial name = false) (run : resolveComponent s q base cur name tail last = .ok next)
    (catalogued : next.native = false) :
    s.names cur.id name = .ok next.id ∧ s.objects next.id = .ok next := by
  obtain ⟨noDot, noDotdot⟩ := isSpecial_eq_false.mp plain
  simp only [resolveComponent, pathStep, noDot, noDotdot, false_and, false_or, if_false] at run
  obtain ⟨_, -, run⟩ := bind_ok.mp run
  obtain ⟨found, lookup, run⟩ := bind_ok.mp run
  simp only [failIf_bind_ok, pure_ok] at run
  obtain ⟨-, rfl⟩ := run
  rcases mdiLookup_ok (liftErrno_ok lookup) with catalogue | leaf
  · exact catalogueLookup_ok catalogue
  · rw [s.leaf_native _ _ _ _ _ leaf] at catalogued
    cases catalogued

section

variable (memory : LoopMemory s q start st)

include memory

theorem LoopMemory.descend (more : skipSlashes (componentRest st.cursor) ≠ []) (named : skipSlashes st.cursor ≠ [])
    (short : (componentName st.cursor).length ≤ nameMax)
    (known : st.remember ≠ none → next.native = false → isSpecial (componentName st.cursor) = false ∧
      s.names st.current.id (componentName st.cursor) = .ok next.id ∧ s.objects next.id = .ok next)
    (dir : next.kind = .dir) : LoopMemory s q start (st.descend q next (componentRest st.cursor)) := by
  unfold WalkState.descend
  split
  next none => exact ⟨by simp [none], memory.put⟩
  next p held =>
    obtain ⟨⟨row, others, nodes, trail, cut, depth⟩, cur, cursor⟩ := memory.remember p held
    split
    · refine ⟨by rw [flush_remember]; simp, fun other same => ?_⟩
      obtain rfl : p = other := by simpa [WalkState.flush, held] using same
      exact ⟨row, others, nodes, trail, cut, depth⟩
    next room =>
      simp only [not_or] at room
      obtain ⟨plain, entry, nextRow⟩ := known (by simp [held]) (by simpa using room.1)
      obtain ⟨front, isFront⟩ : ∃ front, front = q.path.take p.length ++ componentBytes st.cursor := ⟨_, rfl⟩
      have path : q.path = front ++ componentRest st.cursor := by
        rw [isFront, append_assoc, componentBytes_append, cursor, take_append_drop]
      have pos : q.path.length - (componentRest st.cursor).length = front.length := by
        rw [path, length_append, Nat.add_sub_cancel]
      have taken : q.path.take front.length = front := by rw [path, take_left]
      have gone : q.path.drop front.length = componentRest st.cursor := by rw [path, drop_left]
      have last : others.getLastD start = st.current := by
        rw [nodes] at cur
        cases others with
        | nil => exact cur
        | cons first rest => exact cur
      refine ⟨fun other same => ?_, memory.put⟩
      obtain rfl := Option.some.inj same
      rw [pos]
      refine ⟨⟨row, others ++ [next], by simp [nodes], ?_, fun _ => ?_, ?_⟩, by simp, gone.symm⟩
      · rw [taken, isFront]
        exact trail.snoc (fun some => cursor ▸ cut some) named plain short (last ▸ entry) nextRow dir
      · rw [gone]
        rcases componentRest_cut st.cursor with nothing | slashed
        · exact absurd (by rw [nothing]; rfl) more
        · exact slashed
      · have limit := room.2.2
        rw [nodes, length_cons] at limit
        rw [length_append, length_singleton]
        omega

/-- Every iteration keeps the memory, and a return hands over nothing else. -/
theorem walkBody_memory : (∀ result, walkBody s q base st = .inl result → ∀ p ∈ result.2, Remembered s q start p) ∧
    ∀ next, walkBody s q base st = .inr next → LoopMemory s q start next := by
  have kept : LoopMemory s q start st.flushed := memory.flushIf _
  have step := walkBody_iteration s q base st
  generalize walkBody s q base st = outcome at step
  cases step with
  | unresolved _ put _ =>
    refine ⟨?_, by rintro next ⟨⟩⟩
    rintro result ⟨⟩
    rcases put with rfl | rfl
    · exact memory.put
    · exact kept.put
  | failed _ put =>
    refine ⟨?_, by rintro next ⟨⟩⟩
    rintro result ⟨⟩
    rcases put with rfl | rfl
    · exact kept.put
    · exact kept.flush.put
  | followed _ _ run =>
    refine ⟨by rintro result ⟨⟩, ?_⟩
    rintro next ⟨⟩
    obtain ⟨target, top, -, -, rfl, -⟩ := followLink_ok run
    exact ⟨by rw [flush_remember]; simp, kept.flush.put⟩
  | found _ _ _ _ =>
    refine ⟨?_, by rintro next ⟨⟩⟩
    rintro result ⟨⟩
    exact kept.put
  | @down next known _ more dir =>
    refine ⟨by rintro result ⟨⟩, ?_⟩
    rintro new ⟨⟩
    obtain ⟨named, short, found⟩ := resolvedAt_eq_some.mp known
    obtain ⟨cur, cursor, -⟩ := st.flushed_rest
    rw [← cursor] at more named short ⊢
    refine kept.descend more named short (fun remembering catalogued => ?_) dir
    have plain : isSpecial (componentName st.cursor) = false := by
      by_contra special
      rw [WalkState.flushed, WalkState.flushIf, if_pos (by simp [special])] at remembering
      exact remembering (flush_remember st)
    rw [cur, cursor]
    exact ⟨plain, resolveComponent_row plain found catalogued⟩

theorem walkLoop_memory : ∀ p ∈ ((walkLoop s q base).run st).2, Remembered s q start p :=
  Loop.run_invariant (LoopMemory s q start) (fun res => ∀ p ∈ res.2, Remembered s q start p)
    (fun _ res memory stops => (walkBody_memory memory).1 res stops)
    (fun _ next memory goes => (walkBody_memory memory).2 next goes) st memory

end

open Option

/-- Between an earlier and a later state of a store: while the read cache's epoch is the same, a
row whose version bucket has not moved is the same row. -/
def Tracks (earlier later : Store) : Prop :=
  cacheEpoch earlier ≠ 0 → cacheEpoch later = cacheEpoch earlier →
    (∀ id, later.versions (dependencySlot .object id []) = earlier.versions (dependencySlot .object id []) →
      later.objects id = earlier.objects id) ∧ (∀ parent name,
      later.versions (dependencySlot .entry parent name) = earlier.versions (dependencySlot .entry parent name) →
      later.names parent name = earlier.names parent name)

/-- An entry as `put` leaves it in a store. -/
structure Recorded (s : Store) (p : CachedPrefix) : Prop where
  epoch : p.epoch = cacheEpoch s
  checked : cacheEpoch s ≠ 0
  chain : ∃ start others,
    p.nodes = { node := start, dependencies := [cacheDependency s .object start.id []] } ::
      recordNodes s (start :: others) p.text ∧
    others ≠ [] ∧ others.length < pathPrefixDepth ∧ s.objects start.id = .ok start ∧ Trail s start p.text others

section

theorem current_object (cur : cacheDependenciesCurrent later [cacheDependency earlier .object id []]) :
    later.versions (dependencySlot .object id []) = earlier.versions (dependencySlot .object id []) := by
  simp only [cacheDependenciesCurrent, cacheDependency, all_cons, Bool.and_eq_true, beq_iff_eq] at cur
  exact cur.2.1.symm

theorem current_row
    (cur : cacheDependenciesCurrent later
      [cacheDependency earlier .object id [], cacheDependency earlier .entry parent name]) :
    later.versions (dependencySlot .object id []) = earlier.versions (dependencySlot .object id []) ∧
    later.versions (dependencySlot .entry parent name) = earlier.versions (dependencySlot .entry parent name) := by
  simp only [cacheDependenciesCurrent, cacheDependency, all_cons, Bool.and_eq_true, beq_iff_eq] at cur
  exact ⟨cur.2.1.symm, cur.2.2.1.symm⟩

variable {nodes : List Node}

/-- A trail whose recorded versions are current is still there. -/
theorem Trail.current (trail : Trail earlier node text nodes)
    (tracks : Tracks earlier later) (fine : cacheEpoch earlier ≠ 0) (epoch : cacheEpoch later = cacheEpoch earlier)
    (cur : (recordNodes earlier (node :: nodes) text).all fun p => cacheDependenciesCurrent later p.dependencies) :
    Trail later node text nodes := by
  obtain ⟨objects, names⟩ := tracks fine epoch
  induction nodes generalizing node text with
  | nil => exact trail
  | cons next rest ih =>
    obtain ⟨named, plain, short, entry, row, dir, trail⟩ := trail
    simp only [recordNodes, all_cons, Bool.and_eq_true] at cur
    obtain ⟨sameObject, sameEntry⟩ := current_row cur.1
    exact ⟨named, plain, short, (names _ _ sameEntry).trans entry, (objects _ sameObject).trans row, dir,
      ih trail cur.2⟩

theorem recordNodes_directories : (recordNodes s (node :: nodes) text).map PrefixNode.node = nodes := by
  induction nodes generalizing node text with
  | nil => rfl
  | cons next rest ih => simp only [recordNodes, map_cons, ih]

/-- The components before the cut are recorded as of the whole path. -/
theorem Trail.recordNodes_append {rest : Bytes} (trail : Trail s node text nodes)
    (cut : rest = [] ∨ rest.head? = some slash) :
    recordNodes s (node :: nodes) (text ++ rest) = recordNodes s (node :: nodes) text := by
  induction nodes generalizing node text with
  | nil => rfl
  | cons next others ih =>
    obtain ⟨named, -, -, -, -, -, trail⟩ := trail
    obtain ⟨name, tail⟩ := component_append named cut
    simp only [recordNodes, name, tail, ih trail]

end

/-- A current entry describes the store as it is now. -/
theorem Recorded.current (recorded : Recorded earlier p) (tracks : Tracks earlier later) (cur : prefixCurrent later p) :
    ∃ start others, p.directories = start :: others ∧ p.startNode = some start ∧ others ≠ [] ∧
      others.length < pathPrefixDepth ∧ later.objects start.id = .ok start ∧ Trail later start p.text others := by
  obtain ⟨start, others, nodes, some, depth, row, trail⟩ := recorded.chain
  simp only [prefixCurrent, Bool.and_eq_true, beq_iff_eq, nodes, all_cons] at cur
  obtain ⟨epoch, first, rest⟩ := cur
  have sameEpoch : cacheEpoch later = cacheEpoch earlier := epoch.symm.trans recorded.epoch
  have object := (tracks recorded.checked sameEpoch).1 start.id (current_object first)
  refine ⟨start, others, ?_, ?_, some, depth, object.trans row, trail.current tracks recorded.checked sameEpoch rest⟩
  · rw [CachedPrefix.directories, nodes, map_cons, recordNodes_directories]
  · rw [CachedPrefix.startNode, nodes]
    rfl

/-- Every entry was recorded in some state of the history. -/
def Sound (cache : PathCache) (history : List Store) : Prop :=
  ∀ set way p, cache.entries set way = some p → ∃ s ∈ history, Recorded s p

theorem sound_empty (history : List Store) : Sound PathCache.empty history := by rintro _ _ _ ⟨⟩

theorem Sound.mono {longer : List Store} (sound : Sound cache history) (sub : history ⊆ longer) :
    Sound cache longer := by
  intro set way p held
  obtain ⟨s, mem, recorded⟩ := sound set way p held
  exact ⟨s, sub mem, recorded⟩

theorem Sound.touch (sound : Sound cache history) (best : CachedPrefix) : Sound (cache.touch best) history := by
  intro set way p held
  simp only [PathCache.touch, map_eq_some_iff] at held
  obtain ⟨entry, found, rfl⟩ := held
  obtain ⟨s, mem, epoch, fine, chain⟩ := sound set way entry found
  refine ⟨s, mem, ?_⟩
  split
  · exact ⟨epoch, fine, chain⟩
  · exact ⟨epoch, fine, chain⟩

theorem Sound.put {proof : PathPrefix} (sound : Sound cache history) (mem : s ∈ history)
    (remembered : Remembered s q start proof) (allocated : Bool) :
    Sound (pathPrefixPut s cache q.path proof allocated) history := by
  obtain ⟨row, others, nodes, trail, cut, depth⟩ := remembered
  simp only [pathPrefixPut, nodes]
  split
  · exact sound
  next usable =>
    simp only [not_or] at usable
    split
    · exact sound
    · intro set way p held
      simp only at held
      split at held
      · obtain rfl := some.inj held
        have text : recordNodes s (start :: others) q.path =
            recordNodes s (start :: others) (q.path.take proof.length) := by
          conv_lhs => rw [← take_append_drop proof.length q.path]
          exact trail.recordNodes_append (.inr (cut usable.2.1))
        exact ⟨s, mem, rfl, usable.1, start, others, by rw [text], usable.2.1, depth, row, trail⟩
      · exact sound set way p held

variable {path : Bytes}

/-- An entry the search may pick. -/
def Candidate (s : Store) (cache : PathCache) (start : Node) (path : Bytes) (p : CachedPrefix) : Prop :=
  ∃ i, prefixEnd path i ∧ prefixMatches s start path i p ∧ ∃ set way, cache.entries set way = some p

theorem bestAt_candidate {best : Option CachedPrefix} {i : Nat} (old : ∀ p ∈ best, Candidate s cache start path p) :
    ∀ p ∈ bestAt s cache start path best i, Candidate s cache start path p := by
  intro p chosen
  simp only [bestAt] at chosen
  split at chosen
  next ends =>
    refine foldlRecOn (motive := fun best => ∀ p ∈ best, Candidate s cache start path p) _ _ old ?_ p chosen
    intro best kept way _ p chosen
    split at chosen
    · exact kept p chosen
    next entry found =>
      split at chosen
      next found' matching =>
        obtain rfl := some.inj chosen
        exact ⟨i, ends, matching, _, way, found⟩
      · exact kept p chosen
  · exact old p chosen

theorem bestPrefix_candidate (chosen : bestPrefix s cache start path = some p) : Candidate s cache start path p := by
  simp only [bestPrefix] at chosen
  split at chosen
  · cases chosen
  · exact foldlRecOn (motive := fun best => ∀ p ∈ best, Candidate s cache start path p) _ _ (by simp)
      (fun best kept i _ => bestAt_candidate kept) p chosen

end Shroot.InodePath
