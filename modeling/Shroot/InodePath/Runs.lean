import Shroot.InodePath.History

namespace Shroot.InodePath

open General List

section

variable {s : Store} {q : WalkRequest} {start : Node}

theorem walkStart_ok (run : walkStart s q = .ok start) :
    start.kind = .dir ∧ (s.objects start.id = .ok start ∨ ∃ number, s.fd number = .ok start) := by
  simp only [walkStart, failIf_bind_ok] at run
  obtain ⟨-, -, -, -, -, -, run⟩ := run
  obtain ⟨node, found, run⟩ := bind_ok.mp run
  simp only [failIf_bind_ok, pure_ok, not_not] at run
  obtain ⟨-, dir, rfl⟩ := run
  refine ⟨dir, ?_⟩
  simp only [startNode] at found
  split at found
  · split at found
    · obtain ⟨_, -, thrown⟩ := bind_ok.mp found
      cases thrown
    · exact .inr ⟨_, liftErrno_ok found⟩
  · have row := liftErrno_ok found
    rw [(s.objects_row _ _ row).1]
    exact .inl row

theorem walkStart_row (run : walkStart s q = .ok start) (memo : remembers q start) :
    s.objects start.id = .ok start := by
  simp only [remembers, Bool.and_eq_true, Bool.not_eq_eq_eq_not, Bool.not_true] at memo
  obtain ⟨-, row | ⟨num, found⟩⟩ := walkStart_ok run
  · exact row
  · exact s.fd_row num start found memo.1.2 memo.2

variable {history : List Store}

theorem bestPrefix_trail {cache : PathCache} {path : Bytes} {p : CachedPrefix}
    (sound : Sound cache history) (tracked : ∀ earlier ∈ history, Tracks earlier s)
    (row : s.objects start.id = .ok start) (chosen : bestPrefix s cache start path = some p) :
    ∃ others, p.directories = start :: others ∧ others ≠ [] ∧ others.length < pathPrefixDepth ∧
      Trail s start p.text others ∧ path = p.text ++ path.drop p.length ∧ (path.drop p.length).head? = some slash := by
  obtain ⟨i, ends, matching, set, way, held⟩ := bestPrefix_candidate chosen
  obtain ⟨earlier, mem, recorded⟩ := sound set way p held
  simp only [prefixMatches, Bool.and_eq_true, beq_iff_eq] at matching
  obtain ⟨⟨⟨⟨⟨-, length⟩, -⟩, first⟩, text⟩, current⟩ := matching
  obtain ⟨node, others, directories, isStart, some, depth, nodeRow, trail⟩ :=
    recorded.current (tracked earlier mem) current
  have same : node = start := by
    rw [isStart] at first
    simp only [Option.any_some, Bool.and_eq_true, beq_iff_eq] at first
    rw [first.1.1, row] at nodeRow
    exact (Except.ok.inj nodeRow).symm
  subst same
  refine ⟨others, directories, some, depth, trail, ?_, ?_⟩
  · rw [length, text, take_append_drop]
  · simp only [prefixEnd, Bool.and_eq_true, beq_iff_eq] at ends
    rw [length, head?_drop]
    exact ends.1.1.1

/-- Revalidation up to, and without, the mount check of the last directory. -/
def enterAll (s : Store) : List Node → Bytes → Except Failure Unit
  | [node, _], cursor => enterDirectory s node (componentName cursor) (componentRest cursor) 0
  | node :: next :: rest, cursor => do
    enterDirectory s node (componentName cursor) (componentRest cursor) 0
    failIf (mountContains s next) { errno := .EXDEV }
    enterAll s (next :: rest) (componentRest cursor)
  | _, _ => .ok ()

/-- With no component left after the entry, resolving its last directory as the last component
returns something else than standing in it. -/
def LastDiffers (s : Store) (q : WalkRequest) (last : Node) : Prop :=
  match mountContains s last, statIf s q.attributes last with
  | false, .ok _ => True
  | false, .error fail => fail.errno = .ENOENT
  | true, .ok _ => False
  | true, .error fail => fail ≠ { errno := .EXDEV }

/-- The situations in which a cached prefix shows: a directory of the entry disappears under the
actor's search, or the entry leaves no component to resolve. -/
def Diverges (s : Store) (cache : PathCache) (q : WalkRequest) : Prop :=
  ∃ start p last, walkStart s q = .ok start ∧ remembers q start ∧ bestPrefix s cache start q.path = some p ∧
    p.directories.getLast? = some last ∧
      ((∃ fail, revalidate s p.directories q.path = .error fail ∧ fail.errno = .ENOENT) ∨
      (skipSlashes (q.path.drop p.length) = [] ∧ enterAll s p.directories q.path = .ok () ∧ LastDiffers s q last))

theorem Trail.last {node : Node} {text : Bytes} {nodes : List Node} (trail : Trail s node text nodes)
    (long : nodes ≠ []) :
    ∃ init last front back, nodes = init ++ [last] ∧ text = front ++ back ∧ Trail s node front init ∧
      Trail s (init.getLastD node) back [last] ∧ (init ≠ [] → back.head? = some slash) := by
  induction nodes generalizing node text with
  | nil => exact absurd rfl long
  | cons next rest ih =>
    cases rest with
    | nil => exact ⟨[], next, [], text, rfl, rfl, rfl, trail, fun none => absurd rfl none⟩
    | cons two others =>
      obtain ⟨named, plain, short, entry, row, dir, trail⟩ := trail
      obtain ⟨init, last, front, back, nodes, split, old, final, cut⟩ := ih trail (cons_ne_nil _ _)
      have tail := componentRest_cut text
      have bytes := componentBytes_append text
      obtain ⟨name, nothing⟩ := component_bytes (skipSlashes_ne_nil named)
      have frontCut : front = [] ∨ front.head? = some slash := by
        cases front with
        | nil => exact .inl rfl
        | cons byte more =>
          rw [split] at tail
          exact .inr (tail.resolve_left (by simp))
      obtain ⟨sameName, sameRest⟩ := component_append (name.symm ▸ named) frontCut
      rw [name] at sameName
      rw [nothing, nil_append] at sameRest
      refine ⟨next :: init, last, componentBytes text ++ front, back, by rw [nodes]; rfl, ?_, ?_, ?_, fun _ => ?_⟩
      · rw [append_assoc, ← split, bytes]
      · simp only [Trail, sameName, sameRest]
        exact ⟨named, plain, short, entry, row, dir, old⟩
      · cases init with
        | nil => exact final
        | cons first others => exact final
      · cases init with
        | nil =>
          obtain rfl : front = [] := old
          rw [nil_append] at split
          rw [← split]
          refine tail.resolve_left fun empty => ?_
          exact trail.1 (by rw [empty]; rfl)
        | cons first others => exact cut (cons_ne_nil _ _)

variable {front cursor : Bytes} {init : List Node}

theorem enterAll_cons (node next : Node) (cursor : Bytes) {rest : List Node} (more : rest ≠ []) :
    enterAll s (node :: next :: rest) cursor = (do
      enterDirectory s node (componentName cursor) (componentRest cursor) 0
      failIf (mountContains s next) { errno := .EXDEV }
      enterAll s (next :: rest) (componentRest cursor)) := by
  obtain ⟨two, others, rfl⟩ := exists_cons_of_ne_nil more
  rfl

theorem revalidate_last (node last : Node) (cursor : Bytes) : revalidate s (node :: (init ++ [last])) cursor = (do
    enterAll s (node :: (init ++ [last])) cursor
    failIf (mountContains s last) { errno := .EXDEV }) := by
  induction init generalizing node cursor with
  | nil =>
    simp only [nil_append, revalidate, enterAll]
    cases enterDirectory s node (componentName cursor) (componentRest cursor) 0 with
    | error _ => rfl
    | ok _ => cases failIf (mountContains s last) (Failure.mk .EXDEV none) <;> rfl
  | cons next others ih =>
    rw [cons_append, enterAll_cons _ _ _ (by simp)]
    simp only [revalidate, ih, bind_assoc]

theorem enterAll_last {node last : Node} (trail : Trail s node front init)
    (cut : init ≠ [] → cursor.head? = some slash) :
    enterAll s (node :: (init ++ [last])) (front ++ cursor) = (do
      revalidate s (node :: init) (front ++ cursor)
      enterDirectory s (init.getLastD node) (componentName cursor) (componentRest cursor) 0) := by
  induction init generalizing node front with
  | nil =>
    obtain rfl : front = [] := trail
    rfl
  | cons next others ih =>
    obtain ⟨named, -, -, -, -, -, trail⟩ := trail
    obtain ⟨name, tail⟩ := component_append named (.inr (cut (cons_ne_nil _ _)))
    have step := ih trail fun _ => cut (cons_ne_nil _ _)
    have lastD : (next :: others).getLastD node = others.getLastD next := by cases others <;> rfl
    rw [cons_append, enterAll_cons _ _ _ (by simp), tail, step, lastD]
    simp only [revalidate, tail, bind_assoc]

/-- The last iteration of a walk whose last component is a directory with slashes after it. -/
theorem walkBody_last (base : Node) (st : WalkState) {last : Node} (free : q.resolve = 0)
    (final : skipSlashes (componentRest st.cursor) = []) (trailing : componentRest st.cursor ≠ [])
    (named : componentName st.cursor ≠ []) (plain : isSpecial (componentName st.cursor) = false)
    (short : (componentName st.cursor).length ≤ nameMax)
    (entry : s.names st.current.id (componentName st.cursor) = .ok last.id) (row : s.objects last.id = .ok last)
    (dir : last.kind = .dir) :
    walkBody s q base st =
      .inl (match (do
          enterDirectory s st.current (componentName st.cursor) (componentRest st.cursor) 0
          statIf s q.attributes last
          failIf (mountContains s last) { errno := .EXDEV }) with
        | .error fail => unresolved q st.current (componentName st.cursor) (componentRest st.cursor) true fail
        | .ok () =>
          .done { node := some last, parent := some st.current, name := componentName st.cursor, isPresent := true
                  special := false, trailing := true }, st.flush.put) := by
  have trails : (componentRest st.cursor).isEmpty = false := by simpa using trailing
  have current : st.flush.current = st.current := st.flush_rest.1
  rw [walkBody, if_neg (skipSlashes_ne_nil named)]
  simp only [final, isEmpty_nil, Bool.true_or, WalkState.flushIf, if_true, if_neg (Nat.not_lt.mpr short), gt_iff_lt]
  rw [resolveComponent_plain plain entry row, free, Bool.true_and]
  cases enterDirectory s st.current (componentName st.cursor) (componentRest st.cursor) 0 with
  | error _ => rfl
  | ok _ =>
    cases statIf s q.attributes last with
    | error _ => rfl
    | ok _ =>
      by_cases mounted : mountContains s last
      · simp [failIf, mounted, bind, Except.bind]
      · simp [failIf, mounted, bind, Except.bind, pure, Except.pure, arrive, dir, trails, plain, current]

theorem EarlyFailure.eq_failed_iff {fail : Failure} {out : Outcome} (early : EarlyFailure fail out) :
    .failed fail = out ↔ fail.errno ≠ .ENOENT := by
  rcases early with ⟨other, rfl⟩ | ⟨gone, location, rfl⟩
  · exact ⟨fun _ => other, fun _ => rfl⟩
  · exact ⟨nofun, fun other => absurd gone other⟩

theorem failed_eq_unresolved_iff {current : Node} {name rest : Bytes} {last : Bool} (plain : isSpecial name = false)
    {fail other : Failure} :
    .failed other = unresolved q current name rest last fail ↔ other = fail ∧ fail.errno ≠ .ENOENT := by
  by_cases absent : fail.errno = .ENOENT
  · simp only [unresolved, absent, plain, Bool.false_eq_true, not_false_eq_true, and_self, if_true]
    split <;> simp
  · simp [unresolved, absent]

section

variable {cache : PathCache} {p : CachedPrefix}

theorem bestPrefix_empty (path : Bytes) : bestPrefix s .empty start path = none := by
  cases chosen : bestPrefix s .empty start path with
  | none => rfl
  | some p =>
    obtain ⟨_, _, _, _, _, held⟩ := bestPrefix_candidate chosen
    cases held

theorem walk_fresh (begins : walkStart s q = .ok start) (memo : remembers q start)
    (none : bestPrefix s cache start q.path = none) (alloc : Bool) :
    (walk s cache q alloc).1 =
      ((walkLoop s q start).run ⟨start, q.path, 0, some ⟨[start], 0⟩, Option.none⟩).1 := by
  simp only [walk, begins, memo, if_true, pathPrefixGet, none, getLastD_cons, getLastD_nil, drop_zero]
  split <;> rfl

/-- What a walk returns that begins behind the directories of an entry. -/
def resumed (s : Store) (q : WalkRequest) (start : Node) (directories : List Node) (length : Nat) (rest : Bytes) :
    Outcome :=
  match revalidate s directories q.path with
  | .error fail => .failed fail
  | .ok () =>
    ((walkLoop s q start).run ⟨directories.getLastD start, rest, 0, some ⟨directories, length⟩, none⟩).1

theorem walk_found (begins : walkStart s q = .ok start) (memo : remembers q start)
    (chosen : bestPrefix s cache start q.path = some p) (alloc : Bool) :
    (walk s cache q alloc).1 = resumed s q start p.directories p.length (q.path.drop p.length) := by
  simp only [walk, resumed, begins, memo, if_true, pathPrefixGet, chosen]
  cases revalidate s p.directories q.path with
  | error fail => rfl
  | ok _ =>
    simp only [bind, Except.bind, pure, Except.pure]
    split <;> rfl

variable {others : List Node} {text rest : Bytes} (trail : Trail s start text others)
variable (depth : others.length < pathPrefixDepth) (free : q.resolve = 0) (path : q.path = text ++ rest)
variable (slashed : rest.head? = some slash)

include trail depth free path slashed

/-- An entry that leaves a component resumes the walk it stands for, unless a directory of it
disappears under the actor's search. -/
theorem run_resumed (more : skipSlashes rest ≠ []) :
    resumed s q start (start :: others) text.length rest =
      ((walkLoop s q start).run ⟨start, q.path, 0, some ⟨[start], 0⟩, none⟩).1 ↔
    ¬ ∃ fail, revalidate s (start :: others) q.path = .error fail ∧ fail.errno = .ENOENT := by
  have follows := @run_trail s rest start others q start text [] [start] trail (fun _ => slashed) more free
    path (by simp only [length_singleton]; omega)
  rw [resumed, getLastD_cons, path]
  cases checked : revalidate s (start :: others) (text ++ rest) with
  | error fail =>
    simp only [checked] at follows
    obtain ⟨out, run, early⟩ := follows
    rw [length_nil] at run
    simp [run, early.eq_failed_iff]
  | ok _ =>
    simp only [checked, length_nil, nil_append, singleton_append] at follows
    simp [follows]

/-- An entry that leaves no component stands in its last directory, where the walk would have
resolved that directory as its last component. -/
theorem run_consumed {last : Node} (isLast : others.getLast? = some last) (consumed : skipSlashes rest = []) :
    resumed s q start (start :: others) text.length rest =
      ((walkLoop s q start).run ⟨start, q.path, 0, some ⟨[start], 0⟩, none⟩).1 ↔
    ¬ ((∃ fail, revalidate s (start :: others) q.path = .error fail ∧ fail.errno = .ENOENT) ∨
      (enterAll s (start :: others) q.path = .ok () ∧ LastDiffers s q last)) := by
  obtain ⟨init, final, front, back, rfl, rfl, old, ⟨named, plain, short, entry, row, dir, noMore⟩, cut⟩ :=
    trail.last (by rintro rfl; cases isLast)
  obtain rfl : final = last := by simpa using isLast
  obtain ⟨name, tail⟩ := component_append named (.inr slashed)
  rw [show componentRest back = [] from noMore, nil_append] at tail
  rw [← name] at named plain short entry
  have more : skipSlashes (back ++ rest) ≠ [] := skipSlashes_ne_nil named
  have slashedBack : init ≠ [] → (back ++ rest).head? = some slash := by
    intro some
    rw [head?_append, cut some]
    rfl
  rw [append_assoc] at path
  have follows := @run_trail s (back ++ rest) start init q start front [] [start] old slashedBack more free
    path (by simp only [length_append, length_singleton] at depth ⊢; omega)
  -- where the walk without the entry comes to the last directory
  obtain ⟨arrived, isArrived⟩ : ∃ arrived : WalkState, arrived =
    ⟨init.getLastD start, back ++ rest, 0, some ⟨start :: init, front.length⟩, none⟩ := ⟨_, rfl⟩
  have body := @walkBody_last s q start arrived final free (by rw [isArrived, tail]; exact consumed)
    (by rw [isArrived, tail]; rintro rfl; cases slashed) (isArrived ▸ named) (isArrived ▸ plain) (isArrived ▸ short)
    (isArrived ▸ entry) row dir
  have stands : ∀ p : PathPrefix,
      (walkLoop s q start).run ⟨final, rest, 0, some p, none⟩ = (atDirectory s q final, none) := by
    intro p
    exact Loop.run_stop (by simp only [walkLoop, walkBody, consumed, if_true])
  rw [resumed, getLastD_cons, getLastD_concat, stands, path, revalidate_last, enterAll_last old slashedBack, bind_assoc]
  cases checked : revalidate s (start :: init) (front ++ (back ++ rest)) with
  | error fail =>
    simp only [checked] at follows
    obtain ⟨out, run, early⟩ := follows
    rw [length_nil] at run
    simp [run, early.eq_failed_iff, bind, Except.bind]
  | ok _ =>
    simp only [checked, length_nil, nil_append, singleton_append, ← isArrived] at follows
    rw [follows, Loop.run_stop body, isArrived]
    simp only [bind, Except.bind]
    cases enterDirectory s (init.getLastD start) (componentName (back ++ rest)) (componentRest (back ++ rest)) 0 with
    | error fail => simp [failed_eq_unresolved_iff plain]
    | ok _ =>
      by_cases mounted : mountContains s final
      · cases stat : statIf s q.attributes final with
        | error fail =>
          simp only [failIf, mounted, if_true, failed_eq_unresolved_iff plain, LastDiffers, stat]
          refine ⟨?_, fun same => ?_⟩
          · rintro ⟨rfl, present⟩
            simp
          · obtain rfl : { errno := .EXDEV } = fail := by
              by_contra differs
              exact same (.inr ⟨trivial, fun eq => differs eq.symm⟩)
            exact ⟨rfl, by simp⟩
        | ok _ => simp [failIf, mounted, stat, failed_eq_unresolved_iff plain, LastDiffers]
      · cases stat : statIf s q.attributes final with
        | error fail => simp [failIf, mounted, stat, failed_eq_unresolved_iff plain, LastDiffers, atDirectory]
        | ok _ => simp [failIf, mounted, stat, LastDiffers, atDirectory]

end

/-- A walk returns what it returns with an empty cache exactly when its entry does not show. -/
theorem walk_eq_empty_iff {cache : PathCache} (sound : Sound cache history)
    (tracked : ∀ earlier ∈ history, Tracks earlier s) (alloc fresh : Bool) :
    (walk s cache q alloc).1 = (walk s .empty q fresh).1 ↔ ¬ Diverges s cache q := by
  cases begins : walkStart s q with
  | error fail => simp [walk, begins, Diverges]
  | ok start =>
    by_cases memo : remembers q start
    · cases chosen : bestPrefix s cache start q.path with
      | none =>
        rw [walk_fresh begins memo chosen, walk_fresh begins memo (bestPrefix_empty q.path)]
        simp [Diverges, begins, chosen]
      | some p =>
        obtain ⟨others, directories, some, depth, trail, path, slashed⟩ :=
          bestPrefix_trail sound tracked (walkStart_row begins memo) chosen
        have free : q.resolve = 0 := by
          simp only [remembers, Bool.and_eq_true, beq_iff_eq] at memo
          exact memo.1.1
        obtain ⟨last, isLast⟩ : ∃ last, others.getLast? = .some last := ⟨_, getLast?_eq_some_getLast some⟩
        have shows : Diverges s cache q ↔
          (∃ fail, revalidate s (start :: others) q.path = .error fail ∧ fail.errno = .ENOENT) ∨
            (skipSlashes (q.path.drop p.length) = [] ∧ enterAll s (start :: others) q.path = .ok () ∧
              LastDiffers s q last) := by
          have final : (start :: others).getLast? = .some last := by
            rw [getLast?_cons, isLast]
            rfl
          simp [Diverges, begins, memo, chosen, directories, final]
        rw [walk_found begins memo chosen, walk_fresh begins memo (bestPrefix_empty q.path), directories, shows]
        by_cases consumed : skipSlashes (q.path.drop p.length) = []
        · simp only [consumed, true_and]
          exact run_consumed trail depth free path slashed isLast consumed
        · simp only [consumed, false_and, or_false]
          exact run_resumed trail depth free path slashed consumed
    · simp [walk, begins, memo, Diverges]

end

open Option Except

variable {s : Store} {start : Node}

/-- What happens to a path cache: a walk in the store as it is then, whose allocation may
fail, or its destruction. The catalogue may change between any two of them. -/
inductive Event where
  | walk (s : Store) (q : WalkRequest) (allocated : Bool)
  | destroy

def Event.apply (cache : PathCache) : Event → PathCache
  | .walk s q allocated => (InodePath.walk s cache q allocated).2
  | .destroy => .empty

variable (events : List Event)

def runEvents : PathCache := events.foldl Event.apply .empty

def Event.store : Event → Option Store
  | .walk s _ _ => some s
  | .destroy => none

def stores : List Store := events.filterMap Event.store

section

variable {q : WalkRequest} {cache : PathCache} {history : List Store}

section

variable (sound : Sound cache history) (tracked : ∀ earlier ∈ history, Tracks earlier s)

include sound tracked

/-- The chain a walk begins with is borne out by the store. -/
theorem pathPrefixGet_memory {known : PathPrefix} {new : PathCache} (row : s.objects start.id = .ok start)
    (run : pathPrefixGet s cache q.path start = .ok (known, new)) :
    Sound new history ∧
    LoopMemory s q start ⟨known.nodes.getLastD start, q.path.drop known.length, 0, some known, none⟩ := by
  simp only [pathPrefixGet] at run
  split at run
  · obtain ⟨rfl, rfl⟩ := Prod.mk.inj (ok.inj run)
    refine ⟨sound, ?_, by simp⟩
    intro p same
    obtain rfl := some.inj same
    exact ⟨⟨row, [], rfl, by simp [Trail], fun some => absurd rfl some, by decide⟩, rfl, rfl⟩
  next best chosen =>
    obtain ⟨_, -, run⟩ := bind_ok.mp run
    rw [pure_ok] at run
    obtain ⟨rfl, rfl⟩ := Prod.mk.inj run
    obtain ⟨others, directories, -, depth, trail, path, slashed⟩ := bestPrefix_trail sound tracked row chosen
    refine ⟨sound.touch best, ?_, by simp⟩
    intro p same
    obtain rfl := some.inj same
    have text : q.path.take best.length = best.text := by
      rw [path]
      exact take_left' rfl
    exact ⟨⟨row, others, directories, text ▸ trail, fun _ => slashed, depth⟩, rfl, rfl⟩

/-- A walk leaves only entries that a state of the history, its own included, bears out. -/
theorem walk_sound (allocated : Bool) : Sound (walk s cache q allocated).2 (history ++ [s]) := by
  have kept : Sound cache (history ++ [s]) := sound.mono (subset_append_left _ _)
  simp only [walk]
  split
  · exact kept
  next start begins =>
    split
    next remembering =>
      split
      · exact kept
      next known new found =>
        obtain ⟨sound, memory⟩ := pathPrefixGet_memory sound tracked (walkStart_row begins remembering) found
        have kept := sound.mono (subset_append_left history [s])
        split
        · exact kept
        next proof handed => exact kept.put (by simp) (walkLoop_memory memory proof handed) allocated
    · exact kept

end

/-- Every sequence of events over a coherent catalogue leaves a sound cache. -/
theorem runEvents_sound {events : List Event} (coherent : (stores events).Pairwise Tracks) :
    Sound (runEvents events) (stores events) := by
  induction events using reverseRecOn with
  | nil => exact sound_empty _
  | append_singleton events event ih =>
    have split : stores (events ++ [event]) = stores events ++ stores [event] := filterMap_append
    have ran : runEvents (events ++ [event]) = event.apply (runEvents events) := by simp [runEvents]
    rw [split] at coherent ⊢
    rw [ran]
    obtain ⟨old, -, across⟩ := pairwise_append.mp coherent
    cases event with
    | walk s q allocated =>
      exact walk_sound (ih old) (fun earlier mem => across earlier mem s (by simp [stores, Event.store])) allocated
    | destroy => exact sound_empty _

end

/-- After any events over a coherent catalogue, a walk returns what it returns with an empty
cache exactly when its entry does not show. -/
theorem walk_eq_uncached_iff (s : Store) (q : WalkRequest) (allocated fresh : Bool)
    (coherent : (stores events ++ [s]).Pairwise Tracks) :
    (walk s (runEvents events) q allocated).1 = (walk s .empty q fresh).1 ↔ ¬ Diverges s (runEvents events) q := by
  obtain ⟨old, -, across⟩ := pairwise_append.mp coherent
  exact walk_eq_empty_iff (runEvents_sound old) (fun earlier mem => across earlier mem s (by simp))
    allocated fresh

/-- The entry that `put` makes of a remembered chain. -/
def firstEntry (s : Store) (path : Bytes) (start : Node) (others : List Node) (length : Nat) : CachedPrefix :=
  { hash := prefixHash s start (path.take length)
    epoch := cacheEpoch s
    used := 1
    root := mdiRoot s
    nodes := { node := start, dependencies := [cacheDependency s .object start.id []] } ::
      recordNodes s (start :: others) path
    text := path.take length }

/-- A cache with one entry: an empty set gives away its last way. -/
def firstCache (entry : CachedPrefix) : PathCache where
  clock := 1
  entries i j := if i = entry.hash.toNat % prefixSets ∧ j = 1 then some entry else none

theorem pathPrefixPut_empty {path : Bytes} {others : List Node} {length : Nat}
    (fine : cacheEpoch s ≠ 0) (more : others ≠ []) (consumed : length ≠ 0) :
    pathPrefixPut s .empty path ⟨start :: others, length⟩ true =
      firstCache (firstEntry s path start others length) := by
  simp [firstCache, pathPrefixPut, PathCache.empty, fine, more, consumed, chooseWay, prefixWays, range_succ, firstEntry]
  rfl

/-- A store with the directories `a` and `a/b`. -/
def smallNode (id parent : Id) (inode : UInt64) : Node :=
  { id := id, parent := parent, backing := [], scope := replicate 32 48, kind := .dir, device := 1
    logicalDevice := 1, rdev := 0, inode := inode, logicalInode := inode, links := 2, attached := true, shared := false
    source := 0, mode := 493, uid := 0, gid := 0, aclMask := 0, native := false, descriptor := false }

def smallRoot : Node := smallNode (replicate 32 48) [] 1
def smallA : Node := smallNode (replicate 32 97) smallRoot.id 2
def smallB : Node := smallNode (replicate 32 98) smallA.id 3

def smallObjects (id : Id) : Except Errno Node :=
  match [smallRoot, smallA, smallB].find? (·.id == id) with
  | some node => .ok node
  | none => .error .ENOENT

theorem smallObjects_row (id : Id) (node : Node) (found : smallObjects id = .ok node) :
    node.id = id ∧ node.native = false ∧ node.descriptor = false := by
  unfold smallObjects at found
  split at found
  next row held =>
    obtain rfl := ok.inj found
    have same := find?_some held
    have mem := mem_of_find?_eq_some held
    simp only [mem_cons, not_mem_nil, or_false] at mem
    refine ⟨by simpa using same, ?_⟩
    rcases mem with rfl | rfl | rfl <;> exact ⟨rfl, rfl⟩
  · cases found

def smallStore : Store where
  rootId := none
  scope := smallRoot.id
  boundary := none
  mountBoundary := none
  names parent name :=
    if parent = smallRoot.id ∧ name = [97] then .ok smallA.id
    else if parent = smallA.id ∧ name = [98] then .ok smallB.id
    else .error .ENOENT
  objects := smallObjects
  fd _ := .error .EBADF
  fstatDirectory _ := .error .EBADF
  leafLookup _ _ _ _ := .error .ENOENT
  permission _ := .ok ()
  stat _ := .ok ()
  readlink _ := .error .EINVAL
  cacheChecked := true
  readEpoch := 1
  versions _ := 1
  objects_row := smallObjects_row
  fd_row := nofun
  leaf_native := fun _ _ _ _ _ found => nomatch found

def smallLookup (path : Bytes) : WalkRequest :=
  { dirfd := none, path := path, follow := .follow, missing := false, resolve := 0, attributes := false, pin := false }

/-- The text of `a/b`. -/
def smallText : Bytes := [97, 47, 98]

def smallEntry : CachedPrefix := firstEntry smallStore (smallText ++ [47, 99]) smallRoot [smallA, smallB] 3

def smallEvents : List Event := [.walk smallStore (smallLookup (smallText ++ [47, 99])) true]

theorem smallWalk_puts :
    (walkLoop smallStore (smallLookup (smallText ++ [47, 99])) smallRoot).run
      ⟨smallRoot, smallText ++ [47, 99], 0, some ⟨[smallRoot], 0⟩, none⟩ =
    (.missing
      { node := none, parent := some smallB, name := [99], isPresent := false, special := false, trailing := false },
      some ⟨[smallRoot, smallA, smallB], 3⟩) := by
  have first : (walkLoop smallStore (smallLookup (smallText ++ [47, 99])) smallRoot).body
      ⟨smallRoot, smallText ++ [47, 99], 0, some ⟨[smallRoot], 0⟩, none⟩ =
      .inr ⟨smallA, [47, 98, 47, 99], 0, some ⟨[smallRoot, smallA], 1⟩, none⟩ := by decide
  have two : (walkLoop smallStore (smallLookup (smallText ++ [47, 99])) smallRoot).body
      ⟨smallA, [47, 98, 47, 99], 0, some ⟨[smallRoot, smallA], 1⟩, none⟩ =
      .inr ⟨smallB, [47, 99], 0, some ⟨[smallRoot, smallA, smallB], 3⟩, none⟩ := by decide
  rw [Loop.run_next first, Loop.run_next two]
  exact Loop.run_stop (by decide)

theorem smallEvents_cache : runEvents smallEvents = firstCache smallEntry := by
  have begins : walkStart smallStore (smallLookup (smallText ++ [47, 99])) = .ok smallRoot := by decide +kernel
  have remembering : remembers (smallLookup (smallText ++ [47, 99])) smallRoot = true := by decide +kernel
  have get : pathPrefixGet smallStore .empty (smallText ++ [47, 99]) smallRoot = .ok (⟨[smallRoot], 0⟩, .empty) := by
    rw [pathPrefixGet, bestPrefix_empty]
  have path : (smallLookup (smallText ++ [47, 99])).path = smallText ++ [47, 99] := rfl
  simp only [runEvents, smallEvents, foldl_cons, foldl_nil, Event.apply, walk, begins, remembering, if_true,
    path, get, drop_zero, getLastD_cons, getLastD_nil, smallWalk_puts]
  exact pathPrefixPut_empty (by decide) (by simp) (by decide)

theorem smallEvents_coherent : (stores smallEvents ++ [smallStore]).Pairwise Tracks := by
  have same : Tracks smallStore smallStore := fun _ _ => ⟨fun _ _ => rfl, fun _ _ _ => rfl⟩
  simp [smallEvents, stores, Event.store, same]

theorem smallEvents_best {rest : Bytes} (path : rest = [47, 100] ∨ rest = [47, 47]) :
    bestPrefix smallStore (runEvents smallEvents) smallRoot (smallText ++ rest) = some smallEntry := by
  rw [smallEvents_cache]
  rcases path with rfl | rfl <;> decide +kernel

/-- After `a/b/c`, looking up `a/b/d` resumes at `a/b` and returns what it would without. -/
theorem sibling_eq_uncached :
    (stores smallEvents ++ [smallStore]).Pairwise Tracks ∧
      (walk smallStore (runEvents smallEvents) (smallLookup (smallText ++ [47, 100])) true).1 =
        (walk smallStore .empty (smallLookup (smallText ++ [47, 100])) true).1 := by
  refine ⟨smallEvents_coherent, (walk_eq_uncached_iff smallEvents smallStore _ true true smallEvents_coherent).mpr ?_⟩
  rintro ⟨start, p, last, begins, -, chosen, -, shows⟩
  have root : walkStart smallStore (smallLookup (smallText ++ [47, 100])) = .ok smallRoot := by decide +kernel
  obtain rfl : smallRoot = start := ok.inj (root.symm.trans begins)
  obtain rfl : smallEntry = p := mem_unique (smallEvents_best (.inl rfl)) chosen
  rcases shows with ⟨failure, checked, -⟩ | ⟨consumed, -⟩
  · cases checked
  · revert consumed
    decide +kernel

/-- After `a/b/c`, looking up `a/b//` returns `b` as its own parent and as a special component. -/
theorem doubledSlash_differs :
    (walk smallStore (runEvents smallEvents) (smallLookup (smallText ++ [47, 47])) true).1 ≠
      (walk smallStore .empty (smallLookup (smallText ++ [47, 47])) true).1 := by
  obtain ⟨old, -, across⟩ := pairwise_append.mp smallEvents_coherent
  have shows := walk_eq_empty_iff (q := smallLookup (smallText ++ [47, 47])) (runEvents_sound old)
    (fun earlier mem => across earlier mem smallStore (by simp)) true true
  rw [ne_eq, shows, not_not]
  exact ⟨smallRoot, smallEntry, smallB, by decide +kernel, by decide +kernel, smallEvents_best (.inr rfl),
    by decide +kernel, .inr ⟨by decide +kernel, by decide +kernel, trivial⟩⟩

end Shroot.InodePath
