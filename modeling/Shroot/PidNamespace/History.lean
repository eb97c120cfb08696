import Shroot.PidNamespace.Model

namespace Shroot.PidNamespace

open General Function List Nat Prod World

variable {w w' after : World} {id : IdentityId} {p p' : PidIdentity} {numbers : List (SpaceId × Nat)}

/-- An identity has one number on each level, and holds them until it is reaped. -/
structure Sound (holder : SpaceId → Nat → Option NumberRef) (id : IdentityId) (p : PidIdentity) : Prop where
  holds : p.reaped = false → ∀ i n k, p.numbers[i]? = some (n, k) → holder n k = some ⟨id, i⟩
  chain : p.numbers.map fst = levels p.space
  bounds : ∀ level ∈ p.numbers, 1 ≤ level.2 ∧ level.2 < pidMax

/-- The tables of the namespaces and the numbers of the identities are one thing. -/
structure Consistent (w : World) : Prop where
  cursors : Cursors w
  held : ∀ n k ref, w.holder n k = some ref → ∃ p, w.identity ref.identity = some p ∧ p.reaped = false ∧
    p.numbers[ref.index]? = some (n, k)
  sound : ∀ id p, w.identity id = some p → Sound w.holder id p
  fresh : ∀ id, w.identities ≤ id → w.identity id = none

theorem Consistent.empty : Consistent World.empty := by
  refine ⟨?_, ?_, ?_, fun _ _ => rfl⟩ <;> simp [Cursors, World.empty, holder]

section

variable (good : Consistent w)

include good

theorem Consistent.of_holder (cursors : Cursors w') (who : w'.identity = w.identity)
    (identities : w'.identities = w.identities) (holder : w'.holder = w.holder) : Consistent w' := by
  refine ⟨cursors, ?_, ?_, ?_⟩
  · rw [holder, who]
    exact good.held
  · rw [holder, who]
    exact good.sound
  · rw [identities, who]
    exact good.fresh

theorem Consistent.of_frame (frame : Frame w w') (holder : w'.holder = w.holder) : Consistent w' :=
  good.of_holder (frame.cursors good.cursors) frame.identity frame.identities holder

theorem Consistent.identity_lt (found : w.identity id = some p) : id < w.identities := by
  by_contra beyond
  rw [good.fresh id (not_lt.mp beyond)] at found
  cases found

theorem Consistent.replace {left : Option PidIdentity} (cursors : Cursors w')
    (who : w'.identity = update w.identity id left) (known : id < w'.identities) (more : w.identities ≤ w'.identities)
    (others : ∀ n k ref, ref.identity ≠ id → (w'.holder n k = some ref ↔ w.holder n k = some ref))
    (own : ∀ n k i, w'.holder n k = some ⟨id, i⟩ → ∃ p, left = some p ∧ p.reaped = false ∧ p.numbers[i]? = some (n, k))
    (sound : ∀ p, left = some p → Sound w'.holder id p) : Consistent w' := by
  refine ⟨cursors, fun n k ref there => ?_, fun other q there => ?_, fun other beyond => ?_⟩
  · by_cases same : ref.identity = id
    · subst same
      rw [who, update_self]
      exact own n k ref.index there
    · rw [who, update_of_ne same]
      exact good.held n k ref ((others n k ref same).mp there)
  · rw [who] at there
    by_cases same : other = id
    · subst same
      rw [update_self] at there
      exact sound q there
    · rw [update_of_ne same] at there
      obtain ⟨has, chain, bounds⟩ := good.sound other q there
      exact ⟨fun alive i n k mem => (others n k ⟨other, i⟩ same).mpr (has alive i n k mem), chain, bounds⟩
  · rw [who, update_of_ne (known.trans_le beyond).ne']
    exact good.fresh other (more.trans beyond)

end

/-- A change of the other fields of an identity. -/
structure Touched (p p' : PidIdentity) : Prop where
  numbers : p'.numbers = p.numbers
  space : p'.space = p.space
  reaped : p'.reaped = p.reaped
  native : p.native ≠ 0 → p'.native = p.native

theorem Consistent.setIdentity (good : Consistent w) (found : w.identity id = some p)
    (hit : Touched p p') : Consistent (w.setIdentity id (some p')) := by
  obtain ⟨numbers, space, reaped, -⟩ := hit
  refine good.replace good.cursors rfl (good.identity_lt found) le_rfl (fun _ _ _ _ => Iff.rfl)
    (fun n k i there => ?_) fun q is => ?_
  · obtain ⟨q, foundQ, alive, mem⟩ := good.held n k _ there
    obtain rfl : p = q := Option.mem_unique found foundQ
    exact ⟨p', rfl, reaped.trans alive, numbers ▸ mem⟩
  · obtain rfl := Option.some.inj is
    obtain ⟨has, chain, bounds⟩ := good.sound id p found
    refine ⟨?_, ?_, ?_⟩
    · rw [reaped, numbers]
      exact has
    · rw [numbers, space]
      exact chain
    · rw [numbers]
      exact bounds

theorem unreserve_some {m : SpaceId} {j : Nat} {ref : NumberRef}
    (there : (unreserve w id numbers).holder m j = some ref) :
    w.holder m j = some ref ∧ (ref.identity = id → numbers[ref.index]? ≠ some (m, j)) := by
  by_cases lost : ∃ i, numbers[i]? = some (m, j) ∧ w.holder m j = some ⟨id, i⟩
  · obtain ⟨i, mem, held⟩ := lost
    rw [unreserve_lost id mem held] at there
    cases there
  · have kept := unreserve_kept id fun i mem held => lost ⟨i, mem, held⟩
    rw [kept] at there
    refine ⟨there, fun same mem => lost ⟨ref.index, mem, ?_⟩⟩
    rw [there, ← same]

theorem Consistent.drop (good : Consistent w) (found : w.identity id = some p) (left : Option PidIdentity)
    (reaped : ∀ p', left = some p' → p'.reaped = true ∧ p'.numbers = p.numbers ∧ p'.space = p.space)
    (who : w'.identity = update w.identity id left) (identities : w'.identities = w.identities)
    (cursors : Cursors w') (holder : w'.holder = (unreserve w id p.numbers).holder) : Consistent w' := by
  refine good.replace cursors who (identities ▸ good.identity_lt found) identities.ge (fun n k ref other => ?_)
    (fun n k i there => ?_) fun q is => ?_
  · rw [holder]
    refine ⟨fun there => (unreserve_some there).1, fun old => ?_⟩
    rw [unreserve_kept id fun j _ held => other ?_, old]
    exact congrArg NumberRef.identity (Option.mem_unique old held)
  · rw [holder] at there
    obtain ⟨old, notOwn⟩ := unreserve_some there
    obtain ⟨q, foundQ, -, mem⟩ := good.held n k _ old
    obtain rfl : p = q := Option.mem_unique found foundQ
    exact absurd mem (notOwn rfl)
  · obtain ⟨isReaped, numbers, space⟩ := reaped q is
    obtain ⟨-, chain, bounds⟩ := good.sound id p found
    refine ⟨fun alive => ?_, numbers ▸ space ▸ chain, numbers ▸ bounds⟩
    rw [isReaped] at alive
    cases alive

theorem Consistent.add {space : SpaceId} (good : Consistent w)
    (added : Added w.identities 0 w after numbers) (chain : numbers.map fst = levels space) :
    Consistent ({ after with identities := w.identities + 1 }.setIdentity w.identities
      (some { references := 1, space := space, numbers := numbers })) := by
  have given : ∀ {n k}, (n, k) ∈ numbers → w.holder n k = none ∧ (1 ≤ k ∧ k < pidMax) ∧
      ∃ i, numbers[i]? = some (n, k) ∧ after.holder n k = some ⟨w.identities, i⟩ := by
    intro n k mem
    obtain ⟨i, there⟩ := getElem?_of_mem mem
    obtain ⟨free, has, bounds⟩ := added.given i n k there
    rw [zero_add] at has
    exact ⟨free, bounds, i, there, has⟩
  refine good.replace (added.cursors good.cursors) (congrArg (update · _ _) added.identity) (lt_succ_self _)
    (le_succ _) (fun n k ref other => ?_) (fun n k i there => ?_) fun q is => ?_
  · show after.holder n k = some ref ↔ _
    by_cases taken : (n, k) ∈ numbers
    · obtain ⟨free, -, i, -, has⟩ := given taken
      rw [free, has]
      exact ⟨fun same => absurd (congrArg NumberRef.identity (Option.some.inj same)).symm other, nofun⟩
    · rw [added.others n k taken]
  · by_cases taken : (n, k) ∈ numbers
    · obtain ⟨-, -, j, mem, has⟩ := given taken
      obtain rfl : i = j := congrArg NumberRef.index (Option.mem_unique there has)
      exact ⟨_, rfl, rfl, mem⟩
    · obtain ⟨q, foundQ, -⟩ := good.held n k _ ((added.others n k taken).symm.trans there)
      exact absurd (good.identity_lt foundQ) (lt_irrefl _)
  · obtain rfl := Option.some.inj is
    refine ⟨fun _ i n k mem => ?_, chain, fun level mem => (given mem).2.1⟩
    have has := (added.given i n k mem).2.1
    rwa [zero_add] at has

section

/-- An identity stays what it is, but where it may give its numbers back. -/
def Aged (gives : Prop) (before after : Option PidIdentity) : Prop :=
  after = none ∧ (before = none ∨ gives) ∨ ∃ p p', before = some p ∧ after = some p' ∧ p'.numbers = p.numbers ∧
    (p.native ≠ 0 → p'.native = p.native) ∧ (p'.reaped = p.reaped ∨ gives)

theorem Aged.refl (gives : Prop) (p : Option PidIdentity) : Aged gives p p := by
  cases p with
  | none => exact .inl ⟨rfl, .inl rfl⟩
  | some p => exact .inr ⟨p, p, rfl, rfl, rfl, fun _ => rfl, .inl rfl⟩

/-- What a call can do to the identities and the namespaces there are. -/
structure Onward (gives : IdentityId → Prop) (ends : SpaceId → Prop) (w w' : World) : Prop where
  later : Later ends w w'
  count : w.identities ≤ w'.identities
  aged : ∀ id < w.identities, Aged (gives id) (w.identity id) (w'.identity id)

variable {gives : IdentityId → Prop} {ends : SpaceId → Prop}

theorem Onward.refl (w : World) : Onward gives ends w w := ⟨Later.of_space rfl, le_rfl, fun _ _ => Aged.refl _ _⟩

theorem Onward.frame {w'' : World} (onward : Onward gives ends w w') (frame : Frame w' w'') :
    Onward gives ends w w'' := by
  refine ⟨onward.later.trans (frame.later.mono fun _ never => never.elim), onward.count.trans frame.identities.ge, ?_⟩
  rw [frame.identity]
  exact onward.aged

theorem Frame.onward (frame : Frame w w') : Onward gives ends w w' := (Onward.refl w).frame frame

theorem Onward.setIdentity (onward : Onward gives ends w w') {p : Option PidIdentity}
    (aged : Aged (gives id) (w.identity id) p) : Onward gives ends w (w'.setIdentity id p) := by
  refine ⟨onward.later, onward.count, fun other known => ?_⟩
  by_cases same : other = id
  · subst same
    simpa [setIdentity] using aged
  · simpa [World.setIdentity, same] using onward.aged other known

theorem Onward.touch (onward : Onward gives ends w w') (found : w.identity id = some p)
    (hit : Touched p p') : Onward gives ends w (w'.setIdentity id (some p')) :=
  onward.setIdentity (.inr ⟨p, p', found, rfl, hit.numbers, hit.native, .inl hit.reaped⟩)

/-- The calls after which an identity may have given its numbers back. -/
def Op.frees (w : World) (op : Op) (id : IdentityId) : Prop :=
  op = .reap id ∨ op = .release id ∧ ∃ p, w.identity id = some p ∧ p.references = 1

/-- The calls that end a namespace. -/
def Op.closes (w : World) (op : Op) (n : SpaceId) : Prop :=
  ∃ id p s, op = .exit id ∧ w.identity id = some p ∧ p.live = true ∧ p.space = n ∧ w.space n = some s ∧
    lastOfInit (w.setIdentity id (some { p with live := false })) s p.group = true

end

section

variable {gives : IdentityId → Prop} {ends : SpaceId → Prop}

theorem Consistent.stays (good : Consistent w) : Consistent w ∧ Onward gives ends w w := ⟨good, .refl w⟩

theorem unreserve_added (added : Added id 0 w after numbers) : (unreserve after id numbers).holder = w.holder := by
  funext m j
  by_cases given : (m, j) ∈ numbers
  · obtain ⟨i, mem⟩ := getElem?_of_mem given
    obtain ⟨free, held, -⟩ := added.given i m j mem
    rw [free]
    exact unreserve_lost id mem (by simpa using held)
  · rw [unreserve_kept id fun i mem _ => given (mem_of_getElem? mem), added.others m j given]

variable (gives ends) in
theorem prepareSelected_spec (good : Consistent w) (space : SpaceId) (actor : Option Identity) (chosen : List Int)
    (alloc : Bool) :
    Consistent (prepareSelected w space actor chosen alloc).1 ∧
    Onward gives ends w (prepareSelected w space actor chosen alloc).1 ∧
    ∀ error, (prepareSelected w space actor chosen alloc).2 = .error error →
      (prepareSelected w space actor chosen alloc).1.holder = w.holder := by
  obtain ⟨more, whole, added, -, finished⟩ := reserveLevels_spec actor w.identities space chosen w [] good.cursors
  unfold prepareSelected
  split
  · exact ⟨good, .refl w, fun _ _ => rfl⟩
  split
  · exact ⟨good, .refl w, fun _ _ => rfl⟩
  split
  · exact ⟨good, .refl w, fun _ _ => rfl⟩
  dsimp only
  rw [whole]
  split
  · have frame :=
      added.toFrame.trans (unreserve_frame w.identities (reserveLevels actor w.identities space chosen w []).1 more)
    have restored := unreserve_added added
    exact ⟨good.of_frame frame restored, frame.onward, fun _ _ => restored⟩
  next succeeded =>
    refine ⟨good.add added (finished succeeded),
      ⟨added.later.mono fun _ never => never.elim, le_succ _, fun id known => ?_⟩, fun error bad => ?_⟩
    · simpa [setIdentity, known.ne, added.identity] using Aged.refl (gives id) (w.identity id)
    · cases bad

theorem namespaceNew_spec (good : Consistent w) (parent : SpaceId) (owner : UserNamespace) (serial : Nat)
    (alloc : Bool) :
    Consistent (namespaceNew w parent owner serial alloc).1 ∧
    Onward gives ends w (namespaceNew w parent owner serial alloc).1 := by
  unfold namespaceNew
  split
  · exact good.stays
  split
  · exact good.stays
  split
  · exact good.stays
  split
  · exact good.stays
  rename_i isNew
  have gone : w.space (serial :: parent) = none := by simpa using (not_or.mp isNew).2
  have frame : Frame w (w.setSpace (serial :: parent) { owner := owner }) := by
    refine ⟨rfl, rfl, fun cursors => cursors.setSpace ⟨by simp, by simp [pidMax]⟩, fun n s found => ?_⟩
    have ne : n ≠ serial :: parent := by
      rintro rfl
      rw [gone] at found
      cases found
    exact ⟨s, by simpa [setSpace, ne] using found, Closing.refl s, .inl⟩
  refine ⟨good.of_frame frame ?_, frame.onward⟩
  funext m k
  rw [holder_setSpace]
  split
  next same => simp [same, holder, gone]
  · rfl

theorem markInitialized_frame (w : World) (level : SpaceId × Nat) :
    Frame w (markInitialized w level) ∧ (markInitialized w level).holder = w.holder := by
  unfold markInitialized
  split
  · exact ⟨.refl w, rfl⟩
  next s found =>
    split
    · exact ⟨.setSpace found (fun cursor => cursor) (Closing.refl s) rfl, holder_setSpace_same found rfl⟩
    · exact ⟨.refl w, rfl⟩

theorem foldl_markInitialized (numbers : List (SpaceId × Nat)) (w : World) :
    Frame w (numbers.foldl markInitialized w) ∧ (numbers.foldl markInitialized w).holder = w.holder := by
  refine ⟨.foldl (fun w level => (markInitialized_frame w level).1) numbers w, ?_⟩
  induction numbers generalizing w with
  | nil => rfl
  | cons level rest ih => exact (ih (markInitialized w level)).trans (markInitialized_frame w level).2

section

variable (good : Consistent w)

include good

theorem publish_spec (id : IdentityId) (native group : Int) :
    Consistent (publish w id native group) ∧ Onward gives ends w (publish w id native group) := by
  unfold publish
  split
  · exact good.stays
  next p found =>
    split
    · exact good.stays
    · obtain ⟨frame, holder⟩ := foldl_markInitialized p.numbers w
      have same : (p.numbers.foldl markInitialized w).identity id = some p := by rw [frame.identity, found]
      have hit : Touched p { p with native := native.toNat, group := group.toNat, live := true } :=
        ⟨rfl, rfl, rfl, fun set => absurd set (by omega)⟩
      exact ⟨(good.of_frame frame holder).setIdentity same hit, frame.onward.touch found hit⟩

theorem Consistent.touch (found : w.identity id = some p)
    (hit : Touched p p') : Consistent (w.setIdentity id (some p')) ∧ Onward gives ends w (w.setIdentity id (some p')) :=
  ⟨good.setIdentity found hit, (Onward.refl w).touch found hit⟩

theorem retain_spec (id : IdentityId) : Consistent (retain w id) ∧ Onward gives ends w (retain w id) := by
  unfold retain
  split
  · exact good.stays
  next p found => exact good.touch found ⟨rfl, rfl, rfl, fun _ => rfl⟩

theorem release_spec (id : IdentityId) :
    Consistent (release w id) ∧ Onward ((Op.release id).frees w) ends w (release w id) := by
  unfold release
  split
  · exact good.stays
  next p found =>
    split
    · exact good.touch found ⟨rfl, rfl, rfl, fun _ => rfl⟩
    next last =>
      have frame := unreserve_frame id w p.numbers
      refine ⟨good.drop found none (fun _ gone => by cases gone) ?_ frame.identities (frame.cursors good.cursors) rfl,
        frame.onward.setIdentity (.inl ⟨rfl, .inr (.inr ⟨rfl, p, found, not_not.mp last⟩)⟩)⟩
      show update (unreserve w id p.numbers).identity id none = _
      rw [frame.identity]

theorem exit_spec (id : IdentityId) : Consistent (exit w id) ∧ Onward gives ((Op.exit id).closes w) w (exit w id) := by
  unfold exit
  split
  · exact good.stays
  next p found =>
    split
    · exact good.stays
    next live =>
      have gone : _ ∧ Onward gives ((Op.exit id).closes w) w (w.setIdentity id (some { p with live := false })) :=
        good.touch found ⟨rfl, rfl, rfl, fun _ => rfl⟩
      dsimp only
      split
      · exact gone
      next s there =>
        split
        next last =>
          have ending : Later ((Op.exit id).closes w) w (setSpace _ p.space { s with dead := true }) :=
            gone.2.later.trans (.setSpace there (fun _ => ⟨rfl, fun _ _ same => same⟩)
              fun _ => .inr ⟨id, p, s, rfl, found, by simpa using live, rfl, there, last⟩)
          have cursors := gone.1.cursors.setSpace (n := p.space) (s := { s with dead := true }) (good.cursors _ s there)
          exact ⟨gone.1.of_holder cursors rfl rfl (holder_setSpace_same there rfl), ending, gone.2.count, gone.2.aged⟩
        · exact gone

theorem reap_spec (id : IdentityId) : Consistent (reap w id) ∧ Onward ((Op.reap id).frees w) ends w (reap w id) := by
  unfold reap
  split
  · exact good.stays
  next p found =>
    split
    · exact good.stays
    · have frame := unreserve_frame id (w.setIdentity id (some { p with reaped := true })) p.numbers
      refine ⟨good.drop found (some { p with reaped := true }) ?_ frame.identity frame.identities
        (frame.cursors good.cursors) ?_,
        ((Onward.refl w).setIdentity ?_).frame frame⟩
      · rintro p' same
        obtain rfl := Option.some.inj same
        exact ⟨rfl, rfl, rfl⟩
      · funext m j
        rw [unreserve, unreserve, foldl_unlink_holder, foldl_unlink_holder]
        rfl
      · exact .inr ⟨p, _, found, rfl, rfl, fun _ => rfl, .inr (.inl rfl)⟩

theorem step_spec (op : Op) : Consistent (step w op) ∧ Onward (op.frees w) (op.closes w) w (step w op) := by
  cases op with
  | namespaceNew parent owner serial alloc => exact namespaceNew_spec good parent owner serial alloc
  | prepareSelected space actor chosen alloc =>
    obtain ⟨kept, onward, -⟩ := prepareSelected_spec _ _ good space actor chosen alloc
    exact ⟨kept, onward⟩
  | publish id native group => exact publish_spec good id native group
  | retain id => exact retain_spec good id
  | release id => exact release_spec good id
  | exit id => exact exit_spec good id
  | reap id => exact reap_spec good id

theorem run_spec (ops : List Op) : Consistent (run w ops) ∧ Later (fun _ => True) w (run w ops) := by
  induction ops generalizing w with
  | nil => exact ⟨good, .of_space rfl⟩
  | cons op rest ih =>
    obtain ⟨kept, onward⟩ := step_spec good op
    obtain ⟨kept', later⟩ := ih kept
    exact ⟨kept', (onward.later.mono fun _ _ => trivial).trans later⟩

end

theorem history_consistent (ops : List Op) : Consistent (history ops) := (run_spec Consistent.empty ops).1

end

/-- An identity that was prepared, and neither reaped nor released since. -/
def Reserved (w : World) (id : IdentityId) (p : PidIdentity) : Prop := w.identity id = some p ∧ p.reaped = false

/-- A number of a namespace is an identity's. -/
def Holds (w : World) (id : IdentityId) (n : SpaceId) (number : Nat) : Prop :=
  (w.holder n number).map NumberRef.identity = some id

theorem Consistent.mem_numbers (good : Consistent w) (reserved : Reserved w id p) (n : SpaceId) (k : Nat) :
    (n, k) ∈ p.numbers ↔ Holds w id n k := by
  constructor
  · intro mem
    obtain ⟨i, place⟩ := getElem?_of_mem mem
    simp [Holds, (good.sound id p reserved.1).holds reserved.2 i n k place]
  · intro has
    obtain ⟨ref, held, rfl⟩ := Option.map_eq_some_iff.mp has
    obtain ⟨q, found, -, mem⟩ := good.held n k ref held
    obtain rfl : p = q := Option.mem_unique reserved.1 found
    exact mem_of_getElem? mem

theorem Consistent.one_number (good : Consistent w) (reserved : Reserved w id p) {n : SpaceId}
    (level : n ∈ levels p.space) : ∃! k, Holds w id n k := by
  have sound := good.sound id p reserved.1
  rw [← sound.chain] at level
  obtain ⟨⟨n, k⟩, mem, rfl⟩ := mem_map.mp level
  refine ⟨k, (good.mem_numbers reserved n k).mp mem, fun other has => ?_⟩
  have nodup : (p.numbers.map fst).Nodup := sound.chain ▸ levels_nodup p.space
  have memberOther := (good.mem_numbers reserved n other).mpr has
  exact congrArg snd (inj_on_of_nodup_map nodup memberOther mem rfl)

/-- Numbers of process identities, over every history of the namespaces. -/
theorem pidHistory_numbers (ops : List Op) :
    -- no number is given twice
    (∀ id id' p p' n k, Reserved (history ops) id p → Reserved (history ops) id' p' → (n, k) ∈ p.numbers →
      (n, k) ∈ p'.numbers → id = id') ∧
    -- a reserved identity has one number on each level, and nobody else has one
    (∀ id p, Reserved (history ops) id p → (∀ n k, (n, k) ∈ p.numbers ↔ Holds (history ops) id n k) ∧
      ∀ n ∈ levels p.space, (∃! k, Holds (history ops) id n k) ∧ ∀ k, Holds (history ops) id n k → 1 ≤ k ∧ k < pidMax) ∧
    (∀ id n k, Holds (history ops) id n k → ∃ p, Reserved (history ops) id p ∧ n ∈ levels p.space) ∧
    -- a failed preparation keeps no number
    (∀ space actor chosen alloc error,
      (prepareSelected (history ops) space actor chosen alloc).2 = .error error →
      ∀ n k, (prepareSelected (history ops) space actor chosen alloc).1.holder n k = (history ops).holder n k) ∧
    -- what a level gives away when no number is selected
    (∀ n s ref, (history ops).space n = some s → (s.dead = true → reserve s ref 0 = .error .ENOMEM) ∧
      (s.dead = false → s.fresh → ∃ s', reserve s ref 0 = .ok (1, s')) ∧ (s.dead = false → ¬ s.fresh →
        (reserve s ref 0 = .error .EAGAIN ↔ ∀ k, 2 ≤ k → k < pidMax → (s.numbers.find k).isSome) ∧
        (reserve s ref 0 ≠ .error .EAGAIN → ∃ k s', 2 ≤ k ∧ reserve s ref 0 = .ok (k, s')))) ∧
    -- a dead namespace gives no number away
    (∀ more n s, (history ops).space n = some s → s.dead = true →
      ∀ k id, Holds (run (history ops) more) id n k → Holds (history ops) id n k) := by
  have good := history_consistent ops
  refine ⟨fun id id' p p' n k reserved reserved' mem member' => ?_, fun id p reserved => ⟨?_, fun n level => ⟨?_, ?_⟩⟩,
    fun id n k has => ?_, fun space actor chosen alloc error bad n k => ?_, fun n s ref found => ?_,
    fun more n s found dead k id has => ?_⟩
  · have has := (good.mem_numbers reserved n k).mp mem
    have holds' := (good.mem_numbers reserved' n k).mp member'
    exact Option.mem_unique has holds'
  · exact good.mem_numbers reserved
  · exact good.one_number reserved level
  · intro k has
    exact (good.sound id p reserved.1).bounds _ ((good.mem_numbers reserved n k).mpr has)
  · obtain ⟨ref, held, rfl⟩ := Option.map_eq_some_iff.mp has
    obtain ⟨p, found, alive, mem⟩ := good.held n k ref held
    refine ⟨p, ⟨found, alive⟩, ?_⟩
    rw [← (good.sound _ p found).chain]
    exact mem_map_of_mem (f := fst) (mem_of_getElem? mem)
  · rw [(prepareSelected_spec (fun _ => False) (fun _ => False) good space actor chosen alloc).2.2 error bad]
  · exact reserve_unselected (good.cursors n s found) ref
  · obtain ⟨s', found', closing, -⟩ := (run_spec good more).2 n s found
    obtain ⟨ref, held, rfl⟩ := Option.map_eq_some_iff.mp has
    rw [holder_of_space found'] at held
    rw [Holds, holder_of_space found, (closing dead).2 k ref held]
    rfl

/-! A namespace can be full when its init ends. -/

theorem reserve_first {s : Space} (ref : NumberRef) (alive : s.dead = false)
    (free : s.numbers.find (firstNumber s 0) = none) :
    reserve s ref 0 = .ok (firstNumber s 0, { s with
      numbers := s.numbers.insert (firstNumber s 0) ref free
      next := advance 2 (pidMax - 1) (firstNumber s 0) }) := by
  have found := probeNumber_free free
  simp only [reserve, failIf, alive, Bool.false_eq_true, if_false, ne_eq, not_true_eq_false, false_and, bind,
    Except.bind]
  rw [dif_pos (by rw [found]; exact free)]
  simp only [found]
  rfl

/-- A namespace whose first numbers are taken, by identities that are not published. -/
structure Filled (count : Nat) (w : World) : Prop where
  space : ∃ s, w.space [0] = some s ∧ s.dead = false ∧ s.initialized = false ∧
    s.next = (if count = 0 then 1 else advance 2 (pidMax - 1) count) ∧ ∀ k, (s.numbers.find k).isSome ↔
      1 ≤ k ∧ k ≤ count
  quiet : ∀ id p, w.identity id = some p → p.space = [0] ∧ p.live = false ∧ p.native = 0

variable (count : Nat)

def fill : List Op := .namespaceNew [] [] 0 true :: List.replicate count (.prepareSelected [0] none [] true)

theorem fill_succ : history (fill (count + 1)) = step (history (fill count)) (.prepareSelected [0] none [] true) := by
  simp only [history, run, fill, replicate_succ', ← cons_append, foldl_append, foldl_cons, foldl_nil]

theorem Filled.next {count : Nat} (filled : Filled count w) (room : count + 1 < pidMax) :
    Filled (count + 1) (step w (.prepareSelected [0] none [] true)) := by
  obtain ⟨⟨s, found, alive, uninitialized, next, taken⟩, quiet⟩ := filled
  have none : ∀ k, s.numbers.find k = none ↔ ¬ (1 ≤ k ∧ k ≤ count) := fun k => by
    rw [← taken, Bool.not_eq_true, Option.isSome_eq_false_iff, Option.isNone_iff_eq_none]
  have first : firstNumber s 0 = count + 1 := by
    by_cases zero : count = 0
    · subst zero
      exact firstNumber_fresh ⟨uninitialized, (none 1).mpr (by omega)⟩
    · have used : ¬ s.numbers.find 1 = Option.none := fun free => (none 1).mp free (by omega)
      have below : count ≠ pidMax - 1 := by omega
      rw [if_neg zero, advance, if_neg below] at next
      simp only [firstNumber, ne_eq, not_true_eq_false, if_false, Option.isNone_iff_eq_none, used, and_false, next]
      split <;> omega
  have free : s.numbers.find (firstNumber s 0) = Option.none := (none _).mpr (by omega)
  obtain ⟨s', reserved, alive', uninitialized', next', find'⟩ : ∃ s',
    reserve s ⟨w.identities, 0⟩ 0 = .ok (count + 1, s') ∧
      s'.dead = false ∧ s'.initialized = false ∧ s'.next = advance 2 (pidMax - 1) (count + 1) ∧
      ∀ k, s'.numbers.find k = if k = count + 1 then some ⟨w.identities, 0⟩ else s.numbers.find k := by
    rw [← first]
    exact ⟨_, reserve_first ⟨w.identities, 0⟩ alive free, alive, uninitialized, rfl, Buckets.find_insert _ free⟩
  simp only [step, prepareSelected, reserveLevels, reserveLevel, found, requestedNumber, head?_nil,
    length_nil, reserved, bind, Except.bind, pure, Except.pure]
  refine ⟨⟨s', by simp [setSpace, setIdentity], alive', uninitialized', by simp [next'], fun k => ?_⟩,
    fun id p there => ?_⟩
  · rw [find']
    by_cases last : k = count + 1
    · simp [last]
    · rw [if_neg last, taken]
      omega
  · by_cases same : id = w.identities
    · subst same
      obtain rfl : _ = p := by simpa [setIdentity] using there
      exact ⟨rfl, rfl, rfl⟩
    · exact quiet id p (by simpa [setIdentity, setSpace, same] using there)

theorem fill_filled (room : count < pidMax) : Filled count (history (fill count)) := by
  induction count with
  | zero =>
    refine ⟨⟨{ owner := [] }, by rfl, rfl, rfl, rfl, fun k => ?_⟩, fun id p there => by cases there⟩
    simp only [Buckets.find_empty, Option.isSome_none, Bool.false_eq_true, false_iff]
    omega
  | succ count ih =>
    rw [fill_succ]
    exact (ih (by omega)).next room

/-- The init of a namespace with some numbers taken is published and exits: the namespace is dead
and the numbers are still taken. -/
theorem Filled.ends {count : Nat} {old : List Op} (filled : Filled count (history old)) (pos : 0 < count) :
    ∃ ops s, (history ops).space [0] = some s ∧ s.dead = true ∧ ∀ k, (s.numbers.find k).isSome ↔ 1 ≤ k ∧ k ≤ count := by
  obtain ⟨⟨s, found, -, -, -, taken⟩, quiet⟩ := filled
  have good := history_consistent old
  obtain ⟨init, first⟩ := Option.isSome_iff_exists.mp ((taken 1).mpr (by omega))
  obtain ⟨p, isInit, -, -⟩ := good.held [0] 1 init (by rw [holder_of_space found, first])
  obtain ⟨mem, -, unpublished⟩ := quiet _ p isInit
  -- the init is published
  obtain ⟨frame, holder⟩ := foldl_markInitialized p.numbers (history old)
  obtain ⟨s', found', -⟩ := frame.later [0] s found
  have find' : ∀ k, s'.numbers.find k = s.numbers.find k :=
    fun k => by rw [← holder_of_space found', holder, holder_of_space found]
  have published : publish (history old) init.identity 1 1 =
      (p.numbers.foldl markInitialized (history old)).setIdentity init.identity
        (some { p with native := 1, group := 1, live := true }) := by
    simp [publish, isInit, unpublished]
  -- it is the only thread that was ever published, and it exits
  have last : lastOfInit ((publish (history old) init.identity 1 1).setIdentity init.identity
      (some { p with native := 1, group := 1, live := false })) s' 1 = true := by
    simp only [lastOfInit, find', first, Option.any_some, Bool.and_eq_true, all_eq_true]
    refine ⟨by simp [groupOf, setIdentity], fun entry _ => ?_⟩
    have still : isLive ((publish (history old) init.identity 1 1).setIdentity init.identity
        (some { p with native := 1, group := 1, live := false })) entry.2.identity = false := by
      by_cases same : entry.2.identity = init.identity
      · simp [isLive, setIdentity, same]
      · simp only [isLive, published, setIdentity, update_of_ne same, frame.identity]
        cases there : (history old).identity entry.2.identity with
        | none => rfl
        | some q => simp [(quiet _ q there).2.1]
    simp [still]
  refine ⟨old ++ [.publish init.identity 1 1, .exit init.identity], { s' with dead := true }, ?_, rfl, fun k => ?_⟩
  · have ended : history (old ++ [.publish init.identity 1 1, .exit init.identity]) =
        exit (publish (history old) init.identity 1 1) init.identity := by
      simp only [history, run, foldl_append, foldl_cons, foldl_nil, step]
    have there : (publish (history old) init.identity 1 1).identity init.identity =
        some { p with native := 1, group := 1, live := true } := by
      simp [published, setIdentity]
    have space : (publish (history old) init.identity 1 1).space [0] = some s' := by
      rw [published]
      exact found'
    rw [ended, exit, there]
    simp only [mem, Bool.not_true, Bool.false_eq_true, if_false, setIdentity_space, space]
    rw [mem] at last
    rw [if_pos last]
    simp [setSpace]
  · rw [find' k, taken]

/-- A namespace that is dead and full refuses a number because it is dead. -/
theorem fullSpace_dead : ∃ ops n s, (history ops).space n = some s ∧ ¬ s.fresh ∧
    (∀ k, 2 ≤ k → k < pidMax → (s.numbers.find k).isSome) ∧ reserve s ⟨0, 0⟩ 0 ≠ .error .EAGAIN := by
  have size : pidMax = 4194304 := rfl
  obtain ⟨ops, s, found, dead, taken⟩ := (fill_filled (pidMax - 1) (by omega)).ends (by omega)
  refine ⟨ops, [0], s, found, ?_, fun k lower upper => (taken k).mpr (by omega), ?_⟩
  · rintro ⟨-, free⟩
    have first := (taken 1).mpr (by omega)
    rw [free] at first
    cases first
  · simp [reserve, failIf, dead, bind, Except.bind]

end Shroot.PidNamespace
