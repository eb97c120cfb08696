import Shroot.General.Buckets
import Shroot.Identity.Model

namespace Shroot.PidNamespace

open General

section

/-- A namespace pointer: its own serial number and then those of its ancestors. The empty list is
`NULL`, the native namespace of the executor. -/
abbrev SpaceId := List Nat

/-- The namespace and its ancestors, without the native one. -/
def levels : SpaceId → List SpaceId
  | [] => []
  | serial :: parent => (serial :: parent) :: levels parent

abbrev IdentityId := Nat

/-- A `struct pid_number`, by the identity it belongs to and its index there. -/
structure NumberRef where
  identity : IdentityId
  index : Nat
  deriving DecidableEq

def pidBuckets : Nat := 127

def pidMax : Nat := 4194304

def pidLevels : Nat := 32

def capCheckpointRestore : Nat := 40

def numberBucket (number : Nat) : Fin pidBuckets := ⟨number % pidBuckets, Nat.mod_lt _ (by decide)⟩

/-- The changing part of a `struct md_pid_namespace`. -/
structure Space where
  owner : UserNamespace
  next : Nat := 1
  dead : Bool := false
  initialized : Bool := false
  numbers : Buckets pidBuckets numberBucket NumberRef := Buckets.empty

/-- A `struct md_pid_identity`, with the namespace and the number of each level. -/
structure PidIdentity where
  references : UInt32
  space : SpaceId
  numbers : List (SpaceId × Nat)
  native : Nat := 0
  group : Nat := 0
  live : Bool := false
  reaped : Bool := false
  deriving DecidableEq

/-- The namespaces and the identities that are allocated, and how many identities there were. -/
structure World where
  space : SpaceId → Option Space
  identity : IdentityId → Option PidIdentity
  identities : Nat

def World.empty : World := { space := fun _ => none, identity := fun _ => none, identities := 0 }

variable (w : World)

def World.setSpace (n : SpaceId) (s : Space) : World := { w with space := Function.update w.space n (some s) }

variable (id : IdentityId)

def World.setIdentity (p : Option PidIdentity) : World := { w with identity := Function.update w.identity id p }

def World.holder (n : SpaceId) (number : Nat) : Option NumberRef := (w.space n).bind fun s => s.numbers.find number

variable (s : Space)

/-- The loop of `reserve` over the numbers from 2 on. -/
def probeNumber (start : Nat) : Nat :=
  probe 2 (pidMax - 1) (fun number => (s.numbers.find number).isSome) start pidMax start

def firstNumber (selected : Nat) : Nat :=
  if selected ≠ 0 then selected
  else if !s.initialized ∧ (s.numbers.find 1).isNone then 1
  else if s.next < 2 then 2
  else s.next

/-- `reserve`, where 0 selects no number. -/
def reserve (ref : NumberRef) (selected : Nat) : Except Errno (Nat × Space) := do
  failIf s.dead .ENOMEM
  failIf (selected ≠ 0 ∧ selected ≠ 1 ∧ !s.initialized) .EINVAL
  failIf (selected ≠ 0 ∧ (s.numbers.find selected).isSome) .EEXIST
  let next := probeNumber s (firstNumber s selected)
  if free : s.numbers.find next = none then
    return (next, { s with
      numbers := s.numbers.insert next ref free
      next := if selected = 0 then advance 2 (pidMax - 1) next else s.next })
  else
    .error .EAGAIN

/-- The number a level may select: 0 for a level that selects none. -/
def requestedNumber (actor : Option Identity) (owner : UserNamespace) : Option Int → Except Errno Nat
  | none => return 0
  | some requested => do
    failIf (requested < 1 ∨ requested ≥ pidMax) .EINVAL
    failIf (!actor.any (identityCapableIn · owner capCheckpointRestore) ∧
      !actor.any (identityCapableIn · owner capSysAdmin)) .EPERM
    return requested.toNat

/-- One pass of the loop of `md_pid_identity_prepare_selected`. -/
def reserveLevel (actor : Option Identity) (ref : NumberRef) (n : SpaceId) (requested : Option Int) :
    Except Errno (Nat × World) := do
  match w.space n with
  | none => .error .EINVAL
  | some s =>
    let selected ← requestedNumber actor s.owner requested
    let (number, s) ← reserve s ref selected
    return (number, w.setSpace n s)

/-- The loop of `md_pid_identity_prepare_selected` from a level outwards: the numbers it has, and
the error it ends with. -/
def reserveLevels (actor : Option Identity) (id : IdentityId) :
    SpaceId → List Int → World → List (SpaceId × Nat) → World × List (SpaceId × Nat) × Option Errno
  | [], _, w, numbers => (w, numbers, none)
  | serial :: parent, selected, w, numbers =>
    match reserveLevel w actor ⟨id, numbers.length⟩ (serial :: parent) selected.head? with
    | .error error => (w, numbers, some error)
    | .ok (number, w) => reserveLevels actor id parent selected.tail w (numbers ++ [(serial :: parent, number)])

/-- Take a number out of its namespace, if it is still the identity's. -/
def unlink (w : World) (level : (SpaceId × Nat) × Nat) : World :=
  match w.space level.1.1 with
  | none => w
  | some s =>
    if s.numbers.find level.1.2 = some ⟨id, level.2⟩ then
      w.setSpace level.1.1 { s with numbers := s.numbers.erase level.1.2 }
    else w

def unreserve (numbers : List (SpaceId × Nat)) : World := numbers.zipIdx.foldl (unlink id) w

/-- `md_pid_identity_prepare_selected`. A list stands for an array and its count, and an actor is
needed with one. The native namespace needs no identity. -/
def prepareSelected (space : SpaceId) (actor : Option Identity) (selected : List Int) (allocated : Bool) :
    World × Except Errno (Option IdentityId) :=
  if selected.length > space.length ∨ (selected ≠ [] ∧ actor.isNone) then (w, .error .EINVAL)
  else if space = [] then (w, .ok none)
  else if !allocated then (w, .error .ENOMEM)
  else
    let id := w.identities
    let (after, numbers, error) := reserveLevels actor id space selected w []
    match error with
    | some error => (unreserve after id numbers, .error error)
    | none =>
      ({ after with identities := id + 1 }.setIdentity id
        (some { references := 1, space := space, numbers := numbers }),
        .ok (some id))

/-- `md_pid_namespace_new` under a serial number that is not in use. -/
def namespaceNew (parent : SpaceId) (owner : UserNamespace) (serial : Nat) (allocated : Bool) :
    World × Except Errno SpaceId :=
  if parent.length ≥ pidLevels then (w, .error .ENOSPC)
  else if (w.space parent).any fun p => !userNamespaceContains p.owner owner then (w, .error .EINVAL)
  else if !allocated then (w, .error .ENOMEM)
  else if parent ≠ [] ∧ (w.space parent).isNone ∨ (w.space (serial :: parent)).isSome then (w, .error .EINVAL)
  else (w.setSpace (serial :: parent) { owner := owner }, .ok (serial :: parent))

/-- A namespace whose init is published has been initialised. -/
def markInitialized (level : SpaceId × Nat) : World :=
  match w.space level.1 with
  | none => w
  | some s => if level.2 = 1 then w.setSpace level.1 { s with initialized := true } else w

def publish (native group : Int) : World :=
  match w.identity id with
  | none => w
  | some p =>
    if native ≤ 0 ∨ group ≤ 0 ∨ p.native ≠ 0 then w
    else (p.numbers.foldl markInitialized w).setIdentity id
      (some { p with native := native.toNat, group := group.toNat, live := true })

def retain : World :=
  match w.identity id with
  | none => w
  | some p => w.setIdentity id (some { p with references := p.references + 1 })

def release : World :=
  match w.identity id with
  | none => w
  | some p =>
    if p.references ≠ 1 then w.setIdentity id (some { p with references := p.references - 1 })
    else (unreserve w id p.numbers).setIdentity id none

def groupOf : Nat := ((w.identity id).map PidIdentity.group).getD 0

def isLive : Bool := ((w.identity id).map PidIdentity.live).getD false

/-- Whether the exit of a thread of a group is the end of the namespace's init. -/
def lastOfInit (group : Nat) : Bool :=
  (s.numbers.find 1).any (fun init => groupOf w init.identity == group) &&
    s.numbers.entries.all fun entry => !(isLive w entry.2.identity && groupOf w entry.2.identity == group)

def exit : World :=
  match w.identity id with
  | none => w
  | some p =>
    if !p.live then w
    else
      let w := w.setIdentity id (some { p with live := false })
      match w.space p.space with
      | none => w
      | some s => if lastOfInit w s p.group then w.setSpace p.space { s with dead := true } else w

def reap : World :=
  match w.identity id with
  | none => w
  | some p =>
    if p.live then w
    else unreserve (w.setIdentity id (some { p with reaped := true })) id p.numbers

/-- The calls on namespaces and identities. A call on an identity that is not there does nothing. -/
inductive Op where
  | namespaceNew (parent : SpaceId) (owner : UserNamespace) (serial : Nat) (allocated : Bool)
  | prepareSelected (space : SpaceId) (actor : Option Identity) (selected : List Int) (allocated : Bool)
  | publish (id : IdentityId) (native group : Int)
  | retain (id : IdentityId)
  | release (id : IdentityId)
  | exit (id : IdentityId)
  | reap (id : IdentityId)

def step : Op → World
  | .namespaceNew parent owner serial allocated => (namespaceNew w parent owner serial allocated).1
  | .prepareSelected space actor selected allocated => (prepareSelected w space actor selected allocated).1
  | .publish id native group => publish w id native group
  | .retain id => retain w id
  | .release id => release w id
  | .exit id => exit w id
  | .reap id => reap w id

def run (ops : List Op) : World := ops.foldl step w

/-- The worlds of the calls, from no namespace at all. -/
def history (ops : List Op) : World := run World.empty ops

end

open Except Prod World

variable {s : Space} {start number : Nat} {n m : SpaceId} {chosen : Nat} {s' : Space} {w w' w'' : World}

/-- The cursor of a namespace is a number of it. -/
def Space.Cursor (s : Space) : Prop := 1 ≤ s.next ∧ s.next < pidMax

/-- What giving a number away does to a namespace. -/
structure Taken (s s' : Space) (number : Nat) (ref : NumberRef) : Prop where
  alive : s.dead = false
  free : s.numbers.find number = none
  lower : 1 ≤ number
  upper : number < pidMax
  find : ∀ other, s'.numbers.find other = if other = number then some ref else s.numbers.find other
  dead : s'.dead = s.dead
  cursor : s'.Cursor

section

variable {ref : NumberRef}

theorem probeNumber_free (free : s.numbers.find start = none) : probeNumber s start = start :=
  probe_free 2 (pidMax - 1) start (pidMax - 1) (by simp [free])

theorem probeNumber_spec (lower : 2 ≤ start) (upper : start < pidMax) :
    (2 ≤ probeNumber s start ∧ probeNumber s start < pidMax) ∧
      ((s.numbers.find (probeNumber s start)).isSome ↔ ∀ k, 2 ≤ k → k < pidMax → (s.numbers.find k).isSome) := by
  have spec := @probe_spec 2 (pidMax - 1) (fun number => (s.numbers.find number).isSome) start pidMax
    ⟨lower, by omega⟩ (by omega)
  refine ⟨⟨spec.1.1, by have := spec.1.2; unfold probeNumber; omega⟩, spec.2.trans ?_⟩
  constructor
  · exact fun all k lowerK upperK => all k lowerK (by omega)
  · exact fun all k lowerK upperK => all k lowerK (by omega)

/-- A namespace gives the number of its init away before any other. -/
def Space.fresh (s : Space) : Prop := s.initialized = false ∧ s.numbers.find 1 = none

theorem firstNumber_fresh (fresh : s.fresh) : firstNumber s 0 = 1 := by simp [firstNumber, fresh.1, fresh.2]

theorem firstNumber_next (cursor : s.Cursor) (used : ¬ s.fresh) : 2 ≤ firstNumber s 0 ∧ firstNumber s 0 < pidMax := by
  have notFirst : ¬ (s.initialized = false ∧ s.numbers.find 1 = none) := used
  have size : pidMax = 4194304 := rfl
  have upper := cursor.2
  simp only [firstNumber, ne_eq, not_true_eq_false, if_false, Bool.not_eq_true', Option.isNone_iff_eq_none,
    if_neg notFirst]
  split <;> omega

theorem probeNumber_bounds (cursor : s.Cursor) (bound : chosen < pidMax)
    (free : chosen = 0 ∨ s.numbers.find chosen = none) :
    1 ≤ probeNumber s (firstNumber s chosen) ∧ probeNumber s (firstNumber s chosen) < pidMax := by
  have size : pidMax = 4194304 := rfl
  by_cases none : chosen = 0
  · subst none
    by_cases fresh : s.fresh
    · rw [firstNumber_fresh fresh, probeNumber_free fresh.2]
      omega
    · obtain ⟨lower, upper⟩ := firstNumber_next cursor fresh
      have := (probeNumber_spec (s := s) lower upper).1
      omega
  · have first : firstNumber s chosen = chosen := by simp [firstNumber, none]
    rw [first, probeNumber_free (free.resolve_left none)]
    omega

theorem reserve_ok (cursor : s.Cursor) (bound : chosen < pidMax) (run : reserve s ref chosen = .ok (number, s')) :
    Taken s s' number ref := by
  simp only [reserve, failIf_bind_ok] at run
  obtain ⟨alive, -, unused, run⟩ := run
  obtain ⟨lower, upper⟩ := probeNumber_bounds cursor bound (by
    by_cases none : chosen = 0
    · exact .inl none
    · exact .inr (by simpa [none] using unused))
  split at run
  next free =>
    obtain ⟨rfl, rfl⟩ := mk.inj (pure_ok.mp run)
    refine ⟨by simpa using alive, free, lower, upper, fun other => Buckets.find_insert _ free other, rfl, ?_⟩
    simp only [Space.Cursor]
    by_cases none : chosen = 0
    · have size : pidMax = 4194304 := rfl
      rw [if_pos none, advance]
      split <;> omega
    · rw [if_neg none]
      exact cursor
  · cases run

theorem reserve_unselected (cursor : s.Cursor) (ref : NumberRef) : (s.dead = true → reserve s ref 0 = .error .ENOMEM) ∧
    (s.dead = false → s.fresh → ∃ s', reserve s ref 0 = .ok (1, s')) ∧ (s.dead = false → ¬ s.fresh →
      (reserve s ref 0 = .error .EAGAIN ↔ ∀ k, 2 ≤ k → k < pidMax → (s.numbers.find k).isSome) ∧
      (reserve s ref 0 ≠ .error .EAGAIN → ∃ k s', 2 ≤ k ∧ reserve s ref 0 = .ok (k, s'))) := by
  refine ⟨fun dead => by simp [reserve, failIf, dead, bind, Except.bind], fun alive fresh => ?_, fun alive used => ?_⟩
  · have first : probeNumber s (firstNumber s 0) = 1 := by rw [firstNumber_fresh fresh, probeNumber_free fresh.2]
    simp only [reserve, failIf, alive, Bool.false_eq_true, if_false, ne_eq, not_true_eq_false, false_and, bind, bind,
      first, dif_pos fresh.2]
    exact ⟨_, rfl⟩
  · obtain ⟨lower, upper⟩ := firstNumber_next cursor used
    obtain ⟨⟨least, -⟩, full⟩ := probeNumber_spec (s := s) lower upper
    rw [← full]
    simp only [reserve, failIf, alive, Bool.false_eq_true, if_false, ne_eq, not_true_eq_false, false_and, bind, bind]
    by_cases free : s.numbers.find (probeNumber s (firstNumber s 0)) = none
    · have notTaken : ¬ (s.numbers.find (probeNumber s (firstNumber s 0))).isSome := by simp [free]
      rw [dif_pos free]
      exact ⟨⟨fun bad => (by cases bad), fun taken => absurd taken notTaken⟩, fun _ => ⟨_, _, least, rfl⟩⟩
    · rw [dif_neg free]
      exact ⟨⟨fun _ => Option.isSome_iff_ne_none.mpr free, fun _ => rfl⟩, fun bad => absurd rfl bad⟩

end

open List Option

@[simp] theorem setIdentity_space (id : IdentityId) (p : Option PidIdentity) : (w.setIdentity id p).space = w.space :=
  rfl

theorem holder_of_space (found : w.space n = some s) (k : Nat) : w.holder n k = s.numbers.find k := by
  simp [holder, found]

theorem holder_setSpace (m : SpaceId) (k : Nat) :
    (w.setSpace n s).holder m k = if m = n then s.numbers.find k else w.holder m k := by
  by_cases same : m = n <;> simp [holder, setSpace, same]

/-- A namespace keeps being dead, and a dead one only loses numbers. -/
def Closing (s s' : Space) : Prop :=
  s.dead = true → s'.dead = true ∧ ∀ k ref, s'.numbers.find k = some ref → s.numbers.find k = some ref

theorem Closing.refl (s : Space) : Closing s s := fun dead => ⟨dead, fun _ _ found => found⟩

/-- No namespace goes away or comes to life again, and none dies but those that end. -/
def Later (ends : SpaceId → Prop) (w w' : World) : Prop :=
  ∀ n s, w.space n = some s → ∃ s', w'.space n = some s' ∧ Closing s s' ∧ (s'.dead = true → s.dead = true ∨ ends n)

section

variable {ends : SpaceId → Prop}

theorem Later.trans (first : Later ends w w') (two : Later ends w' w'') : Later ends w w'' := by
  intro n s found
  obtain ⟨s', found', closing, ending⟩ := first n s found
  obtain ⟨s'', found'', closing', ending'⟩ := two n s' found'
  refine ⟨s'', found'', fun dead => ⟨(closing' (closing dead).1).1, fun k ref there => ?_⟩, fun dead => ?_⟩
  · exact (closing dead).2 k ref ((closing' (closing dead).1).2 k ref there)
  · exact (ending' dead).elim ending .inr

theorem Later.of_space (same : w'.space = w.space) : Later ends w w' := by
  intro n s found
  exact ⟨s, by rw [same, found], Closing.refl s, .inl⟩

theorem Later.mono {more : SpaceId → Prop} (later : Later ends w w') (wider : ∀ n, ends n → more n) :
    Later more w w' := by
  intro n s found
  obtain ⟨s', found', closing, ending⟩ := later n s found
  exact ⟨s', found', closing, fun dead => (ending dead).imp_right (wider n)⟩

theorem Later.setSpace (found : w.space n = some s) (closing : Closing s s')
    (ending : s'.dead = true → s.dead = true ∨ ends n) : Later ends w (w.setSpace n s') := by
  intro m t there
  by_cases same : m = n
  · subst same
    obtain rfl : s = t := mem_unique found there
    exact ⟨s', by simp [setSpace], closing, ending⟩
  · exact ⟨t, by simpa [World.setSpace, same] using there, Closing.refl t, .inl⟩

end

def Cursors (w : World) : Prop := ∀ n s, w.space n = some s → s.Cursor

theorem Cursors.setSpace (cursors : Cursors w) (cursor : s.Cursor) : Cursors (w.setSpace n s) := by
  intro m t found
  by_cases same : m = n
  · subst same
    obtain rfl : s = t := by simpa [setSpace] using found
    exact cursor
  · exact cursors m t (by simpa [World.setSpace, same] using found)

/-- A change of namespaces alone, none of which dies. -/
structure Frame (w w' : World) : Prop where
  identity : w'.identity = w.identity
  identities : w'.identities = w.identities
  cursors : Cursors w → Cursors w'
  later : Later (fun _ => False) w w'

theorem Frame.refl (w : World) : Frame w w := ⟨rfl, rfl, id, Later.of_space rfl⟩

theorem Frame.trans (first : Frame w w') (two : Frame w' w'') : Frame w w'' :=
  ⟨two.identity.trans first.identity, two.identities.trans first.identities,
    fun cursors => two.cursors (first.cursors cursors),
    first.later.trans two.later⟩

theorem Frame.setSpace (found : w.space n = some s) (cursor : s.Cursor → s'.Cursor) (closing : Closing s s')
    (dead : s'.dead = s.dead) : Frame w (w.setSpace n s') :=
  ⟨rfl, rfl, fun cursors => cursors.setSpace (cursor (cursors n s found)),
    .setSpace found closing fun ended => .inl (dead ▸ ended)⟩

theorem Frame.foldl {α : Type} {f : World → α → World} (each : ∀ w x, Frame w (f w x)) (items : List α) (w : World) :
    Frame w (items.foldl f w) := by
  induction items generalizing w with
  | nil => exact .refl w
  | cons x rest ih => exact (each w x).trans (ih (f w x))

theorem holder_setSpace_same (found : w.space n = some s) (same : s'.numbers = s.numbers) :
    (w.setSpace n s').holder = w.holder := by
  funext m k
  rw [holder_setSpace]
  split
  next here => rw [here, holder_of_space found, same]
  · rfl

section

variable (id : IdentityId)
variable {j : Nat} {numbers : List (SpaceId × Nat)} (w : World)

theorem unlink_holder (level : (SpaceId × Nat) × Nat) (m : SpaceId) (j : Nat) :
    (unlink id w level).holder m j =
      if level.1 = (m, j) ∧ w.holder m j = some ⟨id, level.2⟩ then none else w.holder m j := by
  obtain ⟨⟨n, k⟩, i⟩ := level
  unfold unlink
  cases found : w.space n with
  | none =>
    by_cases same : (n, k) = (m, j)
    · obtain ⟨rfl, rfl⟩ := mk.inj same
      simp [holder, found]
    · simp [same]
  | some s =>
    dsimp only
    split
    next held =>
      rw [holder_setSpace]
      by_cases space : m = n
      · subst space
        rw [holder_of_space found, Buckets.find_erase]
        by_cases number : j = k
        · subst number
          simp [held]
        · simp [number, Ne.symm number]
      · simp [space, Ne.symm space]
    next other =>
      by_cases same : (n, k) = (m, j)
      · obtain ⟨rfl, rfl⟩ := mk.inj same
        rw [holder_of_space found]
        simp [other]
      · simp [same]

theorem unlink_frame (level : (SpaceId × Nat) × Nat) : Frame w (unlink id w level) := by
  unfold unlink
  split
  · exact .refl w
  next s found =>
    split
    · refine .setSpace found (fun cursor => cursor) (fun dead => ⟨dead, fun k ref there => ?_⟩) rfl
      rw [Buckets.find_erase] at there
      split at there
      · cases there
      · exact there
    · exact .refl w

theorem foldl_unlink_holder (found : List ((SpaceId × Nat) × Nat)) (w : World) (m : SpaceId) (j : Nat) :
    (found.foldl (unlink id) w).holder m j =
      if ∃ level ∈ found, level.1 = (m, j) ∧ w.holder m j = some ⟨id, level.2⟩ then none else w.holder m j := by
  induction found generalizing w with
  | nil => simp
  | cons level rest ih =>
    rw [foldl_cons, ih, unlink_holder]
    by_cases here : level.1 = (m, j) ∧ w.holder m j = some ⟨id, level.2⟩
    · have first : ∃ other ∈ level :: rest, other.1 = (m, j) ∧ w.holder m j = some ⟨id, other.2⟩ :=
        ⟨level, mem_cons_self, here⟩
      rw [if_pos here, if_pos first]
      simp
    · rw [if_neg here]
      simp only [mem_cons, exists_eq_or_imp, here, false_or]

theorem unreserve_lost {w : World} {i : Nat}
    (mem : numbers[i]? = some (m, j)) (held : w.holder m j = some ⟨id, i⟩) :
    (unreserve w id numbers).holder m j = none := by
  rw [unreserve, foldl_unlink_holder, if_pos]
  exact ⟨((m, j), i), mem_zipIdx_iff_getElem?.mpr mem, rfl, held⟩

theorem unreserve_kept {w : World} (other : ∀ i, numbers[i]? = some (m, j) → w.holder m j ≠ some ⟨id, i⟩) :
    (unreserve w id numbers).holder m j = w.holder m j := by
  rw [unreserve, foldl_unlink_holder, if_neg]
  rintro ⟨⟨level, i⟩, mem, rfl, held⟩
  exact other i (mem_zipIdx_iff_getElem?.mp mem) held

theorem unreserve_frame (numbers : List (SpaceId × Nat)) : Frame w (unreserve w id numbers) :=
  .foldl (unlink_frame id) _ w

end

variable {actor : Option Identity} {after : World} {want : Option Int}

theorem levels_length (mem : m ∈ levels n) : m.length ≤ n.length := by
  induction n with
  | nil => simp [levels] at mem
  | cons serial parent ih =>
    rcases mem_cons.mp mem with rfl | above
    · exact le_refl _
    · exact (ih above).trans (Nat.le_succ _)

theorem not_mem_levels (serial : Nat) (parent : SpaceId) : serial :: parent ∉ levels parent := by
  intro mem
  have := levels_length mem
  simp at this

theorem levels_nodup (n : SpaceId) : (levels n).Nodup := by
  induction n with
  | nil => exact nodup_nil
  | cons serial parent ih => exact nodup_cons.mpr ⟨not_mem_levels serial parent, ih⟩

/-- What the reservations of an identity do to the numbers, from some level on. -/
structure Added (id : IdentityId) (start : Nat) (w after : World) (more : List (SpaceId × Nat)) :
    Prop extends Frame w after where
  given : ∀ i m j, more[i]? = some (m, j) → w.holder m j = none ∧ after.holder m j = some ⟨id, start + i⟩ ∧
    1 ≤ j ∧ j < pidMax
  others : ∀ m j, (m, j) ∉ more → after.holder m j = w.holder m j

theorem requestedNumber_bound {owner : UserNamespace} (valid : requestedNumber actor owner want = .ok chosen) :
    chosen < pidMax := by
  cases want with
  | none =>
    obtain rfl := pure_ok.mp valid
    decide
  | some val =>
    simp only [requestedNumber, failIf_bind_ok, pure_ok, not_or, not_lt, not_le] at valid
    omega

variable {id : IdentityId}

theorem reserveLevel_ok {idx : Nat} (cursors : Cursors w)
    (run : reserveLevel w actor ⟨id, idx⟩ n want = .ok (number, after)) : Added id idx w after [(n, number)] := by
  unfold reserveLevel at run
  split at run
  · cases run
  next s found =>
    obtain ⟨chosen, valid, run⟩ := bind_ok.mp run
    obtain ⟨⟨given, s'⟩, reserved, run⟩ := bind_ok.mp run
    obtain ⟨rfl, rfl⟩ := mk.inj (pure_ok.mp run)
    have taken := reserve_ok (cursors n s found) (requestedNumber_bound valid) reserved
    refine ⟨.setSpace found (fun _ => taken.cursor) ?_ taken.dead, ?_, ?_⟩
    · intro dead
      rw [taken.alive] at dead
      cases dead
    · rintro (_ | i) m j same
      · obtain ⟨rfl, rfl⟩ := mk.inj (some.inj same)
        rw [holder_of_space found, holder_setSpace, if_pos rfl, taken.find, if_pos rfl]
        exact ⟨taken.free, rfl, taken.lower, taken.upper⟩
      · simp at same
    · intro m j other
      rw [holder_setSpace]
      split
      next same =>
        subst same
        have ne : j ≠ given := fun eq => other (by simp [eq])
        rw [taken.find, if_neg ne, holder_of_space found]
      · rfl

theorem Added.cons {mid : World}
    {more : List (SpaceId × Nat)} (first : Added id start w mid [(n, number)])
    (rest : Added id (start + 1) mid after more) (apart : ∀ level ∈ more, level.1 ≠ n) :
    Added id start w after ((n, number) :: more) := by
  refine ⟨first.toFrame.trans rest.toFrame, ?_, ?_⟩
  · rintro (_ | i) m j same
    · obtain ⟨rfl, rfl⟩ := mk.inj (some.inj same)
      obtain ⟨free, held, bounds⟩ := first.given 0 n number rfl
      refine ⟨free, ?_, bounds⟩
      rw [rest.others n number fun mem => apart _ mem rfl, held]
    · have mem : more[i]? = some (m, j) := by simpa using same
      obtain ⟨free, held, bounds⟩ := rest.given i m j mem
      have ne : (m, j) ∉ [(n, number)] := by
        intro eq
        exact apart _ (mem_of_getElem? mem) (congrArg fst (mem_singleton.mp eq))
      refine ⟨(first.others m j ne).symm.trans free, ?_, bounds⟩
      rw [held]
      congr 2
      omega
  · intro m j out
    simp only [mem_cons, not_or] at out
    rw [rest.others m j out.2, first.others m j (by simpa using out.1)]

theorem reserveLevels_spec (actor : Option Identity) (id : IdentityId) (space : SpaceId) (chosen : List Int) (w : World)
    (numbers : List (SpaceId × Nat)) (cursors : Cursors w) :
    ∃ more, (reserveLevels actor id space chosen w numbers).2.1 = numbers ++ more ∧
      Added id numbers.length w (reserveLevels actor id space chosen w numbers).1 more ∧ more.map fst <+: levels space ∧
      ((reserveLevels actor id space chosen w numbers).2.2 = none → more.map fst = levels space) := by
  induction space generalizing chosen w numbers with
  | nil =>
    refine ⟨[], by simp [reserveLevels], ⟨.refl w, by simp, fun _ _ _ => rfl⟩, nil_prefix, ?_⟩
    exact fun _ => rfl
  | cons serial parent ih =>
    unfold reserveLevels
    cases run : reserveLevel w actor ⟨id, numbers.length⟩ (serial :: parent) chosen.head? with
    | error error =>
      refine ⟨[], by simp, ⟨.refl w, by simp, fun _ _ _ => rfl⟩, nil_prefix, ?_⟩
      intro none
      cases none
    | ok res =>
      obtain ⟨number, mid⟩ := res
      have first := reserveLevel_ok cursors run
      obtain ⟨more, whole, rest, ancestors, finished⟩ := ih chosen.tail mid (numbers ++ [(serial :: parent, number)])
        (first.cursors cursors)
      rw [length_append] at rest
      have apart : ∀ level ∈ more, level.1 ≠ serial :: parent := by
        intro level mem same
        exact not_mem_levels serial parent (same ▸ ancestors.subset (mem_map_of_mem mem))
      refine ⟨(serial :: parent, number) :: more, by simp [whole], first.cons rest apart, ?_, fun none => ?_⟩
      · simpa [levels] using ancestors
      · simpa [levels] using finished none

end Shroot.PidNamespace
