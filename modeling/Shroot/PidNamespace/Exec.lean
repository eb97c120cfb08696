import Shroot.PidNamespace.History

namespace Shroot.PidNamespace

open General List World Prod

variable {id : IdentityId} {n : SpaceId} {w : World} {p : PidIdentity} {gives : IdentityId → Prop}
  {ends : SpaceId → Prop} {k : Nat}

def uintMax : UInt32 := 4294967295

/-- `md_pid_identity_exec`. Where the assertion fails the program ends, so nothing comes of it. -/
def exec (w : World) (thread group : IdentityId) : World :=
  match w.identity thread, w.identity group with
  | some t, some g =>
    if thread = group ∨ t.space ≠ g.space ∨ t.group ≠ g.native then w
    else (w.setIdentity group (some { g with reaped := false, live := true })).setIdentity thread
      (some { t with live := false })
  | _, _ => w

/-- `md_pid_namespace_lookup` with its `try_retain`: the reference it takes is a `retain`. -/
def lookup (w : World) (n : SpaceId) (visible : Nat) : Option IdentityId :=
  if n = [] ∨ visible = 0 then none
  else (w.holder n visible).bind fun number => (w.identity number.identity).bind fun p =>
    if p.native ≠ 0 ∧ p.reaped = false ∧ p.references ≠ 0 ∧ p.references < uintMax then some number.identity else none

inductive Event where
  | op (op : Op)
  | exec (thread group : IdentityId)

def happen (w : World) : Event → World
  | .op op => step w op
  | .exec thread group => exec w thread group

/-- The leader whose identity an `exec` takes has not been reaped. -/
def Event.Timely (w : World) : Event → Prop
  | .op _ => True
  | .exec _ group => ∀ g, w.identity group = some g → g.reaped = false

/-- Events one after the other, every `exec` of them timely. -/
inductive Reach (w : World) : World → Prop
  | start : Reach w w
  | next {w' : World} (reach : Reach w w') (event : Event) (timely : event.Timely w') : Reach w (happen w' event)

section

variable {w' : World}

def Event.frees (w : World) (event : Event) (id : IdentityId) : Prop := ∃ op : Op, event = .op op ∧ op.frees w id

def Event.closes (w : World) (event : Event) (n : SpaceId) : Prop := ∃ op : Op, event = .op op ∧ op.closes w n

theorem Onward.mono {gives' : IdentityId → Prop} {ends' : SpaceId → Prop} (onward : Onward gives ends w w')
    (more : ∀ id, gives id → gives' id) (wider : ∀ n, ends n → ends' n) : Onward gives' ends' w w' := by
  refine ⟨onward.later.mono wider, onward.count, fun id known => ?_⟩
  obtain ⟨gone, old⟩ | ⟨p, p', old, new, nums, native, reaped⟩ := onward.aged id known
  · exact .inl ⟨gone, old.imp_right (more id)⟩
  · exact .inr ⟨p, p', old, new, nums, native, reaped.imp_right (more id)⟩

theorem exec_spec (good : Consistent w) {thread group : IdentityId}
    (timely : (Event.exec thread group).Timely w) :
    Consistent (exec w thread group) ∧ Onward gives ends w (exec w thread group) := by
  unfold exec
  split
  next t g isThread isGroup =>
    split
    · exact good.stays
    next other =>
      have apart : thread ≠ group := fun same => other (.inl same)
      have revived : Touched g { g with reaped := false, live := true } :=
        ⟨rfl, rfl, (timely g isGroup).symm, fun _ => rfl⟩
      have left : Touched t { t with live := false } := ⟨rfl, rfl, rfl, fun _ => rfl⟩
      have still : (w.setIdentity group (some { g with reaped := false, live := true })).identity thread = some t := by
        simpa [setIdentity, apart] using isThread
      exact ⟨(good.setIdentity isGroup revived).setIdentity still left,
        ((Onward.refl w).touch isGroup revived).touch isThread left⟩
  · exact good.stays

theorem happen_spec (good : Consistent w) (event : Event) (timely : event.Timely w) :
    Consistent (happen w event) ∧ Onward (event.frees w) (event.closes w) w (happen w event) := by
  cases event with
  | op op =>
    obtain ⟨kept, onward⟩ := step_spec good op
    exact ⟨kept, onward.mono (fun _ frees => ⟨op, rfl, frees⟩) fun _ closes => ⟨op, rfl, closes⟩⟩
  | exec thread group => exact exec_spec good timely

theorem Reach.consistent (reach : Reach w w') (good : Consistent w) : Consistent w' := by
  induction reach with
  | start => exact good
  | next _ event timely ih => exact (happen_spec ih event timely).1

theorem Reach.native (reach : Reach w w') (good : Consistent w) (known : id < w.identities)
    (published : ∀ p, w.identity id = some p → p.native ≠ 0) :
    id < w'.identities ∧ ∀ p, w'.identity id = some p → p.native ≠ 0 := by
  induction reach with
  | start => exact ⟨known, published⟩
  | next reach event timely ih =>
    obtain ⟨known, published⟩ := ih
    have onward := (happen_spec (reach.consistent good) event timely).2
    refine ⟨known.trans_le onward.count, fun p' there => ?_⟩
    obtain ⟨gone, -⟩ | ⟨p, q, old, new, -, native, -⟩ := onward.aged id known
    · rw [gone] at there
      cases there
    · obtain rfl : q = p' := Option.mem_unique new there
      rw [native (published p old)]
      exact published p old

end

theorem levels_ne_nil {m : SpaceId} (mem : m ∈ levels n) : m ≠ [] := by
  induction n with
  | nil => cases mem
  | cons serial parent ih =>
    rcases mem_cons.mp mem with rfl | above
    · exact cons_ne_nil _ _
    · exact ih above

theorem lookup_eq_some (found : w.identity id = some p) (n : SpaceId) (k : Nat) :
    lookup w n k = some id ↔ (n ≠ [] ∧ k ≠ 0) ∧ Holds w id n k ∧ p.native ≠ 0 ∧ p.reaped = false ∧ p.references ≠ 0 ∧
      p.references < uintMax := by
  unfold lookup Holds
  split
  next outside => exact ⟨nofun, fun both => absurd outside (not_or.mpr both.1)⟩
  next mem =>
    rw [← not_or, and_iff_right mem]
    cases w.holder n k with
    | none => simp
    | some num =>
      simp only [Option.bind_some, Option.map_some, Option.some.injEq]
      constructor
      · intro leads
        obtain ⟨q, isQ, leads⟩ := Option.bind_eq_some_iff.mp leads
        split at leads
        next visible =>
          obtain rfl := Option.some.inj leads
          obtain rfl : p = q := Option.mem_unique found isQ
          exact ⟨rfl, visible⟩
        · cases leads
      · rintro ⟨rfl, visible⟩
        rw [found, Option.bind_some, if_pos visible]

theorem Consistent.holds_iff (good : Consistent w) (found : w.identity id = some p)
    (mem : (n, k) ∈ p.numbers) : Holds w id n k ↔ p.reaped = false := by
  refine ⟨fun has => ?_, fun alive => (good.mem_numbers ⟨found, alive⟩ n k).mp mem⟩
  obtain ⟨num, held, rfl⟩ := Option.map_eq_some_iff.mp has
  obtain ⟨q, isQ, alive, -⟩ := good.held n k num held
  obtain rfl : p = q := Option.mem_unique found isQ
  exact alive

theorem Consistent.level (good : Consistent w) (found : w.identity id = some p) (mem : (n, k) ∈ p.numbers) :
    n ≠ [] ∧ k ≠ 0 := by
  have sound := good.sound id p found
  exact ⟨levels_ne_nil (sound.chain ▸ mem_map_of_mem (f := fst) mem), Nat.ne_of_gt (sound.bounds _ mem).1⟩

/-- What an `exec` makes of the numbers of its group leader: they lead to the leader exactly when it was
published and had not been reaped, and then until it is reaped, and nobody else has one of them. -/
theorem exec_lookup {w : World} (reach : Reach World.empty w) {thread group : IdentityId} {t g : PidIdentity}
    (isThread : w.identity thread = some t) (isGroup : w.identity group = some g) (space : t.space = g.space)
    (member : t.group = g.native) :
    (∀ level ∈ g.numbers, lookup (exec w thread group) level.1 level.2 = some group ↔
      g.reaped = false ∧ g.native ≠ 0 ∧ g.references ≠ 0 ∧ g.references < uintMax) ∧
    (g.reaped = false → g.native ≠ 0 → ∀ later, Reach (exec w thread group) later → ∀ p, Reserved later group p →
      ∀ level ∈ p.numbers, (p.references ≠ 0 → p.references < uintMax → lookup later level.1 level.2 = some group) ∧
        ∀ other q, Reserved later other q → level ∈ q.numbers → other = group) := by
  have good := reach.consistent .empty
  -- the leader is back, but the tables are as they were
  obtain ⟨g', isLeader, holder, native, refs, reaped⟩ : ∃ g', (exec w thread group).identity group = some g' ∧
      (exec w thread group).holder = w.holder ∧ g'.native = g.native ∧ g'.references = g.references ∧
        (g'.reaped = false ∨ g' = g) := by
    simp only [exec, isThread, isGroup, space, member, ne_eq, not_true_eq_false, or_false]
    by_cases same : thread = group
    · rw [if_pos same]
      exact ⟨g, isGroup, rfl, rfl, rfl, .inr rfl⟩
    · rw [if_neg same]
      refine ⟨{ g with reaped := false, live := true }, ?_, rfl, rfl, rfl, .inl rfl⟩
      simp [setIdentity, Ne.symm same]
  refine ⟨?_, ?_⟩
  · rintro ⟨n, k⟩ mem
    have has : Holds (exec w thread group) group n k ↔ g.reaped = false := by
      rw [Holds, holder]
      exact good.holds_iff isGroup mem
    rw [lookup_eq_some isLeader, has, native, refs]
    refine ⟨fun all => ⟨all.2.1, all.2.2.1, all.2.2.2.2⟩, ?_⟩
    rintro ⟨alive, published, counted⟩
    exact ⟨good.level isGroup mem, alive, published, reaped.elim id fun same => same ▸ alive, counted⟩
  · rintro alive published later onward p reserved ⟨n, k⟩ mem
    have timely : (Event.exec thread group).Timely w := fun q isQ => by
      obtain rfl : g = q := Option.mem_unique isGroup isQ
      exact alive
    have new : Consistent (exec w thread group) := (happen_spec good _ timely).1
    have kept := onward.consistent new
    have still := (onward.native new (new.identity_lt isLeader) fun q isQ => by
      obtain rfl : g' = q := Option.mem_unique isLeader isQ
      exact native ▸ published).2 p reserved.1
    have has := (kept.mem_numbers reserved n k).mp mem
    refine ⟨fun counted few => ?_, fun other q isReserved isNumber => ?_⟩
    · exact (lookup_eq_some reserved.1 n k).mpr ⟨kept.level reserved.1 mem, has, still, reserved.2, counted, few⟩
    · exact Option.mem_unique ((kept.mem_numbers isReserved n k).mp isNumber) has

/-- A leader that has exited, and another thread of its group. -/
def exited : List Op :=
  [.namespaceNew [] [] 0 true, .prepareSelected [0] none [] true, .prepareSelected [0] none [] true,
  .publish 0 100 100, .publish 1 101 100, .exit 0]

theorem Reach.run (w : World) (ops : List Op) : Reach w (run w ops) := by
  induction ops using List.reverseRecOn with
  | nil => exact .start
  | append_singleton rest op ih =>
    rw [PidNamespace.run, foldl_append]
    exact ih.next (.op op) trivial

theorem exited_threads : (history exited).identity 0 = some ⟨1, [0], [([0], 1)], 100, 100, false, false⟩ ∧
    (history exited).identity 1 = some ⟨1, [0], [([0], 2)], 101, 100, true, false⟩ := by
  decide +kernel

theorem exec_lookup_exited : lookup (exec (history exited) 1 0) [0] 1 = some 0 :=
  ((exec_lookup (Reach.run empty exited) exited_threads.2 exited_threads.1 rfl rfl).1 ([0], 1) (by simp)).mpr
    ⟨rfl, by decide⟩

/-- A leader that was reaped comes back without its numbers. -/
theorem exec_after_reap : ∃ t g, (history (exited ++ [.reap 0])).identity 1 = some t ∧
    (history (exited ++ [.reap 0])).identity 0 = some g ∧
    t.space = g.space ∧ t.group = g.native ∧ ([0], 1) ∈ g.numbers ∧
    lookup (exec (history (exited ++ [.reap 0])) 1 0) [0] 1 = none :=
  ⟨⟨1, [0], [([0], 2)], 101, 100, true, false⟩, ⟨1, [0], [([0], 1)], 100, 100, false, true⟩, by decide +kernel⟩

variable {s : Space}

/-- The live threads of the init's group are of the namespace itself, and none of them was reaped. -/
def Regular (w : World) (n : SpaceId) : Prop :=
  ∀ number i, w.holder n 1 = some number → w.identity number.identity = some i →
    ∀ id p, w.identity id = some p → p.live = true → p.group = i.group → p.space = n ∧ p.reaped = false

/-- The last live thread of the init's group exits. -/
def LastExit (w : World) (event : Event) (n : SpaceId) : Prop :=
  ∃ id p number i, event = .op (.exit id) ∧ w.identity id = some p ∧ p.live = true ∧ w.holder n 1 = some number ∧
    w.identity number.identity = some i ∧ i.group = p.group ∧
    ∀ other q, other ≠ id → w.identity other = some q → q.live = true → q.group ≠ p.group

theorem lastOfInit_iff (good : Consistent w) (found : w.space n = some s) (isThread : w.identity id = some p)
    (regular : Regular w n) :
    lastOfInit (w.setIdentity id (some { p with live := false })) s p.group = true ↔
      ∃ number i, w.holder n 1 = some number ∧ w.identity number.identity = some i ∧ i.group = p.group ∧
        ∀ other q, other ≠ id → w.identity other = some q → q.live = true → q.group ≠ p.group := by
  have group : ∀ other q, w.identity other = some q →
      groupOf (w.setIdentity id (some { p with live := false })) other = q.group := by
    intro other q is
    by_cases same : other = id
    · subst same
      obtain rfl : p = q := Option.mem_unique isThread is
      simp [groupOf, setIdentity]
    · simp [groupOf, setIdentity, same, is]
  simp only [lastOfInit, Bool.and_eq_true, Option.any_eq_true, all_eq_true, beq_iff_eq, holder_of_space found,
    Bool.not_eq_true', Bool.and_eq_false_imp]
  constructor
  · rintro ⟨⟨number, first, sameGroup⟩, last⟩
    have isFirst : w.holder n 1 = some number := by rw [holder_of_space found, first]
    obtain ⟨i, isInit, -, place⟩ := good.held n 1 number isFirst
    rw [group _ i isInit] at sameGroup
    refine ⟨number, i, first, isInit, sameGroup, fun other q ne is live same => ?_⟩
    obtain ⟨isIn, alive⟩ := regular number i isFirst isInit other q is live (same.trans sameGroup.symm)
    obtain ⟨serial, parent, rfl⟩ := exists_cons_of_ne_nil (good.level isInit (mem_of_getElem? place)).1
    have level : serial :: parent ∈ levels q.space := by
      rw [isIn]
      exact mem_cons_self
    obtain ⟨k, has, -⟩ := good.one_number ⟨is, alive⟩ level
    obtain ⟨ref, held, rfl⟩ := Option.map_eq_some_iff.mp has
    rw [holder_of_space found] at held
    have gone := last _ (Buckets.mem_entries _ held) (by simp [isLive, setIdentity, ne, is, live])
    rw [group _ q is, same, beq_self_eq_true] at gone
    cases gone
  · rintro ⟨number, i, first, isInit, sameGroup, last⟩
    refine ⟨⟨number, first, (group _ i isInit).trans sameGroup⟩, fun entry _ live => ?_⟩
    have ne : entry.2.identity ≠ id := by
      intro same
      simp [isLive, setIdentity, same] at live
    cases is : w.identity entry.2.identity with
    | none => simp [isLive, setIdentity, ne, is] at live
    | some q =>
      rw [group _ q is, beq_eq_false_iff_ne]
      exact last _ q ne is (by simpa [isLive, setIdentity, ne, is] using live)

/-- When a namespace ends, that it stays ended, and that its init keeps its number. -/
theorem namespace_ends {w : World} (reach : Reach World.empty w) {n : SpaceId} {s : Space}
    (found : w.space n = some s) :
    -- it ends with the last live thread of its init
    (s.dead = false → Regular w n → ∀ event : Event, event.Timely w →
      ((∃ s', (happen w event).space n = some s' ∧ s'.dead = true) ↔ LastExit w event n)) ∧
    -- from then on it is dead, and gives no number away
    (s.dead = true → ∀ later, Reach w later → ∃ s', later.space n = some s' ∧ s'.dead = true ∧
      ∀ k id, Holds later id n k → Holds w id n k) ∧
    -- the init is reaped or released before another has its number
    (∀ number, w.holder n 1 = some number → ∀ event : Event, event.Timely w → ¬ event.frees w number.identity →
      (happen w event).holder n 1 = some number) := by
  have good := reach.consistent .empty
  refine ⟨fun alive regular event timely => ⟨?_, ?_⟩, fun dead later onward => ?_,
    fun number first event timely kept => ?_⟩
  · rintro ⟨s', new, dead⟩
    obtain ⟨s'', there, -, ending⟩ := (happen_spec good event timely).2.later n s found
    obtain rfl : s' = s'' := Option.mem_unique new there
    obtain wasDead | ⟨op, rfl, id, p, t, rfl, isThread, live, mem, isSpace, last⟩ := ending dead
    · rw [alive] at wasDead
      cases wasDead
    · obtain rfl : s = t := Option.mem_unique found isSpace
      obtain ⟨number, i, first, isInit, group, others⟩ := (lastOfInit_iff good found isThread regular).mp last
      exact ⟨id, p, number, i, rfl, isThread, live, first, isInit, group, others⟩
  · rintro ⟨id, p, number, i, rfl, isThread, live, first, isInit, group, others⟩
    obtain rfl := (regular number i first isInit id p isThread live group.symm).1
    have last := (lastOfInit_iff good found isThread regular).mpr ⟨number, i, first, isInit, group, others⟩
    refine ⟨{ s with dead := true }, ?_, rfl⟩
    simp only [happen, step, exit, isThread, live, Bool.not_true, Bool.false_eq_true, if_false,
      setIdentity_space, found]
    rw [if_pos last]
    exact Function.update_self ..
  · induction onward with
    | start => exact ⟨s, found, dead, fun _ _ has => has⟩
    | next reach' event timely ih =>
      obtain ⟨s', there, dead', fewer⟩ := ih
      obtain ⟨s'', new, closing, -⟩ := (happen_spec (reach'.consistent good) event timely).2.later n s' there
      refine ⟨s'', new, (closing dead').1, fun k id has => fewer k id ?_⟩
      obtain ⟨ref, held, rfl⟩ := Option.map_eq_some_iff.mp has
      rw [holder_of_space new] at held
      rw [Holds, holder_of_space there, (closing dead').2 k ref held]
      rfl
  · obtain ⟨p, isInit, unreaped, place⟩ := good.held n 1 number first
    obtain ⟨new, onward⟩ := happen_spec good event timely
    obtain ⟨-, gone | frees⟩ | ⟨q, p', old, isInit', nums, -, same⟩ := onward.aged _ (good.identity_lt isInit)
    · rw [gone] at isInit
      cases isInit
    · exact absurd frees kept
    · obtain rfl : p = q := Option.mem_unique isInit old
      exact (new.sound _ p' isInit').holds ((same.resolve_right kept).trans unreaped) _ n 1 (nums ▸ place)

/-- The init has exited, and the exit of its other thread is the end. -/
theorem namespace_ends_exited :
    ∃ s', (happen (history exited) (.op (.exit 1))).space [0] = some s' ∧ s'.dead = true := by
  obtain ⟨s, found, alive⟩ : ∃ s, (history exited).space [0] = some s ∧ s.dead = false :=
    Option.map_eq_some_iff.mp (by decide +kernel)
  obtain ⟨init, thread⟩ := exited_threads
  have first : (history exited).holder [0] 1 = some ⟨0, 0⟩ := by decide +kernel
  have live : ∀ id p, (history exited).identity id = some p → p.live = true → id = 1 := by
    intro id p is live
    have few : id < 2 := (history_consistent exited).identity_lt is
    interval_cases id
    · obtain rfl := Option.mem_unique init is
      cases live
    · rfl
  refine ((namespace_ends (Reach.run empty exited) found).1 alive ?_ (.op (.exit 1)) trivial).mpr
    ⟨1, _, _, _, rfl, thread, rfl, first, init, rfl, fun other q ne is isLive => absurd (live other q is isLive) ne⟩
  intro num i _ _ id p is isLive _
  obtain rfl := live id p is isLive
  obtain rfl := Option.mem_unique thread is
  exact ⟨rfl, rfl⟩

def nested : List Op :=
  [.namespaceNew [] [] 0 true, .namespaceNew [0] [] 1 true, .prepareSelected [1, 0] none [] true, .publish 0 100 100]

theorem nested_init :
    (history nested).identity 0 = some ⟨1, [1, 0], [([1, 0], 1), ([0], 1)], 100, 100, true, false⟩ := by
  decide +kernel

/-- A process of an inner namespace that is the init of the outer one as well ends the inner one only. -/
theorem nested_survives : LastExit (history nested) (.op (.exit 0)) [0] ∧
    ((happen (history nested) (.op (.exit 0))).space [0]).map Space.dead = some false := by
  have first : (history nested).holder [0] 1 = some ⟨0, 1⟩ := by decide +kernel
  have one : (history nested).identities = 1 := by decide +kernel
  refine ⟨⟨0, _, _, _, rfl, nested_init, rfl, first, nested_init, rfl, fun other q ne is => ?_⟩, by decide +kernel⟩
  exact absurd (Nat.lt_one_iff.mp (one ▸ (history_consistent nested).identity_lt is)) ne

/-- `md_pid_identity_number`. -/
def identityNumber (p : PidIdentity) (n : SpaceId) : Nat :=
  if n = [] then p.native else ((p.numbers.find? fun level => level.1 == n).map snd).getD 0

theorem Consistent.mem_iff_number (good : Consistent w) (found : w.identity id = some p) (inner : n ≠ []) (k : Nat) :
    (n, k) ∈ p.numbers ↔ k ≠ 0 ∧ identityNumber p n = k := by
  have sound := good.sound id p found
  have nodup : (p.numbers.map fst).Nodup := sound.chain ▸ levels_nodup p.space
  rw [identityNumber, if_neg inner]
  cases search : p.numbers.find? (fun level => level.1 == n) with
  | none =>
    have none := find?_eq_none.mp search (n, k)
    simp at none
    simp [none, eq_comm]
  | some level =>
    have mem := mem_of_find?_eq_some search
    have here : level.1 = n := by simpa using find?_some search
    refine ⟨fun isIn => ?_, fun is => ?_⟩
    · rw [← inj_on_of_nodup_map nodup isIn mem here.symm]
      exact ⟨(good.level found isIn).2, rfl⟩
    · rwa [← here, ← show level.2 = k from is.2]

/-- An identity has a number in the namespaces that its own is in, and once it is published and until it is reaped,
they find it by that number and by no other. -/
theorem number_lookup (reach : Reach World.empty w) (found : w.identity id = some p) (inner : n ≠ []) :
    (identityNumber p n ≠ 0 ↔ n ∈ levels p.space) ∧ ∀ k, lookup w n k = some id ↔
      k ≠ 0 ∧ identityNumber p n = k ∧ p.native ≠ 0 ∧ p.reaped = false ∧ p.references ≠ 0 ∧
        p.references < uintMax := by
  have good := reach.consistent .empty
  have mem_iff := good.mem_iff_number found inner
  refine ⟨?_, fun k => ?_⟩
  · rw [← (good.sound id p found).chain, mem_map]
    refine ⟨fun some => ⟨_, (mem_iff _).mpr ⟨some, rfl⟩, rfl⟩, ?_⟩
    rintro ⟨⟨n, k⟩, mem, rfl⟩
    obtain ⟨some, is⟩ := (mem_iff k).mp mem
    rwa [is]
  · rw [lookup_eq_some found]
    constructor
    · rintro ⟨-, has, native, alive, counted⟩
      obtain ⟨some, is⟩ := (mem_iff k).mp ((good.mem_numbers ⟨found, alive⟩ n k).mpr has)
      exact ⟨some, is, native, alive, counted⟩
    · rintro ⟨some, is, native, alive, counted⟩
      have has := (good.mem_numbers ⟨found, alive⟩ n k).mp ((mem_iff k).mpr ⟨some, is⟩)
      exact ⟨⟨inner, some⟩, has, native, alive, counted⟩

theorem number_lookup_nested : lookup (history nested) [0] 1 = some 0 :=
  ((number_lookup (Reach.run empty nested) nested_init (by decide)).2 1).mpr (by decide)

end Shroot.PidNamespace
