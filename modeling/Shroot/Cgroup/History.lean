import Shroot.Cgroup.Steps
import Shroot.General.Bits

namespace Shroot.Cgroup

open General List Bool

section

variable {w : World} {g : GroupId}

section

variable {w' : World} {group : Group}

theorem setGroup_proj {β : Type} (f : Group → β) (same : f group = f (w.group g)) (n : GroupId) :
    f ((w.setGroup g group).group n) = f (w.group n) := by
  by_cases here : n = g
  · subst here
    simpa [World.setGroup] using same
  · simp [World.setGroup, here]

def Group.counters (g : Group) : Group := { g with removed := false, subtree := 0, pidsMax := 0 }

theorem Counted.setGroup (good : Counted w) (same : group.counters = (w.group g).counters) :
    Counted (w.setGroup g group) := by
  have each := setGroup_proj Group.counters same
  refine
    { good with
      charged := fun n mem => (congrArg Group.pidsCharged (each n)).trans (good.charged n mem)
      populated := fun n mem => (congrArg Group.populated (each n)).trans (good.populated n mem)
      stopped := fun n mem => (congrArg Group.stopped (each n)).trans (good.stopped n mem)
      effective := fun n mem => ?_
      settled := fun n mem => ?_ }
  · have freeze : ∀ a, ((w.setGroup g group).group a).freeze = (w.group a).freeze :=
      fun a => (congrArg Group.freeze (each a) :)
    rw [freezing_congr freeze]
    exact (congrArg Group.effectiveFreeze (each n)).trans (good.effective n mem)
  · show ((w.setGroup g group).group n).counters.Settled
    rw [each n]
    exact good.settled n mem

theorem Counted.ancestors (good : Counted w) {a : GroupId} (mem : g ∈ w.groups) (above : a <:+ g) : a ∈ w.groups := by
  induction g with
  | nil =>
    rw [suffix_nil.mp above]
    exact mem
  | cons serial parent ih =>
    rcases suffix_cons_iff.mp above with rfl | above
    · exact mem
    · exact ih (good.closed serial parent mem) above

theorem freezing_above {group group' : GroupId → Group} (same : ∀ a, a <:+ g → (group' a).freeze = (group a).freeze) :
    freezing group' g = freezing group g := by
  induction g with
  | nil => exact same [] (suffix_refl _)
  | cons serial parent ih =>
    rw [freezing, freezing, same _ (suffix_refl _), ih fun a above => same a (above.trans (suffix_cons serial parent))]

theorem Counted.tally_absent (good : Counted w) (gone : g ∉ w.groups) (weigh : Member → Bool) :
    tally Member.group weigh w.members g = 0 := by
  rw [tally_eq_countP, countP_eq_zero.mpr]
  · rfl
  · intro m mem counts
    simp only [and_eq_true, decide_eq_true_eq] at counts
    exact gone (good.ancestors (good.known m mem) counts.2)

def addGroup (w : World) (base : GroupId) (serial : Nat) : World :=
  { w.setGroup (serial :: base) { effectiveFreeze := freezing w.group base, frozen := freezing w.group base } with
    groups := (serial :: base) :: w.groups }

theorem mkdir_cases (w : World) (base : GroupId) (serial : Nat) (bad late : Option Errno) :
    (mkdir w base serial bad late).1 = w ∨
      base ∈ w.groups ∧ serial :: base ∉ w.groups ∧ (mkdir w base serial bad late).1 = addGroup w base serial := by
  unfold mkdir
  split
  · exact .inl rfl
  split
  · exact .inl rfl
  rename_i isBase
  split
  · exact .inl rfl
  rename_i absent
  split
  · exact .inl rfl
  · exact .inr ⟨not_not.mp (not_or.mp isBase).1, absent, rfl⟩

section

variable {base : GroupId} {serial : Nat}

theorem addGroup_old (gone : serial :: base ∉ w.groups) (known : g ∈ w.groups) :
    (addGroup w base serial).group g = w.group g := by
  have other : g ≠ serial :: base := fun same => gone (same ▸ known)
  exact Function.update_of_ne other ..

theorem addGroup_closed (closed : ∀ serial parent, serial :: parent ∈ w.groups → parent ∈ w.groups)
    (isIn : base ∈ w.groups) (serial' : Nat) (parent : GroupId)
    (known : serial' :: parent ∈ (addGroup w base serial).groups) :
    parent ∈ (addGroup w base serial).groups := by
  rcases mem_cons.mp known with same | known
  · obtain ⟨-, rfl⟩ := cons.inj same
    exact mem_cons_of_mem _ isIn
  · exact mem_cons_of_mem _ (closed serial' parent known)

theorem addGroup_counted (good : Counted w) (isIn : base ∈ w.groups) (gone : serial :: base ∉ w.groups) :
    Counted (addGroup w base serial) := by
  have frozen : ∀ g ∈ w.groups, freezing (addGroup w base serial).group g = freezing w.group g :=
    fun g known => freezing_above fun a above => by rw [addGroup_old gone (good.ancestors known above)]
  have new : (addGroup w base serial).group (serial :: base) =
      { effectiveFreeze := freezing w.group base, frozen := freezing w.group base } := Function.update_self ..
  refine ⟨addGroup_closed good.closed isIn, fun m mem => mem_cons_of_mem _ (good.known m mem), good.distinct,
    good.fresh, ?_, ?_, ?_, ?_, ?_⟩
  all_goals
    intro g known
    rcases mem_cons.mp known with rfl | known
  · rw [new]
    exact (good.tally_absent gone _).symm
  · rw [addGroup_old gone known]
    exact good.charged g known
  · rw [new]
    exact (good.tally_absent gone _).symm
  · rw [addGroup_old gone known]
    exact good.populated g known
  · rw [new]
    exact (good.tally_absent gone _).symm
  · rw [addGroup_old gone known]
    exact good.stopped g known
  · rw [freezing, new, frozen base isIn]
    simp
  · rw [addGroup_old gone known, frozen g known]
    exact good.effective g known
  · rw [new]
    simp [Group.Settled]
  · rw [addGroup_old gone known]
    exact good.settled g known

end

theorem mkdir_counted (good : Counted w) (base : GroupId) (serial : Nat) (bad late : Option Errno) :
    Counted (mkdir w base serial bad late).1 := by
  rcases mkdir_cases w base serial bad late with same | ⟨mem, gone, made⟩
  · rwa [same]
  · rw [made]
    exact addGroup_counted good mem gone

theorem rmdir_counted (good : Counted w) (g : GroupId) (bad unlinked : Option Errno) :
    Counted (rmdir w g bad unlinked).1 := by
  unfold rmdir
  dsimp only
  split
  · exact good
  · exact good.setGroup rfl

theorem setGroup_passes (same : group.counters = (w.group g).counters)
    (subtree : group.subtree = (w.group g).subtree) (gone : group.removed = (w.group g).removed) :
    Passes w (w.setGroup g group) :=
  ⟨fun good => good.setGroup same, rfl, setGroup_proj Group.subtree subtree, setGroup_proj Group.removed gone,
    fun _ mem fills => fills.admits mem⟩

theorem pidsMaxWrite_passes (w : World) (g : GroupId) (text : List Char) : Passes w (pidsMaxWrite w g text).1 := by
  unfold pidsMaxWrite
  split
  · exact setGroup_passes rfl rfl rfl
  split
  · exact .refl w
  split
  · exact .refl w
  · exact setGroup_passes rfl rfl rfl

theorem dropControllers_passes (unlinked : GroupId → Option Errno) (gone : Controllers) (todo : List GroupId)
    (w : World) :
    Passes w (dropControllers unlinked gone todo w).1 ∧
    (dropControllers unlinked gone todo w).1.members = w.members := by
  induction todo generalizing w with
  | nil => exact ⟨.refl w, rfl⟩
  | cons child rest ih =>
    unfold dropControllers
    split
    · exact ⟨.refl w, rfl⟩
    · refine ⟨(setGroup_passes ?_ ?_ ?_).trans (ih _).1, (ih _).2⟩ <;> split <;> rfl

/-- Controllers are dropped from the children, and then the group has what was asked for. -/
theorem subtreeWrite_cases (w : World) (call : ControlWrite) (text : List Char) :
    ∃ w', Passes w w' ∧ w'.members = w.members ∧
    ((subtreeWrite w call text).1 = w' ∨ ∃ next, subtreeNext w call text = .ok next ∧
      (subtreeWrite w call text).1 = w'.setGroup call.group { w'.group call.group with subtree := next }) := by
  unfold subtreeWrite
  split
  · exact ⟨w, .refl w, rfl, .inl rfl⟩
  next next found =>
    have gone :=
  dropControllers_passes call.unlinked ((w.group call.group).subtree &&& ~~~next) (children w call.group) w
    dsimp only
    by_cases lost : (w.group call.group).subtree &&& ~~~next ≠ 0
    · rw [if_pos lost]
      refine ⟨_, gone.1, gone.2, ?_⟩
      split
      · exact .inl rfl
      · exact .inr ⟨next, found, rfl⟩
    · rw [if_neg lost]
      exact ⟨w, .refl w, rfl, .inr ⟨next, found, rfl⟩⟩

theorem subtreeWrite_counted (good : Counted w) (call : ControlWrite) (text : List Char) :
    Counted (subtreeWrite w call text).1 := by
  obtain ⟨w', gone, -, same | ⟨next, -, same⟩⟩ := subtreeWrite_cases w call text
  · rw [same]
    exact gone.counted good
  · rw [same]
    exact (gone.counted good).setGroup rfl

/-- The freezer of all groups and members follows what the groups are told. -/
theorem refreezeAll_counted (good : Counted w) (g : GroupId) (freeze : Bool) :
    Counted (refreezeAll (w.setGroup g { w.group g with freeze := freeze })) := by
  have charged : ∀ n, ((w.setGroup g { w.group g with freeze := freeze }).group n).pidsCharged =
    (w.group n).pidsCharged :=
    setGroup_proj Group.pidsCharged rfl
  have populated : ∀ n, ((w.setGroup g { w.group g with freeze := freeze }).group n).populated =
    (w.group n).populated :=
    setGroup_proj Group.populated rfl
  have stopped : ∀ n, ((w.setGroup g { w.group g with freeze := freeze }).group n).stopped = (w.group n).stopped :=
    setGroup_proj Group.stopped rfl
  have groups : (w.setGroup g { w.group g with freeze := freeze }).groups = w.groups := rfl
  have members : (w.setGroup g { w.group g with freeze := freeze }).members = w.members := rfl
  have nextMember : (w.setGroup g { w.group g with freeze := freeze }).nextMember = w.nextMember := rfl
  generalize w.setGroup g { w.group g with freeze := freeze } =
    v at charged populated stopped groups members nextMember ⊢
  have tallies : ∀ weigh : Member → Bool, (∀ m frozen, weigh { m with freezing := frozen } = weigh m) → ∀ n,
      tally Member.group weigh (refreezeAll v).members n = tally Member.group weigh w.members n := by
    intro weigh same n
    simp only [refreezeAll, tally, members, map_map]
    congr 1
    exact map_congr_left fun m _ => by simp [share, same]
  have record : ∀ n ∈ w.groups, (refreezeAll v).group n = (v.group n).freezeAs (freezing v.group n) := by
    intro n known
    simp [refreezeAll, groups, known]
  have sameFreeze : ∀ n, freezing (refreezeAll v).group n = freezing v.group n := by
    refine freezing_congr fun n => ?_
    simp only [refreezeAll]
    split <;> rfl
  refine ⟨?_, ?_, ?_, ?_, ?_, ?_, ?_, ?_, ?_⟩
  · exact groups ▸ good.closed
  · intro m mem
    obtain ⟨x, isIn, rfl⟩ := mem_map.mp mem
    exact groups ▸ good.known x (members ▸ isIn)
  · show ((v.members.map _).map Member.id).Nodup
    rw [map_map, members]
    exact good.distinct
  · intro m mem
    obtain ⟨x, isIn, rfl⟩ := mem_map.mp mem
    exact nextMember ▸ good.fresh x (members ▸ isIn)
  all_goals
    intro n known
    have known : n ∈ w.groups := groups ▸ known
    rw [record n known]
  · rw [tallies _ fun _ _ => rfl, ← good.charged n known]
    exact charged n
  · rw [tallies _ fun _ _ => rfl, ← good.populated n known]
    exact populated n
  · rw [tallies _ fun _ _ => rfl, ← good.stopped n known]
    exact stopped n
  · rw [sameFreeze]
    rfl
  · exact Group.refreeze_settled _

theorem refreezeAll_stays (w : World) : Stays w (refreezeAll w) := by
  refine ⟨rfl, fun g => ?_, fun g => ?_, fun x mem fills => ?_⟩
  · simp only [refreezeAll]
    split <;> rfl
  · simp only [refreezeAll]
    split <;> rfl
  · obtain ⟨m, isIn, rfl⟩ := mem_map.mp mem
    exact .inl ⟨m, isIn, fills, rfl⟩

theorem freezeWrite_passes (w : World) (g : GroupId) (text : List Char) : Passes w (freezeWrite w g text).1 := by
  unfold freezeWrite
  split
  · exact .refl w
  split
  · exact .refl w
  split
  · exact .refl w
  · have told : Stays w (w.setGroup g { w.group g with freeze := decide (text = ['1']) }) :=
      ⟨rfl, setGroup_proj Group.subtree rfl, setGroup_proj Group.removed rfl, fun _ mem fills => fills.admits mem⟩
    exact ⟨fun good => refreezeAll_counted good g _, told.trans (refreezeAll_stays _)⟩

theorem migrate_passes (call : ControlWrite) (mem : call.group ∈ w.groups) (text : List Char) :
    Passes w (migrate w call text).1 := by
  unfold migrate
  split
  · exact .refl w
  next target found =>
    refine ⟨fun good => moveMembers_counted good mem _ _, moveMembers_stays ⟨mem, ?_⟩ _ target⟩
    obtain ⟨_, -, rest⟩ := bind_ok.mp found
    split at rest
    · cases rest
    · simp only [failIf_bind_ok] at rest
      obtain ⟨_, may, -⟩ := bind_ok.mp rest.2
      exact attachAllowed_free may

/-- Only a write to `cgroup.subtree_control` changes the controllers. -/
theorem controlWrite_cases (w : World) (call : ControlWrite) : Passes w (controlWrite w call).1 ∨
    ∃ text, (controlWrite w call).1 = (subtreeWrite w call text).1 := by
  unfold controlWrite
  split
  · exact .inl (.refl w)
  rename_i opened
  have mem : call.group ∈ w.groups := not_not.mp (not_or.mp opened).1
  split
  · exact .inl (.refl w)
  cases call.file with
  | procs => exact .inl (migrate_passes call mem _)
  | threads => exact .inl (migrate_passes call mem _)
  | subtree => exact .inr ⟨_, rfl⟩
  | pidsMax => exact .inl (pidsMaxWrite_passes w _ _)
  | freeze => exact .inl (freezeWrite_passes w _ _)
  | type => exact .inl (.refl w)
  | resource _ _ => exact .inl (.refl w)

theorem controlWrite_counted (good : Counted w) (call : ControlWrite) : Counted (controlWrite w call).1 := by
  rcases controlWrite_cases w call with passes | ⟨text, same⟩
  · exact passes.counted good
  · rw [same]
    exact subtreeWrite_counted good call text

end

theorem step_counted (good : Counted w) (op : Op) : Counted (step w op) := by
  cases op with
  | fork old alloc gone => exact (memberFork_spec w old alloc gone).1 good
  | clone parent target caller thread bad alloc gone =>
    exact (memberClone_passes w parent target caller thread bad alloc gone).counted good
  | retain id => exact (memberRetain_passes w id).counted good
  | release id => exact (memberRelease_passes w id).counted good
  | publish id tid tgid => exact (memberPublish_spec w id tid tgid).1 good
  | depart id tid => exact (memberDepart_passes w id tid).counted good
  | reaped id => exact (memberReaped_passes w id).counted good
  | frozen id stopped => exact (memberFrozen_passes w id stopped).counted good
  | write call => exact controlWrite_counted good call
  | reconcile gone => exact pidsReconcile_counted good gone
  | mkdir base serial bad late => exact mkdir_counted good base serial bad late
  | rmdir g bad unlinked => exact rmdir_counted good g bad unlinked

theorem run_counted (good : Counted w) (ops : List Op) : Counted (run w ops) := by
  induction ops generalizing w with
  | nil => exact good
  | cons op rest ih => exact ih (step_counted good op)

/-- The members there are when the unified hierarchy is mounted. -/
structure Launch where
  members : List Member
  nextMember : MemberId
  distinct : (members.map Member.id).Nodup
  fresh : ∀ m ∈ members, m.id < nextMember

variable (launch : Launch)

def Launch.mount : World := Cgroup.mount launch.members launch.nextMember

theorem share_root (weigh : Member → Bool) (m : Member) : share Member.group weigh [] m = if weigh m then 1 else 0 := by
  by_cases counts : weigh m <;> simp [share, counts]

theorem mount_root (members : List Member) (start : Group) :
    members.foldl (fun g m =>
      { g with populated := if m.tid ≠ 0 then g.populated + 1 else g.populated
               pidsCharged := if m.charged then g.pidsCharged + 1 else g.pidsCharged }) start =
      { start with
        populated := start.populated + tally Member.group Member.live members []
        pidsCharged := start.pidsCharged + tally Member.group Member.charged members [] } := by
  induction members generalizing start with
  | nil => simp
  | cons m rest ih =>
    rw [foldl_cons, ih, tally_cons, tally_cons, share_root, share_root]
    by_cases live : m.tid = 0 <;> by_cases charged : m.charged <;>
      simp only [live, charged, Member.live, ne_eq, not_true_eq_false, not_false_eq_true, bne_self_eq_false,
        bne_iff_ne, if_true,
        if_false, false_eq_true, zero_add, add_assoc]

theorem mount_counted (unstopped : ∀ m ∈ launch.members, m.stopped = false) : Counted launch.mount := by
  have root : launch.mount.group [] =
      { populated := tally Member.group Member.live launch.members []
        pidsCharged := tally Member.group Member.charged launch.members [] } := by
    simp only [Launch.mount, Cgroup.mount, if_true]
    rw [mount_root]
    simp
  have same : ∀ weigh : Member → Bool, (∀ m g, weigh { m with group := g } = weigh m) →
      tally Member.group weigh launch.mount.members [] = tally Member.group weigh launch.members [] := by
    intro weigh kept
    simp only [Launch.mount, Cgroup.mount, tally, map_map]
    congr 1
    exact map_congr_left fun m _ => by simp [share, kept]
  have none : tally Member.group Member.halted launch.members [] = 0 := by
    rw [tally_eq_countP, countP_eq_zero.mpr]
    · rfl
    · intro m mem
      simp [Member.halted, unstopped m mem]
  refine ⟨fun _ _ isIn => absurd (mem_singleton.mp isIn) (cons_ne_nil _ _), ?_, ?_, ?_, ?_, ?_, ?_, ?_, ?_⟩
  · intro m mem
    obtain ⟨x, -, rfl⟩ := mem_map.mp mem
    exact mem_singleton_self _
  · show ((launch.members.map _).map Member.id).Nodup
    rw [map_map]
    exact launch.distinct
  · intro m mem
    obtain ⟨x, isIn, rfl⟩ := mem_map.mp mem
    exact launch.fresh x isIn
  all_goals
    intro g isIn
    obtain rfl : g = [] := mem_singleton.mp isIn
  · rw [root, same _ fun _ _ => rfl]
  · rw [root, same _ fun _ _ => rfl]
  · rw [root, same _ fun _ _ => rfl, none]
  · rw [freezing, root]
  · rw [root]
    rfl

/-- The counters of a hierarchy, over every history since its mount. -/
theorem hierarchy_counters (unstopped : ∀ m ∈ launch.members, m.stopped = false) (ops : List Op) :
    (∀ g ∈ (run launch.mount ops).groups,
      ((run launch.mount ops).group g).populated =
        (run launch.mount ops).members.countP (fun m => m.tid != 0 && decide (g <:+ m.group)) ∧
          ((run launch.mount ops).group g).pidsCharged =
        (run launch.mount ops).members.countP (fun m => m.charged && decide (g <:+ m.group)) ∧
          ((run launch.mount ops).group g).stopped =
        (run launch.mount ops).members.countP (fun m => (m.stopped && m.tid != 0) && decide (g <:+ m.group)) ∧
      (((run launch.mount ops).group g).effectiveFreeze = true ↔ ∃ a, a <:+ g ∧
        ((run launch.mount ops).group a).freeze = true) ∧
      (((run launch.mount ops).group g).frozen = true ↔ ((run launch.mount ops).group g).effectiveFreeze = true ∧
        ((run launch.mount ops).group g).stopped = ((run launch.mount ops).group g).populated)) ∧
    (∀ old alloc gone w m, (run launch.mount ops).find old = some m →
      memberFork (run launch.mount ops) old alloc gone = (w, .ok ()) →
      ∀ a, a <:+ m.group → (w.group a).pidsCharged ≤ (w.group a).pidsMax) ∧
        ∀ parent target caller thread refused alloc gone w,
      memberClone (run launch.mount ops) parent target caller thread refused alloc gone = (w, .ok ()) →
      ∀ a, a <:+ target → (w.group a).pidsCharged ≤ (w.group a).pidsMax := by
  have good := run_counted (mount_counted launch unstopped) ops
  generalize run launch.mount ops = w at good ⊢
  refine ⟨fun g mem => ⟨?_, ?_, ?_, ?_, ?_⟩, fun old alloc gone w' m found forked => ?_,
    fun parent target caller thread refused alloc gone w' cloned => ?_⟩
  · rw [good.populated g mem, tally_eq_countP]
    rfl
  · rw [good.charged g mem, tally_eq_countP]
  · rw [good.stopped g mem, tally_eq_countP]
    rfl
  · rw [good.effective g mem, freezing_iff]
  · rw [good.settled g mem, and_eq_true, beq_iff_eq]
  · rcases memberFork_cases w old alloc gone with ⟨e, bad⟩ | ⟨m', found', reserves⟩
    · cases bad.symm.trans forked
    · obtain rfl := Option.mem_unique found' found
      have sub := (reserveMember_spec w m'.group gone).2.2
      rw [← reserves, forked] at sub
      exact sub rfl
  · rcases memberClone_cases w parent target caller thread refused alloc gone with ⟨e, bad⟩ | ⟨opens, reserves⟩
    · cases bad.symm.trans cloned
    · have sub := (reserveMember_spec w target gone).2.2
      rw [← reserves, cloned] at sub
      exact sub rfl

def shell : Launch := ⟨[{ id := 0, tid := 7, tgid := 7, charged := true }], 1, by decide, by decide⟩

/-- A group is made and frozen, the shell forks and the child goes there and stops. -/
def parked : List Op :=
  [.mkdir [] 0 none none, .fork 0 true fun _ => false, .publish 1 8 8,
    .write { group := [0], file := .procs, data := ['8'], actor := 7, visible := none
             caller := { procs := fun _ => .ok (), boundary := [], delegates := false, initial := true } },
    .write { group := [0], file := .freeze, data := ['1'], actor := 7, visible := none
             caller := { procs := fun _ => .ok (), boundary := [], delegates := false, initial := true } },
    .frozen 1 true]

theorem shell_parked : (∀ m ∈ shell.members, m.stopped = false) ∧
    ((run shell.mount parked).group []).populated = 2 ∧ ((run shell.mount parked).group [0]).frozen = true := by
  have counters := (hierarchy_counters shell (by decide) parked).1
  refine ⟨by decide, ?_, ?_⟩
  · rw [(counters [] (by decide)).1]
    decide
  · rw [(counters [0] (by decide)).2.2.2.2]
    decide

end

open BitVec World

/-- Controllers come down from the root, and members are in the groups without any below them. -/
structure Nested (w : World) : Prop where
  closed : ∀ serial parent, serial :: parent ∈ w.groups → parent ∈ w.groups
  known : ∀ m ∈ w.members, m.Occupies → m.group ∈ w.groups
  subset : ∀ serial parent, serial :: parent ∈ w.groups → (w.group (serial :: parent)).removed = false →
    Within (w.group (serial :: parent)).subtree (w.group parent).subtree
  vacant : ∀ m ∈ w.members, m.Occupies → m.group ≠ [] → (w.group m.group).subtree = 0

section

variable {w w' : World} {g : GroupId} {next : Controllers}

theorem Nested.opens (nested : Nested w) (admits : Admits w g) : Open w g := by
  rcases admits with ⟨m, mem, fills, rfl⟩ | opens
  · exact ⟨nested.known m mem fills, nested.vacant m mem fills⟩
  · exact opens

theorem Nested.stays (nested : Nested w) (stays : Stays w w') : Nested w' := by
  have opens : ∀ x ∈ w'.members, x.Occupies → Open w' x.group :=
    fun x mem fills => stays.opens.mpr (nested.opens (stays.members x mem fills))
  refine ⟨stays.groups ▸ nested.closed, fun x mem fills => (opens x mem fills).1, fun serial parent isIn kept => ?_,
    fun x mem fills => (opens x mem fills).2⟩
  rw [stays.subtree, stays.subtree]
  exact nested.subset serial parent (stays.groups ▸ isIn) ((stays.removed _).symm.trans kept)

theorem subtreeNext_ok {call : ControlWrite} {text : List Char} (run : subtreeNext w call text = .ok next) :
    Within next (available w.group call.group) ∧
    (∀ child ∈ children w call.group, (w.group child).subtree &&& ((w.group call.group).subtree &&& ~~~ next) = 0) ∧
    (¬ Within next (w.group call.group).subtree → call.group ≠ [] → ∀ m ∈ w.members, m.Occupies →
      m.group ≠ call.group) := by
  obtain ⟨read, -, rest⟩ := bind_ok.mp run
  simp only [failIf_bind_ok] at rest
  obtain ⟨available, children, members, rest⟩ := rest
  have same : read = next := by
    split at rest
    · split at rest
      · cases rest
      · exact pure_ok.mp rest
    · exact pure_ok.mp rest
  subst same
  refine ⟨not_not.mp available, fun child isIn => ?_, fun added below m mem fills here => ?_⟩
  · exact not_not.mp fun busy => children ⟨child, isIn, busy⟩
  · exact members ⟨added, below, m, mem, fills, here⟩

variable (nested : Nested w)

include nested

theorem Nested.setSubtree (below : Within next (available w.group g))
    (kept : ∀ child ∈ children w g, (w.group child).subtree &&& ((w.group g).subtree &&& ~~~ next) = 0)
    (vacant : ¬ Within next (w.group g).subtree → g ≠ [] → ∀ m ∈ w.members, m.Occupies → m.group ≠ g) :
    Nested (w.setGroup g { w.group g with subtree := next }) := by
  have other : ∀ n, n ≠ g → (w.setGroup g { w.group g with subtree := next }).group n = w.group n :=
    fun n ne => by simp [setGroup, ne]
  have self : (w.setGroup g { w.group g with subtree := next }).group g = { w.group g with subtree := next } := by
    simp [setGroup]
  refine ⟨nested.closed, nested.known, fun serial parent isIn present => ?_, fun m mem fills notRoot => ?_⟩
  · by_cases isSelf : serial :: parent = g
    · subst isSelf
      have ne : parent ≠ serial :: parent := fun same => absurd (congrArg length same) (by simp)
      rw [self, other parent ne]
      exact below
    · rw [other _ isSelf] at present ⊢
      by_cases isParent : parent = g
      · subst isParent
        have child : serial :: parent ∈ children w parent := by
          simp only [children, mem_filter, and_eq_true, not_eq_true', decide_eq_true_eq]
          exact ⟨isIn, ⟨present, cons_ne_nil _ _⟩, rfl⟩
        have old := nested.subset serial parent isIn present
        have taken := kept _ child
        rw [self]
        refine within_iff.mpr fun i mem => ?_
        by_contra lost
        have bit : ((w.group (serial :: parent)).subtree &&& ((w.group parent).subtree &&& ~~~next)).getLsbD i =
            false := by
          rw [taken]
          exact getLsbD_zero
        have bound := lt_of_getLsbD mem
        have unset : next.getLsbD i = false := by simpa using lost
        rw [getLsbD_and, getLsbD_and, getLsbD_not, mem, old.mem mem, unset, decide_eq_true bound] at bit
        cases bit
      · rw [other parent isParent]
        exact nested.subset serial parent isIn present
  · by_cases here : m.group = g
    · have old := nested.vacant m mem fills notRoot
      rw [here] at old notRoot
      have small : Within next (w.group g).subtree := not_not.mp fun added => vacant added notRoot m mem fills here
      rw [here, self]
      rw [old] at small
      refine eq_of_getLsbD_eq fun i bound => ?_
      by_contra set
      have mem : next.getLsbD i = true := by simpa using set
      simpa using small.mem mem
    · rw [other _ here]
      exact nested.vacant m mem fills notRoot

theorem subtreeWrite_nested (call : ControlWrite) (text : List Char) : Nested (subtreeWrite w call text).1 := by
  obtain ⟨w', ⟨-, stays⟩, members, same | ⟨next, found, same⟩⟩ := subtreeWrite_cases w call text
  · rw [same]
    exact nested.stays stays
  · obtain ⟨below, kept, vacant⟩ := subtreeNext_ok found
    rw [same]
    refine (nested.stays stays).setSubtree ?_ (fun child mem => ?_) ?_
    · have same : available w'.group call.group = available w.group call.group := by
        cases call.group with
        | nil => rfl
        | cons _ parent => exact stays.subtree parent
      exact same ▸ below
    · have mem : child ∈ children w call.group := by simpa only [children, stays.groups, stays.removed] using mem
      rw [stays.subtree, stays.subtree]
      exact kept child mem
    · rw [stays.subtree, members]
      exact vacant

theorem mkdir_nested (base : GroupId) (serial : Nat) (bad late : Option Errno) :
    Nested (mkdir w base serial bad late).1 := by
  rcases mkdir_cases w base serial bad late with same | ⟨isIn, gone, made⟩
  · rwa [same]
  · rw [made]
    refine ⟨addGroup_closed nested.closed isIn, fun m mem fills => mem_cons_of_mem _ (nested.known m mem fills),
      fun serial' parent isIn present => ?_, fun m mem fills below => ?_⟩
    · rcases mem_cons.mp isIn with same | isIn
      · rw [same]
        simp [addGroup, setGroup]
      · rw [addGroup_old gone isIn] at present ⊢
        rw [addGroup_old gone (nested.closed serial' parent isIn)]
        exact nested.subset serial' parent isIn present
    · rw [addGroup_old gone (nested.known m mem fills)]
      exact nested.vacant m mem fills below

theorem rmdir_nested (g : GroupId) (bad unlinked : Option Errno) : Nested (rmdir w g bad unlinked).1 := by
  unfold rmdir
  dsimp only
  split
  · exact nested
  · have same : ∀ n, ((w.setGroup g { w.group g with removed := true }).group n).subtree = (w.group n).subtree :=
      setGroup_proj Group.subtree rfl
    refine ⟨nested.closed, nested.known, fun serial parent isIn present => ?_, fun m mem fills below => ?_⟩
    · rw [same, same]
      refine nested.subset serial parent isIn ?_
      by_cases here : serial :: parent = g
      · subst here
        simp [setGroup] at present
      · simpa [setGroup, here] using present
    · rw [same]
      exact nested.vacant m mem fills below

theorem controlWrite_nested (call : ControlWrite) : Nested (controlWrite w call).1 := by
  rcases controlWrite_cases w call with passes | ⟨text, same⟩
  · exact nested.stays passes.stays
  · rw [same]
    exact subtreeWrite_nested nested call text

end

/-- Tasks are published and fork only as members that are there or were promised their place. -/
def Allowed (w : World) : Op → Prop
  | .publish id _ _ => ∀ m ∈ w.members, m.id = id → m.Occupies
  | .fork old _ _ => ∀ m ∈ w.members, m.id = old → m.Occupies
  | _ => True

/-- The worlds that a launch comes to. -/
inductive Reachable (launch : Launch) : World → Prop
  | mount : Reachable launch launch.mount
  | step {w : World} (before : Reachable launch w) (op : Op) (allowed : Allowed w op) : Reachable launch (step w op)

variable {launch : Launch} {w : World}

theorem step_nested (nested : Nested w) (op : Op) (may : Allowed w op) : Nested (step w op) := by
  cases op with
  | fork old alloc gone => exact nested.stays ((memberFork_spec w old alloc gone).2 may)
  | clone parent target caller thread bad alloc gone =>
    exact nested.stays (memberClone_passes w parent target caller thread bad alloc gone).stays
  | retain id => exact nested.stays (memberRetain_passes w id).stays
  | release id => exact nested.stays (memberRelease_passes w id).stays
  | publish id tid tgid => exact nested.stays ((memberPublish_spec w id tid tgid).2 may)
  | depart id tid => exact nested.stays (memberDepart_passes w id tid).stays
  | reaped id => exact nested.stays (memberReaped_passes w id).stays
  | frozen id stopped => exact nested.stays (memberFrozen_passes w id stopped).stays
  | write call => exact controlWrite_nested nested call
  | reconcile gone => exact nested.stays (pidsReconcile_stays w gone)
  | mkdir base serial bad late => exact mkdir_nested nested base serial bad late
  | rmdir g bad unlinked => exact rmdir_nested nested g bad unlinked

theorem Reachable.nested (reachable : Reachable launch w) : Nested w := by
  induction reachable with
  | mount =>
    have root : ∀ m ∈ launch.mount.members, m.group = [] := by
      intro m mem
      obtain ⟨x, -, rfl⟩ := mem_map.mp mem
      rfl
    refine ⟨fun serial parent isIn => ?_, fun m mem _ => ?_, fun serial parent isIn => ?_, fun m mem _ below => ?_⟩
    · exact absurd (mem_singleton.mp isIn) (cons_ne_nil _ _)
    · rw [root m mem]
      exact mem_singleton_self _
    · exact absurd (mem_singleton.mp isIn) (cons_ne_nil _ _)
    · exact absurd (root m mem) below
  | step old op may ih => exact step_nested ih op may

/-- Controllers and members of every hierarchy that can come up. -/
theorem hierarchy_controllers (reachable : Reachable launch w) :
    (∀ serial parent, serial :: parent ∈ w.groups → (w.group (serial :: parent)).removed = false →
      Within (w.group (serial :: parent)).subtree (w.group parent).subtree) ∧
    ∀ m ∈ w.members, m.tid ≠ 0 ∨ m.reserved = true → m.group ≠ [] → (w.group m.group).subtree = 0 :=
  ⟨reachable.nested.subset, reachable.nested.vacant⟩

def manager : Caller := { procs := fun _ => .ok (), boundary := [], delegates := false, initial := true }

/-- The root hands `pids` down to a group, and a task is cloned into it. -/
def delegated : World :=
  step (step (step shell.mount (.mkdir [] 0 none none))
    (.write { group := [], file := .subtree, data := "+pids".toList, caller := manager, actor := 7, visible := none }))
    (.clone 0 [0] manager false none true fun _ => false)

theorem delegated_controllers : Reachable shell delegated ∧ (delegated.group []).subtree = cgPids ∧
    (delegated.members.map Member.group) = [[0], []] ∧ (delegated.group [0]).subtree = 0 := by
  have reachable : Reachable shell delegated := by
    refine Reachable.step (Reachable.step (Reachable.step Reachable.mount _ ?_) _ ?_) _ ?_
    · exact trivial
    · exact trivial
    · exact trivial
  have placed : delegated.members.map Member.group = [[0], []] := by decide
  refine ⟨reachable, by decide, placed, ?_⟩
  exact (hierarchy_controllers reachable).2 { id := 1, group := [0], reserved := true, charged := true } (by decide)
    (.inr rfl) (by decide)

end Shroot.Cgroup
