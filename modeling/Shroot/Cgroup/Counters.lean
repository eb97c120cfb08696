import Shroot.Cgroup.Model

namespace Shroot.Cgroup

open General Option

variable {w w' w'' : World} {c p s c' p' s' : GroupId → Int} {id : MemberId} {m : Member} {g : GroupId}
  {group : GroupId → Group}

/-- A group says that it is frozen when it is to freeze and all of its members are stopped. -/
def Group.Settled (g : Group) : Prop := g.frozen = (g.effectiveFreeze && g.stopped == g.populated)

@[simp] theorem Group.refreeze_settled (g : Group) : g.refreeze.Settled := rfl

/-- What the walks over the ancestors of groups do: they add to the counters. -/
structure Shift (w w' : World) (charged populated stopped : GroupId → Int) : Prop where
  groups : w'.groups = w.groups
  charged : ∀ g, (w'.group g).pidsCharged = (w.group g).pidsCharged + charged g
  populated : ∀ g, (w'.group g).populated = (w.group g).populated + populated g
  stopped : ∀ g, (w'.group g).stopped = (w.group g).stopped + stopped g
  freeze : ∀ g, (w'.group g).freeze = (w.group g).freeze
  effectiveFreeze : ∀ g, (w'.group g).effectiveFreeze = (w.group g).effectiveFreeze
  settled : ∀ g, (w.group g).Settled → (w'.group g).Settled
  pidsMax : ∀ g, (w'.group g).pidsMax = (w.group g).pidsMax
  subtree : ∀ g, (w'.group g).subtree = (w.group g).subtree
  removed : ∀ g, (w'.group g).removed = (w.group g).removed
  nextMember : w'.nextMember = w.nextMember

/-- One for the ancestors of a group, the group itself with them. -/
def branch (here g : GroupId) : Int := if g <:+ here then 1 else 0

section

theorem Shift.refl (w : World) : Shift w w (fun _ => 0) (fun _ => 0) fun _ => 0 := by
  refine ⟨rfl, ?_, ?_, ?_, fun _ => rfl, fun _ => rfl, fun _ done => done, fun _ => rfl, fun _ => rfl,
    fun _ => rfl, rfl⟩ <;>
    simp

theorem Shift.trans (first : Shift w w' c p s) (second : Shift w' w'' c' p' s') :
    Shift w w'' (fun g => c g + c' g) (fun g => p g + p' g) fun g => s g + s' g where
  groups := second.groups.trans first.groups
  charged g := by rw [second.charged, first.charged, add_assoc]
  populated g := by rw [second.populated, first.populated, add_assoc]
  stopped g := by rw [second.stopped, first.stopped, add_assoc]
  freeze g := (second.freeze g).trans (first.freeze g)
  effectiveFreeze g := (second.effectiveFreeze g).trans (first.effectiveFreeze g)
  settled g held := second.settled g (first.settled g held)
  pidsMax g := (second.pidsMax g).trans (first.pidsMax g)
  subtree g := (second.subtree g).trans (first.subtree g)
  removed g := (second.removed g).trans (first.removed g)
  nextMember := second.nextMember.trans first.nextMember

theorem Shift.congr (shift : Shift w w' c p s) (charged : ∀ g, c g = c' g) (populated : ∀ g, p g = p' g)
    (stopped : ∀ g, s g = s' g) : Shift w w' c' p' s' := by
  obtain rfl : c = c' := funext charged
  obtain rfl : p = p' := funext populated
  obtain rfl : s = s' := funext stopped
  exact shift

theorem Shift.members (shift : Shift w w' c p s) (members : List Member) :
    Shift w { w' with members := members } c p s :=
  ⟨shift.groups, shift.charged, shift.populated, shift.stopped, shift.freeze, shift.effectiveFreeze, shift.settled,
    shift.pidsMax, shift.subtree, shift.removed, shift.nextMember⟩

variable {stop : Option GroupId}

/-- What a change adds to the counters of a group. -/
structure Adds (change : Group → Group) (charged populated stopped : Int) : Prop where
  charged : ∀ g, (change g).pidsCharged = g.pidsCharged + charged
  populated : ∀ g, (change g).populated = g.populated + populated
  stopped : ∀ g, (change g).stopped = g.stopped + stopped
  freeze : ∀ g, (change g).freeze = g.freeze
  effectiveFreeze : ∀ g, (change g).effectiveFreeze = g.effectiveFreeze
  settled : ∀ g, g.Settled → (change g).Settled
  pidsMax : ∀ g, (change g).pidsMax = g.pidsMax
  subtree : ∀ g, (change g).subtree = g.subtree
  removed : ∀ g, (change g).removed = g.removed

variable (amount : Int)

theorem charge_adds : Adds (Group.charge amount) amount 0 0 := by
  constructor <;> intro g <;> simp [Group.charge, Group.Settled]

theorem populate_adds (stopped : Bool) :
    Adds (Group.populate amount stopped) 0 amount (if stopped then amount else 0) := by
  constructor <;> intro g <;> simp [Group.populate, Group.refreeze, Group.Settled]
  cases stopped <;> simp

theorem stop_adds : Adds (Group.stop amount) 0 0 amount := by
  constructor <;> intro g <;> simp [Group.stop, Group.refreeze, Group.Settled]

/-- One for the groups that a walk reaches. -/
def reach (stop : Option GroupId) (here g : GroupId) : Int :=
  if g <:+ here ∧ ∀ a, stop = some a → ¬ g <:+ a then 1 else 0

theorem along_shift (above : ∀ a, stop = some a → a <:+ g) {change : Group → Group}
    {charged populated stopped : Int} (adds : Adds change charged populated stopped) :
    Shift w (w.along stop g change) (fun n => reach stop g n * charged) (fun n => reach stop g n * populated)
      fun n => reach stop g n * stopped := by
  have got : ∀ n, (w.along stop g change).group n = _ := climb_apply change above w.group
  constructor
  case groups => rfl
  case nextMember => rfl
  case settled =>
    intro n held
    rw [got n]
    split
    · exact adds.settled _ held
    · exact held
  all_goals
    intro n
    rw [got n]
    by_cases inside : n <:+ g ∧ ∀ a, stop = some a → ¬ n <:+ a
    · simp only [if_pos inside, reach, adds.charged, adds.populated, adds.stopped, adds.freeze, adds.effectiveFreeze,
        adds.pidsMax, adds.subtree, adds.removed, one_mul]
    · simp only [if_neg inside, reach, zero_mul, add_zero]

theorem reach_none (g n : GroupId) : reach none g n = branch g n := by simp [reach, branch]

/-- One for the ancestors of a group, if there is one. -/
def branchOf : Option GroupId → GroupId → Int
  | some g, n => branch g n
  | none, _ => 0

theorem reach_common (old next n : GroupId) :
    reach (some (meet next old)) next n - reach (some (meet next old)) old n = branch next n - branch old n := by
  simp only [reach, branch, some.injEq, forall_eq', suffix_meet_iff]
  by_cases inOld : n <:+ old <;> by_cases inNext : n <:+ next <;> simp [inOld, inNext]

theorem membershipChange_shift (w : World) (old next : Option GroupId) (stopped : Bool) :
    Shift w (membershipChange w old next stopped) (fun _ => 0) (fun n => branchOf next n - branchOf old n)
      fun n => if stopped then branchOf next n - branchOf old n else 0 := by
  unfold membershipChange
  split
  next same =>
    subst same
    exact (Shift.refl w).congr (fun _ => rfl) (fun _ => (sub_self _).symm) fun _ => by simp
  · cases old with
    | none =>
      cases next with
      | none => rename_i differs; exact absurd rfl differs
      | some g =>
        refine (along_shift (by simp [commonGroup]) (populate_adds 1 stopped)).congr (fun n => ?_) (fun n => ?_)
          fun n => ?_ <;>
          simp [commonGroup, reach_none, branchOf]
    | some o =>
      cases next with
      | none =>
        refine (along_shift (by simp [commonGroup]) (populate_adds (-1) stopped)).congr (fun n => ?_) (fun n => ?_)
          fun n => ?_ <;>
          simp [commonGroup, reach_none, branchOf]
      | some g =>
        have aboveOld : ∀ a, some (meet g o) = some a → a <:+ o := fun a same => some.inj same ▸ (meet_suffix g o).1
        have aboveNext : ∀ a, some (meet g o) = some a → a <:+ g := fun a same => some.inj same ▸ (meet_suffix g o).2
        refine ((along_shift aboveOld (populate_adds (-1) stopped)).trans
          (along_shift aboveNext (populate_adds 1 stopped))).congr (fun n => by simp) (fun n => ?_) fun n => ?_
        · have := reach_common o g n
          simp only [branchOf]
          omega
        · have := reach_common o g n
          simp only [branchOf]
          cases stopped <;> simp only [Bool.false_eq_true, if_false, if_true] <;> omega

theorem membershipChange_members (w : World) (old next : Option GroupId) (stopped : Bool) :
    (membershipChange w old next stopped).members = w.members := by
  unfold membershipChange
  split
  · rfl
  · cases old <;> cases next <;> rfl

end

open List

/-- A member that counts for the population of its group. -/
def Member.live (m : Member) : Bool := m.tid != 0

def Member.halted (m : Member) : Bool := m.stopped && m.live

/-- The counters of the groups are what they stand for. -/
structure Counted (w : World) : Prop where
  closed : ∀ serial parent, serial :: parent ∈ w.groups → parent ∈ w.groups
  known : ∀ m ∈ w.members, m.group ∈ w.groups
  distinct : (w.members.map Member.id).Nodup
  fresh : ∀ m ∈ w.members, m.id < w.nextMember
  charged : ∀ g ∈ w.groups, (w.group g).pidsCharged = tally Member.group Member.charged w.members g
  populated : ∀ g ∈ w.groups, (w.group g).populated = tally Member.group Member.live w.members g
  stopped : ∀ g ∈ w.groups, (w.group g).stopped = tally Member.group Member.halted w.members g
  effective : ∀ g ∈ w.groups, (w.group g).effectiveFreeze = freezing w.group g
  settled : ∀ g ∈ w.groups, (w.group g).Settled

theorem find_some (found : w.find id = some m) : m ∈ w.members ∧ m.id = id :=
  ⟨mem_of_find?_eq_some found, by simpa using find?_some found⟩

theorem freezing_congr {group' : GroupId → Group} (same : ∀ g, (group' g).freeze = (group g).freeze) (g : GroupId) :
    freezing group' g = freezing group g := by
  induction g with
  | nil => exact same []
  | cons serial parent ih => rw [freezing, freezing, same, ih]

/-- A group is to freeze when it or an ancestor is told so. -/
theorem freezing_iff : freezing group g = true ↔ ∃ a, a <:+ g ∧ (group a).freeze = true :=
  exists_suffix_iff (freezing group) (fun a => (group a).freeze) rfl fun _ _ => rfl

variable {change : Member → Member}

theorem share_eq_branch (weigh : Member → Bool) (g : GroupId) (m : Member) :
    share Member.group weigh g m = if weigh m then branch m.group g else 0 := by
  by_cases counts : weigh m <;> simp [share, branch, counts]

theorem Counted.shift (good : Counted w) (shift : Shift w w' c p s) (known : ∀ m ∈ w'.members, m.group ∈ w.groups)
    (nodup : (w'.members.map Member.id).Nodup) (fresh : ∀ m ∈ w'.members, m.id < w'.nextMember)
    (charged :
      ∀ g, tally Member.group Member.charged w'.members g = tally Member.group Member.charged w.members g + c g)
    (populated : ∀ g, tally Member.group Member.live w'.members g = tally Member.group Member.live w.members g + p g)
    (stopped :
      ∀ g, tally Member.group Member.halted w'.members g = tally Member.group Member.halted w.members g + s g) :
    Counted w' where
  closed := shift.groups ▸ good.closed
  known m mem := shift.groups ▸ known m mem
  distinct := nodup
  fresh := fresh
  charged g inside := by rw [shift.charged, charged, good.charged g (shift.groups ▸ inside)]
  populated g inside := by rw [shift.populated, populated, good.populated g (shift.groups ▸ inside)]
  stopped g inside := by rw [shift.stopped, stopped, good.stopped g (shift.groups ▸ inside)]
  effective g inside := by
    rw [shift.effectiveFreeze, freezing_congr shift.freeze, good.effective g (shift.groups ▸ inside)]
  settled g inside := shift.settled g (good.settled g (shift.groups ▸ inside))

theorem map_modify_ids {members : List Member} (nodup : (members.map Member.id).Nodup) (mem : m ∈ members)
    (id : (change m).id = m.id) :
    (members.map fun x => if x.id = m.id then change x else x).map Member.id = members.map Member.id := by
  rw [List.map_map]
  refine map_congr_left fun x isIn => ?_
  by_cases same : x.id = m.id
  · have isM : x = m := inj_on_of_nodup_map nodup isIn mem same
    simp [isM, id]
  · simp [same]

/-- The members with an identifier change together with the counters. -/
structure Modifies (w w' : World) (id : MemberId) (change : Member → Member) (c p s : GroupId → Int) : Prop where
  shift : Shift w w' c p s
  members : w'.members = w.members.map fun x => if x.id = id then change x else x

theorem Shift.modify (shift : Shift w w' c p s) (members : w'.members = w.members) (id : MemberId)
    (change : Member → Member) :
    Modifies w (w'.modify id change) id change c p s :=
  ⟨shift.members _, by rw [World.modify, members]⟩

theorem Modifies.refl (w : World) (id : MemberId) : Modifies w w id (fun x => x) (fun _ => 0) (fun _ => 0) fun _ => 0 :=
  ⟨.refl w, by simp⟩

theorem Modifies.trans {change' : Member → Member}
    (first : Modifies w w' id change c p s) (two : Modifies w' w'' id change' c' p' s')
    (kept : ∀ x, (change x).id = x.id) :
    Modifies w w'' id (fun x => change' (change x)) (fun g => c g + c' g) (fun g => p g + p' g) fun g =>
      s g + s' g := by
  refine ⟨first.shift.trans two.shift, ?_⟩
  rw [two.members, first.members, List.map_map]
  refine map_congr_left fun x _ => ?_
  by_cases same : x.id = id <;> simp [same, kept]

/-- What the counters do when a member becomes another. -/
structure Follows (old new : Member) (c p s : GroupId → Int) : Prop where
  charged : ∀ g, c g = (if new.charged then branch new.group g else 0) - if old.charged then branch old.group g else 0
  populated : ∀ g, p g = (if new.live then branch new.group g else 0) - if old.live then branch old.group g else 0
  stopped : ∀ g, s g = (if new.halted then branch new.group g else 0) - if old.halted then branch old.group g else 0

theorem Counted.update (good : Counted w) (mem : m ∈ w.members) (modifies : Modifies w w' m.id change c p s)
    (id : (change m).id = m.id) (group : (change m).group ∈ w.groups) (follows : Follows m (change m) c p s) :
    Counted w' := by
  obtain ⟨shift, members⟩ := modifies
  have changed : ∀ x ∈ w'.members, ∃ y ∈ w.members, x.id = y.id ∧ (x.group = y.group ∨ x.group = (change m).group) := by
    intro x isIn
    rw [members] at isIn
    obtain ⟨y, insideY, rfl⟩ := mem_map.mp isIn
    by_cases same : y.id = m.id
    · have isM : y = m := inj_on_of_nodup_map good.distinct insideY mem same
      refine ⟨y, insideY, ?_, .inr ?_⟩ <;> simp [isM, id]
    · exact ⟨y, insideY, by simp [same], .inl (by simp [same])⟩
  refine good.shift shift (fun x isIn => ?_) ?_ (fun x isIn => ?_) (fun g => ?_) (fun g => ?_) fun g => ?_
  · obtain ⟨y, insideY, -, same | same⟩ := changed x isIn
    · exact same ▸ good.known y insideY
    · exact same ▸ group
  · rw [members, map_modify_ids good.distinct mem id]
    exact good.distinct
  · obtain ⟨y, insideY, same, -⟩ := changed x isIn
    rw [same, shift.nextMember]
    exact good.fresh y insideY
  all_goals
    rw [members, tally_modify Member.group _ good.distinct mem change g, share_eq_branch, share_eq_branch]
  · rw [follows.charged g]
    ring
  · rw [follows.populated g]
    ring
  · rw [follows.stopped g]
    ring

end Shroot.Cgroup
