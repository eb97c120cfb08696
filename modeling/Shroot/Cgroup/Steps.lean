import Shroot.Cgroup.Counters

namespace Shroot.Cgroup

open General List

variable {w' w : World} {id : MemberId} {p s c : GroupId → Int} {m : Member} {change : Member → Member} {g : GroupId}

section

variable {w'' : World}

/-- A member that is there, or that was promised its place. -/
def Member.Occupies (m : Member) : Prop := m.tid ≠ 0 ∨ m.reserved = true

/-- A group that members may come into. -/
def Open (w : World) (g : GroupId) : Prop := g ∈ w.groups ∧ (g ≠ [] → (w.group g).subtree = 0)

/-- A member was there, or one may come. -/
def Admits (w : World) (g : GroupId) : Prop := (∃ m ∈ w.members, m.Occupies ∧ m.group = g) ∨ Open w g

/-- Groups and controllers are the same, and members are only where they may be. -/
structure Stays (w w' : World) : Prop where
  groups : w'.groups = w.groups
  subtree : ∀ g, (w'.group g).subtree = (w.group g).subtree
  removed : ∀ g, (w'.group g).removed = (w.group g).removed
  members : ∀ x ∈ w'.members, x.Occupies → Admits w x.group

theorem Member.Occupies.admits (fills : m.Occupies) (mem : m ∈ w.members) : Admits w m.group :=
  .inl ⟨m, mem, fills, rfl⟩

theorem Stays.refl (w : World) : Stays w w := ⟨rfl, fun _ => rfl, fun _ => rfl, fun _ mem fills => fills.admits mem⟩

theorem Stays.opens (stays : Stays w w') : Open w' g ↔ Open w g := by rw [Open, Open, stays.groups, stays.subtree]

theorem Stays.trans (first : Stays w w') (two : Stays w' w'') : Stays w w'' := by
  refine ⟨two.groups.trans first.groups, fun g => (two.subtree g).trans (first.subtree g),
    fun g => (two.removed g).trans (first.removed g), fun x mem fills => ?_⟩
  rcases two.members x mem fills with ⟨y, isIn, held, same⟩ | opens
  · exact same ▸ first.members y isIn held
  · exact .inr (first.opens.mp opens)

theorem Stays.addMember (stays : Stays w w') (admits : Admits w g) : Stays w (addMember w' g) := by
  refine ⟨stays.groups, stays.subtree, stays.removed, fun x mem fills => ?_⟩
  rcases mem_cons.mp mem with rfl | old
  · exact admits
  · exact stays.members x old fills

theorem Stays.filter (stays : Stays w w') (keep : Member → Bool) :
    Stays w { w' with members := w'.members.filter keep } :=
  ⟨stays.groups, stays.subtree, stays.removed, fun x mem => stays.members x (mem_filter.mp mem).1⟩

theorem Shift.stays (shift : Shift w w' c p s) (members : w'.members = w.members) : Stays w w' :=
  ⟨shift.groups, shift.subtree, shift.removed, fun _ mem fills => fills.admits (members ▸ mem)⟩

/-- A change of one member that takes it only where it may be. -/
theorem Modifies.stays (modifies : Modifies w w' id change c p s)
    (admits : ∀ m ∈ w.members, m.id = id → (change m).Occupies → Admits w (change m).group) : Stays w w' := by
  refine ⟨modifies.shift.groups, modifies.shift.subtree, modifies.shift.removed, fun x mem fills => ?_⟩
  rw [modifies.members] at mem
  obtain ⟨m, isIn, rfl⟩ := mem_map.mp mem
  by_cases here : m.id = id
  · rw [if_pos here] at fills ⊢
    exact admits m isIn here fills
  · rw [if_neg here] at fills ⊢
    exact fills.admits isIn

/-- The counters stay right, and members are only where they may be. -/
structure Passes (w w' : World) : Prop where
  counted : Counted w → Counted w'
  stays : Stays w w'

theorem Passes.refl (w : World) : Passes w w := ⟨fun counted => counted, Stays.refl w⟩

theorem Passes.trans (first : Passes w w') (two : Passes w' w'') : Passes w w'' :=
  ⟨fun good => two.counted (first.counted good), first.stays.trans two.stays⟩

theorem Modifies.passes (modifies : Modifies w w' m.id change c p s) (mem : m ∈ w.members)
    (follows : Follows m (change m) c p s) (kept : ∀ x, (change x).id = x.id ∧ (change x).group = x.group ∧
      ((change x).Occupies → x.Occupies)) : Passes w w' := by
  refine ⟨fun good => ?_, modifies.stays fun x isIn _ fills => ?_⟩
  · exact good.update mem modifies (kept m).1 ((kept m).2.1 ▸ good.known m mem) follows
  · rw [(kept x).2.1]
    exact ((kept x).2.2 fills).admits isIn

theorem modify_passes (mem : m ∈ w.members)
    (kept : ∀ x, (change x).id = x.id ∧ (change x).group = x.group ∧ ((change x).Occupies → x.Occupies))
    (charged : (change m).charged = m.charged) (live : (change m).live = m.live)
    (halted : (change m).halted = m.halted) :
    Passes w (w.modify m.id change) := by
  have group := (kept m).2.1
  refine ((Shift.refl w).modify rfl _ _).passes mem ⟨fun g => ?_, fun g => ?_, fun g => ?_⟩ kept
  · simp [group, charged]
  · simp [group, live]
  · simp [group, halted]

end

/-- A member stays where it is while another one changes. -/
def Spares (w w' : World) (id : MemberId) : Prop := ∀ x ∈ w.members, x.id ≠ id → x ∈ w'.members

theorem Modifies.spares (modifies : Modifies w w' id change c p s) : Spares w w' id := by
  intro x mem ne
  rw [modifies.members]
  exact mem_map.mpr ⟨x, mem, if_neg ne⟩

theorem charge_shift (w : World) (g : GroupId) (amount : Int) :
    Shift w (w.along none g (Group.charge amount)) (fun n => branch g n * amount) (fun _ => 0) fun _ => 0 := by
  refine (along_shift (by simp) (charge_adds amount)).congr (fun n => by rw [reach_none]) (fun n => ?_) fun n => ?_ <;>
    simp

theorem pidsUncharge_counted (good : Counted w) (mem : m ∈ w.members) : Counted (pidsUncharge w m) := by
  unfold pidsUncharge
  split
  · exact good
  next charged =>
    have charged : m.charged = true := by simpa using charged
    refine good.update mem ((charge_shift w m.group (-1)).modify rfl _ _) rfl (good.known m mem)
      ⟨fun g => ?_, fun g => (sub_self _).symm, fun g => (sub_self _).symm⟩
    simp [charged]

theorem pidsUncharge_spares (w : World) (m : Member) : Spares w (pidsUncharge w m) m.id := by
  unfold pidsUncharge
  split
  · exact fun x mem _ => mem
  · exact ((charge_shift w m.group (-1)).modify rfl _ _).spares

theorem pidsUncharge_stays (w : World) (m : Member) : Stays w (pidsUncharge w m) := by
  unfold pidsUncharge
  split
  · exact .refl w
  · exact ((charge_shift w m.group (-1)).modify rfl _ _).stays fun x mem _ held => .inl ⟨x, mem, held, rfl⟩

/-- The rule of a loop over the members: every pass keeps what holds and spares the other members. -/
theorem foldl_members {pass : World → Member → World} (has : World → Prop) (nodup : (w.members.map Member.id).Nodup)
    (init : has w) (keeps : ∀ w m, has w → m ∈ w.members → has (pass w m))
    (spares : ∀ w m, Spares w (pass w m) m.id) : has (w.members.foldl pass w) := by
  suffices rest : ∀ (todo : List Member) (w : World), has w → (todo.map Member.id).Nodup → (∀ m ∈ todo, m ∈ w.members) →
      has (todo.foldl pass w) from rest w.members w init nodup fun _ mem => mem
  intro todo
  induction todo with
  | nil => exact fun w init _ _ => init
  | cons m todo ih =>
    intro w init nodup isIn
    obtain ⟨apart, nodup⟩ := nodup_cons.mp nodup
    refine ih (pass w m) (keeps w m init (isIn m mem_cons_self)) nodup fun x later => ?_
    refine spares w m x (isIn x (mem_cons_of_mem m later)) fun same => apart ?_
    exact same ▸ mem_map_of_mem later

theorem pidsReconcile_counted (good : Counted w) (gone : MemberId → Bool) : Counted (pidsReconcile w gone) := by
  refine foldl_members Counted good.distinct good (fun w m good mem => ?_) fun w m => ?_
  · split
    · exact pidsUncharge_counted good mem
    · exact good
  · split
    · exact pidsUncharge_spares w m
    · exact fun x mem _ => mem

theorem pidsReconcile_stays (w : World) (gone : MemberId → Bool) : Stays w (pidsReconcile w gone) := by
  unfold pidsReconcile
  generalize w.members = todo
  induction todo generalizing w with
  | nil => exact .refl w
  | cons m todo ih =>
    rw [foldl_cons]
    split
    · exact (pidsUncharge_stays w m).trans (ih _)
    · exact ih w

theorem addMember_counted (good : Counted w) (isIn : g ∈ w.groups) : Counted (addMember (pidsCharge w g) g) := by
  have shift := charge_shift w g 1
  refine ⟨good.closed, ?_, ?_, ?_, ?_, ?_, ?_, ?_, ?_⟩
  · intro m mem
    rcases mem_cons.mp mem with rfl | old
    · exact isIn
    · exact good.known m old
  · refine nodup_cons.mpr ⟨fun used => ?_, good.distinct⟩
    obtain ⟨m, mem, same⟩ := mem_map.mp used
    exact absurd (good.fresh m mem) (by simp [same, pidsCharge, World.along])
  · intro m mem
    rcases mem_cons.mp mem with rfl | old
    · exact Nat.lt_succ_self _
    · exact Nat.lt_succ_of_lt (good.fresh m old)
  · intro n known
    have old := good.charged n known
    show ((pidsCharge w g).group n).pidsCharged = tally Member.group Member.charged (_ :: w.members) n
    rw [tally_cons, share_eq_branch, pidsCharge, shift.charged, old]
    simp only [if_true]
    ring
  · intro n known
    have old := good.populated n known
    show ((pidsCharge w g).group n).populated = tally Member.group Member.live (_ :: w.members) n
    rw [tally_cons, share_eq_branch, pidsCharge, shift.populated, old]
    simp [Member.live]
  · intro n known
    have old := good.stopped n known
    show ((pidsCharge w g).group n).stopped = tally Member.group Member.halted (_ :: w.members) n
    rw [tally_cons, share_eq_branch, pidsCharge, shift.stopped, old]
    simp [Member.halted]
  · intro n known
    show ((pidsCharge w g).group n).effectiveFreeze = freezing (pidsCharge w g).group n
    rw [pidsCharge, shift.effectiveFreeze, freezing_congr shift.freeze]
    exact good.effective n known
  · intro n known
    exact shift.settled n (good.settled n known)

/-- A reservation that succeeds keeps every ancestor within its limit. -/
theorem pidsFull_iff : pidsFull w g = true ↔ ∃ a, a <:+ g ∧ (w.group a).pidsMax ≤ (w.group a).pidsCharged := by
  rw [exists_suffix_iff (pidsFull w) (fun a => (w.group a).pidsMax ≤ (w.group a).pidsCharged) rfl fun _ _ => rfl]
  simp only [decide_eq_true_eq]

theorem pidsCharge_within (room : pidsFull w g = false) (a : GroupId) (above : a <:+ g) :
    ((pidsCharge w g).group a).pidsCharged ≤ ((pidsCharge w g).group a).pidsMax := by
  have shift := charge_shift w g 1
  have free : ¬ (w.group a).pidsMax ≤ (w.group a).pidsCharged := by
    intro full
    exact absurd (pidsFull_iff.mpr ⟨a, above, full⟩) (by simp [room])
  rw [pidsCharge, shift.charged, shift.pidsMax, branch, if_pos above]
  omega

/-- The end of `fork` and `clone`. -/
def reserveMember (w : World) (g : GroupId) (gone : MemberId → Bool) : World × Except Errno Unit :=
  let (reserved, fits) := pidsReserve w g gone
  if fits then (addMember reserved g, .ok ()) else (reserved, .error .EAGAIN)

theorem reserveMember_spec (w : World) (g : GroupId) (gone : MemberId → Bool) :
    (Counted w → g ∈ w.groups → Counted (reserveMember w g gone).1) ∧
      (Admits w g → Stays w (reserveMember w g gone).1) ∧ ((reserveMember w g gone).2 = .ok () →
      ∀ a, a <:+ g → ((reserveMember w g gone).1.group a).pidsCharged ≤
        ((reserveMember w g gone).1.group a).pidsMax) := by
  have stays := pidsReconcile_stays w gone
  unfold reserveMember pidsReserve
  cases full : pidsFull w g with
  | false =>
    exact ⟨fun good => addMember_counted good, ((charge_shift w g 1).stays rfl).addMember,
      fun _ => pidsCharge_within full⟩
  | true =>
    cases still : pidsFull (pidsReconcile w gone) g with
    | false =>
      simp only [still]
      refine ⟨fun good mem => ?_, (stays.trans ((charge_shift _ g 1).stays rfl)).addMember,
        fun _ => pidsCharge_within still⟩
      exact addMember_counted (pidsReconcile_counted good gone) (stays.groups ▸ mem)
    | true =>
      simp only [still]
      exact ⟨fun good _ => pidsReconcile_counted good gone, fun _ => stays, nofun⟩

theorem attachAllowed_free {source target : GroupId} {caller : Caller} {res : Unit}
    (may : attachAllowed w source target caller = .ok res) : target ≠ [] → (w.group target).subtree = 0 := by
  obtain ⟨_, -, rest⟩ := bind_ok.mp may
  simp only [failIf_bind_ok, failIf_ok] at rest
  intro below
  exact not_not.mp fun busy => rest.2 ⟨below, busy⟩

theorem memberFork_cases (w : World) (old : MemberId) (alloc : Bool) (gone : MemberId → Bool) :
    (∃ error, memberFork w old alloc gone = (w, .error error)) ∨
      ∃ m, w.find old = some m ∧ memberFork w old alloc gone = reserveMember w m.group gone := by
  unfold memberFork
  split
  · exact .inl ⟨_, rfl⟩
  next m found =>
    split
    · exact .inl ⟨_, rfl⟩
    · exact .inr ⟨m, found, rfl⟩

theorem memberClone_cases (w : World) (parent : MemberId) (target : GroupId) (caller : Caller) (thread : Bool)
    (bad : Option Errno) (alloc : Bool) (gone : MemberId → Bool) :
    (∃ error, memberClone w parent target caller thread bad alloc gone = (w, .error error)) ∨
      Open w target ∧ memberClone w parent target caller thread bad alloc gone = reserveMember w target gone := by
  unfold memberClone
  split
  · exact .inl ⟨_, rfl⟩
  · exact .inl ⟨_, rfl⟩
  · dsimp only
    split
    · exact .inl ⟨_, rfl⟩
    next fine =>
      simp only [failIf_bind_ok, not_not] at fine
      obtain ⟨mem, -, rest⟩ := fine
      obtain ⟨_, -, rest⟩ := bind_ok.mp rest
      obtain ⟨_, may, -⟩ := bind_ok.mp rest
      exact .inr ⟨⟨mem, attachAllowed_free may⟩, rfl⟩

theorem memberFork_spec (w : World) (old : MemberId) (alloc : Bool) (gone : MemberId → Bool) :
    (Counted w → Counted (memberFork w old alloc gone).1) ∧
    ((∀ m ∈ w.members, m.id = old → m.Occupies) → Stays w (memberFork w old alloc gone).1) := by
  rcases memberFork_cases w old alloc gone with ⟨e, bad⟩ | ⟨m, found, reserves⟩
  · rw [bad]
    exact ⟨fun good => good, fun _ => .refl w⟩
  · obtain ⟨mem, isOld⟩ := find_some found
    obtain ⟨counts, stays, -⟩ := reserveMember_spec w m.group gone
    rw [reserves]
    exact ⟨fun good => counts good (good.known m mem), fun present => stays ((present m mem isOld).admits mem)⟩

theorem memberClone_passes (w : World) (parent : MemberId) (target : GroupId) (caller : Caller) (thread : Bool)
    (refused : Option Errno) (alloc : Bool) (gone : MemberId → Bool) :
    Passes w (memberClone w parent target caller thread refused alloc gone).1 := by
  rcases memberClone_cases w parent target caller thread refused alloc gone with ⟨e, bad⟩ | ⟨opens, reserves⟩
  · rw [bad]
    exact .refl w
  · obtain ⟨counts, stays, -⟩ := reserveMember_spec w target gone
    rw [reserves]
    exact ⟨fun good => counts good opens.1, stays (.inr opens)⟩

theorem Counted.remove (good : Counted w) (mem : m ∈ w.members)
    (isId : m.id = id) (uncharged : m.charged = false) (shift : Shift w w' (fun _ => 0) p s)
    (members : w'.members = w.members) (populated : ∀ g, p g = - if m.live then branch m.group g else 0)
    (stopped : ∀ g, s g = - if m.halted then branch m.group g else 0) :
    Counted { w' with members := w'.members.filter fun x => x.id ≠ id } := by
  subst isId
  have split : ∀ weigh g, tally Member.group weigh (w.members.filter fun x => x.id ≠ m.id) g =
      tally Member.group weigh w.members g - share Member.group weigh g m := by
    intro weigh g
    rw [tally_remove Member.group weigh good.distinct mem]
    ring
  have isIn : ∀ x ∈ w'.members.filter (fun x => x.id ≠ m.id), x ∈ w.members :=
    fun x left => members ▸ (mem_filter.mp left).1
  refine good.shift (shift.members _) (fun x left => good.known x (isIn x left)) ?_ (fun x left => ?_) (fun g => ?_)
    (fun g => ?_) fun g => ?_
  · rw [members]
    exact good.distinct.sublist (filter_sublist.map Member.id)
  · rw [shift.nextMember]
    exact good.fresh x (isIn x left)
  all_goals
    rw [members, split, share_eq_branch]
  · simp [uncharged]
  · rw [populated g]
    ring
  · rw [stopped g]
    ring

theorem pidsUncharge_member (w : World) (mem : m ∈ w.members) :
    { m with charged := false } ∈ (pidsUncharge w m).members := by
  unfold pidsUncharge
  split
  next uncharged =>
    have uncharged : m.charged = false := by simpa using uncharged
    rwa [← uncharged]
  · exact mem_map.mpr ⟨m, mem, if_pos rfl⟩

theorem memberRelease_passes (w : World) (id : MemberId) : Passes w (memberRelease w id) := by
  unfold memberRelease
  split
  · exact .refl w
  next m found =>
    obtain ⟨mem, rfl⟩ := find_some found
    split
    · exact modify_passes mem (fun _ => ⟨rfl, rfl, fun held => held⟩) rfl rfl rfl
    · have left := pidsUncharge_member w mem
      have stays := pidsUncharge_stays w m
      split
      next live =>
        have shift := membershipChange_shift (pidsUncharge w m) (some m.group) none m.stopped
        have members := membershipChange_members (pidsUncharge w m) (some m.group) none m.stopped
        refine ⟨fun good => ?_, (stays.trans (shift.stays members)).filter _⟩
        refine (pidsUncharge_counted good mem).remove left rfl rfl shift members (fun g => ?_) fun g => ?_
        · simp [branchOf, Member.live, live]
        · cases m.stopped <;> simp [branchOf, Member.halted, Member.live, live]
      next dead =>
        refine ⟨fun good => ?_, stays.filter _⟩
        refine (pidsUncharge_counted good mem).remove left rfl rfl (.refl _) rfl (fun g => ?_) fun g => ?_
        · simp [Member.live, not_not.mp dead]
        · simp [Member.halted, Member.live, not_not.mp dead]

theorem memberDepart_passes (w : World) (id : MemberId) (tid : Nat) : Passes w (memberDepart w id tid) := by
  unfold memberDepart
  split
  · exact .refl w
  next m found =>
    obtain ⟨mem, rfl⟩ := find_some found
    split
    next leaves =>
      obtain ⟨same, live⟩ := leaves
      have tid : m.tid ≠ 0 := same ▸ live
      refine ((membershipChange_shift w (some m.group) none m.stopped).modify
        (membershipChange_members _ _ _ _) _ _).passes
        mem ⟨fun g => ?_, fun g => ?_, fun g => ?_⟩ fun _ =>
          ⟨rfl, rfl, fun held => .inr (held.resolve_left fun live => live rfl)⟩
      · simp
      · simp [branchOf, Member.live, tid]
      · cases was : m.stopped <;> simp [branchOf, Member.halted, Member.live, tid, was]
    · exact .refl w

theorem memberReaped_passes (w : World) (id : MemberId) : Passes w (memberReaped w id) := by
  unfold memberReaped
  split
  · exact .refl w
  next m found => exact ⟨fun good => pidsUncharge_counted good (find_some found).1, pidsUncharge_stays w m⟩

theorem memberRetain_passes (w : World) (id : MemberId) : Passes w (memberRetain w id) := by
  by_cases present : ∃ m ∈ w.members, m.id = id
  · obtain ⟨m, mem, rfl⟩ := present
    exact modify_passes mem (fun _ => ⟨rfl, rfl, fun held => held⟩) rfl rfl rfl
  · have same : memberRetain w id = w := by
      unfold memberRetain World.modify
      congr 1
      conv_rhs => rw [← map_id' w.members]
      exact map_congr_left fun x mem => if_neg fun eq => present ⟨x, mem, eq⟩
    rw [same]
    exact .refl w

theorem memberFrozen_passes (w : World) (id : MemberId) (stopped : Bool) : Passes w (memberFrozen w id stopped) := by
  unfold memberFrozen
  split
  · exact .refl w
  next m found =>
    obtain ⟨mem, rfl⟩ := find_some found
    split
    · exact .refl w
    next ne =>
      have other : stopped = !m.stopped := by
        cases was : m.stopped <;> cases stopped <;> simp_all
      split
      next live =>
        have shift : Shift w ((w.modify m.id fun m => { m with stopped := stopped }).along none m.group
            (Group.stop (if stopped then 1 else -1))) (fun _ => 0) (fun _ => 0)
            fun g => branch m.group g * (if stopped then 1 else -1) := by
          refine (((Shift.refl w).members _).trans (along_shift (by simp) (stop_adds _))).congr (fun g => ?_)
            (fun g => ?_)
            fun g => ?_ <;> simp [reach_none]
        refine Modifies.passes ⟨shift, rfl⟩ mem ⟨fun g => ?_, fun g => ?_, fun g => ?_⟩ fun _ =>
          ⟨rfl, rfl, fun held => held⟩
        · simp
        · simp [Member.live]
        · subst other
          have tid : m.tid ≠ 0 := by simpa using live
          cases was : m.stopped <;> simp [Member.halted, Member.live, tid, was]
      next dead =>
        refine modify_passes mem (fun _ => ⟨rfl, rfl, fun held => held⟩) rfl rfl ?_
        simp [Member.halted, Member.live, not_not.mp dead]

/-- A member that gets its task is charged for it, if it was not, and the population of the groups follows the task. -/
theorem memberPublish_modifies (found : w.find id = some m) (tid tgid : Nat) :
    ∃ change c p s, Modifies w (memberPublish w id tid tgid) id change c p s ∧ Follows m (change m) c p s ∧
      ∀ x, (change x).id = x.id ∧ (change x).group = x.group := by
  have charge : ∃ first c, Modifies w (if tid ≠ 0 ∧
    !m.charged then (pidsCharge w m.group).modify id fun m => { m with charged := true } else w)
      id first c (fun _ => 0) (fun _ => 0) ∧ Follows m (first m) c (fun _ => 0) (fun _ => 0) ∧
      ∀ x, first x = { x with charged := (first x).charged } := by
    split
    next charges =>
      have uncharged : m.charged = false := by simpa using charges.2
      refine ⟨_, _, (charge_shift w m.group 1).modify rfl _ _,
        ⟨fun g => ?_, fun g => (sub_self _).symm, fun g => (sub_self _).symm⟩, fun _ => rfl⟩
      simp [uncharged]
    · exact ⟨_, _, .refl w id, ⟨fun g => (sub_self _).symm, fun g => (sub_self _).symm, fun g => (sub_self _).symm⟩,
        fun _ => rfl⟩
  rw [memberPublish, found]
  dsimp only
  obtain ⟨first, c, charges, follows, same⟩ := charge
  generalize (if tid ≠ 0 ∧ !m.charged then (pidsCharge w m.group).modify id fun m => { m with charged := true }
    else w) = w' at charges ⊢
  have task : ∀ after, (if m.tid = 0 ∧ tid ≠ 0 then membershipChange w' none (some m.group) m.stopped
        else if m.tid ≠ 0 ∧ tid = 0 then membershipChange w' (some m.group) none m.stopped else w') = after →
      ∃ p s, Shift w' after (fun _ => 0) p s ∧ after.members = w'.members ∧
        Follows m { m with tid := tid } (fun _ => 0) p s := by
    rintro _ rfl
    split
    next born =>
      refine ⟨_, _, membershipChange_shift _ _ _ _, membershipChange_members _ _ _ _, fun g => (sub_self _).symm,
        fun g => ?_, fun g => ?_⟩
      · simp [branchOf, Member.live, born]
      · cases was : m.stopped <;> simp [branchOf, Member.halted, Member.live, born, was]
    · split
      next dies =>
        refine ⟨_, _, membershipChange_shift _ _ _ _, membershipChange_members _ _ _ _, fun g => (sub_self _).symm,
          fun g => ?_, fun g => ?_⟩
        · simp [branchOf, Member.live, dies]
        · cases was : m.stopped <;> simp [branchOf, Member.halted, Member.live, dies, was]
      next notBorn notDying =>
        have alike : (tid != 0) = (m.tid != 0) := by
          rw [Bool.eq_iff_iff, bne_iff_ne, bne_iff_ne]
          exact ⟨fun alive dead => notBorn ⟨dead, alive⟩, fun live zero => notDying ⟨live, zero⟩⟩
        refine ⟨_, _, .refl w', rfl, fun g => (sub_self _).symm, fun g => ?_, fun g => ?_⟩ <;>
          simp [Member.live, Member.halted, alike]
  obtain ⟨p, s, shift, members, population⟩ := task _ rfl
  refine ⟨_, _, _, _, charges.trans (shift.modify members _ _) fun x => by
    rw [same x], ⟨fun g => ?_, fun g => ?_, fun g => ?_⟩,
    fun x => by rw [same x]; exact ⟨rfl, rfl⟩⟩
  · rw [follows.charged g, same m]
    simp
  · rw [population.populated g, same m]
    simp [Member.live]
  · rw [population.stopped g, same m]
    simp [Member.live, Member.halted]

theorem memberPublish_spec (w : World) (id : MemberId) (tid tgid : Nat) :
    (Counted w → Counted (memberPublish w id tid tgid)) ∧
      ((∀ m ∈ w.members, m.id = id → m.Occupies) → Stays w (memberPublish w id tid tgid)) := by
  cases found : w.find id with
  | none =>
    rw [memberPublish, found]
    exact ⟨fun good => good, fun _ => .refl w⟩
  | some m =>
    obtain ⟨mem, rfl⟩ := find_some found
    obtain ⟨change, c, p, s, modifies, follows, kept⟩ := memberPublish_modifies found tid tgid
    refine ⟨fun good => ?_, fun present => modifies.stays fun x isIn here _ => ?_⟩
    · exact good.update mem modifies (kept m).1 ((kept m).2 ▸ good.known m mem) follows
    · rw [(kept x).2]
      exact (present x isIn here).admits isIn

/-- The change of groups, in three parts: the charge, the population and the group itself. -/
theorem moveMember_modifies (w : World) (g : GroupId) (m : Member) :
    ∃ change c p s, Modifies w (moveMember w g m) m.id change c p s ∧ Follows m (change m) c p s ∧
      ∀ x, (change x).id = x.id ∧ (change x).group = g := by
  have charge : ∃ first : Member → Member, Modifies w (if m.charged ∧ m.group ≠ g
        then (pidsCharge (pidsUncharge w m) g).modify m.id fun m => { m with charged := true } else w) m.id first
        (fun n => if m.charged then branch g n - branch m.group n else 0) (fun _ => 0) (fun _ => 0) ∧
      first m = m ∧ ∀ x, (first x).id = x.id := by
    split
    next moving =>
      refine ⟨fun x => { x with charged := true }, ?_, ?_, fun _ => rfl⟩
      · rw [pidsUncharge, if_neg (by simp [moving.1])]
        have both := ((charge_shift w m.group (-1)).modify rfl m.id fun x => { x with charged := false }).trans
          ((charge_shift _ g 1).modify rfl m.id fun x => { x with charged := true }) fun _ => rfl
        refine ⟨both.shift.congr (fun n => ?_) (fun n => ?_) (fun n => ?_), both.members⟩
        · simp only [moving.1, if_true]
          ring
        · simp
        · simp
      · rw [← moving.1]
    next staying =>
      refine ⟨fun x => x, ⟨(Shift.refl w).congr (fun n => ?_) (fun _ => rfl) fun _ => rfl,
        (Modifies.refl w m.id).members⟩, rfl, fun _ => rfl⟩
      by_cases charged : m.charged
      · have same : m.group = g := not_not.mp fun ne => staying ⟨charged, ne⟩
        simp [same]
      · simp [charged]
  obtain ⟨first, charges, kept, ids⟩ := charge
  unfold moveMember
  generalize (if m.charged ∧ m.group ≠ g
    then (pidsCharge (pidsUncharge w m) g).modify m.id fun m => { m with charged := true }
    else w) = w' at charges ⊢
  have population :
    Shift w' (if m.tid ≠ 0 then membershipChange w' (some m.group) (some g) m.stopped else w') (fun _ => 0)
      (fun n => if m.live then branch g n - branch m.group n else 0)
      fun n => if m.halted then branch g n - branch m.group n else 0 := by
    split
    next live =>
      refine (membershipChange_shift w' (some m.group) (some g) m.stopped).congr (fun _ => rfl)
        (fun n => ?_) fun n => ?_
      · simp [branchOf, Member.live, live]
      · simp [branchOf, Member.halted, Member.live, live]
    next dead =>
      refine (Shift.refl w').congr (fun _ => rfl) (fun n => ?_) fun n => ?_
      · simp [Member.live, not_not.mp dead]
      · simp [Member.halted, Member.live, not_not.mp dead]
  have members : (if m.tid ≠ 0 then membershipChange w' (some m.group) (some g) m.stopped else w').members =
      w'.members := by
    split
    · exact membershipChange_members _ _ _ _
    · rfl
  refine ⟨_, _, _, _, charges.trans (population.modify members _ _) ids, ⟨fun n => ?_, fun n => ?_, fun n => ?_⟩,
    fun x => ⟨ids x, rfl⟩⟩
  · rw [kept]
    cases m.charged <;> simp
  · rw [kept]
    show 0 + (if m.live then branch g n - branch m.group n else 0) =
      (if m.live then branch g n else 0) - if m.live then branch m.group n else 0
    cases m.live <;> simp
  · rw [kept]
    show 0 + (if m.halted then branch g n - branch m.group n else 0) =
      (if m.halted then branch g n else 0) - if m.halted then branch m.group n else 0
    cases m.halted <;> simp

theorem moveMembers_counted (good : Counted w) (isIn : g ∈ w.groups) (file : ControlFile) (target : Member) :
    Counted (moveMembers w g file target) := by
  -- the groups stay what they are, so that the new group stays one of them
  refine (foldl_members (fun w => Counted w ∧ g ∈ w.groups) good.distinct ⟨good, isIn⟩ (fun w m held mem => ?_)
    fun w m => ?_).1
  · obtain ⟨good, isIn⟩ := held
    split
    · obtain ⟨change, c, p, s, modifies, follows, moved⟩ := moveMember_modifies w g m
      exact ⟨good.update mem modifies (moved m).1 ((moved m).2 ▸ isIn) follows, modifies.shift.groups ▸ isIn⟩
    · exact ⟨good, isIn⟩
  · split
    · obtain ⟨change, c, p, s, modifies, -⟩ := moveMember_modifies w g m
      exact modifies.spares
    · exact fun x mem _ => mem

theorem moveMembers_stays (opens : Open w g) (file : ControlFile) (target : Member) :
    Stays w (moveMembers w g file target) := by
  unfold moveMembers
  generalize w.members = todo
  induction todo generalizing w with
  | nil => exact .refl w
  | cons m todo ih =>
    rw [foldl_cons]
    split
    · obtain ⟨change, c, p, s, modifies, -, moved⟩ := moveMember_modifies w g m
      have stays := modifies.stays fun x _ _ _ => .inr ((moved x).2 ▸ opens)
      exact stays.trans (ih (stays.opens.mpr opens))
    · exact ih opens

end Shroot.Cgroup
