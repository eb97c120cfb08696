import Shroot.Network.History

namespace Shroot.Network

open General Option

variable {n : SpaceId} {m : Message}

section

def masterOf (links : List Interface) (index : UInt32) : Option UInt32 :=
  (interfaceFind links index none).bind fun l => if l.master = 0 then none else some l.master

/-- No link is its own master at any distance, and following the masters of a link ends at one that has none. -/
def MastersEnd (links : List Interface) : Prop :=
  ∀ l ∈ links, ¬ Relation.TransGen (fun i m => masterOf links i = some m) l.index l.index ∧
    ∃ k, ∃ e ∈ links, above (masterOf links) l.index k = some e.index ∧ e.master = 0

variable {links : List Interface}

theorem Mastered.ends (mastered : Mastered links) (nodup : (links.map Interface.index).Nodup)
    (numbered : ∀ x ∈ links, x.index ≠ 0) :
    MastersEnd links := by
  intro l mem
  have found : ∀ x ∈ links, interfaceFind links x.index none = some x :=
    fun x isIn => interfaceFind_self nodup isIn (numbered x isIn)
  have under : ∀ i m, masterOf links i = some m → Under links i m := by
    intro i m is
    obtain ⟨x, isLink, given⟩ := bind_eq_some_iff.mp is
    split at given
    · cases given
    next isPort =>
      obtain rfl := some.inj given
      exact ⟨x, interfaceFind_mem isLink, interfaceFind_index isLink, rfl, isPort⟩
  have grounded := mastered.grounded.mono under
  refine ⟨grounded.no_cycle _, ?_⟩
  obtain ⟨k, e, got, top⟩ := grounded.ends l.index
  -- what is reached is a link all the way
  have stays : ∀ k e, above (masterOf links) l.index k = some e → ∃ x ∈ links, x.index = e := by
    intro k
    induction k with
    | zero =>
      intro e is
      exact ⟨l, mem, some.inj is⟩
    | succ k ih =>
      intro e is
      obtain ⟨i, old, next⟩ := bind_eq_some_iff.mp is
      obtain ⟨x, isIn, -, rfl, isPort⟩ := under i e next
      exact mastered.present x isIn isPort
  obtain ⟨x, isIn, rfl⟩ := stays k e got
  refine ⟨k, x, isIn, got, ?_⟩
  by_contra isPort
  rw [masterOf, found x isIn, bind_some, if_neg isPort] at top
  cases top

end

section

variable {f : Fabric}

theorem atSpace_milder (id : SpaceId) {action : Fabric → EStateM Errno Namespace Unit}
    (moves : ∀ f, Moves Keeps (action f)) :
    Moves Milder (atSpace id action) := by
  intro f
  rw [leaves_atSpace]
  exact .same (bases_of_shapes (moves f (f.space id)))

theorem changeLink_mastered (numbered : Numbered f) (mastered : ∀ id, Mastered (f.space id).links) (grows : SpaceId →
    Bool) {c : LinkChange} (target peerTarget : Option SpaceId) (free : m.type = RTM_DELLINK ∨ ¬ Loops f n c) :
    ∀ id, Mastered ((leaves (changeLink grows n m c target peerTarget) f).space id).links := by
  by_cases deletes : m.type = RTM_DELLINK
  · rcases changeLink_delete numbered grows n c target peerTarget deletes with ⟨same, -⟩ | ⟨link, -, -, gone⟩
    · rw [same]
      exact mastered
    · rw [gone]
      exact fun id => (withoutLink_milder numbered n link id).1 (mastered id)
  · exact (changeLink_changes numbered grows n c target peerTarget deletes).mastered mastered
      (free.resolve_left deletes)

/-- A request for a link that does not put it beneath itself. -/
def LoopFree (f : Fabric) (n : SpaceId) (m : Message) : Prop :=
  m.type = RTM_NEWLINK ∨ m.type = RTM_SETLINK → ∀ c, parseLink m = .ok c → ¬ Loops f n c

theorem admission_change {env : Environment} {t : LinkTargets} (fine : admission env m = .ok (some t)) :
    parseLink m = .ok t.change ∧ (m.type = RTM_DELLINK ∨ m.type = RTM_NEWLINK ∨ m.type = RTM_SETLINK) := by
  unfold admission at fine
  split at fine
  next isLink =>
    simp only [failIf_bind_ok] at fine
    obtain ⟨-, rest⟩ := fine
    obtain ⟨change, read, rest⟩ := bind_ok.mp rest
    obtain ⟨target, -, rest⟩ := bind_ok.mp rest
    obtain ⟨peerTarget, -, rest⟩ := bind_ok.mp rest
    obtain rfl := some.inj (pure_ok.mp rest)
    simp only [isLinkRequest, Bool.or_eq_true, beq_iff_eq] at isLink
    exact ⟨read, by tauto⟩
  · simp only [failIf_bind_ok, pure_ok] at fine
    cases fine.2

section

variable (numbered : Numbered f) (mastered : ∀ id, Mastered (f.space id).links) (env : Environment)

include numbered mastered env

theorem trial_mastered (free : LoopFree f n m) :
    ∀ id, Mastered ((leaves (trial env f n m (admission env m)) f).space id).links := by
  intro id
  cases admitted : admission env m with
  | error error => exact mastered id
  | ok t =>
    cases ready : (checkpoints env f n t).2 with
    | error error =>
      simp only [trial, journal, ready, leaves_throw]
      exact mastered id
    | ok _ =>
      have rest : Milder (leaves (dispatch env n m t) f) (leaves (attempt env n m t (checkpoints env f n t).1) f) :=
        attempt_keeps env f n m t .refl (fun _ _ _ => .trans) fun id _ => atSpace_milder id
      rw [trial_ok ready]
      refine (rest id).1 ?_
      cases t with
      | none => exact (dispatch_keeps env m .refl (atSpace_milder n) f id).1 (mastered id)
      | some t =>
        obtain ⟨read, isLink⟩ := admission_change admitted
        refine changeLink_mastered numbered mastered env.grows t.target t.peerTarget ?_ id
        exact isLink.imp_right fun changes => free changes t.change read

theorem networkRoute_mastered (free : LoopFree f n m) :
    ∀ id, Mastered ((networkRoute env f n m).fabric.space id).links := by
  intro id
  by_cases request : has m.flags NLM_F_REQUEST
  · have tried := trial_mastered numbered mastered env free id
    rw [networkRoute_request request]
    rcases transact_cases env f n m (admission env m) with ⟨-, isLink, added, done⟩ | rolled
    · rw [done, settle_links]
      exact tried
    · rw [rolled]
      by_cases mem : id ∈ (journal env f n (admission env m)).1
      · rw [rollback_mem mem]
        exact mastered id
      · rw [rollback_other mem]
        exact tried
  · rw [networkRoute_ignored request]
    exact mastered id

end

theorem mastered_nil : Mastered [] := ⟨nofun, ⟨fun _ => 0, fun _ _ ⟨_, mem, _⟩ => (nomatch mem)⟩⟩

theorem namespaceCreate_mastered (numbered : Numbered f) (mastered : ∀ id, Mastered (f.space id).links)
    {grows routed : Bool} {id : SpaceId} {new : Fabric} (run : namespaceCreate grows f id routed = .ok new) :
    ∀ id, Mastered (new.space id).links := by
  obtain ⟨g, tends, rfl⟩ := namespaceCreate_tends numbered run
  intro other
  refine (tends.milder other).1 ?_
  by_cases same : other = id
  · rw [same, Fabric.put_self]
    exact mastered_nil
  · rw [Fabric.put_other f _ same]
    exact mastered other

/-- No request on the way puts a link beneath itself. -/
def LoopFreeRun : Fabric → List Event → Prop
  | _, [] => True
  | f, event :: rest =>
    (match event with
      | .create .. => True
      | .request _ n m => LoopFree f n m) ∧ LoopFreeRun (occur f event) rest

theorem run_mastered (events : List Event) :
    ∀ f : Fabric, Numbered f → (∀ id, Mastered (f.space id).links) → LoopFreeRun f events →
    Numbered (events.foldl occur f) ∧ ∀ id, Mastered ((events.foldl occur f).space id).links := by
  induction events with
  | nil => exact fun f numbered mastered _ => ⟨numbered, mastered⟩
  | cons event rest ih =>
    rintro f numbered mastered ⟨free, further⟩
    refine ih (occur f event) (occur_numbered numbered event) ?_ further
    cases event with
    | create grows id routed =>
      simp only [occur]
      split
      · exact mastered
      · cases run : namespaceCreate grows f id routed with
        | error _ => exact mastered
        | ok new => exact namespaceCreate_mastered numbered mastered run
    | request env n m => exact networkRoute_mastered numbered mastered env free

/-- As long as no request puts a link beneath itself, the masters come to an end. -/
theorem masters_end (events : List Event) (free : LoopFreeRun newFabric events) (id : SpaceId) :
    MastersEnd ((events.foldl occur newFabric).space id).links := by
  obtain ⟨numbered, mastered⟩ := run_mastered events newFabric newFabric_numbered (fun _ => mastered_nil) free
  exact (mastered id).ends (numbered.indexes id) fun x mem => numbered.index_ne mem

end

/-- Make a bridge of a name with one letter. -/
def makeBridge (letter : UInt8) : Message :=
  { type := RTM_NEWLINK, flags := NLM_F_REQUEST ||| NLM_F_CREATE
    body := linkHeader 0 ++ attributeBytes IFLA_IFNAME [letter, 0] ++
      attributeBytes IFLA_LINKINFO (attributeBytes IFLA_INFO_KIND bridgeName) }

def enslave (index master : Nat) : Message :=
  { type := RTM_SETLINK, flags := NLM_F_REQUEST
    body := linkHeader index ++ attributeBytes IFLA_MASTER (littleEndian 4 master) }

/-- A namespace with two bridges, 2 and 3. -/
def makeBridges : List Event :=
  [.create true 0 false, .request (smooth none) 0 (makeBridge 97), .request (smooth none) 0 (makeBridge 98)]

/-- The links of that namespace after one of them was to be put under another. -/
def enslavedLinks (index master : Nat) : List Interface :=
  (((makeBridges ++ [Event.request (smooth none) 0 (enslave index master)]).foldl occur newFabric).space 0).links

/-- A bridge can be made its own master. -/
theorem bridge_own_master : ¬ MastersEnd (enslavedLinks 2 2) := by
  have own : ∃ l ∈ enslavedLinks 2 2, masterOf (enslavedLinks 2 2) l.index = some l.index := by decide +kernel
  obtain ⟨l, mem, is⟩ := own
  exact fun ends => (ends l mem).1 (.single is)

theorem makeBridge_loopFree (f : Fabric) (n : SpaceId) {letter : UInt8}
    (unasked : (parseLink (makeBridge letter)).toOption.bind LinkChange.master = none) :
    LoopFree f n (makeBridge letter) := by
  rintro - c read ⟨link, master, -, asked, -⟩
  rw [read] at unasked
  have isNone : c.master = none := unasked
  rw [isNone] at asked
  cases asked

theorem enslave_loopFree : LoopFree (makeBridges.foldl occur newFabric) 0 (enslave 3 2) := by
  rintro - c read ⟨link, master, found, asked, -, climb⟩
  have fields : (parseLink (enslave 3 2)).toOption.map (fun c => (c.index, c.name, c.master)) =
      some (3, none, some 2) := by decide +kernel
  rw [read] at fields
  have triple : (c.index, c.name, c.master) = (3, none, some 2) := some.inj fields
  obtain ⟨idx, name, isMaster⟩ : c.index = 3 ∧ c.name = none ∧ c.master = some 2 := by simpa using triple
  have free : ∀ l ∈ ((makeBridges.foldl occur newFabric).space 0).links, l.master = 0 := by decide +kernel
  rw [idx, name] at found
  obtain rfl := mem_unique asked isMaster
  rw [interfaceFind_index found] at climb
  rcases Relation.ReflTransGen.cases_head climb with same | ⟨_, ⟨l, mem, -, rfl, isPort⟩, -⟩
  · exact absurd same (by decide)
  · exact isPort (free l mem)

theorem enslave_run : LoopFreeRun newFabric (makeBridges ++ [Event.request (smooth none) 0 (enslave 3 2)]) :=
  ⟨trivial, makeBridge_loopFree _ _ (by decide +kernel), makeBridge_loopFree _ _ (by decide +kernel),
    enslave_loopFree, trivial⟩

/-- One bridge under the other. -/
theorem masters_end_bridges : MastersEnd (enslavedLinks 3 2) :=
  masters_end (makeBridges ++ [Event.request (smooth none) 0 (enslave 3 2)]) enslave_run 0

end Shroot.Network
