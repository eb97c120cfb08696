import Shroot.Network.Transaction
import Shroot.Network.Links

namespace Shroot.Network

open General

section

variable {n after : Namespace} {allocates : Bool}

/-- The links of a namespace keep their outlines. -/
def Keeps (n after : Namespace) : Prop := after.links.map Interface.shape = n.links.map Interface.shape

def KeepsShape (link after : Interface) : Prop := after.shape = link.shape

theorem KeepsShape.refl (link : Interface) : KeepsShape link link := rfl

theorem KeepsShape.transitive (a b c : Interface) (first : KeepsShape a b) (two : KeepsShape b c) : KeepsShape a c :=
  Eq.trans two first

theorem createTemporary_moves (taken : Interface → IpAddress → Bool) (p : Assignment) (now : Int)
    (random : Nat → Except Errno UInt64) : Moves KeepsShape (createTemporary taken p now random) := by
  refine .get_bind fun link => ?_
  refine leaves_rejectIf_then rfl (leaves_ofExcept_then rfl fun a => ?_)
  rfl

section

variable (around : Surroundings) (taken : Interface → IpAddress → Bool) (now : Int)

include around taken now

theorem refreshTemplate_moves (i : Nat) : Moves KeepsShape (refreshTemplate around taken now i) := by
  refine .get_bind fun link => ?_
  split
  · rfl
  · split
    · rfl
    · split
      · rfl
      · refine leaves_ofExcept_then rfl fun _ => ?_
        exact createTemporary_moves taken _ now _ _

theorem addressRefresh_moves : Moves KeepsShape (addressRefresh around taken now) := by
  refine .bind KeepsShape.transitive (fun _ => rfl) fun _ => .get_bind fun link => ?_
  split
  · rfl
  · exact Moves.forM KeepsShape.refl KeepsShape.transitive (fun i _ => refreshTemplate_moves around taken now i) link

end

section

variable (around : Surroundings)

theorem onLink_keeps {pos : Nat} {old link : Interface} {action : EStateM Errno Interface Unit}
    (held : n.links[pos]? = some old) (same : link.shape = old.shape) (moves : Moves KeepsShape action) :
    Keeps n (leaves (onLink pos link action) n) := by
  have after : leaves (onLink pos link action) n = { n with links := n.links.set pos (leaves action link) } := by
    simp only [leaves, onLink, EStateM.run]
    cases action link <;> rfl
  rw [after]
  exact map_set_of_eq held ((moves link).trans same)

theorem networkAddresses_moves (f : Fabric) (id : SpaceId) (m : Message) :
    Moves Keeps (networkAddresses around f id m) := by
  refine .get_bind fun n => ?_
  refine leaves_rejectIf_then rfl (leaves_rejectIf_then rfl (leaves_rejectIf_then rfl ?_))
  split
  · rfl
  · split
    · rfl
    next link held =>
      refine leaves_rejectIf_then rfl (leaves_ofExcept_then rfl fun p => leaves_ofExcept_then rfl fun a =>
        leaves_ofExcept_then rfl fun a => leaves_rejectIf_then rfl (leaves_rejectIf_then rfl ?_))
      dsimp only
      split
      · exact (interfaceIpv6Flush_keeps _ _).1.trans (map_set_of_eq held rfl)
      · rw [leaves_ofExcept_bind]
        split
        next changed run => exact onLink_keeps held (interfaceAddress_shape run) (addressRefresh_moves around _ _)
        · rfl

variable (m : Message)

theorem networkRoutes_moves : Moves Keeps (networkRoutes around m) := by
  refine .get_bind fun n => ?_
  refine leaves_ofExcept_then rfl fun p => leaves_ofExcept_then rfl fun val => ?_
  split
  · dsimp only
    split <;> rfl
  · refine leaves_ofExcept_then rfl fun _ => ?_
    split
    · exact leaves_rejectIf_then rfl rfl
    · exact leaves_rejectIf_then rfl (leaves_rejectIf_then rfl rfl)

theorem networkNexthops_moves : Moves Keeps (networkNexthops around m) := by
  refine .get_bind fun n => ?_
  refine leaves_ofExcept_then rfl fun val => ?_
  split
  · dsimp only
    split <;> rfl
  · refine leaves_ofExcept_then rfl fun _ =>
      leaves_rejectIf_then rfl (leaves_rejectIf_then rfl (leaves_rejectIf_then rfl ?_))
    exact leaves_ofExcept_then rfl fun _ => rfl

theorem networkRules_moves : Moves Keeps (networkRules m) := by
  refine .get_bind fun n => ?_
  refine leaves_ofExcept_then rfl fun p => ?_
  split
  · split <;> rfl
  · exact leaves_rejectIf_then rfl (leaves_rejectIf_then rfl (leaves_rejectIf_then rfl rfl))

theorem neighborUpdate_keeps {deleting : Bool} {key : Neighbor}
    (run : neighborUpdate allocates n key deleting = .ok after) : Keeps n after := by
  simp only [neighborUpdate, failIf_bind_ok, pure_ok] at run
  obtain ⟨-, -, rfl⟩ := run
  rfl

theorem networkNeighbors_moves : Moves Keeps (networkNeighbors around m) := by
  refine .get_bind fun n => ?_
  refine leaves_rejectIf_then rfl
    (leaves_rejectIf_then rfl (leaves_rejectIf_then rfl (leaves_ofExcept_then rfl fun p => ?_)))
  have update : ∀ key deleting, Keeps n (leaves (do
      let after ← MonadExcept.ofExcept (neighborUpdate around.allocates n key deleting)
      set after : EStateM Errno Namespace Unit) n) := by
    intro key deleting
    rw [leaves_ofExcept_bind]
    split
    next run => exact neighborUpdate_keeps run
    · rfl
  split
  · rfl
  · refine leaves_rejectIf_then rfl (leaves_rejectIf_then rfl (leaves_rejectIf_then rfl ?_))
    split
    · exact leaves_ofExcept_then rfl fun _ => update _ _
    · exact leaves_ofExcept_then rfl fun _ => update _ _

end

variable {hit : List SpaceId}

theorem leaves_atSpace (id : SpaceId) (action : Fabric → EStateM Errno Namespace Unit) (f : Fabric) :
    leaves (atSpace id action) f = f.put id (leaves (action f) (f.space id)) := by
  simp only [leaves, atSpace, EStateM.run]
  cases action f (f.space id) <;> rfl

theorem neighborsPrune_keeps (run : neighborsPrune allocates n = .ok after) : Keeps n after := by
  simp only [neighborsPrune] at run
  split at run
  · rw [Except.ok.inj run]
    rfl
  · split at run
    · rw [← Except.ok.inj run]
      rfl
    · cases run

section

variable {R : Fabric → Fabric → Prop}

theorem dispatch_keeps (env : Environment) {n : SpaceId} (m : Message) (refl : ∀ f, R f f)
    (keeps : ∀ {action}, (∀ f, Moves Keeps (action f)) → Moves R (atSpace n action)) :
    Moves R (dispatch env n m none) := by
  simp only [dispatch]
  split
  · exact keeps fun f => networkAddresses_moves _ f n m
  split
  · exact keeps fun _ => networkRoutes_moves _ m
  split
  · exact keeps fun _ => networkNexthops_moves _ m
  split
  · exact keeps fun _ => networkRules_moves m
  split
  · exact keeps fun _ => networkNeighbors_moves _ m
  · exact .throw refl _

theorem attempt_keeps (env : Environment) (f : Fabric) (n : SpaceId) (m : Message) (t : Option LinkTargets)
    {saved : List SpaceId} (refl : ∀ f, R f f) (trans : ∀ f g h, R f g → R g h → R f h)
    (keeps : ∀ id ∈ saved, ∀ {action}, (∀ f, Moves Keeps (action f)) → Moves R (atSpace id action)) :
    R (leaves (dispatch env n m t) f) (leaves (attempt env n m t saved) f) := by
  have prunes : Moves R (saved.forM (prune env)) := by
    refine .forM refl trans fun id mem => keeps id mem fun _ => .get_bind fun n => ?_
    rw [leaves_ofExcept_bind]
    split
    next run => exact neighborsPrune_keeps run
    · rfl
  rw [attempt, leaves_bind]
  split
  · refine leaves_ofExcept_then (refl _) fun _ => ?_
    split
    · refine Moves.bind trans prunes (fun _ => Moves.get_bind fun g => ?_) _
      exact Moves.ofExcept refl _ g
    · exact refl _
  · exact refl _

end

theorem atSpace_moves {id : SpaceId} (mem : id ∈ hit) {action : Fabric → EStateM Errno Namespace Unit}
    (moves : ∀ f, Moves Keeps (action f)) : Moves (Touches hit) (atSpace id action) := by
  intro f
  rw [leaves_atSpace]
  exact .same mem (linkKeys_of_shapes (moves f (f.space id)))

theorem attempt_touches (env : Environment) (f : Fabric) (n : SpaceId) (m : Message) (t : Option LinkTargets)
    (saved : List SpaceId) :
    Touches saved (leaves (dispatch env n m t) f) (leaves (attempt env n m t saved) f) :=
  attempt_keeps env f n m t .refl .transitive fun _ mem => atSpace_moves mem

end

open List Option Except

variable {env : Environment}

/-- The configuration is what it was. -/
def Restored (before after : Fabric) : Prop :=
  after.nextIndex = before.nextIndex ∧ ∀ id, (after.space id).toTopology = (before.space id).toTopology

section

variable {before f : Fabric} {saved : List SpaceId} {id : SpaceId}

theorem foldl_restoreSpace_other (out : id ∉ saved) : (saved.foldl (restoreSpace before) f).space id = f.space id := by
  induction saved generalizing f with
  | nil => rfl
  | cons p rest ih =>
    simp only [mem_cons, not_or] at out
    rw [foldl_cons, ih out.2, restoreSpace, Fabric.put_other _ _ out.1]

theorem foldl_restoreSpace_mem (mem : id ∈ saved) :
    ((saved.foldl (restoreSpace before) f).space id).toTopology = (before.space id).toTopology := by
  induction saved generalizing f with
  | nil => cases mem
  | cons p rest ih =>
    rw [foldl_cons]
    by_cases later : id ∈ rest
    · exact ih later
    · obtain rfl : id = p := (mem_cons.mp mem).resolve_right later
      rw [foldl_restoreSpace_other later, restoreSpace, Fabric.put_self]

theorem rollback_other (out : id ∉ saved) : (rollback saved before f).space id = f.space id :=
  foldl_restoreSpace_other out

theorem rollback_mem (mem : id ∈ saved) :
    ((rollback saved before f).space id).toTopology = (before.space id).toTopology :=
  foldl_restoreSpace_mem mem

/-- What was saved covers what was touched. -/
theorem rollback_restored (sub : Within saved before f) : Restored before (rollback saved before f) := by
  refine ⟨rfl, fun id => ?_⟩
  by_cases mem : id ∈ saved
  · exact rollback_mem mem
  · rw [rollback_other mem, sub id mem]

end

section

variable {f : Fabric} {n : SpaceId} {m : Message}

/-- A deletion removes the link it finds, unless that is one a namespace is made with. -/
theorem changeLink_delete (nums : Numbered f) (grows : SpaceId → Bool) (n : SpaceId) (c : LinkChange)
    (target peerTarget : Option SpaceId) (deletes : m.type = RTM_DELLINK) :
    (leaves (changeLink grows n m c target peerTarget) f = f ∧
      ∀ link, interfaceFind (f.space n).links c.index c.name = some link → link.kind = .loopback ∨
        link.kind = .uplink) ∨
    ∃ link, interfaceFind (f.space n).links c.index c.name = some link ∧
      ¬ (link.kind = .loopback ∨ link.kind = .uplink) ∧
      leaves (changeLink grows n m c target peerTarget) f = withoutLink f n link := by
  simp only [changeLink, leaves_get_bind, if_pos deletes]
  cases found : interfaceFind (f.space n).links c.index c.name with
  | none => exact .inl ⟨rfl, by simp⟩
  | some link =>
    have again := nums.finds (interfaceFind_mem found)
    rcases interfaceRemove_cases f n link.index with ⟨same, fixed⟩ | ⟨removed, isLink, removable, gone⟩
    · refine .inl ⟨same, fun other isOther => ?_⟩
      rw [← some.inj isOther]
      exact fixed link again
    · obtain rfl := mem_unique again isLink
      exact .inr ⟨link, rfl, removable, gone⟩

theorem withoutLink_within (f : Fabric) (n : SpaceId) (link : Interface) :
    Within (n :: (interfaceOwner f link.peer).toList) f (withoutLink f n link) := by
  simp only [withoutLink]
  split
  · exact .put (by simp) _ _
  next owner owned => exact (Within.put (by simp) _ _).trans (Within.put (by simp [owned]) _ _)

theorem withoutLink_peer {link : Interface} {owner : SpaceId} (owned : interfaceOwner f link.peer = some owner) :
    ((withoutLink f n link).space owner).links ≠ (f.space owner).links := by
  intro same
  obtain ⟨peer, found⟩ := interfaceOwner_holds owned
  have held : peer.key ∈ linkKeys ((withoutLink f n link).space owner).links := by
    rw [same]
    exact mem_map_of_mem (interfaceFind_mem found)
  simp only [withoutLink, owned, Fabric.put_self] at held
  exact removeLink_gone _ _ peer.key held (interfaceFind_index found)

end

section

variable {f : Fabric} {n : SpaceId} {m : Message} {t : LinkTargets}

theorem admission_target (fine : admission env m = .ok (some t)) : t.target = none ∨ t.peerTarget = none := by
  unfold admission at fine
  split at fine
  · simp only [failIf_bind_ok] at fine
    obtain ⟨-, rest⟩ := fine
    obtain ⟨change, -, rest⟩ := bind_ok.mp rest
    obtain ⟨target, -, rest⟩ := bind_ok.mp rest
    obtain ⟨peerTarget, known, rest⟩ := bind_ok.mp rest
    obtain rfl := some.inj (pure_ok.mp rest)
    cases target with
    | none => exact .inl rfl
    | some target =>
      refine .inr ?_
      unfold resolveReference at known
      split at known
      · exact (ok.inj known).symm
      · obtain ⟨space, found, -⟩ := map_ok known
        unfold resolveTarget at found
        split at found
        · cases found
        · obtain ⟨_, -, found⟩ := bind_ok.mp found
          simp only [failIf_bind_ok, isSome_some, not_true, false_and, and_false] at found
  · simp only [failIf_bind_ok, pure_ok] at fine
    cases fine.2

theorem mem_checkpoints {t : Option LinkTargets} (ready : (checkpoints env f n t).2 = .ok ()) (id : SpaceId) :
    id ∈ (checkpoints env f n t).1 ↔ id = n ∨ t.bind (otherSpace f n) = some id := by
  unfold checkpoints at ready ⊢
  split at ready
  · cases ready
  next saves =>
    rw [if_neg saves]
    cases other : t.bind (otherSpace f n) with
    | none => simp
    | some p =>
      simp only [other] at ready ⊢
      split at ready
      next same => simp [same, eq_comm]
      · split at ready
        next apart stored => simp [apart, stored, eq_comm]
        · cases ready

/-- The request deletes a link whose peer is in a namespace that is not saved: it names another
one, which is saved in its place. -/
structure Escapes (env : Environment) (f : Fabric) (n : SpaceId) (m : Message) (p : SpaceId) : Prop where
  request : has m.flags NLM_F_REQUEST
  deletes : m.type = RTM_DELLINK
  named : ∃ t link other, admission env m = .ok (some t) ∧ (checkpoints env f n (some t)).2 = .ok () ∧
    t.peerTarget.or t.target = some other ∧ other ≠ p ∧
      interfaceFind (f.space n).links t.change.index t.change.name = some link ∧
    ¬ (link.kind = .loopback ∨ link.kind = .uplink) ∧ interfaceOwner f link.peer = some p ∧ p ≠ n

theorem named_saved (fine : admission env m = .ok (some t)) (ready : (checkpoints env f n (some t)).2 = .ok ()) :
    [n, t.target.getD n, t.peerTarget.getD n] ⊆ (checkpoints env f n (some t)).1 := by
  intro id mem
  rw [mem_checkpoints ready]
  rcases admission_target fine with alone | alone
  · cases named : t.peerTarget with
    | none => exact .inl (by simpa [alone, named] using mem)
    | some other =>
      simp only [alone, named, otherSpace, bind_some, some_or, getD_none, getD_some, mem_cons, not_mem_nil, or_false,
        some.injEq] at mem ⊢
      grind
  · cases named : t.target with
    | none => exact .inl (by simpa [alone, named] using mem)
    | some other =>
      simp only [alone, named, otherSpace, bind_some, none_or, getD_none, getD_some, mem_cons, not_mem_nil, or_false,
        some.injEq] at mem ⊢
      grind

/-- The only namespace a deletion can change without saving it. -/
theorem escapes_iff {link : Interface} {p : SpaceId} (request : has m.flags NLM_F_REQUEST)
    (deletes : m.type = RTM_DELLINK) (fine : admission env m = .ok (some t))
    (ready : (checkpoints env f n (some t)).2 = .ok ())
    (found : interfaceFind (f.space n).links t.change.index t.change.name = some link)
    (removable : ¬ (link.kind = .loopback ∨ link.kind = .uplink)) :
    Escapes env f n m p ↔ interfaceOwner f link.peer = some p ∧ p ∉ (checkpoints env f n (some t)).1 := by
  rw [mem_checkpoints ready, bind_some, not_or]
  constructor
  · intro escapes
    obtain ⟨t', link', other, admitted', -, names, ne, found', -, owned, away⟩ := escapes.named
    obtain rfl := some.inj (ok.inj (fine.symm.trans admitted'))
    obtain rfl := mem_unique found found'
    exact ⟨owned, away, by simpa [otherSpace, names] using ne⟩
  · rintro ⟨owned, away, out⟩
    refine ⟨request, deletes, ?_⟩
    cases names : t.peerTarget.or t.target with
    | none => simp [otherSpace, names, found, owned] at out
    | some other =>
      refine ⟨t, link, other, fine, ready, names, fun same => out ?_, found, removable, owned, away⟩
      simp [otherSpace, names, same]

/-- Either the request only touches what is saved, or it is a deletion that also takes the peer
from a namespace that is not. -/
theorem dispatch_cases {t : Option LinkTargets} (nums : Numbered f) (request : has m.flags NLM_F_REQUEST)
    (fine : admission env m = .ok t) (ready : (checkpoints env f n t).2 = .ok ()) :
    (Within (checkpoints env f n t).1 f (leaves (dispatch env n m t) f) ∧ Numbered (leaves (dispatch env n m t) f) ∧
      ∀ p, ¬ Escapes env f n m p) ∨ ∃ link p, Escapes env f n m p ∧
        leaves (dispatch env n m t) f = withoutLink f n link ∧
      interfaceOwner f link.peer = some p ∧ p ∉ (checkpoints env f n t).1 := by
  have own : n ∈ (checkpoints env f n t).1 := (mem_checkpoints ready n).mpr (.inl rfl)
  cases t with
  | none =>
    obtain ⟨sub, new⟩ := dispatch_keeps env m .refl (atSpace_moves own) f nums
    refine .inl ⟨sub, new, fun p escapes => ?_⟩
    obtain ⟨t, _, _, other, -⟩ := escapes.named
    rw [fine] at other
    cases other
  | some t =>
    by_cases deletes : m.type = RTM_DELLINK
    · rw [dispatch]
      rcases changeLink_delete nums env.grows n t.change t.target t.peerTarget deletes with
        ⟨same, fixed⟩ | ⟨link, found, removable, gone⟩
      · rw [same]
        refine .inl ⟨.refl f, nums, fun p escapes => ?_⟩
        obtain ⟨t', link, _, admitted', -, -, -, found, removable, -⟩ := escapes.named
        obtain rfl := some.inj (ok.inj (fine.symm.trans admitted'))
        exact removable (fixed link found)
      · have iff := fun p => @escapes_iff env f n m t link p request deletes fine ready found removable
        rw [gone]
        by_cases contained : ∃ p, Escapes env f n m p
        · obtain ⟨p, escapes⟩ := contained
          exact .inr ⟨link, p, escapes, rfl, (iff p).mp escapes⟩
        · refine .inl ⟨fun id out => withoutLink_within f n link id fun mem => ?_,
            withoutLink_numbered nums n link, fun p escapes => contained ⟨p, escapes⟩⟩
          rcases mem_cons.mp mem with rfl | owner
          · exact out own
          · exact contained ⟨id, (iff id).mpr ⟨by simpa using owner, out⟩⟩
    · have changes := changeLink_changes nums env.grows n t.change t.target t.peerTarget deletes
      exact .inl ⟨changes.within.mono (named_saved fine ready), changes.numbered,
        fun p escapes => deletes escapes.deletes⟩

theorem trial_ok {t : Option LinkTargets} (ready : (checkpoints env f n t).2 = .ok ()) :
    leaves (trial env f n m (.ok t)) f = leaves (attempt env n m t (checkpoints env f n t).1) f := by
  simp only [trial, journal, ready]
  rfl

theorem trial_cases (nums : Numbered f) (request : has m.flags NLM_F_REQUEST) :
    Numbered (leaves (trial env f n m (admission env m)) f) ∧
    ((Within (journal env f n (admission env m)).1 f (leaves (trial env f n m (admission env m)) f) ∧
      ∀ p, ¬ Escapes env f n m p) ∨
    ∃ link p, Escapes env f n m p ∧ interfaceOwner f link.peer = some p ∧ p ∉ (journal env f n (admission env m)).1 ∧
      Within (journal env f n (admission env m)).1 (withoutLink f n link)
        (leaves (trial env f n m (admission env m)) f)) := by
  have idle : (∀ p, ¬ Escapes env f n m p) → leaves (trial env f n m (admission env m)) f = f →
      Numbered (leaves (trial env f n m (admission env m)) f) ∧
      Within (journal env f n (admission env m)).1 f (leaves (trial env f n m (admission env m)) f) ∧
      ∀ p, ¬ Escapes env f n m p := by
    intro none same
    rw [same]
    exact ⟨nums, .refl f, none⟩
  cases fine : admission env m with
  | error error =>
    rw [fine] at idle
    obtain ⟨new, sub⟩ := idle (fun p escapes => by
      obtain ⟨_, _, _, other, -⟩ := escapes.named
      rw [fine] at other
      cases other) rfl
    exact ⟨new, .inl sub⟩
  | ok t =>
    rw [fine] at idle
    cases ready : (checkpoints env f n t).2 with
    | error error =>
      obtain ⟨new, sub⟩ := idle (fun p escapes => by
        obtain ⟨_, _, _, other, ready', -⟩ := escapes.named
        rw [← ok.inj (fine.symm.trans other), ready] at ready'
        cases ready') (by simp only [trial, journal, ready, leaves_throw])
      exact ⟨new, .inl sub⟩
    | ok _ =>
      have rest := attempt_touches env f n m t (checkpoints env f n t).1
      rw [trial_ok ready]
      rcases dispatch_cases nums request fine ready with ⟨sub, new, none⟩ | ⟨link, p, escapes, gone, owned, out⟩
      · exact ⟨(rest new).2, .inl ⟨sub.trans (rest new).1, none⟩⟩
      · rw [gone] at rest
        obtain ⟨sub, new⟩ := rest (withoutLink_numbered nums n link)
        exact ⟨new, .inr ⟨link, p, escapes, owned, out, sub⟩⟩

end

variable {f : Fabric} {n : SpaceId} {m : Message}

/-- A request ends with its change settled or with the fabric rolled back. -/
theorem transact_cases (env : Environment) (f : Fabric) (n : SpaceId) (m : Message)
    (fine : Except Errno (Option LinkTargets)) :
    ((transact env f n m fine).committed = true ∧ ∃ isLink added,
      (transact env f n m fine).fabric =
        settle n isLink added (journal env f n fine).1 (leaves (trial env f n m fine) f)) ∨
    (transact env f n m fine).fabric = rollback (journal env f n fine).1 f (leaves (trial env f n m fine) f) := by
  simp only [transact]
  split
  · exact .inl ⟨rfl, _, _, rfl⟩
  · exact .inr rfl

theorem networkRoute_request (request : has m.flags NLM_F_REQUEST) :
    networkRoute env f n m = transact env f n m (admission env m) := by
  simp [networkRoute, request]

theorem networkRoute_ignored (other : ¬ has m.flags NLM_F_REQUEST) : (networkRoute env f n m).fabric = f := by
  simp [networkRoute, other]

theorem networkRoute_uncommitted (request : has m.flags NLM_F_REQUEST)
    (uncommitted : (networkRoute env f n m).committed = false) :
    (networkRoute env f n m).fabric =
      rollback (journal env f n (admission env m)).1 f (leaves (trial env f n m (admission env m)) f) := by
  rw [networkRoute_request request] at uncommitted ⊢
  rcases transact_cases env f n m (admission env m) with ⟨committed, -⟩ | rolled
  · rw [committed] at uncommitted
    cases uncommitted
  · exact rolled

theorem settle_links (n : SpaceId) (isLink : Bool) (added : List VxlanConfig) (saved : List SpaceId) (f : Fabric)
    (id : SpaceId) : ((settle n isLink added saved f).space id).links = (f.space id).links := by
  have put : ∀ (g : Fabric) (p : SpaceId) (n : Namespace), n.links = (g.space p).links →
      ((g.put p n).space id).links = (g.space id).links := by
    intro g p n same
    by_cases here : id = p
    · rw [here, Fabric.put_self, same]
    · rw [Fabric.put_other g n here]
  have finished : ((if isLink then f.put n (vxlanFinish added (f.space n)) else f).space id).links =
      (f.space id).links := by
    split
    · exact put f n _ rfl
    · rfl
  have refreshed : ∀ g : Fabric,
      ((saved.foldl (fun f id => f.put id (refreshDeadline (f.space id))) g).space id).links = (g.space id).links := by
    intro g
    induction saved generalizing g with
    | nil => rfl
    | cons p rest ih =>
      rw [foldl_cons, ih]
      exact put g p _ rfl
  exact (refreshed _).trans finished

theorem settle_keys (n : SpaceId) (isLink : Bool) (added : List VxlanConfig) (saved : List SpaceId) (f : Fabric)
    (id : SpaceId) : (settle n isLink added saved f).keys id = f.keys id :=
  congrArg linkKeys (settle_links n isLink added saved f id)

theorem settle_nextIndex (n : SpaceId) (isLink : Bool) (added : List VxlanConfig) (saved : List SpaceId) (f : Fabric) :
    (settle n isLink added saved f).nextIndex = f.nextIndex := by
  have refreshed : ∀ g : Fabric,
      (saved.foldl (fun f id => f.put id (refreshDeadline (f.space id))) g).nextIndex = g.nextIndex := by
    intro g
    induction saved generalizing g with
    | nil => rfl
    | cons p rest ih => rw [foldl_cons, ih, Fabric.put_nextIndex]
  rw [settle, fabricDeadline, refreshed]
  split <;> rfl

/-- Requests keep the numbering, whether they are committed or not. -/
theorem networkRoute_numbered (env : Environment) (nums : Numbered f) (n : SpaceId) (m : Message) :
    Numbered (networkRoute env f n m).fabric := by
  by_cases request : has m.flags NLM_F_REQUEST
  · obtain ⟨new, cases⟩ := @trial_cases env f n m nums request
    rw [networkRoute_request request]
    rcases transact_cases env f n m (admission env m) with ⟨-, isLink, added, done⟩ | rolled
    · rw [done]
      refine new.of_sublist (settle_nextIndex _ _ _ _ _) fun id => ?_
      rw [settle_keys]
    · rw [rolled]
      refine nums.of_sublist rfl fun id => ?_
      by_cases mem : id ∈ (journal env f n (admission env m)).1
      · rw [Fabric.keys, rollback_mem mem]
        exact List.Sublist.refl _
      · rw [Fabric.keys, rollback_other mem]
        rcases cases with ⟨sub, -⟩ | ⟨link, p, -, -, -, sub⟩
        · rw [sub id mem]
          exact List.Sublist.refl _
        · rw [sub id mem]
          exact withoutLink_keys f n link id
  · rw [networkRoute_ignored request]
    exact nums

end Shroot.Network
