import Shroot.Network.History

namespace Shroot.Network

open General List

variable {f g : Fabric} {id n : SpaceId} {l : Interface}

/-- The neighbors of links that are still there, if there is memory to keep only those. -/
def prunedNeighbors (prunes : Bool) (n : Namespace) : Namespace := (neighborsPrune prunes n).toOption.getD n

/-- The peer of a link goes with it, if another namespace has it. -/
def releasePeer (prunes : SpaceId → Bool) (id : SpaceId) (f : Fabric) (link : Interface) : Fabric :=
  match interfaceOwner f link.peer with
  | none => f
  | some peer =>
    if peer = id then f
    else f.put peer (prunedNeighbors (prunes peer) (removeLink (f.space peer) link.peer))

/-- `md_network_namespace_release` of the last reference. -/
def namespaceRelease (prunes : SpaceId → Bool) (f : Fabric) (id : SpaceId) : Fabric :=
  let retired := (f.space id).links.foldl (releasePeer prunes id) f
  { retired.put id (freshNamespace false) with spaces := retired.spaces.erase id }

inductive LinkEvent where
  | create (grows : Bool) (id : SpaceId) (routed : Bool)
  | add (grows : Bool) (id : SpaceId) (kind : LinkKind) (name : Bytes)
  | remove (id : SpaceId) (index : UInt32)
  | move (grows : Bool) (source : SpaceId) (index : UInt32) (dest : SpaceId) (name : Option Bytes)
  | change (grows : SpaceId → Bool) (n : SpaceId) (m : Message) (c : LinkChange) (target peerTarget : Option SpaceId)
  | release (prunes : SpaceId → Bool) (id : SpaceId)

/-- An event about namespaces of the fabric. Only a new namespace is given a loopback link. -/
def LinkEvent.Possible (f : Fabric) : LinkEvent → Prop
  | .create _ id _ => id ∉ f.spaces
  | .add _ id kind _ => id ∈ f.spaces ∧ kind ≠ .loopback
  | .remove id _ => id ∈ f.spaces
  | .move _ source _ dest _ => source ∈ f.spaces ∧ dest ∈ f.spaces
  | .change _ n _ _ target peerTarget => n ∈ f.spaces ∧ target.getD n ∈ f.spaces ∧ peerTarget.getD n ∈ f.spaces
  | .release _ id => id ∈ f.spaces

instance (f : Fabric) (event : LinkEvent) : Decidable (event.Possible f) := by
  cases event <;> unfold LinkEvent.Possible <;> infer_instance

/-- The fabric after an event, whether or not the operation succeeds. -/
def LinkEvent.effect (f : Fabric) : LinkEvent → Fabric
  | .create grows id routed => (namespaceCreate grows f id routed).toOption.getD f
  | .add grows id kind name => leaves (interfaceAdd grows id kind name) f
  | .remove id index => leaves (interfaceRemove id index) f
  | .move grows source index dest name => leaves (interfaceMove grows source index dest name) f
  | .change grows n m c target peerTarget => leaves (changeLink grows n m c target peerTarget) f
  | .release prunes id => namespaceRelease prunes f id

def happen (f : Fabric) (event : LinkEvent) : Fabric := if event.Possible f then event.effect f else f

section

variable {done : List Interface}

theorem prunedNeighbors_eq (prunes : Bool) (n : Namespace) :
    ∃ neighbors, prunedNeighbors prunes n = { n with neighbors } := by
  unfold prunedNeighbors neighborsPrune
  dsimp only
  split
  · exact ⟨n.neighbors, rfl⟩
  · split
    · exact ⟨_, rfl⟩
    · exact ⟨n.neighbors, rfl⟩

theorem Tied.neighbors {n : Namespace} {neighbors : List Neighbor} (tied : Tied (f.put id n)) :
    Tied (f.put id { n with neighbors }) := by
  have sound := tied.spaces id
  have nums : Numbered ((f.put id n).put id { n with neighbors }) :=
    tied.numbered.put (by rw [Fabric.keys, Fabric.put_self])
  rw [Fabric.put_self] at sound
  rw [← Fabric.put_put f id n]
  refine tied.put rfl nums ⟨sound.names, sound.masters, sound.routes, sound.nexthops⟩ fun l mem => ?_
  have old : l ∈ ((f.put id n).space id).links := by
    rw [Fabric.put_self]
    exact mem
  exact ⟨tied.loopbacks id l old, tied.veths id l old⟩

/-- A fabric while a namespace of it is released: some of its links have no peers any more. -/
structure Retiring (f : Fabric) (id : SpaceId) (done : List Interface) (g : Fabric) : Prop where
  tied : Tied g
  spaces : g.spaces = f.spaces
  old : ∀ t, ∀ x ∈ (g.space t).links, ∃ x' ∈ (f.space t).links, x.tie = x'.tie
  kept : ∀ t ≠ id, ∀ q ∈ (f.space t).links, q.peer ≠ 0 → (∀ l ∈ (f.space id).links, l.index ≠ q.peer) →
    ∃ q' ∈ (g.space t).links, q'.tie = q.tie
  gone : ∀ l ∈ done, l.peer ≠ 0 → ∀ t ≠ id, ∀ x ∈ (g.space t).links, x.index ≠ l.peer

theorem Retiring.start (linked : Linked f) : Retiring f id [] f :=
  ⟨linked.toTied, rfl, fun _ x mem => ⟨x, mem, rfl⟩, fun _ _ q mem _ _ => ⟨q, mem, rfl⟩, forall_mem_nil _⟩

section

variable (retiring : Retiring f id done g)

include retiring

theorem Retiring.listed (listed : Listed f) : Listed g := by
  intro t some
  obtain ⟨x, mem⟩ := exists_mem_of_ne_nil _ some
  obtain ⟨x', old, -⟩ := retiring.old t x mem
  exact retiring.spaces ▸ listed t (ne_nil_of_mem old)

theorem Retiring.owner (linked : Linked f) (listed : Listed f) {x : Interface} {t : SpaceId}
    (mem : l ∈ (f.space id).links) (paired : l.peer ≠ 0) (there : x ∈ (g.space t).links) (isPeer : x.index = l.peer) :
    interfaceOwner g l.peer = some t ∧ x.kind = .veth := by
  obtain ⟨x', old, tie⟩ := retiring.old t x there
  obtain ⟨other, p, isLink, idx, -, veth⟩ := linked.peer mem paired
  have same := (linked.toTied.unique isLink old (by rw [idx, ← isPeer, tie_index tie]) (by rw [veth]; decide)).2
  have kind : x.kind = .veth := (tie_kind tie).trans (same ▸ veth)
  rw [← isPeer]
  exact ⟨retiring.tied.owner (retiring.listed listed) there (by rw [kind]; decide), kind⟩

theorem Retiring.next (linked : Linked f) (listed : Listed f) (prunes : SpaceId → Bool)
    (mem : l ∈ (f.space id).links) : Retiring f id (done ++ [l]) (releasePeer prunes id g l) := by
  have grow : ∀ {h : Fabric}, (∀ l' ∈ done, l'.peer ≠ 0 → ∀ t ≠ id, ∀ x ∈ (h.space t).links, x.index ≠ l'.peer) →
      (l.peer ≠ 0 → ∀ t ≠ id, ∀ x ∈ (h.space t).links, x.index ≠ l.peer) →
      ∀ l' ∈ done ++ [l], l'.peer ≠ 0 → ∀ t ≠ id, ∀ x ∈ (h.space t).links, x.index ≠ l'.peer := by
    intro h old now l' either
    rcases mem_append.mp either with prior | this
    · exact old l' prior
    · rw [mem_singleton.mp this]
      exact now
  unfold releasePeer
  split
  next unowned =>
    refine { retiring with gone := grow retiring.gone fun paired t away x there isPeer => ?_ }
    have owned := (retiring.owner linked listed mem paired there isPeer).1
    rw [unowned] at owned
    cases owned
  next other owned =>
    by_cases here : other = id
    · rw [if_pos here]
      refine { retiring with gone := grow retiring.gone fun paired t away x there isPeer => away ?_ }
      have owned' := (retiring.owner linked listed mem paired there isPeer).1
      rw [owned] at owned'
      exact (Option.some.inj owned').symm.trans here
    · rw [if_neg here]
      obtain ⟨p, isLink⟩ := interfaceOwner_holds owned
      have isIn := interfaceFind_mem isLink
      have idx := interfaceFind_index isLink
      have paired : l.peer ≠ 0 := idx ▸ retiring.tied.numbered.index_ne isIn
      obtain ⟨-, veth⟩ := retiring.owner linked listed mem paired isIn idx
      have tied := (retiring.tied.remove isIn (by rw [veth]; decide)).1
      rw [idx] at tied
      have removed := removeLink_removed (retiring.tied.numbered.distinct other) l.peer
      obtain ⟨neighbors, pruned⟩ := prunedNeighbors_eq (prunes other) (removeLink (g.space other) l.peer)
      rw [pruned]
      refine ⟨tied.neighbors, retiring.spaces, fun t x there => ?_, fun t away q old isPaired foreign => ?_, grow ?_ ?_⟩
      · rcases mem_put there with ⟨rfl, new⟩ | ⟨-, still⟩
        · obtain ⟨y, was, tie⟩ := removed.old x new
          obtain ⟨x', first, tie'⟩ := retiring.old _ y was
          exact ⟨x', first, tie.trans tie'⟩
        · exact retiring.old t x still
      · obtain ⟨q', still, tie⟩ := retiring.kept t away q old isPaired foreign
        by_cases same : t = other
        · subst same
          have notPeer : q'.index ≠ l.peer := by
            intro isPeer
            have back := linked.symmetric _ _ (joined_of_mem mem) paired
            have plain : q.kind ≠ .loopback := by
              rw [(linked.veths t q old isPaired).1]
              decide
            rw [← isPeer, tie_index tie] at back
            exact foreign l mem (linked.toTied.joined_peer old plain back).symm
          have plain : q'.kind ≠ .vxlan := by
            rw [tie_kind tie, (linked.veths t q old isPaired).1]
            decide
          obtain ⟨q'', post, tie'⟩ := removed.kept q' still plain notPeer
          refine ⟨q'', ?_, tie'.trans tie⟩
          rw [Fabric.put_self]
          exact post
        · refine ⟨q', ?_, tie⟩
          rw [Fabric.put_other g _ same]
          exact still
      · intro l' prior isPaired t away x there
        rcases mem_put there with ⟨rfl, new⟩ | ⟨-, still⟩
        · obtain ⟨y, was, tie⟩ := removed.old x new
          rw [tie_index tie]
          exact retiring.gone l' prior isPaired _ away y was
        · exact retiring.gone l' prior isPaired t away x still
      · intro _ t away x there isPeer
        rcases mem_put there with ⟨rfl, new⟩ | ⟨apart, still⟩
        · exact removed.gone x new isPeer
        · have owned' := (retiring.owner linked listed mem paired still isPeer).1
          rw [owned] at owned'
          exact apart (Option.some.inj owned').symm

end

theorem retiring_all (linked : Linked f) (listed : Listed f) (prunes : SpaceId → Bool) (id : SpaceId) :
    ∀ rest done g, Retiring f id done g → rest ⊆ (f.space id).links →
      Retiring f id (done ++ rest) (rest.foldl (releasePeer prunes id) g) := by
  intro rest
  induction rest with
  | nil =>
    intro done g retiring _
    rwa [append_nil]
  | cons l rest ih =>
    intro done g retiring isIn
    have next :=
      ih _ _ (retiring.next linked listed prunes (isIn (mem_cons_self ..))) fun x mem => isIn (mem_cons_of_mem _ mem)
    rwa [append_assoc] at next

theorem freshNamespace_sound (routed : Bool) : SpaceSound (freshNamespace routed) :=
  ⟨nodup_nil, forall_mem_nil _, forall_mem_nil _, forall_mem_nil _⟩

theorem Retiring.released (retiring : Retiring f id (f.space id).links g) (linked : Linked f) {spaces : List SpaceId} :
    Linked { g.put id (freshNamespace false) with spaces := spaces } := by
  have tied : Tied (g.put id (freshNamespace false)) :=
    retiring.tied.put rfl (retiring.tied.numbered.put (nil_sublist _)) (freshNamespace_sound false) (forall_mem_nil _)
  have symmetric : Linked (g.put id (freshNamespace false)) := by
    refine ⟨tied, ?_⟩
    rintro idx peer ⟨t, x, there, rfl, rfl⟩ paired
    rcases mem_put there with ⟨-, none⟩ | ⟨away, still⟩
    · cases none
    obtain ⟨x', old, tie⟩ := retiring.old t x still
    have paired' : x'.peer ≠ 0 := tie_peer tie ▸ paired
    obtain ⟨u, q, isLink, isPeer, back, veth⟩ := linked.peer old paired'
    -- the peer was not in the namespace, or this link would be gone
    have out : u ≠ id := by
      rintro rfl
      have pos : q.peer ≠ 0 := back ▸ linked.numbered.index_ne old
      exact retiring.gone q isLink pos t away x still ((tie_index tie).trans back.symm)
    have foreign : ∀ l ∈ (f.space id).links, l.index ≠ q.peer := by
      intro l isIn same
      have plain : x'.kind ≠ .loopback := by
        rw [(linked.veths t x' old paired').1]
        decide
      exact away (linked.toTied.unique old isIn (by rw [same, back]) plain).1
    obtain ⟨q', new, tie'⟩ := retiring.kept u out q isLink (back ▸ linked.numbered.index_ne old) foreign
    refine ⟨u, q', ?_, ?_, ?_⟩
    · rw [Fabric.put_other g _ out]
      exact new
    · rw [tie_index tie', isPeer, tie_peer tie]
    · rw [tie_peer tie', back, tie_index tie]
  exact symmetric.of_space (tied.numbered.of_sublist rfl fun _ => List.Sublist.refl _) rfl

theorem namespaceRelease_linked (linked : Linked f) (listed : Listed f) (prunes : SpaceId → Bool) (id : SpaceId) :
    Linked (namespaceRelease prunes f id) ∧ Listed (namespaceRelease prunes f id) := by
  have retiring := retiring_all linked listed prunes id (f.space id).links [] f (.start linked) (List.Subset.refl _)
  refine ⟨retiring.released linked, fun t some => ?_⟩
  by_cases same : t = id
  · subst same
    exact absurd (congrArg (fun n : Namespace => n.links) (Fabric.put_self _ t (freshNamespace false))) some
  · refine (mem_erase_of_ne same).mpr (retiring.listed listed t fun none => some ?_)
    exact (congrArg (fun n : Namespace => n.links) (Fabric.put_other _ _ same)).trans none

end

theorem namespaceCreate_linked (linked : Linked f) (listed : Listed f) (free : id ∉ f.spaces) {grows routed : Bool}
    {new : Fabric} (run : namespaceCreate grows f id routed = .ok new) : Linked new ∧ Listed new := by
  have empty : (f.space id).links = [] := by
    by_contra some
    exact free (listed id some)
  have fresh : Linked (f.put id (freshNamespace routed)) := by
    refine linked.replace ?_ (freshNamespace_sound routed)
    rw [empty]
    rfl
  obtain ⟨g, tends, rfl⟩ := namespaceCreate_tends linked.numbered run
  refine ⟨(tends.linked fresh).of_space (tends.numbered.of_sublist rfl fun _ => List.Sublist.refl _) rfl,
    fun t some => ?_⟩
  by_cases same : t = id
  · rw [same]
    exact mem_cons_self
  · refine mem_cons_of_mem _ ?_
    rw [tends.spaces]
    refine listed t fun none => some ?_
    have out : t ∉ [id] := fun isIn => same (mem_singleton.mp isIn)
    rw [tends.within t out, Fabric.put_other f _ same, none]

variable {hit : List SpaceId}

theorem Listed.within (listed : Listed f) (sub : Within hit f g) (known : ∀ id ∈ hit, id ∈ f.spaces)
    (spaces : g.spaces = f.spaces) : Listed g := by
  intro t some
  rw [spaces]
  by_cases inside : t ∈ hit
  · exact known t inside
  · rw [sub t inside] at some
    exact listed t some

theorem withoutLink_listed (listed : Listed f) (n : SpaceId) (link : Interface) : Listed (withoutLink f n link) := by
  intro t some
  rw [withoutLink_spaces]
  refine listed t fun none => some ?_
  have keys := withoutLink_keys f n link t
  rw [Fabric.keys, Fabric.keys, none] at keys
  exact map_eq_nil_iff.mp (sublist_nil.mp keys)

section

variable (linked : Linked f) (listed : Listed f)

include linked listed

theorem withoutLink_kept {link : Interface} (mem : link ∈ (f.space n).links)
    (removable : ¬ (link.kind = .loopback ∨ link.kind = .uplink)) :
    Linked (withoutLink f n link) ∧ Listed (withoutLink f n link) :=
  ⟨withoutLink_linked linked listed mem fun loopback => removable (.inl loopback), withoutLink_listed listed n link⟩

theorem interfaceRemove_linked (n : SpaceId) (idx : UInt32) :
    Linked (leaves (interfaceRemove n idx) f) ∧ Listed (leaves (interfaceRemove n idx) f) := by
  rcases interfaceRemove_cases f n idx with ⟨same, -⟩ | ⟨link, found, removable, gone⟩
  · rw [same]
    exact ⟨linked, listed⟩
  · rw [gone]
    exact withoutLink_kept linked listed (interfaceFind_mem found) removable

theorem changeLink_linked (grows : SpaceId → Bool) (m : Message) (c : LinkChange)
    {target peerTarget : Option SpaceId} (own : n ∈ f.spaces) (known : target.getD n ∈ f.spaces)
    (known' : peerTarget.getD n ∈ f.spaces) :
    Linked (leaves (changeLink grows n m c target peerTarget) f) ∧
    Listed (leaves (changeLink grows n m c target peerTarget) f) := by
  by_cases deletes : m.type = RTM_DELLINK
  · rcases changeLink_delete linked.numbered grows n c target peerTarget deletes with ⟨same, -⟩ |
      ⟨link, found, removable, gone⟩
    · rw [same]
      exact ⟨linked, listed⟩
    · rw [gone]
      exact withoutLink_kept linked listed (interfaceFind_mem found) removable
  · have changes := changeLink_changes linked.numbered grows n c target peerTarget deletes
    refine ⟨changes.linked linked, listed.within changes.within ?_ changes.spaces⟩
    simp [own, known, known']

end

theorem Tends.kept (tends : Tends hit f g) (linked : Linked f) (listed : Listed f) (known : ∀ id ∈ hit, id ∈ f.spaces) :
    Linked g ∧ Listed g :=
  ⟨tends.linked linked, listed.within tends.within known tends.spaces⟩

theorem happen_linked (linked : Linked f) (listed : Listed f) (event : LinkEvent) :
    Linked (happen f event) ∧ Listed (happen f event) := by
  unfold happen
  split
  case isFalse => exact ⟨linked, listed⟩
  rename_i possible
  cases event with
  | create grows id routed =>
    simp only [LinkEvent.effect]
    cases run : namespaceCreate grows f id routed with
    | error _ => exact ⟨linked, listed⟩
    | ok new => exact namespaceCreate_linked linked listed possible run
  | add grows id kind name =>
    have kept : Ensures f (fun _ g => Linked g ∧ Listed g) (fun g => Linked g ∧ Listed g)
        (interfaceAdd grows id kind name) := by
      refine (interfaceAdd_tends linked.numbered (mem_singleton_self id) grows possible.2 name).mono ?_ ?_
      · rintro idx g ⟨tends, -⟩
        exact tends.kept linked listed fun t mem => mem_singleton.mp mem ▸ possible.1
      · rintro g rfl
        exact ⟨linked, listed⟩
    exact kept.leaves
  | remove id idx => exact interfaceRemove_linked linked listed id idx
  | move grows source idx dest name =>
    have kept : Ensures f (fun _ g => Linked g ∧ Listed g) (fun g => Linked g ∧ Listed g)
        (interfaceMove grows source idx dest name) := by
      refine (interfaceMove_tends linked.numbered grows source idx dest name).mono ?_ ?_
      · rintro idx g ⟨tends, -⟩
        exact tends.kept linked listed (by simp [possible.1, possible.2])
      · rintro g rfl
        exact ⟨linked, listed⟩
    exact kept.leaves
  | change grows n m c target peerTarget =>
    exact changeLink_linked linked listed grows m c possible.1 possible.2.1 possible.2.2
  | release prunes id => exact namespaceRelease_linked linked listed prunes id

theorem history_linked (linked : Linked f) (listed : Listed f) (events : List LinkEvent) :
    Linked (events.foldl happen f) ∧ Listed (events.foldl happen f) :=
  List.foldlRecOn (motive := fun g => Linked g ∧ Listed g) events happen ⟨linked, listed⟩ fun _ has event _ =>
    happen_linked has.1 has.2 event

theorem newFabric_linked : Linked newFabric ∧ Listed newFabric := by
  refine ⟨⟨⟨newFabric_numbered, ?_, fun _ => freshNamespace_sound false, ?_⟩, ?_⟩, fun _ some => absurd rfl some⟩
  · exact fun _ => forall_mem_nil _
  · exact fun _ => forall_mem_nil _
  · rintro _ _ ⟨_, _, mem, -⟩
    cases mem

/-- The links of a fabric and what refers to them. -/
structure Coherent (f : Fabric) : Prop where
  symmetric : ∀ id, ∀ l ∈ (f.space id).links, l.peer ≠ 0 →
    ∃ other ∈ f.spaces, ∃ p ∈ (f.space other).links, p.index = l.peer ∧ p.peer = l.index ∧ l.kind = .veth ∧
      p.kind = .veth
  onePeer : ∀ id id', ∀ l ∈ (f.space id).links, ∀ l' ∈ (f.space id').links, l.peer = l'.peer → l.peer ≠ 0 →
    id = id' ∧ l = l'
  masters : ∀ id, ∀ l ∈ (f.space id).links, l.master ≠ 0 → ∃ b ∈ (f.space id).links, b.index = l.master ∧
    b.kind = .bridge
  routes : ∀ id, ∀ r ∈ (f.space id).routes, ∃ l ∈ (f.space id).links, l.index = r.interface
  nexthops : ∀ id, ∀ h ∈ (f.space id).nexthops, ∃ l ∈ (f.space id).links, l.index = h.interface
  names : ∀ id, ((f.space id).links.map Interface.name).Nodup
  indexes : ∀ id id', ∀ l ∈ (f.space id).links, ∀ l' ∈ (f.space id').links, l.index = l'.index → l.index ≠ 1 →
    id = id' ∧ l = l'
  loopbacks : ∀ id, ((f.space id).links.map Interface.index).Nodup

theorem Linked.coherent (linked : Linked f) (listed : Listed f) : Coherent f where
  symmetric id l mem paired := by
    obtain ⟨other, p, there, isPeer, back, veth⟩ := linked.peer mem paired
    exact ⟨other, listed other (ne_nil_of_mem there), p, there, isPeer, back, (linked.veths id l mem paired).1, veth⟩
  onePeer id id' l mem l' member' same paired := by
    obtain ⟨other, p, there, isPeer, back, veth⟩ := linked.peer mem paired
    have ties : Joined f p.index l'.index := by
      rw [isPeer, same]
      exact linked.symmetric _ _ (joined_of_mem member') (same ▸ paired)
    have back' := linked.toTied.joined_peer there (by rw [veth]; decide) ties
    exact linked.toTied.unique mem member' (back.symm.trans back') (by rw [(linked.veths id l mem paired).1]; decide)
  masters id := (linked.spaces id).masters
  routes id := (linked.spaces id).routes
  nexthops id := (linked.spaces id).nexthops
  names id := (linked.spaces id).names
  indexes id id' l mem l' member' same other :=
    linked.toTied.unique mem member' same fun loopback => other (linked.loopbacks id l mem loopback)
  loopbacks := linked.numbered.indexes

/-- Whatever happens to a fabric whose links are in order, they stay so. -/
theorem links_coherent (linked : Linked f) (listed : Listed f) (events : List LinkEvent) :
    Coherent (events.foldl happen f) := by
  obtain ⟨linked', listed'⟩ := history_linked linked listed events
  exact linked'.coherent listed'

/-- A pair between the namespaces 0 and 1, whose first link is moved to the namespace 2. -/
def pairEvents : List LinkEvent :=
  [.create true 0 true, .create true 1 false, .create true 2 false,
    .change (fun _ => true) 0 makePair
      { index := 0, change := 0, flags := 0, family := 0, name := some [118, 48]
        peerName := some [118, 49], kind := some .veth }
      none (some 1),
    .move true 0 3 2 none]

theorem links_coherent_newFabric : Coherent (pairEvents.foldl happen newFabric) ∧
    (((pairEvents.foldl happen newFabric).space 2).links.map fun l => (l.index, l.peer)) = [(1, 0), (3, 4)] :=
  ⟨links_coherent newFabric_linked.1 newFabric_linked.2 _, by decide +kernel⟩

end Shroot.Network
