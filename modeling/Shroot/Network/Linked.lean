import Shroot.Network.Shapes

namespace Shroot.Network

open General List

variable {n : Namespace} {f g : Fabric} {id id' : SpaceId} {l' link : Interface} {index : UInt32} {pos : Nat}
  {links : List Interface}

section

variable {peer : UInt32}

/-- One of some links has this index and this peer. -/
def Among (links : List Interface) (index peer : UInt32) : Prop := ∃ l ∈ links, l.index = index ∧ l.peer = peer

/-- Some link of the fabric has this index and this peer. -/
def Joined (f : Fabric) (index peer : UInt32) : Prop := ∃ id, ∃ l ∈ (f.space id).links, l.index = index ∧ l.peer = peer

/-- A fabric in which all but the peers is in order. -/
structure Tied (f : Fabric) : Prop where
  numbered : Numbered f
  loopbacks : ∀ id, ∀ l ∈ (f.space id).links, l.kind = .loopback → l.index = 1
  spaces : ∀ id, SpaceSound (f.space id)
  veths : ∀ id, ∀ l ∈ (f.space id).links, l.peer ≠ 0 → l.kind = .veth ∧ l.peer ≠ l.index

/-- A fabric in which a link that has a peer is the peer of that. -/
structure Linked (f : Fabric) : Prop extends Tied f where
  symmetric : ∀ index peer, Joined f index peer → peer ≠ 0 → Joined f peer index

variable {l : Interface}

theorem Tied.unique (tied : Tied f) (one : l ∈ (f.space id).links) (two : l' ∈ (f.space id').links)
    (same : l.index = l'.index) (ordinary : l.kind ≠ .loopback) : id = id' ∧ l = l' := by
  have here : id = id' := by
    by_contra apart
    exact ordinary (tied.numbered.apart id id' apart l.key (mem_map_of_mem one) l'.key (mem_map_of_mem two) same)
  subst here
  exact ⟨rfl, inj_on_of_nodup_map (tied.numbered.indexes id) one two same⟩

theorem joined_of_mem (mem : l ∈ (f.space id).links) : Joined f l.index l.peer := ⟨id, l, mem, rfl, rfl⟩

theorem Tied.joined_peer (tied : Tied f) (mem : l ∈ (f.space id).links) (ordinary : l.kind ≠ .loopback)
    (joined : Joined f l.index peer) : l.peer = peer := by
  obtain ⟨id', l', there, same, rfl⟩ := joined
  rw [(tied.unique mem there same.symm ordinary).2]

theorem veth_ordinary (veth : l.kind = .veth) : l.kind ≠ .loopback := by
  rw [veth]
  decide

theorem Fabric.put_put (f : Fabric) (id : SpaceId) (n n' : Namespace) : (f.put id n).put id n' = f.put id n' := by
  simp [Fabric.put]

theorem mem_put (mem : l ∈ ((f.put id n).space id').links) :
    (id' = id ∧ l ∈ n.links) ∨ (id' ≠ id ∧ l ∈ (f.space id').links) := by
  by_cases same : id' = id
  · subst same
    rw [Fabric.put_self] at mem
    exact .inl ⟨rfl, mem⟩
  · rw [Fabric.put_other f n same] at mem
    exact .inr ⟨same, mem⟩

/-- Some link of another namespace has this index and this peer. -/
def Apart (f : Fabric) (id : SpaceId) (index peer : UInt32) : Prop :=
  ∃ other ≠ id, Among (f.space other).links index peer

theorem joined_at (id : SpaceId) :
    Joined f index peer ↔ Among (f.space id).links index peer ∨ Apart f id index peer := by
  constructor
  · rintro ⟨other, among⟩
    by_cases here : other = id
    · exact .inl (here ▸ among)
    · exact .inr ⟨other, here, among⟩
  · rintro (among | ⟨other, -, among⟩)
    · exact ⟨id, among⟩
    · exact ⟨other, among⟩

section

/-! The fabrics that differ from one in a namespace. -/

variable (space : g.space = (f.put id n).space)
include space

theorem joined_put : Joined g index peer ↔ Among n.links index peer ∨ Apart f id index peer := by
  rw [joined_at id, Apart, space, Fabric.put_self]
  refine or_congr_right (exists_congr fun other => and_congr_right fun ne => ?_)
  rw [Fabric.put_other f n ne]

theorem Tied.put (tied : Tied f) (nums : Numbered g) (sound : SpaceSound n)
    (links : ∀ l ∈ n.links, (l.kind = .loopback → l.index = 1) ∧ (l.peer ≠ 0 → l.kind = .veth ∧ l.peer ≠ l.index)) :
    Tied g := by
  refine ⟨nums, ?_, ?_, ?_⟩
  all_goals
    rw [space]
    intro id'
  · intro l mem
    rcases mem_put mem with ⟨-, new⟩ | ⟨-, old⟩
    · exact (links l new).1
    · exact tied.loopbacks id' l old
  · by_cases same : id' = id
    · rw [same, Fabric.put_self]
      exact sound
    · rw [Fabric.put_other f n same]
      exact tied.spaces id'
  · intro l mem
    rcases mem_put mem with ⟨-, new⟩ | ⟨-, old⟩
    · exact (links l new).2
    · exact tied.veths id' l old

end

theorem Linked.without (linked : Linked f) (tied : Tied g) (gone : UInt32 → Prop)
    (same : ∀ i p, p ≠ 0 → (Joined g i p ↔ Joined f i p ∧ ¬ gone i))
    (both : ∀ i p, i ≠ 0 → Joined f i p → Joined f p i → gone p → gone i) :
    Linked g := by
  refine ⟨tied, fun i p there paired => ?_⟩
  obtain ⟨old, stays⟩ := (same i p paired).mp there
  have back := linked.symmetric i p old paired
  have pos : i ≠ 0 := by
    obtain ⟨other, l, mem, rfl, -⟩ := old
    exact linked.numbered.index_ne mem
  exact (same p i pos).mpr ⟨back, fun goes => stays (both i p pos old back goes)⟩

theorem Linked.of_joined (linked : Linked f) (tied : Tied g) (same : ∀ i p, p ≠ 0 → (Joined g i p ↔ Joined f i p)) :
    Linked g :=
  linked.without tied (fun _ => False) (fun i p paired => by simpa using same i p paired) fun _ _ _ _ _ => id

theorem Linked.replace (linked : Linked f)
    (frames : n.links.map Interface.frame = (f.space id).links.map Interface.frame) (sound : SpaceSound n) :
    Linked (f.put id n) := by
  have keys : linkKeys n.links = f.keys id := map_of_map_eq frames fun frame => (frame.1, frame.2.1)
  have nums : Numbered (f.put id n) := linked.numbered.put (keys ▸ List.Sublist.refl _)
  have links : ∀ l ∈ n.links, (l.kind = .loopback → l.index = 1) ∧
      (l.peer ≠ 0 → l.kind = .veth ∧ l.peer ≠ l.index) := by
    intro l mem
    obtain ⟨l', there, same⟩ := exists_of_map_eq frames.symm mem
    obtain ⟨index, kind, peer⟩ : l'.index = l.index ∧ l'.kind = l.kind ∧ l'.peer = l.peer := by
      simpa [Interface.frame] using same
    rw [← kind, ← index, ← peer]
    exact ⟨linked.loopbacks id l' there, linked.veths id l' there⟩
  refine linked.of_joined (linked.toTied.put rfl nums sound links) fun index peer _ => ?_
  have moves : ∀ {links links' : List Interface}, links'.map Interface.frame = links.map Interface.frame →
      Among links index peer → Among links' index peer := by
    rintro links links' eq ⟨l, mem, rfl, rfl⟩
    obtain ⟨l', there, same⟩ := exists_of_map_eq eq mem
    obtain ⟨index, -, peer⟩ : l'.index = l.index ∧ l'.kind = l.kind ∧ l'.peer = l.peer := by
      simpa [Interface.frame] using same
    exact ⟨l', there, index, peer⟩
  rw [joined_put rfl, joined_at id]
  exact or_congr_left ⟨moves frames.symm, moves frames⟩

theorem Linked.put (linked : Linked f) (shapes : n.links.map Interface.shape = (f.space id).links.map Interface.shape)
    (routes : n.routes ⊆ (f.space id).routes) (nexthops : n.nexthops ⊆ (f.space id).nexthops) :
    Linked (f.put id n) := by
  have frames : n.links.map Interface.frame = (f.space id).links.map Interface.frame :=
    map_of_map_eq shapes fun shape => (shape.1.1, shape.1.2.1, shape.2)
  exact linked.replace frames ((linked.spaces id).congr (bases_of_shapes shapes) routes nexthops)

end

section

variable {n : SpaceId}

theorem Tied.remove (tied : Tied f) (mem : link ∈ (f.space n).links) (ordinary : link.kind ≠ .loopback) :
    Tied (f.put n (removeLink (f.space n) link.index)) ∧
      ∀ index peer, peer ≠ 0 → (Joined (f.put n (removeLink (f.space n) link.index)) index peer ↔ Joined f index peer ∧
        index ≠ link.index) := by
  have gone := removeLink_removed (tied.numbered.distinct n) link.index
  refine ⟨tied.put rfl (tied.numbered.put (linkKeys_removeLink _ _)) (gone.sound (tied.spaces n)) fun l' there => ?_,
    fun index peer paired => ?_⟩
  · obtain ⟨l, old, tie⟩ := gone.old l' there
    rw [tie_kind tie, tie_index tie, tie_peer tie]
    exact ⟨tied.loopbacks n l old, tied.veths n l old⟩
  · rw [joined_put rfl, joined_at n, or_and_right]
    refine or_congr ⟨?_, ?_⟩ ⟨?_, And.left⟩
    · rintro ⟨l', there, rfl, rfl⟩
      obtain ⟨l, old, tie⟩ := gone.old l' there
      exact ⟨⟨l, old, (tie_index tie).symm, (tie_peer tie).symm⟩, gone.gone l' there⟩
    · rintro ⟨⟨l, there, rfl, rfl⟩, ne⟩
      have veth := (tied.veths n l there paired).1
      obtain ⟨l', new, tie⟩ := gone.kept l there (by rw [veth]; decide) ne
      exact ⟨l', new, tie_index tie, tie_peer tie⟩
    · rintro ⟨other, away, l, there, rfl, rfl⟩
      exact ⟨⟨other, away, l, there, rfl, rfl⟩, fun same => away (tied.unique mem there same.symm ordinary).1.symm⟩

/-- All namespaces with links are in the list of the fabric. -/
def Listed (f : Fabric) : Prop := ∀ id, (f.space id).links ≠ [] → id ∈ f.spaces

theorem interfaceFind_isSome {l : Interface} (mem : l ∈ links) (nums : l.index ≠ 0) :
    (interfaceFind links l.index none).isSome := by
  unfold interfaceFind
  rw [find?_isSome]
  exact ⟨l, mem, by simp [linkMatches, nums]⟩

theorem Tied.owner (tied : Tied f) (listed : Listed f) (mem : link ∈ (f.space n).links)
    (ordinary : link.kind ≠ .loopback) :
    interfaceOwner f link.index = some n := by
  have notFirst : link.index ≠ 1 := fun first => ordinary (tied.numbered.first n link.key (mem_map_of_mem mem) first)
  have found := interfaceFind_isSome mem (tied.numbered.index_ne mem)
  have owned : (interfaceOwner f link.index).isSome := by
    unfold interfaceOwner
    rw [if_neg notFirst, find?_isSome]
    exact ⟨n, listed n (ne_nil_of_mem mem), found⟩
  obtain ⟨other, isOwner⟩ := Option.isSome_iff_exists.mp owned
  obtain ⟨q, isLink⟩ := interfaceOwner_holds isOwner
  rw [isOwner, (tied.unique mem (interfaceFind_mem isLink) (interfaceFind_index isLink).symm ordinary).1]

theorem Linked.peer (linked : Linked f) (mem : link ∈ (f.space n).links) (paired : link.peer ≠ 0) :
    ∃ other, ∃ p ∈ (f.space other).links, p.index = link.peer ∧ p.peer = link.index ∧ p.kind = .veth := by
  obtain ⟨other, p, there, isPeer, back⟩ := linked.symmetric _ _ (joined_of_mem mem) paired
  exact ⟨other, p, there, isPeer, back, (linked.veths other p there (back ▸ linked.numbered.index_ne mem)).1⟩

theorem withoutLink_alone_linked (linked : Linked f) (mem : link ∈ (f.space n).links) (ordinary : link.kind ≠ .loopback)
    (alone : link.peer = 0) : Linked (withoutLink f n link) := by
  have tied := linked.toTied
  obtain ⟨tied', joined⟩ := tied.remove mem ordinary
  have one : withoutLink f n link = f.put n (removeLink (f.space n) link.index) := by
    simp only [withoutLink, alone, interfaceOwner_zero]
  rw [one]
  refine linked.without tied' _ joined fun i p pos _ back same => ?_
  rw [same] at back
  exact absurd ((tied.joined_peer mem ordinary back).symm.trans alone) pos

theorem withoutLink_linked (linked : Linked f) (listed : Listed f) (mem : link ∈ (f.space n).links)
    (ordinary : link.kind ≠ .loopback) :
    Linked (withoutLink f n link) := by
  have tied := linked.toTied
  obtain ⟨tied', joined⟩ := tied.remove mem ordinary
  by_cases paired : link.peer = 0
  · exact withoutLink_alone_linked linked mem ordinary paired
  · obtain ⟨other, p, isLink, isPeer, back, veth⟩ := linked.peer mem paired
    have owned : interfaceOwner f link.peer = some other := by
      rw [← isPeer]
      exact tied.owner listed isLink (veth_ordinary veth)
    have ne : p.index ≠ link.index := isPeer ▸ (linked.veths n link mem paired).2
    have stays : ∃ p' ∈ ((f.put n (removeLink (f.space n) link.index)).space other).links, p'.tie = p.tie := by
      by_cases same : other = n
      · subst same
        rw [Fabric.put_self]
        exact (removeLink_removed (tied.numbered.distinct other) link.index).kept p isLink (by rw [veth]; decide) ne
      · rw [Fabric.put_other f _ same]
        exact ⟨p, isLink, rfl⟩
    obtain ⟨p', stays, tie⟩ := stays
    have peerIndex : p'.index = link.peer := (tie_index tie).trans isPeer
    have both : withoutLink f n link = (f.put n (removeLink (f.space n) link.index)).put other
        (removeLink ((f.put n (removeLink (f.space n) link.index)).space other) p'.index) := by
      simp only [withoutLink, owned, peerIndex]
    obtain ⟨tied'', joined'⟩ := tied'.remove stays (veth_ordinary ((tie_kind tie).trans veth))
    rw [both]
    refine linked.without tied'' (fun i => i = link.index ∨ i = p'.index) (fun i q paired => ?_)
      fun i q _ _ reverse goes => ?_
    · rw [joined' i q paired, joined i q paired, and_assoc, not_or]
    · rcases goes with same | same
      · rw [same] at reverse
        exact .inr ((tied.joined_peer mem ordinary reverse).symm.trans peerIndex.symm)
      · rw [same, peerIndex, ← isPeer] at reverse
        exact .inl ((tied.joined_peer isLink (veth_ordinary veth) reverse).symm.trans back)

end

section

variable {kind : LinkKind}

/-- What a new link is. -/
structure Fresh (f : Fabric) (id : SpaceId) (kind : LinkKind) (index : UInt32) (n : Namespace) (link : Interface) :
    Prop where
  links : n.links = (f.space id).links ++ [link]
  routes : n.routes = (f.space id).routes
  nexthops : n.nexthops = (f.space id).nexthops
  index : link.index = index
  kind : link.kind = kind
  master : link.master = 0
  peer : link.peer = 0
  name : link.name ∉ (f.space id).links.map Interface.name

theorem interfaceFind_name_none {name : Bytes} (gone : (interfaceFind links 0 (some name)).isSome = false) :
    name ∉ links.map Interface.name := by
  intro mem
  obtain ⟨l, there, rfl⟩ := mem_map.mp mem
  unfold interfaceFind at gone
  have found : (links.find? (linkMatches 0 (some l.name))).isSome := find?_isSome.mpr ⟨l, there, by simp [linkMatches]⟩
  rw [found] at gone
  cases gone

/-- Either nothing happens, or a link with the next index is there, or one with the index of loopback links. -/
theorem interfaceAdd_ensures (f : Fabric) (id : SpaceId) (grows : Bool) (kind : LinkKind) (name : Bytes) :
    Ensures f (fun index g => ∃ n link, g.space = (f.put id n).space ∧ Fresh f id kind index n link ∧
      g.spaces = f.spaces ∧
        f.nextIndex ≠ 0x7fffffff ∧ index = (if kind = .loopback then 1 else f.nextIndex) ∧
        g.nextIndex = if kind = .loopback then f.nextIndex else f.nextIndex + 1)
      (fun g => g = f) (interfaceAdd grows id kind name) := by
  refine .get_bind (.rejectIf_bind rfl fun _ => .rejectIf_bind rfl fun free => ?_)
  refine .rejectIf_bind rfl fun room => .ofExcept_bind rfl fun n reserved => ?_
  have same := interfaceReserve_links reserved
  have gone := interfaceFind_name_none (Bool.not_eq_true _ ▸ free)
  have links := congrArg Topology.links same
  have routes := congrArg Topology.routes same
  have nexthops := congrArg Topology.nexthops same
  refine .set_bind (.pure ⟨_, _, rfl, ⟨congrArg (· ++ _) links, routes, nexthops, rfl, rfl, rfl, rfl, gone⟩, rfl,
    fun full => room (.inl full), rfl, rfl⟩)

theorem Fresh.sound (fresh : Fresh f id kind index n link) (sound : SpaceSound (f.space id)) : SpaceSound n :=
  sound.append fresh.links fresh.master fresh.name fresh.routes fresh.nexthops

theorem Linked.of_space (linked : Linked f) (nums : Numbered g) (same : g.space = f.space) : Linked g := by
  refine linked.of_joined ⟨nums, ?_, ?_, ?_⟩ fun index peer _ => by simp only [Joined, same]
  · rw [same]
    exact linked.loopbacks
  · rw [same]
    exact linked.spaces
  · rw [same]
    exact linked.veths

theorem Linked.add (linked : Linked f) (nums : Numbered g) (spaces : g.space = (f.put id n).space)
    (fresh : Fresh f id kind index n link) (first : kind = .loopback → index = 1) : Linked g := by
  have old : ∀ l ∈ n.links, l ∈ (f.space id).links ∨ l = link := by
    intro l mem
    rw [fresh.links] at mem
    exact (mem_append.mp mem).imp_right mem_singleton.mp
  refine linked.of_joined (linked.toTied.put spaces nums (fresh.sound (linked.spaces id)) fun l mem => ?_)
    fun i p paired => ?_
  · rcases old l mem with pre | rfl
    · exact ⟨linked.loopbacks id l pre, linked.veths id l pre⟩
    · exact ⟨fun isLoopback => fresh.index.trans (first (fresh.kind.symm.trans isLoopback)),
        fun paired => absurd fresh.peer paired⟩
  · rw [joined_put spaces, joined_at id]
    refine or_congr_left ⟨?_, ?_⟩
    · rintro ⟨l, mem, rfl, rfl⟩
      rcases old l mem with pre | rfl
      · exact ⟨l, pre, rfl, rfl⟩
      · exact absurd fresh.peer paired
    · rintro ⟨l, mem, has⟩
      exact ⟨l, fresh.links ▸ mem_append_left _ mem, has⟩

end

section

variable {change : Interface → Interface}

theorem modify_index (nodup : (links.map Interface.index).Nodup) {l : Interface}
    (there : links[pos]? = some l) (change : Interface → Interface) :
    links.modify pos change = links.map fun x => if x.index = l.index then change x else x := by
  apply ext_getElem?
  intro k
  rw [getElem?_modify, getElem?_map]
  by_cases same : pos = k
  · subst same
    simp [there]
  · cases at_k : links[k]? with
    | none => simp [same]
    | some x =>
      have ne : x.index ≠ l.index := by
        intro eq
        have bound : pos < (links.map Interface.index).length := by
          rw [length_map]
          exact (List.getElem?_eq_some_iff.mp there).1
        have indexes : (links.map Interface.index)[pos]? = (links.map Interface.index)[k]? := by simp [there, at_k, eq]
        exact same ((getElem?_inj bound nodup).mp indexes)
      simp [same, ne]

/-- A change that only gives a link another peer. -/
def SetsPeer (peer : UInt32) (change : Interface → Interface) : Prop :=
  ∀ l, (change l).base = l.base ∧ (change l).peer = peer

theorem Tied.setPeer (tied : Tied f) {l : Interface} (there : (f.space id).links[pos]? = some l)
    (veth : l.kind = .veth) {peer : UInt32} (other : peer ≠ l.index) (sets : SetsPeer peer change) :
    Tied (f.put id ((f.space id).modifyLink pos change)) ∧
      ∀ i p, Joined (f.put id ((f.space id).modifyLink pos change)) i p ↔
        (if i = l.index then p = peer else Joined f i p) := by
  have links : ((f.space id).modifyLink pos change).links =
      (f.space id).links.map fun x => if x.index = l.index then change x else x :=
        modify_index (tied.numbered.indexes id) there change
  have isLink := mem_of_getElem? there
  have ordinary := veth_ordinary veth
  have bases : ((f.space id).modifyLink pos change).links.map Interface.base =
      (f.space id).links.map Interface.base := by
    rw [links, map_map]
    refine map_congr_left fun x _ => ?_
    simp only [Function.comp_apply]
    split
    · exact (sets x).1
    · rfl
  have mem : ∀ x' ∈ ((f.space id).modifyLink pos change).links,
      (x'.index = l.index ∧ x'.kind = .veth ∧ x'.peer = peer) ∨ (x'.index ≠ l.index ∧ x' ∈ (f.space id).links) := by
    intro x' isIn
    rw [links] at isIn
    obtain ⟨x, old, rfl⟩ := mem_map.mp isIn
    by_cases same : x.index = l.index
    · have isSame : x = l := inj_on_of_nodup_map (tied.numbered.indexes id) old isLink same
      rw [if_pos same]
      exact .inl ⟨(base_index (sets x).1).trans same, (base_kind (sets x).1).trans (isSame ▸ veth), (sets x).2⟩
    · rw [if_neg same]
      exact .inr ⟨same, old⟩
  refine ⟨tied.put rfl (tied.numbered.put (linkKeys_of_bases bases ▸ List.Sublist.refl _))
    ((tied.spaces id).congr bases (List.Subset.refl _) (List.Subset.refl _)) fun x' isIn => ?_, fun i p => ?_⟩
  · rcases mem x' isIn with ⟨index, kind, isPeer⟩ | ⟨-, old⟩
    · rw [kind, isPeer, index]
      exact ⟨nofun, fun _ => ⟨rfl, other⟩⟩
    · exact ⟨tied.loopbacks id x' old, tied.veths id x' old⟩
  · have here : Among ((f.space id).modifyLink pos change).links i p ↔
        if i = l.index then p = peer else Among (f.space id).links i p := by
      constructor
      · rintro ⟨x', isIn, rfl, rfl⟩
        rcases mem x' isIn with ⟨index, -, isPeer⟩ | ⟨ne, old⟩
        · rw [if_pos index, isPeer]
        · rw [if_neg ne]
          exact ⟨x', old, rfl, rfl⟩
      · intro has
        rw [links]
        split at has
        next same =>
          exact ⟨change l, mem_map.mpr ⟨l, isLink, if_pos rfl⟩, (base_index (sets l).1).trans same.symm,
            (sets l).2.trans has.symm⟩
        next ne =>
          obtain ⟨x, old, rfl, rfl⟩ := has
          exact ⟨x, mem_map.mpr ⟨x, old, if_neg ne⟩, rfl, rfl⟩
    have away : ¬ Apart f id l.index p := by
      rintro ⟨space, apart, x, old, same, -⟩
      exact apart (tied.unique isLink old same.symm ordinary).1.symm
    rw [joined_put rfl, joined_at id, here]
    by_cases same : i = l.index
    · subst same
      simp [away]
    · simp [same]

theorem Linked.pair (linked : Linked f) {position' : Nat} {a b : Interface}
    (isA : (f.space id).links[pos]? = some a) (veth : a.kind = .veth) (alone : a.peer = 0)
    (sets : SetsPeer b.index change)
    (isB : ((f.put id ((f.space id).modifyLink pos change)).space id').links[position']? = some b)
    (veth' : b.kind = .veth) (alone' : b.peer = 0) (apart : b.index ≠ a.index) {change' : Interface → Interface}
    (sets' : SetsPeer a.index change') :
    Linked ((f.put id ((f.space id).modifyLink pos change)).put id'
      (((f.put id ((f.space id).modifyLink pos change)).space id').modifyLink position' change')) := by
  obtain ⟨tied, joined⟩ := linked.toTied.setPeer isA veth apart sets
  obtain ⟨tied', joined'⟩ := tied.setPeer isB veth' apart.symm sets'
  have aloneB : ∀ p, Joined f b.index p → p = 0 := by
    intro p old
    have new : Joined (f.put id ((f.space id).modifyLink pos change)) b.index p := by
      rw [joined, if_neg apart]
      exact old
    exact (tied.joined_peer (mem_of_getElem? isB) (veth_ordinary veth') new).symm.trans alone'
  have aloneA : ∀ p, Joined f a.index p → p = 0 :=
    fun p old => (linked.toTied.joined_peer (mem_of_getElem? isA) (veth_ordinary veth) old).symm.trans alone
  refine ⟨tied', fun i p there paired => ?_⟩
  rw [joined'] at there ⊢
  by_cases isFirst : i = b.index
  · rw [if_pos isFirst] at there
    rw [there, if_neg apart.symm, joined, if_pos rfl, isFirst]
  · rw [if_neg isFirst, joined] at there
    by_cases isSecond : i = a.index
    · rw [if_pos isSecond] at there
      rw [there, if_pos rfl, isSecond]
    · rw [if_neg isSecond] at there
      have back := linked.symmetric i p there paired
      have notB : p ≠ b.index := by
        rintro rfl
        obtain ⟨space, x, isIn, rfl, -⟩ := there
        exact linked.numbered.index_ne isIn (aloneB _ back)
      have notA : p ≠ a.index := by
        rintro rfl
        obtain ⟨space, x, isIn, rfl, -⟩ := there
        exact linked.numbered.index_ne isIn (aloneA _ back)
      rw [if_neg notB, joined, if_neg notA]
      exact back

end

theorem Linked.set (linked : Linked f) {l : Interface} (there : (f.space id).links[pos]? = some l)
    (frame : l'.frame = l.frame) (name : l'.name = l.name ∨ l'.name ∉ (f.space id).links.map Interface.name)
    (master : l'.master = l.master ∨
      (l'.master ≠ 0 → ∃ b ∈ (f.space id).links, b.index = l'.master ∧ b.kind = .bridge)) :
    Linked (f.put id { f.space id with links := (f.space id).links.set pos l' }) := by
  obtain ⟨index, kind, -⟩ : l'.index = l.index ∧ l'.kind = l.kind ∧ l'.peer = l.peer := by
    simpa [Interface.frame] using frame
  have kept : ∀ x ∈ (f.space id).links, ∃ x' ∈ (f.space id).links.set pos l', x'.index = x.index ∧
      x'.kind = x.kind := by
    intro x isIn
    rcases exists_mem_set there isIn with same | ⟨rfl, new⟩
    · exact ⟨x, same, rfl, rfl⟩
    · exact ⟨_, new, index, kind⟩
  have bridge : ∀ x' ∈ (f.space id).links.set pos l', x'.master ≠ 0 → ∃ b ∈ (f.space id).links, b.index = x'.master ∧
      b.kind = .bridge := by
    refine forall_mem_set (linked.spaces id).masters fun good => ?_
    rcases master with same | given
    · rw [same] at good ⊢
      exact (linked.spaces id).masters l (mem_of_getElem? there) good
    · exact given good
  refine linked.replace (map_set_of_eq there frame) ⟨?_, fun x' isIn good => ?_, fun r isIn => ?_, fun h isIn => ?_⟩
  · rcases name with same | free
    · rw [map_set_of_eq there same]
      exact (linked.spaces id).names
    · rw [map_set]
      exact (linked.spaces id).names.set free
  · obtain ⟨b, isLink, isMaster, isBridge⟩ := bridge x' isIn good
    obtain ⟨b', isLink', index', kind'⟩ := kept b isLink
    exact ⟨b', isLink', index'.trans isMaster, kind'.trans isBridge⟩
  · obtain ⟨x, old, isIndex⟩ := (linked.spaces id).routes r isIn
    obtain ⟨x', post, index', -⟩ := kept x old
    exact ⟨x', post, index'.trans isIndex⟩
  · obtain ⟨x, old, isIndex⟩ := (linked.spaces id).nexthops h isIn
    obtain ⟨x', post, index', -⟩ := kept x old
    exact ⟨x', post, index'.trans isIndex⟩

theorem Linked.move (linked : Linked f) {source dest : SpaceId} {moved : Interface} (ne : source ≠ dest)
    (mem : link ∈ (f.space source).links) (veth : link.kind = .veth) (links : n.links = (f.space dest).links ++ [moved])
    (frame : moved.frame = link.frame) (free : moved.master = 0)
    (name : moved.name ∉ (f.space dest).links.map Interface.name) (routes : n.routes = (f.space dest).routes)
    (nexthops : n.nexthops = (f.space dest).nexthops) :
    Linked ((f.put source (removeLink (f.space source) link.index)).put dest n) := by
  obtain ⟨index, kind, peer⟩ : moved.index = link.index ∧ moved.kind = link.kind ∧ moved.peer = link.peer := by
    simpa [Interface.frame] using frame
  have ordinary := veth_ordinary veth
  obtain ⟨tied, joined⟩ := linked.toTied.remove mem ordinary
  have target : (f.put source (removeLink (f.space source) link.index)).space dest = f.space dest :=
    Fabric.put_other f _ ne.symm
  have old : ∀ l ∈ n.links, l ∈ (f.space dest).links ∨ l = moved := by
    intro l isIn
    rw [links] at isIn
    exact (mem_append.mp isIn).imp_right mem_singleton.mp
  have sound := (linked.spaces dest).append links free name routes nexthops
  have keys : linkKeys n.links = f.keys dest ++ [link.key] := by
    rw [linkKeys, links, map_append, map_cons, map_nil, Interface.key, index, kind]
    rfl
  have nums := linked.numbered.move ne mem ordinary rfl keys
  have same : ∀ i p, p ≠ 0 →
      (Joined ((f.put source (removeLink (f.space source) link.index)).put dest n) i p ↔ Joined f i p) := by
    intro i p paired
    have without := joined i p paired
    rw [joined_at dest, target] at without
    have here : Among n.links i p ↔ Among (f.space dest).links i p ∨ (link.index = i ∧ link.peer = p) := by
      simp [Among, links, or_and_right, exists_or, index, peer]
    have whole : link.index = i ∧ link.peer = p ↔ Joined f i p ∧ i = link.index := by
      constructor
      · rintro ⟨rfl, rfl⟩
        exact ⟨joined_of_mem mem, rfl⟩
      · rintro ⟨pre, rfl⟩
        exact ⟨rfl, linked.toTied.joined_peer mem ordinary pre⟩
    rw [joined_put rfl, here, or_right_comm, without, whole, ← and_or_left]
    exact and_iff_left (Classical.em _).symm
  refine linked.of_joined (tied.put rfl nums sound fun l isIn => ?_) same
  rcases old l isIn with pre | rfl
  · exact ⟨linked.loopbacks dest l pre, linked.veths dest l pre⟩
  · rw [index, kind, peer]
    exact ⟨linked.loopbacks source link mem, linked.veths source link mem⟩

end Shroot.Network
