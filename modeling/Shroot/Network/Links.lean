import Shroot.Network.Linked

namespace Shroot.Network

open General List Option Prod

variable {hit : List SpaceId} {f g h : Fabric} {n id : SpaceId} {m : Namespace} {links : List Interface}
  {index : UInt32} {pos : Nat}

section

/-- Operations on the links of some namespaces: the numbering stays, and no link gets another master. -/
structure Frames (hit : List SpaceId) (f g : Fabric) : Prop where
  within : Within hit f g
  numbered : Numbered g
  spaces : g.spaces = f.spaces
  milder : Milder f g

/-- And the links stay in order, if they are. -/
structure Tends (hit : List SpaceId) (f g : Fabric) : Prop extends Frames hit f g where
  linked : Linked f → Linked g

theorem Frames.trans (first : Frames hit f g) (two : Frames hit g h) : Frames hit f h :=
  ⟨first.within.trans two.within, two.numbered, two.spaces.trans first.spaces, first.milder.trans two.milder⟩

theorem Frames.put (nums : Numbered f) (mem : id ∈ hit)
    (bases : m.links.map Interface.base = (f.space id).links.map Interface.base) : Frames hit f (f.put id m) :=
  ⟨.put mem f m, nums.put (linkKeys_of_bases bases ▸ List.Sublist.refl _), rfl, .same bases⟩

theorem Tends.refl (nums : Numbered f) : Tends hit f f := ⟨⟨.refl f, nums, rfl, .refl f⟩, fun linked => linked⟩

theorem Tends.trans (first : Tends hit f g) (two : Tends hit g h) : Tends hit f h :=
  ⟨first.toFrames.trans two.toFrames, fun linked => two.linked (first.linked linked)⟩

theorem Tends.mono {more : List SpaceId} (tends : Tends hit f g) (subset : hit ⊆ more) : Tends more f g :=
  { tends with within := tends.within.mono subset }

/-- Such an operation that leaves the links of a namespace where they are. -/
structure Refits (hit : List SpaceId) (n : SpaceId) (f g : Fabric) : Prop extends Tends hit f g where
  keys : g.keys n = f.keys n

theorem Refits.trans (first : Refits hit n f g) (two : Refits hit n g h) : Refits hit n f h :=
  ⟨first.toTends.trans two.toTends, two.keys.trans first.keys⟩

theorem keys_put_same (same : linkKeys m.links = f.keys id) : (f.put id m).keys n = f.keys n := by
  rw [Fabric.keys_put]
  split
  next here => rw [same, here]
  · rfl

variable (nums : Numbered f) (mem : id ∈ hit)

include nums mem

section

variable (shapes : m.links.map Interface.shape = (f.space id).links.map Interface.shape)
variable (routes : m.routes ⊆ (f.space id).routes) (nexthops : m.nexthops ⊆ (f.space id).nexthops)

include shapes routes nexthops

theorem Tends.put : Tends hit f (f.put id m) :=
  ⟨.put nums mem (bases_of_shapes shapes), fun linked => linked.put shapes routes nexthops⟩

theorem Refits.put : Refits hit n f (f.put id m) :=
  ⟨.put nums mem shapes routes nexthops, keys_put_same (linkKeys_of_shapes shapes)⟩

end

variable {change : Interface → Interface} (pos : Nat) (same : ∀ l, (change l).shape = l.shape)

include same

theorem Tends.modifyLink : Tends hit f (f.put id ((f.space id).modifyLink pos change)) :=
  .put nums mem (map_modify_of_eq same) (List.Subset.refl _) (List.Subset.refl _)

theorem Refits.modifyLink : Refits hit n f (f.put id ((f.space id).modifyLink pos change)) :=
  .put nums mem (map_modify_of_eq same) (List.Subset.refl _) (List.Subset.refl _)

end

section

variable {name : Bytes}

theorem findLink_name_none (gone : findLink links 0 (some name) = none) : name ∉ links.map Interface.name := by
  intro mem
  obtain ⟨l, there, rfl⟩ := mem_map.mp mem
  have none := findIdx?_eq_none_iff.mp gone l there
  simp [linkMatches] at none

theorem findLink_name_some {l : Interface} (found : findLink links 0 (some name) = some pos)
    (there : links[pos]? = some l) : name = l.name := by
  have same := findLink_interfaceFind found
  have has := find?_some (same.symm.trans there)
  simpa [linkMatches] using has

/-- `md_network_interface_move`. Within a namespace it is a new name. -/
theorem interfaceMove_tends (nums : Numbered f) (grows : Bool) (source : SpaceId) (index : UInt32) (dest : SpaceId)
    (name : Option Bytes) :
    Ensures f (fun _ g => Tends [source, dest] f g ∧ (source = dest →
        g.keys source = f.keys source ∧
          (g.space source).links.map Interface.rein = (f.space source).links.map Interface.rein))
      (fun g => g = f) (interfaceMove grows source index dest name) := by
  refine .get_bind ?_
  split
  · exact .throw rfl
  rename_i pos found
  dsimp only
  split
  · exact .throw rfl
  rename_i link there
  refine .rejectIf_bind rfl fun movable => .rejectIf_bind rfl fun _ => .rejectIf_bind rfl fun free => ?_
  have isLink := mem_of_getElem? there
  have isIndex : link.index = index := interfaceFind_index ((findLink_interfaceFind found).symm.trans there)
  refine .ite (fun same => ?_) fun ne => ?_
  · subst same
    have unused : name.getD link.name = link.name ∨
        name.getD link.name ∉ (f.space source).links.map Interface.name := by
      cases collision : findLink (f.space source).links 0 (some (name.getD link.name)) with
      | none => exact .inr (findLink_name_none collision)
      | some place =>
        have here : place = pos := by
          by_contra other
          exact free ⟨by rw [collision]; rfl, fun both => other (mem_unique collision both.2)⟩
        subst here
        exact .inl (findLink_name_some collision there)
    have keys : linkKeys ((f.space source).links.set pos { link with name := name.getD link.name }) = f.keys source :=
      map_set_of_eq there rfl
    have reins : ((f.space source).links.set pos { link with name := name.getD link.name }).map Interface.rein =
        (f.space source).links.map Interface.rein := map_set_of_eq there rfl
    refine .modify ⟨⟨⟨.put (by simp) _ _, nums.put (keys ▸ List.Sublist.refl _), rfl, .reins rfl reins⟩,
      fun linked => linked.set there rfl unused (.inl rfl)⟩, fun _ => ⟨keys_put_same keys, ?_⟩⟩
    rw [Fabric.put_self]
    exact reins
  · refine .rejectIf_bind rfl fun _ => .ofExcept_bind rfl fun m reserved => ?_
    have veth : link.kind = .veth := by
      by_contra other
      exact movable ⟨ne, other⟩
    have gone : findLink (f.space dest).links 0 (some (name.getD link.name)) = none := by
      cases collision : findLink (f.space dest).links 0 (some (name.getD link.name)) with
      | none => rfl
      | some place => exact absurd ⟨by rw [collision]; rfl, fun both => ne both.1⟩ free
    have same := interfaceReserve_links reserved
    have links : m.links = (f.space dest).links := congrArg Topology.links same
    have routes : m.routes = (f.space dest).routes := congrArg Topology.routes same
    have nexthops : m.nexthops = (f.space dest).nexthops := congrArg Topology.nexthops same
    have target : (f.put source (removeLink (f.space source) index)).space dest = f.space dest :=
      Fabric.put_other f _ (.symm ne)
    have old : m.links = ((f.put source (removeLink (f.space source) index)).space dest).links := by rw [target, links]
    have keys : linkKeys m.links = f.keys dest := congrArg linkKeys links
    refine .modify_bind (.modify ⟨⟨⟨(Within.put (by simp) _ _).trans (Within.put (by simp) _ _), ?_, rfl,
      (Milder.remove nums source index).trans (.add rfl (congrArg (· ++ _) old) rfl)⟩, fun linked => ?_⟩,
        fun eq => absurd eq ne⟩)
    · refine nums.move ne isLink (by rw [veth]; decide) (by rw [isIndex]) ?_
      rw [linkKeys, map_append]
      exact congrArg (· ++ _) keys
    · rw [← isIndex]
      exact linked.move ne isLink veth (congrArg (· ++ _) links) rfl rfl (findLink_name_none gone) routes nexthops

end

section

variable {kind : LinkKind} {link x : Interface}

theorem interfaceReserve_refits (nums : Numbered f) (mem : id ∈ hit) {extra : Nat} {grows : Bool}
    (reserved : interfaceReserve (f.space id) extra grows = .ok m) : Refits hit n f (f.put id m) := by
  have same := interfaceReserve_links reserved
  have links : m.links = (f.space id).links := congrArg Topology.links same
  have routes : m.routes = (f.space id).routes := congrArg Topology.routes same
  have nexthops : m.nexthops = (f.space id).nexthops := congrArg Topology.nexthops same
  exact .put nums mem (by rw [links]) (routes ▸ List.Subset.refl _) (nexthops ▸ List.Subset.refl _)

theorem reserveLinks_refits (nums : Numbered f) (grows : SpaceId → Bool) (kind : NewKind) (far : SpaceId) :
    Ensures f (fun _ => Refits [n, far] n f) (Tends [n, far] f) (reserveLinks grows n kind far) := by
  refine .get_bind (.ofExcept_bind (.refl nums) fun own reserved => .set_bind ?_)
  have first : Refits [n, far] n f (f.put n own) := interfaceReserve_refits nums (by simp) reserved
  refine .ite (fun away => .ofExcept_bind first.toTends fun other reserved' => .modify ?_) fun _ => .pure first
  rw [← Fabric.put_other f own away] at reserved'
  exact first.trans (interfaceReserve_refits first.numbered (by simp) reserved')

section

variable (fresh : Fresh f id kind index m link) (spaces : g.space = (f.put id m).space)

include fresh spaces

theorem Fresh.keys : f.keys n ⊆ g.keys n := by
  unfold Fabric.keys
  rw [spaces]
  by_cases same : n = id
  · rw [same, Fabric.put_self, fresh.links, linkKeys, linkKeys, map_append]
    exact subset_append_left _ _
  · rw [Fabric.put_other f m same]
    exact List.Subset.refl _

theorem Fresh.mem (mem : x ∈ (f.space n).links) : x ∈ (g.space n).links := by
  rw [spaces]
  by_cases same : n = id
  · rw [same, Fabric.put_self, fresh.links]
    exact mem_append_left _ (same ▸ mem)
  · rwa [Fabric.put_other f m same]

theorem Fresh.self : link ∈ (g.space id).links := by
  rw [spaces, Fabric.put_self, fresh.links]
  exact mem_append_right _ (mem_singleton_self _)

end

theorem interfaceAdd_tends (nums : Numbered f) (mem : id ∈ hit) (grows : Bool) (plain : kind ≠ .loopback)
    (name : Bytes) :
    Ensures f (fun index g => Tends hit f g ∧ index = f.nextIndex ∧ ∃ m link, Fresh f id kind index m link ∧
      g.space = (f.put id m).space)
      (fun g => g = f) (interfaceAdd grows id kind name) := by
  refine (interfaceAdd_ensures f id grows kind name).mono ?_ fun _ same => same
  rintro index g ⟨m, link, space, fresh, list, room, isIndex, next⟩
  rw [if_neg plain] at isIndex next
  have key : link.key = (f.nextIndex, kind) := by rw [Interface.key, fresh.index, fresh.kind, isIndex]
  have added : Numbered { f.put id m with nextIndex := f.nextIndex + 1 } := nums.add fresh.links key room
  have keys : ∀ other, g.keys other = ({ f.put id m with nextIndex := f.nextIndex + 1 } : Fabric).keys other := by
    intro other
    simp [Fabric.keys, space]
  have nums' : Numbered g := added.of_sublist next fun other => keys other ▸ List.Sublist.refl _
  refine ⟨⟨⟨fun other outside => ?_, nums', list, .add space fresh.links fresh.master⟩, fun linked => ?_⟩, isIndex, m,
    link, fresh, space⟩
  · rw [space]
    exact Within.put mem f m other outside
  · exact linked.add nums' space fresh fun isLoopback => absurd isLoopback plain

/-- A link that was made for a pair and waits for its peer. -/
structure Waiting (f : Fabric) (n : SpaceId) (index : UInt32) (x : Interface) : Prop where
  member : x ∈ (f.space n).links
  index : x.index = index
  veth : x.kind = .veth
  alone : x.peer = 0

/-- A link and one that has just been tied to it, before it is tied back. -/
structure HalfTied (n far : SpaceId) (index peer : UInt32) (f g h : Fabric) : Prop where
  tends : Tends [n, far] f g
  keys : f.keys n ⊆ g.keys n
  first : ∃ x, Waiting g n index x
  second : ∃ y pos change, Waiting g far peer y ∧ (g.space far).links[pos]? = some y ∧ SetsPeer index change ∧
    h = g.put far ((g.space far).modifyLink pos change)
  apart : index ≠ peer

theorem createPeer_ensures (nums : Numbered f) (grows : SpaceId → Bool) (far : SpaceId) (c : LinkChange)
    (peerName : Bytes) (waiting : Waiting f n index x) :
    Ensures f (fun peer h => ∃ g, HalfTied n far index peer f g h) (Tends [n, far] f)
      (createPeer grows n far c index peerName) := by
  have isIn : far ∈ [n, far] := by simp
  have adds := interfaceAdd_tends nums isIn (grows far) (show LinkKind.veth ≠ .loopback by decide) peerName
  refine .get_bind ?_
  unfold Ensures at adds
  split
  · -- the new link goes again, and it alone: its peer is not set yet
    rename_i error new failed
    rw [failed] at adds
    subst adds
    refine .set_bind (.throw ?_)
    have found : interfaceFind (new.space n).links index none = some x := by
      rw [← waiting.index]
      exact nums.finds waiting.member
    rcases interfaceRemove_cases new n index with ⟨same, -⟩ | ⟨link, isLink, -, gone⟩
    · rw [same]
      exact .refl nums
    · obtain rfl := mem_unique found isLink
      have plain : x.kind ≠ .loopback := by
        rw [waiting.veth]
        decide
      rw [gone]
      exact ⟨⟨(withoutLink_alone waiting.alone).mono (by simp), withoutLink_numbered nums n x,
        withoutLink_spaces new n x,
        withoutLink_milder nums n x⟩, fun linked => withoutLink_alone_linked linked waiting.member plain waiting.alone⟩
  next peer new made =>
    rw [made] at adds
    obtain ⟨tends, isNext, m, y, fresh, space⟩ := adds
    have mem := fresh.self space
    obtain ⟨pos, found, there⟩ := tends.numbered.findLink mem
    rw [fresh.index] at found
    refine .set_bind ?_
    rw [found]
    refine .modify_bind (.pure ⟨new, tends, fresh.keys space, ⟨x, ?_⟩, ⟨y, pos, peerSettings c index,
      ⟨mem, fresh.index, fresh.kind, fresh.peer⟩, there, fun _ => ⟨rfl, rfl⟩, rfl⟩, ?_⟩)
    · exact ⟨fresh.mem space waiting.member, waiting.index, waiting.veth, waiting.alone⟩
    · have below := nums.below n x.key (mem_map_of_mem waiting.member)
      rw [isNext, ← waiting.index]
      exact UInt32.ne_of_lt below

/-- A position of a namespace has the link with an index. -/
def Places (g : Fabric) (n : SpaceId) (index : UInt32) (pos : Nat) : Prop :=
  ∀ key, (g.keys n)[pos]? = some key → key.1 = index

theorem Places.of_there (there : (f.space n).links[pos]? = some x) (isIndex : x.index = index)
    (keys : g.keys n = f.keys n) : Places g n index pos := by
  intro key held
  rw [keys, Fabric.keys, linkKeys, getElem?_map, there] at held
  rw [← some.inj held]
  exact isIndex

theorem HalfTied.finish {far : SpaceId} {peer : UInt32} (half : HalfTied n far index peer f g h) (c : LinkChange) :
    Ensures h (fun pos k => Tends [n, far] f k ∧ f.keys n ⊆ k.keys n ∧ Places k n index pos) (Tends [n, far] f)
      (finishLink n c .veth index peer) := by
  obtain ⟨tends, keys, ⟨x, isX⟩, ⟨y, pos, change, isY, there, sets, is⟩, apart⟩ := half
  have bases : ((g.space far).modifyLink pos change).links.map Interface.base =
    (g.space far).links.map Interface.base :=
    map_modify_of_eq fun l => (sets l).1
  have first : Frames [n, far] g h := is ▸ .put tends.numbered (by simp) bases
  have keys' : h.keys n = g.keys n := is ▸ keys_put_same (linkKeys_of_bases bases)
  -- the link is still there
  have held : x.key ∈ h.keys n := keys'.symm ▸ mem_map_of_mem isX.member
  obtain ⟨x', mem, key⟩ := mem_map.mp held
  obtain ⟨sameIndex, sameKind⟩ : x'.index = x.index ∧ x'.kind = x.kind := by simpa [Interface.key] using key
  have isIndex : x'.index = index := sameIndex.trans isX.index
  have veth : x'.kind = .veth := sameKind.trans isX.veth
  have ne : x'.index ≠ y.index := by
    rw [isIndex, isY.index]
    exact apart
  obtain ⟨position', found, there'⟩ := first.numbered.findLink mem
  rw [isIndex] at found
  have bases' : ((h.space n).modifyLink position' fun link => { link with peer := peer }).links.map Interface.base =
      (h.space n).links.map Interface.base := map_modify_of_eq fun _ => rfl
  have two : Frames [n, far] h _ := .put first.numbered (by simp) bases'
  have same : (h.put n _).keys n = h.keys n := keys_put_same (linkKeys_of_bases bases')
  refine .get_bind ?_
  rw [found]
  refine .modify_bind
    (.pure ⟨⟨tends.toFrames.trans (first.trans two), fun old => ?_⟩, ?_, .of_there there' isIndex same⟩)
  · have linked := tends.linked old
    obtain ⟨tied, joined⟩ := linked.toTied.setPeer there isY.veth (isY.index ▸ apart) sets
    -- and it is still without a peer
    have alone : x'.peer = 0 := by
      have ties := joined_of_mem mem
      rw [is, joined, if_neg ne, sameIndex] at ties
      have plain : x.kind ≠ .loopback := by
        rw [isX.veth]
        decide
      exact (linked.toTied.joined_peer isX.member plain ties).symm.trans isX.alone
    subst is
    refine linked.pair there isY.veth isY.alone (isIndex ▸ sets) there' veth alone ne fun l => ⟨rfl, ?_⟩
    exact isY.index.symm
  · rw [same, keys']
    exact keys

theorem vxlanSettings_refits (nums : Numbered f) (mem : n ∈ hit) (c : LinkChange) (pos : Nat) :
    Ensures f (fun _ => Refits hit n f) (Tends hit f) (vxlanSettings n c pos) := by
  have first : Refits hit n f (f.put n ((f.space n).modifyLink pos fun link => { link with vxlan := c.vxlan })) :=
    .modifyLink nums mem pos fun _ => rfl
  refine .modify_bind (.get_bind ?_)
  refine .rejectIf_bind first.toTends fun _ => .modify (first.trans (.modifyLink first.numbered mem pos ?_))
  exact fun _ => rfl

theorem finishLink_refits (nums : Numbered f) (isIn : n ∈ hit) (c : LinkChange) (kind : NewKind)
    (mem : x ∈ (f.space n).links) (isIndex : x.index = index) (alone : x.peer = 0) :
    Ensures f (fun pos g => Refits hit n f g ∧ Places g n index pos) (Tends hit f) (finishLink n c kind index 0) := by
  obtain ⟨pos, found, there⟩ := nums.findLink mem
  rw [isIndex] at found
  refine .get_bind ?_
  rw [found]
  have shapes : ((f.space n).links.modify pos fun link => { link with peer := 0 }).map Interface.shape =
    (f.space n).links.map Interface.shape :=
    map_modify_of_there there (by simp [Interface.shape, Interface.base, alone])
  have first : Refits hit n f (f.put n ((f.space n).modifyLink pos fun link => { link with peer := 0 })) :=
    .put nums isIn shapes (List.Subset.refl _) (List.Subset.refl _)
  refine .modify_bind ?_
  split
  · refine ((vxlanSettings_refits first.numbered isIn c pos).mono (fun _ _ refits => first.trans refits)
      fun _ tends => first.toTends.trans tends).bind fun _ _ refits => ?_
    exact .pure ⟨refits, .of_there there isIndex refits.keys⟩
  · exact .pure ⟨first, .of_there there isIndex first.keys⟩

theorem createLink_tends (nums : Numbered f) (grows : SpaceId → Bool) (c : LinkChange) (kind : NewKind)
    (far : SpaceId) :
    Ensures f (fun pos g => Tends [n, far] f g ∧ f.keys n ⊆ g.keys n ∧
      ∃ index ∉ (f.keys n).map fst, Places g n index pos)
      (Tends [n, far] f) (createLink grows n c kind far) := by
  have isIn : n ∈ [n, far] := by simp
  refine .get_bind (.ofExcept_bind (.refl nums) fun names _ => ?_)
  refine (reserveLinks_refits nums grows kind far).bind fun _ g room => ?_
  refine ((interfaceAdd_tends room.numbered isIn (grows n) kind.ordinary names.1).mono (fun _ _ post => post) ?_).bind
    fun index h made => ?_
  · rintro _ rfl
    exact room.toTends
  obtain ⟨tends, isNext, m, x, fresh, space⟩ := made
  have all := room.toTends.trans tends
  have kept : f.keys n ⊆ h.keys n := room.keys ▸ fresh.keys space
  have mem := fresh.self space
  have free : index ∉ (f.keys n).map fst := by
    rw [← room.keys, isNext]
    intro used
    obtain ⟨key, held, same⟩ := mem_map.mp used
    exact UInt32.ne_of_lt (room.numbered.below n key held) same
  refine .ite (fun isVeth => ?_) fun _ => ?_
  · subst isVeth
    have peers :=
      createPeer_ensures tends.numbered grows far c (names.2.getD []) ⟨mem, fresh.index, fresh.kind, fresh.peer⟩
    refine (peers.mono (fun _ _ post => post) fun _ post => all.trans post).bind fun peer k ⟨g', half⟩ => ?_
    refine (half.finish c).mono
      (fun _ _ post => ⟨all.trans post.1, List.Subset.trans kept post.2.1, index, free, post.2.2⟩) ?_
    exact fun _ post => all.trans post
  · refine (finishLink_refits tends.numbered isIn c kind mem fresh.index fresh.peer).mono
      (fun _ _ post => ⟨all.trans post.1.toTends, ?_, index, free, post.2⟩) fun _ post => all.trans post
    rw [post.1.keys]
    exact kept

end

variable {c : LinkChange}

/-- The request puts a link under itself, or under one that is beneath it. -/
def Loops (f : Fabric) (n : SpaceId) (c : LinkChange) : Prop :=
  ∃ link master, interfaceFind (f.space n).links c.index c.name = some link ∧ c.master = some master ∧ master ≠ 0 ∧
    Relation.ReflTransGen (Under (f.space n).links) master link.index

/-- An index is that of the link a request is about, or a new one. -/
def Concerns (f : Fabric) (n : SpaceId) (c : LinkChange) (index : UInt32) : Prop :=
  (∃ link, interfaceFind (f.space n).links c.index c.name = some link ∧ index = link.index) ∨ index ∉ (f.keys n).map fst

theorem reachLink_tends (nums : Numbered f) (grows : SpaceId → Bool) (m : Message) (c : LinkChange)
    (target peerTarget : Option SpaceId) :
    Ensures f (fun pos g => Tends [n, peerTarget.getD n] f g ∧ f.keys n ⊆ g.keys n ∧ ∃ index, Concerns f n c index ∧
      Places g n index pos)
      (Tends [n, peerTarget.getD n] f)
        (reachLink grows n m c target peerTarget (findLink (f.space n).links c.index c.name)) := by
  refine .get_bind ?_
  split
  next place link is =>
    obtain ⟨pos, found, held⟩ := bind_eq_some_iff.mp is
    obtain ⟨l, there, same⟩ := map_eq_some_iff.mp held
    obtain ⟨rfl, rfl⟩ : pos = place ∧ l = link := by simpa using same
    refine .ofExcept_bind (.refl nums) fun _ _ => .pure ⟨.refl nums, List.Subset.refl _, l.index, .inl ⟨l, ?_, rfl⟩, ?_⟩
    · exact (findLink_interfaceFind found).symm.trans there
    · exact .of_there there rfl rfl
  · refine .rejectIf_bind (.refl nums) fun _ => ?_
    split
    · exact .throw (.refl nums)
    · refine .rejectIf_bind (.refl nums) fun _ => (createLink_tends nums grows c _ _).mono ?_ fun _ post => post
      rintro pos g ⟨tends, kept, index, free, places⟩
      exact ⟨tends, kept, index, .inr free, places⟩

theorem relocate_tends (nums : Numbered f) (grows : SpaceId → Bool) (c : LinkChange) (target : Option SpaceId)
    (pos : Nat) :
    Ensures f (fun position' g => Tends [n, target.getD n] f g ∧ (target = none →
        g.keys n = f.keys n ∧ (g.space n).links.map Interface.rein = (f.space n).links.map Interface.rein ∧
          ∀ l', (g.space n).links[position']? = some l' → ∃ l, (f.space n).links[pos]? = some l ∧ l'.index = l.index))
      (Tends [n, target.getD n] f) (relocate grows n c target pos) := by
  have idle : Tends [n, target.getD n] f f ∧ (target = none → f.keys n = f.keys n ∧
      (f.space n).links.map Interface.rein = (f.space n).links.map Interface.rein ∧
      ∀ l', (f.space n).links[pos]? = some l' → ∃ l, (f.space n).links[pos]? = some l ∧ l'.index = l.index) :=
    ⟨.refl nums, fun _ => ⟨rfl, rfl, fun l' there => ⟨l', there, rfl⟩⟩⟩
  refine .get_bind ?_
  split
  · exact .pure idle
  next link there =>
    refine .ite (fun _ => ?_) fun _ => .pure idle
    refine ((interfaceMove_tends nums _ n _ _ c.name).mono (fun _ _ post => post) ?_).bind fun _ g moved => .get_bind ?_
    · rintro _ rfl
      exact idle.1
    split
    · exact .throw moved.1
    next found =>
      refine .pure ⟨moved.1, fun none => ?_⟩
      subst none
      obtain ⟨keys, reins⟩ := moved.2 rfl
      refine ⟨keys, reins, fun l' there' => ⟨link, there, ?_⟩⟩
      exact interfaceFind_index ((findLink_interfaceFind found).symm.trans there')

theorem Linked.put_again {n n' : Namespace} (linked : Linked (f.put id n))
    (shapes : n'.links.map Interface.shape = n.links.map Interface.shape) (routes : n'.routes ⊆ n.routes)
    (nexthops : n'.nexthops ⊆ n.nexthops) : Linked (f.put id n') := by
  rw [← Fabric.put_put f id n n']
  refine linked.put ?_ ?_ ?_
  all_goals rw [Fabric.put_self]
  · exact shapes
  · exact routes
  · exact nexthops

theorem settleLink_linked (linked : Linked f) (c : LinkChange) (pos : Nat)
    (master : ∀ index, c.master = some index → index ≠ 0 → ∃ b ∈ (f.space n).links, b.index = index ∧
      b.kind = .bridge) :
    Linked (f.put n (settleLink c pos (f.space n))) := by
  obtain ⟨shapes, routes, nexthops⟩ := settleLink_outline c pos (f.space n)
  cases there : (f.space n).links[pos]? with
  | none =>
    rw [modify_eq_self (getElem?_eq_none_iff.mp there)] at shapes
    exact linked.put shapes routes nexthops
  | some old =>
    obtain ⟨frame, name, isMaster⟩ := linkSettings_frame c old
    have under : (linkSettings c old).master = old.master ∨ ((linkSettings c old).master ≠ 0 →
        ∃ b ∈ (f.space n).links, b.index = (linkSettings c old).master ∧ b.kind = .bridge) := by
      rw [isMaster]
      cases given : c.master with
      | none => exact .inl rfl
      | some index => exact .inr (master index given)
    rw [modify_eq_set_getElem?, there] at shapes
    exact (linked.set there frame (.inl name) under).put_again shapes routes nexthops

theorem settleLink_mastered {s : Namespace} (good : Mastered s.links) (c : LinkChange) (pos : Nat)
    (given : ∀ master l, c.master = some master → master ≠ 0 → s.links[pos]? = some l →
      (∃ b ∈ s.links, b.index = master) ∧ ¬ Relation.ReflTransGen (Under s.links) master l.index) :
    Mastered (settleLink c pos s).links := by
  have reins := reins_of_bases (bases_of_shapes (settleLink_outline c pos s).1)
  cases there : s.links[pos]? with
  | none =>
    rw [modify_eq_self (getElem?_eq_none_iff.mp there)] at reins
    exact good.congr reins
  | some old =>
    obtain ⟨frame, -, isMaster⟩ := linkSettings_frame c old
    have index : (linkSettings c old).index = old.index := congrArg fst frame
    rw [modify_eq_set_getElem?, there] at reins
    refine (good.set there index ?_).congr reins
    rw [isMaster]
    cases asked : c.master with
    | none => exact .inl rfl
    | some master => exact .inr fun ne => given master old asked ne there

theorem settleLink_keys (c : LinkChange) (pos : Nat) (n : Namespace) :
    linkKeys (settleLink c pos n).links = linkKeys n.links := by
  have settings : ∀ link, (linkSettings c link).key = link.key := fun link =>
    congrArg (fun frame => (frame.1, frame.2.1)) (linkSettings_frame c link).1
  rw [linkKeys_of_shapes (settleLink_outline c pos n).1, linkKeys_modify _ _ settings]

theorem changeChecks_master {link : Option Interface}
    (passed : changeChecks links c link = .ok ()) (given : c.master = some index) (ne : index ≠ 0) :
    (index, LinkKind.bridge) ∈ linkKeys links := by
  unfold changeChecks at passed
  simp only [failIf_bind_ok] at passed
  obtain ⟨-, -, -, -, -, bridge, -⟩ := passed
  cases found : interfaceFind links index none with
  | none => exact absurd (by simp [given, ne, found]) bridge
  | some b =>
  have isBridge : b.kind = .bridge := by
    by_contra other
    exact bridge (by simp [given, ne, found, other])
  refine mem_map.mpr ⟨b, interfaceFind_mem found, ?_⟩
  rw [Interface.key, interfaceFind_index found, isBridge]

/-- In the fabric that the request met, its link is not above the master it is to get. -/
theorem not_beneath (good : Mastered (f.space n).links) {master : UInt32} (bridge : ∃ key ∈ f.keys n, key.1 = master)
    (concerns : Concerns f n c index) (free : ¬ Loops f n c) (asked : c.master = some master) (ne : master ≠ 0) :
    ¬ Relation.ReflTransGen (Under (f.space n).links) master index := by
  intro climb
  rcases concerns with ⟨link, found, rfl⟩ | new
  · exact free ⟨link, master, found, asked, ne, climb⟩
  · -- nothing leads to an index that no link has
    obtain ⟨key, isIn, rfl⟩ := bridge
    refine new ?_
    rcases Relation.ReflTransGen.cases_tail climb with same | ⟨x, -, y, there, -, rfl, isPort⟩
    · exact same ▸ mem_map_of_mem isIn
    · obtain ⟨b, isLink, isMaster⟩ := good.present y there isPort
      exact mem_map.mpr ⟨b.key, mem_map_of_mem isLink, isMaster⟩

/-- What a request for a link leaves. -/
structure Changes (hit : List SpaceId) (n : SpaceId) (c : LinkChange) (f g : Fabric) : Prop where
  within : Within hit f g
  numbered : Numbered g
  spaces : g.spaces = f.spaces
  linked : Linked f → Linked g
  mastered : (∀ id, Mastered (f.space id).links) → ¬ Loops f n c → ∀ id, Mastered (g.space id).links

theorem Tends.changes (tends : Tends hit f g) : Changes hit n c f g :=
  ⟨tends.within, tends.numbered, tends.spaces, tends.linked, fun good _ id => (tends.milder id).1 (good id)⟩

theorem changeLink_changes (nums : Numbered f) (grows : SpaceId → Bool) (n : SpaceId) {m : Message} (c : LinkChange)
    (target peerTarget : Option SpaceId) (kept : m.type ≠ RTM_DELLINK) :
    Changes [n, target.getD n, peerTarget.getD n] n c f (leaves (changeLink grows n m c target peerTarget) f) := by
  refine Ensures.leaves (Ensures.get_bind ?_)
  rw [if_neg kept]
  refine .ofExcept_bind (Tends.refl nums).changes fun _ passed => ?_
  refine ((reachLink_tends nums grows m c target peerTarget).mono (fun _ _ post => post) fun _ post =>
      (post.mono (by simp)).changes).bind
    fun pos g ⟨first, more, index, concerns, places⟩ => ?_
  have got : Tends [n, target.getD n, peerTarget.getD n] f g := first.mono (by simp)
  refine ((relocate_tends got.numbered grows c target pos).mono (fun _ _ post => post)
    fun _ post => (got.trans (post.mono (by simp))).changes).bind fun place h moved => ?_
  have both : Tends [n, target.getD n, peerTarget.getD n] f h := got.trans (moved.1.mono (by simp))
  have good : (∀ id, Mastered (f.space id).links) → ∀ id, Mastered (h.space id).links :=
    fun old id => (both.milder id).1 (old id)
  refine .rejectIf_bind both.changes fun may => .modify ⟨both.within.trans (.put (by simp) _ _),
    both.numbered.put (by rw [settleLink_keys]; rfl), both.spaces, fun old => ?_, fun old free id => ?_⟩
  · refine settleLink_linked (both.linked old) c place fun master given ne => ?_
    cases target with
    | some space => exact absurd ⟨rfl, by rw [given]; rfl⟩ may
    | none =>
      have mem := (moved.2 rfl).1.symm ▸ more (changeChecks_master passed given ne)
      obtain ⟨b, isIn, key⟩ := mem_map.mp mem
      obtain ⟨isIndex, isBridge⟩ : b.index = master ∧ b.kind = .bridge := by simpa [Interface.key] using key
      exact ⟨b, isIn, isIndex, isBridge⟩
  · by_cases other : id = target.getD n
    case neg =>
      rw [Fabric.put_other h _ other]
      exact good old id
    rw [other, Fabric.put_self]
    refine settleLink_mastered (good old _) c place fun master l asked ne there => ?_
    -- a master is given, so the link was not to be moved
    cases target with
    | some space => exact absurd ⟨rfl, by rw [asked]; rfl⟩ may
    | none =>
      obtain ⟨-, reins, found⟩ := moved.2 rfl
      obtain ⟨l', there', same⟩ := found l there
      have bridge := changeChecks_master passed asked ne
      obtain ⟨b, isIn, key⟩ := mem_map.mp (more bridge)
      obtain ⟨b', inside', rein⟩ := exists_of_map_eq reins isIn
      refine ⟨⟨b', inside', (rein_index rein).trans (congrArg fst key)⟩, fun climb => ?_⟩
      have isIndex : l'.index = index := places l'.key (by rw [Fabric.keys, linkKeys, getElem?_map, there']; rfl)
      have prior : Relation.ReflTransGen (Under (f.space n).links) master l.index :=
        climb.lift (fun index => index) (both.milder n).2
      rw [same, isIndex] at prior
      exact not_beneath (old n) ⟨_, bridge, rfl⟩ concerns free asked ne prior

end Shroot.Network
