import Shroot.General.Positions
import Shroot.Network.LinkRequest

namespace Shroot.Network

open General List

section

variable {link : Interface} {f g : Fabric} {id : SpaceId}

/-- What a link keeps for its lifetime in a namespace. -/
def Interface.key (l : Interface) : UInt32 × LinkKind := (l.index, l.kind)

def linkKeys (links : List Interface) : List (UInt32 × LinkKind) := links.map Interface.key

def Fabric.keys (f : Fabric) (id : SpaceId) : List (UInt32 × LinkKind) := linkKeys (f.space id).links

/-- Links are numbered by the fabric's counter: every index is below it and not zero, no index is
used twice, and only loopback links, of index 1, share theirs across namespaces. -/
structure Numbered (f : Fabric) : Prop where
  started : 2 ≤ f.nextIndex.toNat
  small : f.nextIndex ≤ 0x7fffffff
  positive : ∀ id, ∀ key ∈ f.keys id, key.1 ≠ 0
  first : ∀ id, ∀ key ∈ f.keys id, key.1 = 1 → key.2 = .loopback
  below : ∀ id, ∀ key ∈ f.keys id, key.1 < f.nextIndex
  distinct : ∀ id, ((f.keys id).map Prod.fst).Nodup
  apart : ∀ id other, id ≠ other → ∀ key ∈ f.keys id, ∀ key' ∈ f.keys other, key.1 = key'.1 → key.2 = .loopback

theorem Numbered.of_sublist (nums : Numbered f) (counter : g.nextIndex = f.nextIndex)
    (fewer : ∀ id, List.Sublist (g.keys id) (f.keys id)) : Numbered g := by
  refine ⟨counter ▸ nums.started, counter ▸ nums.small, fun id key mem => ?_, fun id key mem => ?_,
    fun id key mem => ?_, fun id => ?_, fun id other ne key mem key' member' => ?_⟩
  · exact nums.positive id key ((fewer id).subset mem)
  · exact nums.first id key ((fewer id).subset mem)
  · rw [counter]
    exact nums.below id key ((fewer id).subset mem)
  · exact ((fewer id).map Prod.fst).nodup (nums.distinct id)
  · exact nums.apart id other ne key ((fewer id).subset mem) key' ((fewer other).subset member')

theorem Numbered.counter_ne (nums : Numbered f) {index : UInt32} (low : index.toNat < 2) : f.nextIndex ≠ index := by
  intro same
  have started := nums.started
  rw [same] at started
  omega

section

variable {links : List Interface} {index : UInt32} {name : Option Bytes}

theorem interfaceFind_zero (links : List Interface) : interfaceFind links 0 none = none := by
  simp [interfaceFind, linkMatches]

theorem interfaceOwner_zero (f : Fabric) : interfaceOwner f 0 = none := by simp [interfaceOwner, interfaceFind_zero]

theorem interfaceFind_mem (found : interfaceFind links index name = some link) : link ∈ links :=
  mem_of_find?_eq_some found

theorem interfaceFind_index (found : interfaceFind links index none = some link) : link.index = index := by
  have has := find?_some found
  simp only [linkMatches, Bool.or_eq_true, Bool.and_eq_true, beq_iff_eq] at has
  rcases has with ⟨-, same⟩ | ⟨-, none⟩
  · exact same
  · cases none

theorem findLink_interfaceFind {pos : Nat} (found : findLink links index name = some pos) :
    links[pos]? = interfaceFind links index name := by
  obtain ⟨bound, has, first⟩ := findIdx?_eq_some_iff_getElem.mp found
  rw [interfaceFind, find?_eq_some_iff_getElem.mpr ⟨has, pos, bound, rfl, ?_⟩, getElem?_eq_getElem bound]
  intro j old
  simpa using first j old

theorem interfaceFind_self (nodup : (links.map Interface.index).Nodup) (mem : link ∈ links)
    (nums : link.index ≠ 0) : interfaceFind links link.index none = some link := by
  have has : linkMatches link.index none link = true := by simp [linkMatches, nums]
  obtain ⟨other, found⟩ := Option.isSome_iff_exists.mp
    (find?_isSome.mpr ⟨link, mem, has⟩ : (links.find? (linkMatches link.index none)).isSome)
  have same : other = link := inj_on_of_nodup_map nodup (mem_of_find?_eq_some found) mem (interfaceFind_index found)
  rw [interfaceFind, found, same]

end

section

variable {l : Interface}

section

variable (nums : Numbered f)

include nums

theorem Numbered.indexes (id : SpaceId) : ((f.space id).links.map Interface.index).Nodup := by
  have keys := nums.distinct id
  rwa [Fabric.keys, linkKeys, map_map] at keys

variable (mem : l ∈ (f.space id).links)

include mem

theorem Numbered.index_ne : l.index ≠ 0 := nums.positive id l.key (mem_map_of_mem mem)

theorem Numbered.finds : interfaceFind (f.space id).links l.index none = some l :=
  interfaceFind_self (nums.indexes id) mem (nums.index_ne mem)

theorem Numbered.findLink : ∃ pos, findLink (f.space id).links l.index none = some pos ∧
    (f.space id).links[pos]? = some l := by
  have found : (Network.findLink (f.space id).links l.index none).isSome := by
    unfold Network.findLink
    rw [findIdx?_isSome, any_eq_true]
    exact ⟨l, mem, by simp [linkMatches, nums.index_ne mem]⟩
  obtain ⟨pos, there⟩ := Option.isSome_iff_exists.mp found
  exact ⟨pos, there, (findLink_interfaceFind there).trans (nums.finds mem)⟩

end

theorem interfaceOwner_holds {index : UInt32} {owner : SpaceId} (owned : interfaceOwner f index = some owner) :
    ∃ link, interfaceFind (f.space owner).links index none = some link := by
  unfold interfaceOwner at owned
  split at owned
  · cases owned
  · have held := find?_some owned
    exact Option.isSome_iff_exists.mp held

end

variable (n : Namespace) (index : UInt32)

theorem linkKeys_strip : linkKeys (stripLink n index).links = (linkKeys n.links).filter fun key => key.1 != index := by
  simp only [linkKeys, stripLink]
  induction n.links with
  | nil => rfl
  | cons l rest ih =>
    have index' : (if l.master = index then { l with master := 0, hairpin := 0, isolated := 0 } else l).key =
        l.key := by split <;> rfl
    have same : (if l.master = index then { l with master := 0, hairpin := 0, isolated := 0 } else l).index = l.index :=
      congrArg Prod.fst index'
    simp only [map_cons, filter_cons, same, Interface.key] at ih ⊢
    split
    · rw [map_cons, ih]
      exact congrArg (· :: _) index'
    · exact ih

theorem linkKeys_removeOne (depth : Nat) (n : Namespace) (index : UInt32) :
    List.Sublist (linkKeys (removeOne depth n index).links) (linkKeys n.links) := by
  induction depth generalizing n index with
  | zero => exact List.Sublist.refl _
  | succ depth ih =>
    rw [removeOne, linkKeys_strip]
    refine filter_sublist.trans ?_
    refine List.foldlRecOn (motive :=
      fun state : Namespace × Nat => List.Sublist (linkKeys state.1.links) (linkKeys n.links))
      _ _ (List.Sublist.refl _) ?_
    intro state kept _ _
    split
    · split
      · exact (ih _ _).trans kept
      · exact kept
    · exact kept

theorem linkKeys_removeLink : List.Sublist (linkKeys (removeLink n index).links) (linkKeys n.links) :=
  linkKeys_removeOne _ n index

theorem removeLink_gone : ∀ key ∈ linkKeys (removeLink n index).links, key.1 ≠ index := by
  intro key mem
  rw [removeLink, removeOne, linkKeys_strip] at mem
  simpa using (mem_filter.mp mem).2

theorem Fabric.keys_put (f : Fabric) (id : SpaceId) (n : Namespace) (other : SpaceId) :
    (f.put id n).keys other = if other = id then linkKeys n.links else f.keys other := by
  by_cases same : other = id
  · subst same
    simp [Fabric.keys]
  · simp [Fabric.keys, same, Fabric.put_other f n same]

theorem Numbered.put (nums : Numbered f) {n : Namespace} (fewer : List.Sublist (linkKeys n.links) (f.keys id)) :
    Numbered (f.put id n) := by
  refine nums.of_sublist rfl fun other => ?_
  rw [Fabric.keys_put]
  split
  next same => exact same ▸ fewer
  · exact List.Sublist.refl _

theorem interfaceReserve_links {n new : Namespace} {extra : Nat} {grows : Bool}
    (run : interfaceReserve n extra grows = .ok new) : new.toTopology = n.toTopology := by
  simp only [interfaceReserve] at run
  split at run
  · cases run
  · split at run
    · rw [Except.ok.inj run]
    · split at run
      · rw [← Except.ok.inj run]
      · cases run

theorem Numbered.insert (nums : Numbered f) (id : SpaceId) (key : UInt32 × LinkKind)
    (counter : f.nextIndex ≤ g.nextIndex) (small : g.nextIndex ≤ 0x7fffffff) (pos : key.1 ≠ 0)
    (first : key.1 = 1 → key.2 = .loopback) (below : key.1 < g.nextIndex)
    (nodup : ∀ other, ((g.keys other).map Prod.fst).Nodup) (old : ∀ other, ∀ k ∈ g.keys other, k = key ∧ other = id ∨
      k ∈ f.keys other ∧ (other ≠ id → k.1 = key.1 → k.2 = .loopback ∧ key.2 = .loopback)) : Numbered g := by
  refine ⟨le_trans nums.started counter, small, fun other k held => ?_, fun other k held => ?_,
    fun other k held => ?_, nodup,
    fun one two away k held k' held' same => ?_⟩
  · rcases old other k held with ⟨rfl, -⟩ | ⟨pre, -⟩
    · exact pos
    · exact nums.positive other k pre
  · rcases old other k held with ⟨rfl, -⟩ | ⟨pre, -⟩
    · exact first
    · exact nums.first other k pre
  · rcases old other k held with ⟨rfl, -⟩ | ⟨pre, -⟩
    · exact below
    · exact Nat.lt_of_lt_of_le (nums.below other k pre) counter
  · rcases old one k held with ⟨rfl, rfl⟩ | ⟨pre, apart⟩
    · rcases old two k' held' with ⟨-, rfl⟩ | ⟨-, apart⟩
      · exact absurd rfl away
      · exact (apart (.symm away) same.symm).2
    · rcases old two k' held' with ⟨rfl, rfl⟩ | ⟨before', -⟩
      · exact (apart away same).1
      · exact nums.apart one two away k pre k' before' same

theorem nodup_keys_concat {keys : List (UInt32 × LinkKind)} {key : UInt32 × LinkKind}
    (nodup : (keys.map Prod.fst).Nodup) (free : ∀ k ∈ keys, k.1 ≠ key.1) : ((keys ++ [key]).map Prod.fst).Nodup := by
  rw [map_append, map_singleton]
  rw [← concat_eq_append]
  refine List.Nodup.concat (fun used => ?_) nodup
  obtain ⟨k, held, same⟩ := mem_map.mp used
  exact free k held same

theorem Numbered.add (nums : Numbered f) {n : Namespace} {kind : LinkKind}
    (links : n.links = (f.space id).links ++ [link]) (key : link.key = (f.nextIndex, kind))
    (room : f.nextIndex ≠ 0x7fffffff) : Numbered { f.put id n with nextIndex := f.nextIndex + 1 } := by
  have small := nums.small
  have next : (f.nextIndex + 1).toNat = f.nextIndex.toNat + 1 := by
    have bound : f.nextIndex.toNat ≤ 0x7fffffff := small
    rw [UInt32.toNat_add]
    exact Nat.mod_eq_of_lt (by simp only [UInt32.toNat_one]; omega)
  have limit : f.nextIndex.toNat < 0x7fffffff := by
    refine lt_of_le_of_ne small fun full => room ?_
    exact UInt32.toNat_inj.mp full
  have keys : ∀ other, Fabric.keys { f.put id n with nextIndex := f.nextIndex + 1 } other =
      if other = id then f.keys id ++ [(f.nextIndex, kind)] else f.keys other := by
    intro other
    have put := Fabric.keys_put f id n other
    simp only [linkKeys, links, map_append, map_cons, map_nil, key] at put
    exact put
  have fresh : ∀ other, ∀ k ∈ f.keys other, k.1 ≠ f.nextIndex :=
    fun other k mem => UInt32.ne_of_lt (nums.below other k mem)
  refine nums.insert id (f.nextIndex, kind) ?_ ?_ (nums.counter_ne (by decide))
    (fun one => absurd one (nums.counter_ne (by decide))) ?_ (fun other => ?_) fun other k held => ?_
  · show f.nextIndex.toNat ≤ (f.nextIndex + 1).toNat
    omega
  · show (f.nextIndex + 1).toNat ≤ 0x7fffffff
    omega
  · show f.nextIndex.toNat < (f.nextIndex + 1).toNat
    omega
  · rw [keys]
    split
    · exact nodup_keys_concat (nums.distinct id) (fresh id)
    · exact nums.distinct other
  · have either : k = (f.nextIndex, kind) ∧ other = id ∨ k ∈ f.keys other := by
      rw [keys] at held
      split at held
      next here =>
        rcases mem_append.mp held with old | new
        · exact .inr (here ▸ old)
        · exact .inl ⟨mem_singleton.mp new, here⟩
      · exact .inr held
    exact either.imp_right fun old => ⟨old, fun _ same => absurd same (fresh other k old)⟩

end

open Except

variable {links : List Interface} {f : Fabric} {id : SpaceId}

section

variable (l : Interface)

/-- What the links and the tables of a namespace refer to in a link. -/
def Interface.base : UInt32 × LinkKind × Bytes × UInt32 := (l.index, l.kind, l.name, l.master)

/-- Everything that others can refer to in a link. -/
def Interface.shape : (UInt32 × LinkKind × Bytes × UInt32) × UInt32 := (l.base, l.peer)

/-- What the fabric knows of a link. -/
def Interface.frame : UInt32 × LinkKind × UInt32 := (l.index, l.kind, l.peer)

variable {links' : List Interface}

theorem linkKeys_of_bases (bases : links'.map Interface.base = links.map Interface.base) :
    linkKeys links' = linkKeys links :=
  map_of_map_eq bases fun base => (base.1, base.2.1)

variable (shapes : links'.map Interface.shape = links.map Interface.shape)

include shapes

theorem bases_of_shapes : links'.map Interface.base = links.map Interface.base := map_of_map_eq shapes Prod.fst

theorem linkKeys_of_shapes : linkKeys links' = linkKeys links := linkKeys_of_bases (bases_of_shapes shapes)

end

variable {remove exclusive : Bool} {a : Assignment}

theorem interfaceAddress_addresses {link new : Interface}
    (run : interfaceAddress link a remove exclusive = .ok new) : ∃ addresses, new = { link with addresses } := by
  unfold interfaceAddress at run
  split at run
  · cases run
  · split at run
    · simp only at run
      split at run
      · split at run
        · cases run
        · exact ⟨_, (ok.inj run).symm⟩
      · split at run
        · cases run
        · exact ⟨_, (ok.inj run).symm⟩
    · split at run
      · cases run
      · split at run
        · cases run
        · exact ⟨_, (ok.inj run).symm⟩

theorem interfaceAddress_shape {link new : Interface} (run : interfaceAddress link a remove exclusive = .ok new) :
    new.shape = link.shape := by
  obtain ⟨addresses, rfl⟩ := interfaceAddress_addresses run
  rfl

variable (link : Interface)

theorem assigned_addresses (a : Assignment) :
    ∃ addresses, (interfaceAddress link a false false).toOption.getD link = { link with addresses } := by
  cases run : interfaceAddress link a false false with
  | error _ => exact ⟨link.addresses, rfl⟩
  | ok new => exact interfaceAddress_addresses run

theorem ensureAddress_addresses (a : Assignment) : ∃ addresses, ensureAddress link a = { link with addresses } := by
  unfold ensureAddress
  split
  · exact ⟨link.addresses, rfl⟩
  · exact assigned_addresses link a

theorem interfaceUp_addresses : ∃ addresses, interfaceUp link = { link with addresses } := by
  unfold interfaceUp
  split
  · exact ⟨link.addresses, rfl⟩
  · split
    · obtain ⟨first, same⟩ := ensureAddress_addresses link
        { address := ipLoopback AF_INET, length := 8, scope := RT_SCOPE_HOST, flags := IFA_F_PERMANENT }
      simp only [same]
      split
      · exact ⟨first, rfl⟩
      · obtain ⟨two, same'⟩ := ensureAddress_addresses { link with addresses := first }
          { address := ipLoopback AF_INET6, length := 128, scope := RT_SCOPE_HOST, flags := IFA_F_PERMANENT }
        exact ⟨two, same'⟩
    · split
      · split
        · exact ⟨link.addresses, rfl⟩
        · exact assigned_addresses link _
      · exact ⟨link.addresses, rfl⟩

theorem interfaceUp_shape : (interfaceUp link).shape = link.shape := by
  obtain ⟨addresses, same⟩ := interfaceUp_addresses link
  rw [same]
  rfl

theorem interfaceIpv6Flush_keeps (m : Namespace) (pos : Nat) :
    (interfaceIpv6Flush m pos).links.map Interface.shape = m.links.map Interface.shape ∧
      (interfaceIpv6Flush m pos).routes ⊆ m.routes ∧ (interfaceIpv6Flush m pos).nexthops ⊆ m.nexthops := by
  unfold interfaceIpv6Flush
  split
  · exact ⟨rfl, List.Subset.refl _, List.Subset.refl _⟩
  next link there => exact ⟨map_set_of_eq there rfl, filter_subset_self _, filter_subset_self _⟩

theorem flushIf_keeps (down : Prop) [Decidable down] (m : Namespace) (pos : Nat) :
    (if down then interfaceIpv6Flush m pos else m).links.map Interface.shape = m.links.map Interface.shape ∧
      (if down then interfaceIpv6Flush m pos else m).routes ⊆ m.routes ∧
      (if down then interfaceIpv6Flush m pos else m).nexthops ⊆ m.nexthops := by
  split
  · exact interfaceIpv6Flush_keeps m pos
  · exact ⟨rfl, List.Subset.refl _, List.Subset.refl _⟩

theorem linkSettings_frame (c : LinkChange) (link : Interface) :
    (linkSettings c link).frame = link.frame ∧ (linkSettings c link).name = link.name ∧
      (linkSettings c link).master = c.master.getD link.master := by
  unfold linkSettings
  cases c.master with
  | none =>
    cases c.mtu with
    | none => exact ⟨rfl, rfl, rfl⟩
    | some mtu => exact ⟨rfl, rfl, rfl⟩
  | some index =>
    by_cases same : link.master = index
    · cases c.mtu <;> simp [same, Interface.frame]
    · cases c.mtu <;> simp [same, Interface.frame]

theorem settleLink_outline (c : LinkChange) (pos : Nat) (n : Namespace) :
    (settleLink c pos n).links.map Interface.shape = (n.links.modify pos (linkSettings c)).map Interface.shape ∧
      (settleLink c pos n).routes ⊆ n.routes ∧ (settleLink c pos n).nexthops ⊆ n.nexthops := by
  unfold settleLink
  split
  next gone =>
    have same : n.links.modify pos (linkSettings c) = n.links := modify_eq_self (getElem?_eq_none_iff.mp gone)
    rw [same]
    exact ⟨rfl, List.Subset.refl _, List.Subset.refl _⟩
  next old held =>
    have first : n.links.modify pos (linkSettings c) = n.links.set pos (linkSettings c old) := by
      rw [modify_eq_set_getElem?, held]
      rfl
    rw [first]
    dsimp only
    split
    · exact ⟨(map_modify_of_eq interfaceUp_shape).trans (flushIf_keeps _ _ _).1, (flushIf_keeps _ _ _).2.1,
        (flushIf_keeps _ _ _).2.2⟩
    · exact flushIf_keeps _ _ _

/-- Only the listed namespaces differ. -/
def Within (hit : List SpaceId) (f g : Fabric) : Prop := ∀ id, id ∉ hit → g.space id = f.space id

section

variable {hit : List SpaceId} {g h : Fabric}

theorem Within.refl (f : Fabric) : Within hit f f := fun _ _ => rfl

theorem Within.trans (first : Within hit f g) (two : Within hit g h) : Within hit f h :=
  fun id out => (two id out).trans (first id out)

theorem Within.mono {more : List SpaceId} (sub : Within hit f g) (subset : hit ⊆ more) : Within more f g :=
  fun id out => sub id fun mem => out (subset mem)

theorem Within.put (mem : id ∈ hit) (f : Fabric) (n : Namespace) : Within hit f (f.put id n) :=
  fun _ out => Fabric.put_other f n fun same => out (same ▸ mem)

/-- From a numbered fabric to a numbered one, with a change in the listed namespaces only. -/
def Touches (hit : List SpaceId) (f g : Fabric) : Prop := Numbered f → Within hit f g ∧ Numbered g

theorem Touches.refl (f : Fabric) : Touches hit f f := fun nums => ⟨Within.refl f, nums⟩

theorem Touches.trans (first : Touches hit f g) (two : Touches hit g h) : Touches hit f h := by
  intro nums
  obtain ⟨sub, nums⟩ := first nums
  obtain ⟨within', nums⟩ := two nums
  exact ⟨sub.trans within', nums⟩

theorem Touches.transitive (f g h : Fabric) (first : Touches hit f g) (two : Touches hit g h) : Touches hit f h :=
  first.trans two

theorem Touches.same {n : Namespace} (mem : id ∈ hit) (same : linkKeys n.links = f.keys id) :
    Touches hit f (f.put id n) :=
  fun nums => ⟨.put mem f n, nums.put (same ▸ List.Sublist.refl _)⟩

end

section

variable {n : SpaceId} {index : UInt32}

/-- The fabric without a link and without its peer. -/
def withoutLink (f : Fabric) (n : SpaceId) (link : Interface) : Fabric :=
  let f' := f.put n (removeLink (f.space n) link.index)
  match interfaceOwner f link.peer with
  | none => f'
  | some other => f'.put other (removeLink (f'.space other) link.peer)

theorem interfaceRemove_cases (f : Fabric) (n : SpaceId) (index : UInt32) :
    (leaves (interfaceRemove n index) f = f ∧
      ∀ link, interfaceFind (f.space n).links index none = some link → link.kind = .loopback ∨ link.kind = .uplink) ∨
    ∃ link, interfaceFind (f.space n).links index none = some link ∧ ¬ (link.kind = .loopback ∨ link.kind = .uplink) ∧
      leaves (interfaceRemove n index) f = withoutLink f n link := by
  simp only [interfaceRemove, leaves_get_bind]
  cases found : interfaceFind (f.space n).links index none with
  | none => exact .inl ⟨rfl, nofun⟩
  | some link =>
    obtain rfl := interfaceFind_index found
    simp only [leaves_rejectIf_bind, leaves_modify_bind]
    split
    next fixed =>
      refine .inl ⟨rfl, fun other same => ?_⟩
      rw [← Option.some.inj same]
      exact fixed
    next removable =>
      refine .inr ⟨link, rfl, removable, ?_⟩
      simp only [withoutLink]
      cases interfaceOwner f link.peer <;> rfl

theorem withoutLink_spaces (f : Fabric) (n : SpaceId) (link : Interface) :
    (withoutLink f n link).spaces = f.spaces := by
  unfold withoutLink
  cases interfaceOwner f link.peer <;> rfl

theorem withoutLink_keys (f : Fabric) (n : SpaceId) (link : Interface) (id : SpaceId) :
    List.Sublist ((withoutLink f n link).keys id) (f.keys id) := by
  have put : ∀ (g : Fabric) (n : SpaceId) (index : UInt32),
      List.Sublist ((g.put n (removeLink (g.space n) index)).keys id) (g.keys id) := by
    intro g n index
    rw [Fabric.keys_put]
    split
    next same => exact same ▸ linkKeys_removeLink _ _
    · exact List.Sublist.refl _
  simp only [withoutLink]
  split
  · exact put f n link.index
  · exact (put _ _ _).trans (put f n link.index)

theorem withoutLink_numbered (nums : Numbered f) (n : SpaceId) (link : Interface) :
    Numbered (withoutLink f n link) := by
  refine nums.of_sublist ?_ (withoutLink_keys f n link)
  unfold withoutLink
  cases interfaceOwner f link.peer <;> rfl

theorem withoutLink_alone {link : Interface} (alone : link.peer = 0) : Within [n] f (withoutLink f n link) := by
  simp only [withoutLink, alone, interfaceOwner_zero]
  exact .put (by simp) _ _

end

theorem linkKeys_modify (links : List Interface) (pos : Nat) {change : Interface → Interface}
    (same : ∀ link, (change link).key = link.key) : linkKeys (links.modify pos change) = linkKeys links :=
  map_modify_of_eq same

theorem Numbered.move (nums : Numbered f) {source dest : SpaceId} {link : Interface} {left arrived : Namespace}
    (ne : source ≠ dest) (mem : link ∈ (f.space source).links) (ordinary : link.kind ≠ .loopback)
    (gone : left = removeLink (f.space source) link.index)
    (keys : linkKeys arrived.links = f.keys dest ++ [link.key]) :
    Numbered ((f.put source left).put dest arrived) := by
  have key : link.key ∈ f.keys source := mem_map_of_mem mem
  have fewer : List.Sublist (linkKeys left.links) (f.keys source) := gone ▸ linkKeys_removeLink _ _
  have off : ∀ other ≠ source, ∀ k ∈ f.keys other, k.1 ≠ link.index := by
    intro other away k held same
    exact ordinary (nums.apart source other (.symm away) link.key key k held same.symm)
  have free : ∀ other, ∀ k ∈ (if other = source then linkKeys left.links else f.keys other), k.1 ≠ link.index := by
    intro other k held
    split at held
    · exact removeLink_gone _ _ k (gone ▸ held)
    next away => exact off other away k held
  have now : ∀ other, Fabric.keys ((f.put source left).put dest arrived) other = if other = dest
    then f.keys dest ++ [link.key]
      else if other = source then linkKeys left.links else f.keys other := by
    intro other
    rw [Fabric.keys_put, Fabric.keys_put, keys]
  refine nums.insert dest link.key (UInt32.le_refl _) nums.small (nums.positive source _ key) (nums.first source _ key)
    (nums.below source _ key) (fun other => ?_) fun other k held => ?_
  · rw [now]
    split
    · exact nodup_keys_concat (nums.distinct dest) (off dest (.symm ne))
    · split
      · exact (fewer.map Prod.fst).nodup (nums.distinct source)
      · exact nums.distinct other
  · rw [now] at held
    split at held
    next isDest =>
      subst isDest
      rcases mem_append.mp held with old | new
      · exact .inr ⟨old, fun away => absurd rfl away⟩
      · exact .inl ⟨mem_singleton.mp new, rfl⟩
    · refine .inr ⟨?_, fun _ same => absurd same (free other k held)⟩
      split at held
      next isSource => exact isSource ▸ fewer.subset held
      · exact held

theorem NewKind.ordinary (kind : NewKind) : kind.kind ≠ .loopback := by
  cases kind <;> decide

end Shroot.Network
