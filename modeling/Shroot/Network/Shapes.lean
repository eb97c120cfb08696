import Shroot.Network.Frame
import Shroot.General.Ancestry

namespace Shroot.Network

open General List

section

variable {n : Namespace} {l l' : Interface}

section

/-- What a link keeps when its master goes. -/
def Interface.tie (l : Interface) : UInt32 × LinkKind × Bytes × UInt32 := (l.index, l.kind, l.name, l.peer)

/-- The references within a namespace lead to its links, and those have their own names. -/
structure SpaceSound (n : Namespace) : Prop where
  names : (n.links.map Interface.name).Nodup
  masters : ∀ l ∈ n.links, l.master ≠ 0 → ∃ b ∈ n.links, b.index = l.master ∧ b.kind = .bridge
  routes : ∀ r ∈ n.routes, ∃ l ∈ n.links, l.index = r.interface
  nexthops : ∀ h ∈ n.nexthops, ∃ l ∈ n.links, l.index = h.interface

variable {n' : Namespace}

theorem base_index (same : l'.base = l.base) : l'.index = l.index := congrArg Prod.fst same

theorem base_kind (same : l'.base = l.base) : l'.kind = l.kind := congrArg (fun base => base.2.1) same

theorem base_master (same : l'.base = l.base) : l'.master = l.master := congrArg (fun base => base.2.2.2) same

section

variable (same : l'.tie = l.tie)

include same

theorem tie_index : l'.index = l.index := congrArg Prod.fst same

theorem tie_kind : l'.kind = l.kind := congrArg (fun tie => tie.2.1) same

theorem tie_name : l'.name = l.name := congrArg (fun tie => tie.2.2.1) same

theorem tie_peer : l'.peer = l.peer := congrArg (fun tie => tie.2.2.2) same

end

theorem exists_of_map_eq {β : Type} {f : Interface → β} {links links' : List Interface}
    (same : links'.map f = links.map f) (mem : l ∈ links) : ∃ l' ∈ links', f l' = f l := by
  have there : f l ∈ links'.map f := same ▸ mem_map_of_mem mem
  exact mem_map.mp there

theorem SpaceSound.congr (sound : SpaceSound n) (bases : n'.links.map Interface.base = n.links.map Interface.base)
    (routes : n'.routes ⊆ n.routes) (nexthops : n'.nexthops ⊆ n.nexthops) : SpaceSound n' where
  names := by
    have same : n'.links.map Interface.name = n.links.map Interface.name := map_of_map_eq bases fun base => base.2.2.1
    exact same ▸ sound.names
  masters l' mem mastered := by
    obtain ⟨l, there, same⟩ := exists_of_map_eq bases.symm mem
    have masters := base_master same
    obtain ⟨b, isLink, index, kind⟩ := sound.masters l there (masters ▸ mastered)
    obtain ⟨b', isLink', same'⟩ := exists_of_map_eq bases isLink
    exact ⟨b', isLink', by rw [base_index same', index, masters], (base_kind same').trans kind⟩
  routes r mem := by
    obtain ⟨l, there, index⟩ := sound.routes r (routes mem)
    obtain ⟨l', there', same⟩ := exists_of_map_eq bases there
    exact ⟨l', there', (base_index same).trans index⟩
  nexthops h mem := by
    obtain ⟨l, there, index⟩ := sound.nexthops h (nexthops mem)
    obtain ⟨l', there', same⟩ := exists_of_map_eq bases there
    exact ⟨l', there', (base_index same).trans index⟩

theorem SpaceSound.append (sound : SpaceSound n) (links : n'.links = n.links ++ [l]) (free : l.master = 0)
    (name : l.name ∉ n.links.map Interface.name) (routes : n'.routes = n.routes) (nexthops : n'.nexthops = n.nexthops) :
    SpaceSound n' := by
  have stays : ∀ x ∈ n.links, x ∈ n'.links := fun x isIn => links ▸ mem_append_left _ isIn
  refine ⟨?_, ?_, fun r isIn => ?_, fun h isIn => ?_⟩
  · rw [links]
    exact nodup_map_concat sound.names fun x old same => name (same ▸ mem_map_of_mem old)
  · have masters : ∀ x ∈ n.links ++ [l], x.master ≠ 0 → ∃ b ∈ n.links, b.index = x.master ∧ b.kind = .bridge :=
      forall_mem_concat sound.masters fun good => absurd free good
    intro x isIn good
    obtain ⟨b, there, has⟩ := masters x (links ▸ isIn) good
    exact ⟨b, stays b there, has⟩
  · obtain ⟨x, there, has⟩ := sound.routes r (routes ▸ isIn)
    exact ⟨x, stays x there, has⟩
  · obtain ⟨x, there, has⟩ := sound.nexthops h (nexthops ▸ isIn)
    exact ⟨x, stays x there, has⟩

end

section

variable {index : UInt32}

/-- A link whose master may have gone. -/
def unmastered (index : UInt32) (l : Interface) : Interface :=
  if l.master = index then { l with master := 0, hairpin := 0, isolated := 0 } else l

theorem unmastered_tie (index : UInt32) (l : Interface) : (unmastered index l).tie = l.tie := by
  unfold unmastered
  split <;> rfl

theorem unmastered_master (good : (unmastered index l).master ≠ 0) : l.master ≠ index ∧ unmastered index l = l := by
  unfold unmastered at good ⊢
  split at good
  · exact absurd rfl good
  next other => exact ⟨other, if_neg other⟩

theorem mem_strip : l' ∈ (stripLink n index).links ↔ ∃ l ∈ n.links, l.index ≠ index ∧ l' = unmastered index l := by
  simp only [stripLink, mem_filter, mem_map, bne_iff_ne]
  constructor
  · rintro ⟨⟨l, there, rfl⟩, other⟩
    have sameIndex := tie_index (unmastered_tie index l)
    exact ⟨l, there, sameIndex ▸ other, rfl⟩
  · rintro ⟨l, there, other, rfl⟩
    have sameIndex := tie_index (unmastered_tie index l)
    exact ⟨⟨l, there, rfl⟩, sameIndex ▸ other⟩

theorem strip_keeps (mem : l ∈ n.links) (other : l.index ≠ index) : ∃ l' ∈ (stripLink n index).links, l'.tie = l.tie :=
  ⟨unmastered index l, mem_strip.mpr ⟨l, mem, other, rfl⟩, unmastered_tie index l⟩

theorem stripLink_sound (sound : SpaceSound n) (index : UInt32) : SpaceSound (stripLink n index) where
  names := by
    have same : (n.links.map (unmastered index)).map Interface.name = n.links.map Interface.name := by
      rw [map_map]
      refine map_congr_left fun l _ => ?_
      exact tie_name (unmastered_tie index l)
    have fewer : ((stripLink n index).links.map Interface.name).Sublist (n.links.map Interface.name) := by
      rw [← same]
      exact filter_sublist.map _
    exact sound.names.sublist fewer
  masters l' mem mastered := by
    obtain ⟨l, there, -, rfl⟩ := mem_strip.mp mem
    obtain ⟨ne, same⟩ := unmastered_master mastered
    rw [same] at mastered ⊢
    obtain ⟨b, isLink, isMaster, kind⟩ := sound.masters l there mastered
    obtain ⟨b', isLink', tie⟩ := strip_keeps isLink (isMaster ▸ ne)
    exact ⟨b', isLink', (tie_index tie).trans isMaster, (tie_kind tie).trans kind⟩
  routes r mem := by
    obtain ⟨old, other⟩ := mem_filter.mp mem
    obtain ⟨l, there, isLink⟩ := sound.routes r old
    obtain ⟨l', there', tie⟩ := strip_keeps there (isLink ▸ bne_iff_ne.mp other)
    exact ⟨l', there', (tie_index tie).trans isLink⟩
  nexthops h mem := by
    obtain ⟨old, other⟩ := mem_filter.mp mem
    obtain ⟨l, there, isLink⟩ := sound.nexthops h old
    obtain ⟨l', there', tie⟩ := strip_keeps there (isLink ▸ bne_iff_ne.mp other)
    exact ⟨l', there', (tie_index tie).trans isLink⟩

end

/-- Only tunnels have the index. -/
def OnlyTunnels (n : Namespace) (index : UInt32) : Prop := ∀ l ∈ n.links, l.index = index → l.kind = .vxlan

theorem sweep_keeps (has : Namespace → Prop) (remove : Namespace → UInt32 → Namespace) (index : UInt32)
    (steps : List Nat) (kept : ∀ n, has n → ∀ l ∈ n.links, l.kind = .vxlan → has (remove n l.index)) (init : has n) :
    has (steps.foldl
      (fun (state : Namespace × Nat) _ => match state.1.links[state.2]? with
        | some l =>
          if l.kind = .vxlan ∧ l.vxlan.link = index then (remove state.1 l.index, state.2) else (state.1, state.2 + 1)
        | none => state) (n, 0)).1 := by
  refine foldlRecOn (motive := fun state : Namespace × Nat => has state.1) _ _ init ?_
  intro state held _ _
  split
  next l there =>
    split
    next bound => exact kept state.1 held l (mem_of_getElem? there) bound.1
    · exact held
  · exact held

theorem removeOne_strips {has : Namespace → Prop}
    (step : ∀ n index, has n → OnlyTunnels n index → has (stripLink n index)) (depth : Nat) (index : UInt32)
    (nodup : ((linkKeys n.links).map Prod.fst).Nodup) (init : has n) :
    ∃ n', has n' ∧ (linkKeys n'.links).Sublist (linkKeys n.links) ∧
      removeOne (depth + 1) n index = stripLink n' index := by
  induction depth generalizing n index with
  | zero =>
    -- no call is left for the tunnels, so the sweep only walks past them
    have swept :=
      sweep_keeps (fun state => has state ∧ (linkKeys state.links).Sublist (linkKeys n.links)) (removeOne 0) index
        (range n.links.length) (fun _ held _ _ _ => held) ⟨init, .refl _⟩
    exact ⟨_, swept.1, swept.2, rfl⟩
  | succ depth ih =>
    suffices kept : ∀ state, has state ∧
      (linkKeys state.links).Sublist (linkKeys n.links) → ∀ l ∈ state.links, l.kind = .vxlan →
        has (removeOne (depth + 1) state l.index) ∧
          (linkKeys (removeOne (depth + 1) state l.index).links).Sublist (linkKeys n.links) by
      have swept := sweep_keeps _ (removeOne (depth + 1)) index (range n.links.length) kept ⟨init, .refl _⟩
      exact ⟨_, swept.1, swept.2, rfl⟩
    rintro state ⟨held, fewer⟩ l there isTunnel
    have apart : ((linkKeys state.links).map Prod.fst).Nodup := nodup.sublist (fewer.map _)
    obtain ⟨n', held', fewer', same⟩ := ih l.index apart held
    have tunnels : OnlyTunnels n' l.index := by
      intro x mem index
      have key : x.key ∈ linkKeys state.links := fewer'.subset (mem_map_of_mem mem)
      have own : l.key ∈ linkKeys state.links := mem_map_of_mem there
      have eq : x.key = l.key := inj_on_of_nodup_map apart key own index
      exact (congrArg Prod.snd eq).trans isTunnel
    rw [same]
    refine ⟨step n' l.index held' tunnels, ?_⟩
    rw [linkKeys_strip]
    exact filter_sublist.trans (fewer'.trans fewer)

structure Removed (n n' : Namespace) (index : UInt32) : Prop where
  sound : SpaceSound n → SpaceSound n'
  gone : ∀ l' ∈ n'.links, l'.index ≠ index
  old : ∀ l' ∈ n'.links, ∃ l ∈ n.links, l'.tie = l.tie
  kept : ∀ l ∈ n.links, l.kind ≠ .vxlan → l.index ≠ index → ∃ l' ∈ n'.links, l'.tie = l.tie

theorem removeLink_removed (nodup : ((linkKeys n.links).map Prod.fst).Nodup) (index : UInt32) :
    Removed n (removeLink n index) index := by
  let has : Namespace → Prop :=
    fun n' => (SpaceSound n → SpaceSound n') ∧ (∀ l' ∈ n'.links, ∃ l ∈ n.links, l'.tie = l.tie) ∧
    ∀ l ∈ n.links, l.kind ≠ .vxlan → ∃ l' ∈ n'.links, l'.tie = l.tie
  have step : ∀ n' i, has n' → OnlyTunnels n' i → has (stripLink n' i) := by
    rintro n' i ⟨sound, old, kept⟩ tunnels
    refine ⟨fun has => stripLink_sound (sound has) i, fun l' mem => ?_, fun l mem plain => ?_⟩
    · obtain ⟨x, there, -, rfl⟩ := mem_strip.mp mem
      obtain ⟨l, pre, tie⟩ := old x there
      exact ⟨l, pre, (unmastered_tie _ x).trans tie⟩
    · obtain ⟨x, there, tie⟩ := kept l mem plain
      have other : x.index ≠ i := fun same => plain (tie_kind tie ▸ tunnels x there same)
      obtain ⟨l', new, tie'⟩ := strip_keeps there other
      exact ⟨l', new, tie'.trans tie⟩
  obtain ⟨n', ⟨sound, old, kept⟩, -, same⟩ := removeOne_strips step n.links.length index nodup
    (⟨id, fun l mem => ⟨l, mem, rfl⟩, fun l mem _ => ⟨l, mem, rfl⟩⟩ : has n)
  rw [removeLink, same]
  refine ⟨fun has => stripLink_sound (sound has) index, fun l' mem => ?_, fun l' mem => ?_, fun l mem plain other => ?_⟩
  · obtain ⟨x, -, other, rfl⟩ := mem_strip.mp mem
    rwa [tie_index (unmastered_tie _ x)]
  · obtain ⟨x, there, -, rfl⟩ := mem_strip.mp mem
    obtain ⟨l, pre, tie⟩ := old x there
    exact ⟨l, pre, (unmastered_tie _ x).trans tie⟩
  · obtain ⟨x, there, tie⟩ := kept l mem plain
    obtain ⟨l', new, tie'⟩ := strip_keeps there ((tie_index tie).symm ▸ other)
    exact ⟨l', new, tie'.trans tie⟩

end

section

/-- The link of an index has a master. -/
def Under (links : List Interface) (index master : UInt32) : Prop :=
  ∃ l ∈ links, l.index = index ∧ l.master = master ∧ master ≠ 0

/-- Links whose masters are among them, and lead up to one without a master. -/
structure Mastered (links : List Interface) : Prop where
  present : ∀ l ∈ links, l.master ≠ 0 → ∃ b ∈ links, b.index = l.master
  grounded : Grounded (Under links)

/-- What leads from a link to its master. -/
def Interface.rein (l : Interface) : UInt32 × UInt32 := (l.index, l.master)

variable {links links' : List Interface} {l l' : Interface}

theorem rein_index (same : l'.rein = l.rein) : l'.index = l.index := congrArg Prod.fst same

theorem rein_master (same : l'.rein = l.rein) : l'.master = l.master := congrArg Prod.snd same

theorem reins_of_bases (bases : links'.map Interface.base = links.map Interface.base) :
    links'.map Interface.rein = links.map Interface.rein :=
  map_of_map_eq bases fun base => (base.1, base.2.2.2)

theorem under_of_reins (reins : links'.map Interface.rein = links.map Interface.rein) {i m : UInt32}
    (under : Under links' i m) :
    Under links i m := by
  obtain ⟨x, mem, rfl, rfl, good⟩ := under
  obtain ⟨y, there, same⟩ := exists_of_map_eq reins.symm mem
  exact ⟨y, there, rein_index same, rein_master same, good⟩

theorem Mastered.congr (good : Mastered links) (reins : links'.map Interface.rein = links.map Interface.rein) :
    Mastered links' where
  present x inside isPort := by
    obtain ⟨y, there, same⟩ := exists_of_map_eq reins.symm inside
    obtain ⟨b, isLink, isMaster⟩ := good.present y there (rein_master same ▸ isPort)
    obtain ⟨b', isLink', same'⟩ := exists_of_map_eq reins isLink
    exact ⟨b', isLink', by rw [rein_index same', isMaster, rein_master same]⟩
  grounded := good.grounded.mono fun _ _ => under_of_reins reins

theorem Mastered.set (good : Mastered links) {pos : Nat} (there : links[pos]? = some l) (idx : l'.index = l.index)
    (master : l'.master = l.master ∨ (l'.master ≠ 0 → (∃ b ∈ links, b.index = l'.master) ∧
      ¬ Relation.ReflTransGen (Under links) l'.master l.index)) : Mastered (links.set pos l') := by
  rcases master with same | given
  · exact good.congr (map_set_of_eq there (Prod.ext idx same))
  have kept : ∀ x ∈ links, ∃ x' ∈ links.set pos l', x'.index = x.index := by
    intro x isIn
    have either : x ∈ links.set pos l' ∨ (x = l ∧ l' ∈ links.set pos l') := exists_mem_set there isIn
    rcases either with same | ⟨rfl, new⟩
    · exact ⟨x, same, rfl⟩
    · exact ⟨l', new, idx⟩
  have steps : ∀ i m, Under (links.set pos l') i m → (i = l.index ∧ m = l'.master ∧ m ≠ 0) ∨ Under links i m := by
    rintro i m ⟨x, isIn, rfl, rfl, isPort⟩
    rcases mem_or_eq_of_mem_set isIn with pre | rfl
    · exact .inr ⟨x, pre, rfl, rfl, isPort⟩
    · exact .inl ⟨idx, rfl, isPort⟩
  constructor
  · intro x isIn isPort
    obtain ⟨b, isLink, isMaster⟩ := forall_mem_set good.present (fun isPort => (given isPort).1) x isIn isPort
    obtain ⟨b', isLink', same⟩ := kept b isLink
    exact ⟨b', isLink', same.trans isMaster⟩
  · by_cases free : l'.master = 0
    · refine good.grounded.mono fun i m under => ?_
      rcases steps i m under with ⟨-, rfl, ne⟩ | old
      · exact absurd free ne
      · exact old
    · refine good.grounded.reparent (given free).2 fun i m under => ?_
      exact (steps i m under).imp_left fun new => ⟨new.1, new.2.1⟩

theorem under_append (free : l.master = 0) {i m : UInt32} (under : Under (links ++ [l]) i m) : Under links i m := by
  obtain ⟨x, isIn, rfl, rfl, isPort⟩ := under
  rcases mem_append.mp isIn with old | new
  · exact ⟨x, old, rfl, rfl, isPort⟩
  · rw [mem_singleton.mp new] at isPort
    exact absurd free isPort

theorem Mastered.append (good : Mastered links) (free : l.master = 0) : Mastered (links ++ [l]) := by
  refine ⟨fun x isIn isPort => ?_, good.grounded.mono fun _ _ => under_append free⟩
  obtain ⟨y, there, -, isMaster, -⟩ := under_append free ⟨x, isIn, rfl, rfl, isPort⟩
  obtain ⟨b, isLink, isBridge⟩ := good.present y there (isMaster ▸ isPort)
  exact ⟨b, mem_append_left _ isLink, isBridge.trans isMaster⟩

variable {n : Namespace}

theorem stripLink_mastered (idx : UInt32) :
    (Mastered n.links → Mastered (stripLink n idx).links) ∧
      ∀ i m, Under (stripLink n idx).links i m → Under n.links i m := by
  have old : ∀ x' ∈ (stripLink n idx).links, x'.master ≠ 0 → x' ∈ n.links ∧ x'.master ≠ idx := by
    intro x' isIn isPort
    obtain ⟨x, pre, -, rfl⟩ := mem_strip.mp isIn
    obtain ⟨other, same⟩ := unmastered_master isPort
    rw [same]
    exact ⟨pre, other⟩
  have fewer : ∀ i m, Under (stripLink n idx).links i m → Under n.links i m := by
    rintro i m ⟨x, isIn, rfl, rfl, isPort⟩
    exact ⟨x, (old x isIn isPort).1, rfl, rfl, isPort⟩
  refine ⟨fun good => ⟨fun x isIn isPort => ?_, good.grounded.mono fewer⟩, fewer⟩
  obtain ⟨pre, other⟩ := old x isIn isPort
  obtain ⟨b, isLink, isMaster⟩ := good.present x pre isPort
  obtain ⟨b', new, tie⟩ := strip_keeps isLink (isMaster ▸ other)
  exact ⟨b', new, (tie_index tie).trans isMaster⟩

theorem removeLink_mastered (nodup : ((linkKeys n.links).map Prod.fst).Nodup) (idx : UInt32) :
    (Mastered n.links → Mastered (removeLink n idx).links) ∧
      ∀ i m, Under (removeLink n idx).links i m → Under n.links i m := by
  let holds : Namespace → Prop :=
    fun n' => (Mastered n.links → Mastered n'.links) ∧ ∀ i m, Under n'.links i m → Under n.links i m
  have step : ∀ n' i, holds n' → holds (stripLink n' i) := by
    rintro n' i ⟨keeps, old⟩
    obtain ⟨keeps', old'⟩ := @stripLink_mastered n' i
    exact ⟨fun good => keeps' (keeps good), fun x y under => old x y (old' x y under)⟩
  have start : holds n := ⟨id, fun _ _ => id⟩
  obtain ⟨n', held, -, same⟩ := removeOne_strips (fun n' i held _ => step n' i held) n.links.length idx nodup start
  rw [removeLink, same]
  exact step n' idx held

end

variable {f g : Fabric} {id : SpaceId} {m : Namespace}

/-- No link gets another master. -/
def Milder (f g : Fabric) : Prop :=
  ∀ id, (Mastered (f.space id).links → Mastered (g.space id).links) ∧
    ∀ i m, Under (g.space id).links i m → Under (f.space id).links i m

theorem Milder.refl (f : Fabric) : Milder f f := fun _ => ⟨id, fun _ _ => id⟩

theorem Milder.trans {h : Fabric} (first : Milder f g) (second : Milder g h) : Milder f h := fun id =>
  ⟨fun mastered => (second id).1 ((first id).1 mastered), fun i m under => (first id).2 i m ((second id).2 i m under)⟩

theorem Milder.put (space : g.space = (f.put id m).space)
    (keeps : Mastered (f.space id).links → Mastered m.links)
    (fewer : ∀ i j, Under m.links i j → Under (f.space id).links i j) :
    Milder f g := by
  intro other
  rw [space]
  by_cases same : other = id
  · rw [same, Fabric.put_self]
    exact ⟨keeps, fewer⟩
  · rw [Fabric.put_other f m same]
    exact Milder.refl f other

theorem Milder.reins (space : g.space = (f.put id m).space)
    (reins : m.links.map Interface.rein = (f.space id).links.map Interface.rein) :
    Milder f g :=
  .put space (fun good => good.congr reins) fun _ _ => under_of_reins reins

theorem Milder.same (bases : m.links.map Interface.base = (f.space id).links.map Interface.base) :
    Milder f (f.put id m) :=
  .reins rfl (reins_of_bases bases)

theorem Milder.add {link : Interface} (space : g.space = (f.put id m).space)
    (links : m.links = (f.space id).links ++ [link]) (free : link.master = 0) : Milder f g := by
  refine .put space (fun good => ?_) fun i j under => ?_
  · rw [links]
    exact good.append free
  · rw [links] at under
    exact under_append free under

theorem Milder.remove (nums : Numbered f) (id : SpaceId) (idx : UInt32) :
    Milder f (f.put id (removeLink (f.space id) idx)) :=
  have gone := removeLink_mastered (nums.distinct id) idx
  .put rfl gone.1 gone.2

theorem withoutLink_milder (nums : Numbered f) (n : SpaceId) (link : Interface) : Milder f (withoutLink f n link) := by
  have first := Milder.remove nums n link.index
  have nums' : Numbered (f.put n (removeLink (f.space n) link.index)) := nums.put (linkKeys_removeLink _ _)
  unfold withoutLink
  split
  · exact first
  · exact first.trans (.remove nums' _ _)

end Shroot.Network
