import Shroot.Network.Rollback

namespace Shroot.Network

open General List

/-- The rules a namespace starts with. The default table is consulted for IPv4 only. -/
def policyInit : List Rule :=
  let rule (family priority table : UInt32) : Rule :=
    { source := ipAny family, destination := ipAny family, priority := priority, table := table
      action := FR_ACT_TO_TBL, protocol := RTPROT_KERNEL }
  [rule AF_INET 0 RT_TABLE_LOCAL, rule AF_INET6 0 RT_TABLE_LOCAL, rule AF_INET 32766 RT_TABLE_MAIN,
    rule AF_INET6 32766 RT_TABLE_MAIN, rule AF_INET 32767 RT_TABLE_DEFAULT]

def freshNamespace (routed : Bool) : Namespace :=
  let policy : Ipv6Policy := { forwarding := if routed then 1 else 0, acceptDad := 1, hopLimit := 64, mtu := 1500 }
  { links := [], routes := [], nexthops := [], rules := policyInit, neighbors := [], capacity := 0, nextPolicy := 0
    all6 := policy, defaults := {}, defaults6 := policy, vxlanPorts := [], configurationDeadline := 0 }

/-- The bytes of "lo" and of "eth0". -/
def loName : Bytes := [108, 111]
def eth0Name : Bytes := [101, 116, 104, 48]

def uplinkIpv6 (host : UInt8) : IpAddress := ipOf AF_INET6 ([0xfd, 0x6d, 0x64, 0x73] ++ replicate 11 0 ++ [host])

variable (link : Interface)

def raiseLink : Interface := interfaceUp { link with flags := link.flags ||| IFF_UP }

/-- Add an address, or leave a full link as it is. -/
def assignAddress (a : Assignment) : Interface := (interfaceAddress link a false false).toOption.getD link

def configureUplink : Interface :=
  let link := assignAddress (raiseLink link)
    { address := ipOf AF_INET [10, 0, 2, 100], length := 24, scope := RT_SCOPE_UNIVERSE, flags := IFA_F_PERMANENT }
  assignAddress link
    { address := uplinkIpv6 0x64, length := 64, scope := RT_SCOPE_UNIVERSE, flags := IFA_F_PERMANENT }

def uplinkRoutes (uplink : UInt32) : List RouteEntry :=
  [{ destination := ipAny AF_INET, gateway := ipOf AF_INET [10, 0, 2, 2], interface := uplink
     protocol := RTPROT_BOOT },
    { destination := ipAny AF_INET6, gateway := uplinkIpv6 2, interface := uplink, metric := 1024
      protocol := RTPROT_BOOT }]

/-- The links of a new namespace: its loopback, and the uplink of a routed one. -/
def firstLinks (grows : Bool) (id : SpaceId) (routed : Bool) : EStateM Errno Fabric Unit := do
  let _ ← interfaceAdd grows id .loopback loName
  if routed then
    modify fun f => f.put id ((f.space id).modifyLink 0 raiseLink)
    let uplink ← interfaceAdd grows id .uplink eth0Name
    modify fun f => f.put id ((f.space id).modifyLink 1 configureUplink)
    modify fun f => f.put id { f.space id with routes := (f.space id).routes ++ uplinkRoutes uplink }

/-- `create` within a fabric. A namespace that could not be made is released. -/
def namespaceCreate (grows : Bool) (f : Fabric) (id : SpaceId) (routed : Bool) : Except Errno Fabric :=
  match gives (firstLinks grows id routed) (f.put id (freshNamespace routed)) with
  | .error error => .error error
  | .ok _ =>
    let after := leaves (firstLinks grows id routed) (f.put id (freshNamespace routed))
    .ok { after with spaces := id :: after.spaces }

def newFabric : Fabric :=
  { nextIndex := 2, spaces := [], space := fun _ => freshNamespace false, configurationDeadline := 0 }

section

variable {f : Fabric} {id : SpaceId}

theorem newFabric_numbered : Numbered newFabric := by
  refine ⟨by decide, by decide, ?_, ?_, ?_, ?_, ?_⟩
  · exact nofun
  · exact nofun
  · exact nofun
  · exact fun _ => nodup_nil
  · exact nofun

theorem Numbered.loopback (numbered : Numbered f) {n : Namespace} (keys : linkKeys n.links = [(1, .loopback)]) :
    Numbered (f.put id n) := by
  have now : ∀ other, (f.put id n).keys other = if other = id then [(1, .loopback)] else f.keys other := by
    intro other
    rw [Fabric.keys_put, keys]
  refine numbered.insert id (1, .loopback) (UInt32.le_refl _) numbered.small (by simp) (fun _ => rfl) numbered.started
    (fun other => ?_)
    fun other k held => ?_
  · rw [now]
    split
    · simp
    · exact numbered.distinct other
  · rw [now] at held
    split at held
    next here => exact .inl ⟨mem_singleton.mp held, here⟩
    · exact .inr ⟨held, fun _ one => ⟨numbered.first other k held one, rfl⟩⟩

theorem interfaceAdd_loopback (numbered : Numbered f) (grows : Bool) (name : Bytes) (empty : (f.space id).links = []) :
    Ensures f (fun _ => Tends [id] f) (fun _ => True) (interfaceAdd grows id .loopback name) := by
  refine (interfaceAdd_ensures f id grows .loopback name).mono ?_ fun _ _ => trivial
  rintro idx g ⟨n, link, space, fresh, list, -, isIndex, next⟩
  rw [if_pos rfl] at isIndex next
  have keys : linkKeys n.links = [(1, .loopback)] := by
    rw [fresh.links, empty, nil_append, linkKeys, map_singleton, Interface.key, fresh.index, fresh.kind, isIndex]
  have looped : Numbered (f.put id n) := numbered.loopback keys
  have numbered' : Numbered g := by
    refine looped.of_sublist next fun other => ?_
    rw [Fabric.keys, Fabric.keys, space]
  refine ⟨⟨fun other outside => ?_, numbered', list, .add space fresh.links fresh.master⟩, fun linked => ?_⟩
  · rw [space]
    exact Within.put (mem_singleton_self id) f n other outside
  · exact linked.add numbered' space fresh fun _ => isIndex

variable (link : Interface)

theorem raiseLink_shape : (raiseLink link).shape = link.shape := interfaceUp_shape _

theorem assignAddress_shape (a : Assignment) : (assignAddress link a).shape = link.shape := by
  obtain ⟨addresses, is⟩ := assigned_addresses link a
  rw [assignAddress, is]
  rfl

theorem configureUplink_shape : (configureUplink link).shape = link.shape :=
  (assignAddress_shape _ _).trans ((assignAddress_shape _ _).trans (raiseLink_shape link))

theorem configureUplink_key : (configureUplink link).key = link.key :=
  congrArg (fun shape => (shape.1.1, shape.1.2.1)) (configureUplink_shape link)

theorem Linked.addRoutes (linked : Linked f) {routes : List RouteEntry}
    (there : ∀ r ∈ routes, ∃ l ∈ (f.space id).links, l.index = r.interface) :
    Linked (f.put id { f.space id with routes := (f.space id).routes ++ routes }) := by
  have sound := linked.spaces id
  exact linked.replace rfl ⟨sound.names, sound.masters, forall_mem_append.mpr ⟨sound.routes, there⟩, sound.nexthops⟩

theorem uplinkRoutes_interface {uplink : UInt32} {r : RouteEntry} (mem : r ∈ uplinkRoutes uplink) :
    r.interface = uplink := by
  rcases mem_cons.mp mem with rfl | rest
  · rfl
  · rw [mem_singleton.mp rest]

theorem firstLinks_tends (numbered : Numbered f) (grows routed : Bool) (empty : (f.space id).links = []) :
    Ensures f (fun _ => Tends [id] f) (fun _ => True) (firstLinks grows id routed) := by
  have mem : id ∈ [id] := mem_singleton_self id
  refine (interfaceAdd_loopback numbered grows loName empty).bind fun _ g first => ?_
  refine .ite (fun _ => .modify_bind ?_) fun _ => .pure first
  have raised := first.trans (.modifyLink first.numbered mem 0 raiseLink_shape)
  have adds := interfaceAdd_tends raised.numbered mem grows (show LinkKind.uplink ≠ .loopback by decide) eth0Name
  refine (adds.mono (fun _ _ post => post) fun _ _ => trivial).bind fun uplink h made => ?_
  obtain ⟨tends, -, n, link, fresh, space⟩ := made
  have configured : Tends [id] h (h.put id ((h.space id).modifyLink 1 configureUplink)) :=
    .modifyLink tends.numbered mem 1 configureUplink_shape
  refine .modify_bind (.modify (raised.trans (tends.trans (configured.trans
    ⟨.put configured.numbered mem ?_, fun linked => linked.addRoutes fun r isIn => ?_⟩))))
  · rfl
  have key : link.key ∈ (h.put id ((h.space id).modifyLink 1 configureUplink)).keys id := by
    rw [Fabric.keys_put, if_pos rfl]
    exact (linkKeys_modify (h.space id).links 1 configureUplink_key).symm ▸ mem_map_of_mem (fresh.self space)
  obtain ⟨l, held, same⟩ := mem_map.mp key
  refine ⟨l, held, ?_⟩
  rw [uplinkRoutes_interface isIn, ← fresh.index]
  exact congrArg Prod.fst same

variable {grows routed : Bool} {after : Fabric}

variable (numbered : Numbered f) (run : namespaceCreate grows f id routed = .ok after)

include numbered run

theorem namespaceCreate_tends :
    ∃ g, Tends [id] (f.put id (freshNamespace routed)) g ∧ after = { g with spaces := id :: g.spaces } := by
  have fresh : Numbered (f.put id (freshNamespace routed)) := numbered.put (nil_sublist _)
  have built := firstLinks_tends fresh grows routed (by rw [Fabric.put_self]; rfl)
  unfold namespaceCreate at run
  unfold Ensures at built
  split at run
  · cases run
  next val made =>
    rw [run_of_gives_ok made] at built
    exact ⟨_, built, (Except.ok.inj run).symm⟩

theorem namespaceCreate_numbered : Numbered after := by
  obtain ⟨g, tends, rfl⟩ := namespaceCreate_tends numbered run
  exact tends.numbered.of_sublist rfl fun _ => List.Sublist.refl _

end

section

inductive Event where
  | create (grows : Bool) (id : SpaceId) (routed : Bool)
  | request (env : Environment) (n : SpaceId) (m : Message)

def occur (f : Fabric) : Event → Fabric
  | .create grows id routed => if id ∈ f.spaces then f else (namespaceCreate grows f id routed).toOption.getD f
  | .request env n m => (networkRoute env f n m).fabric

theorem occur_numbered {f : Fabric} (numbered : Numbered f) (event : Event) : Numbered (occur f event) := by
  cases event with
  | create grows id routed =>
    simp only [occur]
    split
    · exact numbered
    · cases run : namespaceCreate grows f id routed with
      | error _ => exact numbered
      | ok after => exact namespaceCreate_numbered numbered run
  | request env n m => exact networkRoute_numbered env numbered n m

/-- From a new fabric on, the links stay numbered. -/
theorem history_numbered (events : List Event) : Numbered (events.foldl occur newFabric) :=
  foldlRecOn (motive := Numbered) events occur newFabric_numbered fun _ numbered event _ =>
    occur_numbered numbered event

variable {env : Environment} {f : Fabric} {n : SpaceId} {m : Message}

/-- A request that is not committed leaves the configuration of every namespace and the next
index as they were, except when it escapes its checkpoints. -/
theorem networkRoute_restored_iff (numbered : Numbered f) (uncommitted : (networkRoute env f n m).committed = false) :
    Restored f (networkRoute env f n m).fabric ↔ ∀ p, ¬ Escapes env f n m p := by
  by_cases request : has m.flags NLM_F_REQUEST
  · rw [networkRoute_uncommitted request uncommitted]
    rcases (trial_cases numbered request).2 with ⟨sub, none⟩ | ⟨link, p, out, owned, outside, sub⟩
    · exact ⟨fun _ => none, fun _ => rollback_restored sub⟩
    · refine ⟨fun restored => absurd ?_ (withoutLink_peer (n := n) owned), fun none => absurd out (none p)⟩
      rw [← sub p outside, ← rollback_other outside]
      exact congrArg Topology.links (restored.2 p)
  · rw [networkRoute_ignored request]
    exact ⟨fun _ p out => request out.request, fun _ => ⟨rfl, fun _ => rfl⟩⟩

end

def attributeBytes (type : Nat) (data : Bytes) : Bytes :=
  littleEndian 2 (4 + data.length) ++ littleEndian 2 type ++ data ++ replicate (alignWord data.length - data.length) 0

def linkHeader (index : Nat) : Bytes := replicate 4 0 ++ littleEndian 4 index ++ replicate 8 0

/-- The surroundings of a request in which everything goes well until its reply is handed out; a
namespace is named by its number. -/
def smooth (publish : Option (Except Errno Unit)) : Environment :=
  { now := fun _ => 0, timer := .ok (), random := fun _ _ => .ok 0, allocates := true
    staleNexthop := { id := 0, interface := 0, flags := 0, protocol := 0, gateway := default }
    capable := true
    resolve := some fun
      | .fd value => .ok { space := value.toNat, capable := true, sameFabric := true }
      | .pid _ => .error .ESRCH
    saves := fun _ => true, grows := fun _ => true, prunes := fun _ => true
    policyUpdate := fun _ => .ok (), transportUpdate := fun _ => .ok (), allocatesUpdate := true
    opensPort := fun _ => .ok (), preparesStack := .ok (), notified := fun _ _ _ => 0
    capacity := 4096, cappedAck := true, publish := publish }

/-- Make the pair `v0` and `v1`, the latter in the namespace 2. -/
def makePair : Message :=
  { type := RTM_NEWLINK, flags := NLM_F_REQUEST ||| NLM_F_CREATE
    body := linkHeader 0 ++ attributeBytes IFLA_IFNAME [118, 48, 0] ++ attributeBytes IFLA_LINKINFO
      (attributeBytes IFLA_INFO_KIND vethName ++ attributeBytes IFLA_INFO_DATA
        (attributeBytes VETH_INFO_PEER (linkHeader 0 ++ attributeBytes IFLA_IFNAME [118, 49, 0] ++
          attributeBytes IFLA_NET_NS_FD (littleEndian 4 2)))) }

/-- Three namespaces, with a pair between the first and the last. -/
def pairFabric : Fabric :=
  [.create true 0 false, .create true 1 false, .create true 2 false, .request (smooth none) 0 makePair].foldl
    occur newFabric

/-- A request about the link 2 that names the namespace 1. -/
def pairRequest (type : Nat) : Message :=
  { type := type, flags := NLM_F_REQUEST ||| NLM_F_ACK
    body := linkHeader 2 ++ attributeBytes IFLA_NET_NS_FD (littleEndian 4 1) }

/-- Moving the link to the namespace 1 is taken back when the reply cannot be handed out. -/
theorem movedPair_restored :
    Restored pairFabric (networkRoute (smooth (some (.error .ENOMEM))) pairFabric 0 (pairRequest RTM_SETLINK)).fabric :=
  (networkRoute_restored_iff (history_numbered _) (by decide +kernel)).mpr fun _ out => absurd out.deletes (by decide)

/-- Deleting it with the same namespace named loses its peer. -/
theorem deletedPair_not_restored :
    (networkRoute (smooth (some (.error .ENOMEM))) pairFabric 0 (pairRequest RTM_DELLINK)).committed = false ∧
    ¬ Restored pairFabric
      (networkRoute (smooth (some (.error .ENOMEM))) pairFabric 0 (pairRequest RTM_DELLINK)).fabric := by
  refine ⟨by decide +kernel, fun restored => ?_⟩
  have same := congrArg Topology.links (restored.2 2)
  revert same
  decide +kernel

end Shroot.Network
