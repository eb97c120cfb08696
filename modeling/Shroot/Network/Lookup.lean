import Shroot.General.Positions
import Shroot.General.Triples
import Shroot.Network.Model

namespace Shroot.Network

open General MonadExcept

section

section

def linkMatches (index : UInt32) (name : Option Bytes) (link : Interface) : Bool :=
  index != 0 && link.index == index || index == 0 && name == some link.name

/-- The position of a link, by its index or else by its name. -/
def findLink (links : List Interface) (index : UInt32) (name : Option Bytes) : Option Nat :=
  links.findIdx? (linkMatches index name)

def interfaceFind (links : List Interface) (index : UInt32) (name : Option Bytes) : Option Interface :=
  links.find? (linkMatches index name)

/-- The namespace that holds a link. Every namespace has a loopback link of index 1. -/
def interfaceOwner (f : Fabric) (index : UInt32) : Option SpaceId :=
  if index = 1 then none
  else f.spaces.find? fun id => (interfaceFind (f.space id).links index none).isSome

def usable (a : Assignment) : Bool := !has a.flags (IFA_F_TENTATIVE ||| IFA_F_DADFAILED)

variable (link : Interface)

def interfaceHas (address : IpAddress) : Bool :=
  !ipUnspecified address && link.addresses.any fun a =>
    usable a && (ipEqual a.address address ||
      link.kind == .loopback && address.family == AF_INET && a.address.family == AF_INET && ipIsLoopback address)

def interfaceAddress (a : Assignment) (remove exclusive : Bool) : Except Errno Interface :=
  if ipUnspecified a.address ∨ a.length > ipSize a.address.family * 8 then .error .EINVAL
  else match link.addresses.findIdx? fun old => ipEqual old.address a.address with
    | some i =>
      let old := link.addresses.getD i a
      if remove then
        if old.length ≠ a.length ∨ ¬ ipUnspecified a.peer ∧ ¬ ipEqual old.peer a.peer then .error .EADDRNOTAVAIL
        else .ok { link with addresses := link.addresses.eraseIdx i }
      else if exclusive then .error .EEXIST
      else .ok { link with addresses := link.addresses.set i a }
    | none =>
      if remove then .error .EADDRNOTAVAIL
      else if link.addresses.length = maxAddresses then .error .ENOSPC
      else .ok { link with addresses := link.addresses ++ [a] }

/-- Add an address the link does not have; a full link stays as it is. -/
def ensureAddress (a : Assignment) : Interface :=
  if interfaceHas link a.address then link else (interfaceAddress link a false false).toOption.getD link

/-- The link-local address of a link: its hardware address around `ff:fe`. -/
def linklocalOf : IpAddress :=
  let mac := link.address
  ipOf AF_INET6 ([0xfe, 0x80, 0, 0, 0, 0, 0, 0, mac.getD 0 0 ^^^ 2, mac.getD 1 0, mac.getD 2 0, 0xff, 0xfe,
    mac.getD 3 0, mac.getD 4 0, mac.getD 5 0])

def interfaceUp : Interface :=
  if ¬ has link.flags IFF_UP then link
  else if link.kind = .loopback then
    let link := ensureAddress link
      { address := ipLoopback AF_INET, length := 8, scope := RT_SCOPE_HOST, flags := IFA_F_PERMANENT }
    if link.ipv6.disabled ≠ 0 then link
    else ensureAddress link
      { address := ipLoopback AF_INET6, length := 128, scope := RT_SCOPE_HOST, flags := IFA_F_PERMANENT }
  else if link.ipv6.disabled = 0 ∧ link.ipv6.addrGenMode = 0 ∧ link.mtu ≥ 1280 then
    if link.addresses.any fun a => ipLinklocal a.address then link
    else (interfaceAddress link
      { address := linklocalOf link, length := 64, scope := RT_SCOPE_LINK, flags := IFA_F_PERMANENT } false
        false).toOption.getD
        link
  else link

variable (n : Namespace)

/-- Drop the IPv6 configuration of the link at a position. -/
def interfaceIpv6Flush (position : Nat) : Namespace :=
  match n.links[position]? with
  | none => n
  | some link =>
    { n with
      links :=
        n.links.set position { link with addresses := link.addresses.filter fun a => a.address.family != AF_INET6 }
      routes := n.routes.filter fun r => r.interface != link.index || r.destination.family != AF_INET6
      nexthops := n.nexthops.filter fun h => h.interface != link.index || h.gateway.family != AF_INET6 }

/-- Room for more links; `grows` is whether the array can be enlarged. -/
def interfaceReserve (extra : Nat) (grows : Bool) : Except Errno Namespace :=
  if extra > maxLinks - n.links.length then .error .ENOSPC
  else if n.links.length + extra ≤ n.capacity then .ok n
  else
    let doubled := if n.capacity ≠ 0 then n.capacity * 2 else 4
    if grows then .ok { n with capacity := min (max doubled (n.links.length + extra)) maxLinks }
    else .error .ENOMEM

def IFNAMSIZ : Nat := 16

def validName (name : Bytes) : Bool :=
  name.length != 0 && decide (name.length < IFNAMSIZ) && name != [46] && name != [46, 46] &&
    name.all fun c => c != 47 && c != 58 && c != 32 && c != 9 && c != 10

def madeAddress (kind : LinkKind) (id : UInt32) : Bytes :=
  if kind = .loopback then List.replicate 6 0 else [2, 0, 0, (id >>> 16).toUInt8, (id >>> 8).toUInt8, id.toUInt8]

def MD_NET_SCOPE_DEFAULT : UInt64 := 0xfffffffffffffffe

def interfaceAdd (grows : Bool) (id : SpaceId) (kind : LinkKind) (name : Bytes) : EStateM Errno Fabric UInt32 := do
  let f ← get
  let n := f.space id
  rejectIf (¬ validName name) .EINVAL
  rejectIf ((interfaceFind n.links 0 (some name)).isSome) .EEXIST
  rejectIf (f.nextIndex = 0x7fffffff ∨ n.nextPolicy = MD_NET_SCOPE_DEFAULT - 1) .ENOSPC
  let n ← ofExcept (interfaceReserve n 1 grows)
  let index : UInt32 := if kind = .loopback then 1 else f.nextIndex
  let mtu : UInt32 := if kind = .loopback then 65536 else 1500
  let link : Interface :=
    { kind := kind, index := index, name := name
      flags := if kind = .loopback then IFF_LOOPBACK else IFF_BROADCAST ||| IFF_MULTICAST
      mtu := mtu, txQueueLength := 1000, address := madeAddress kind index
      bridgeForwardDelay := if kind = .bridge then 1500 else 0
      policyId := n.nextPolicy + 1, policy := n.defaults, ipv6 := { n.defaults6 with mtu := mtu } }
  let nextIndex : UInt32 := if kind = .loopback then f.nextIndex else f.nextIndex + 1
  let added := f.put id { n with links := n.links ++ [link], nextPolicy := n.nextPolicy + 1 }
  set { added with nextIndex := nextIndex }
  return index

/-- Take a link out of the tables of its namespace. -/
def stripLink (index : UInt32) : Namespace :=
  { n with
    links :=
      (n.links.map fun l => if l.master = index then { l with master := 0, hairpin := 0, isolated := 0 } else l).filter
        fun l => l.index != index
    routes := n.routes.filter fun r => r.interface != index
    nexthops := n.nexthops.filter fun h => h.interface != index }

/-- `remove_one`: the tunnels bound to a link go before it. `depth` bounds their nesting, which in
the code is the depth of the call stack. -/
def removeOne : Nat → Namespace → UInt32 → Namespace
  | 0, n, _ => n
  | depth + 1, n, index =>
    let swept := (List.range n.links.length).foldl
      (fun (state : Namespace × Nat) _ => match state.1.links[state.2]? with
        | some l =>
          if l.kind = .vxlan ∧ l.vxlan.link = index then (removeOne depth state.1 l.index, state.2)
          else (state.1, state.2 + 1)
        | none => state) (n, 0)
    stripLink swept.1 index

def removeLink (index : UInt32) : Namespace := removeOne (n.links.length + 1) n index

def interfaceRemove (id : SpaceId) (index : UInt32) : EStateM Errno Fabric Unit := do
  let f ← get
  match interfaceFind (f.space id).links index none with
  | none => throw .ENODEV
  | some link =>
    rejectIf (link.kind = .loopback ∨ link.kind = .uplink) .EOPNOTSUPP
    let other := interfaceOwner f link.peer
    modify fun f => f.put id (removeLink (f.space id) index)
    match other with
    | none => pure ()
    | some other => modify fun f => f.put other (removeLink (f.space other) link.peer)

def interfaceMove (grows : Bool) (source : SpaceId) (index : UInt32) (dest : SpaceId) (name : Option Bytes) :
    EStateM Errno Fabric Unit := do
  let f ← get
  match findLink (f.space source).links index none with
  | none => throw .ENODEV
  | some position =>
    let links := (f.space source).links
    match links[position]? with
    | none => throw .ENODEV
    | some link =>
      rejectIf (source ≠ dest ∧ link.kind ≠ .veth) .EOPNOTSUPP
      let renamed := name.getD link.name
      rejectIf (¬ validName renamed) .EINVAL
      let collision := findLink (f.space dest).links 0 (some renamed)
      rejectIf (collision.isSome ∧ ¬ (source = dest ∧ collision = some position)) .EEXIST
      if source = dest then
        modify fun f => f.put source { f.space source with links := links.set position { link with name := renamed } }
      else
        let n := f.space dest
        rejectIf (n.nextPolicy = MD_NET_SCOPE_DEFAULT - 1) .ENOSPC
        let n ← ofExcept (interfaceReserve n 1 grows)
        let moved := { link with
          tc := none, policy := n.defaults, ipv6 := n.defaults6, policyId := n.nextPolicy + 1
          master := 0, hairpin := 0, isolated := 0, name := renamed }
        modify fun f => f.put source (removeLink (f.space source) index)
        modify fun f => f.put dest { n with links := n.links ++ [moved], nextPolicy := n.nextPolicy + 1 }

end

/-- How well an address of a link suits as the source towards a target; 0 is not at all. -/
def sourceScore (link : Interface) (target : IpAddress) (a : Assignment) : Nat :=
  if a.address.family ≠ target.family ∨ ¬ usable a then 0
  else if ipLinklocal a.address ≠ ipLinklocal target ∧ ¬ ipMulticast target then 0
  else
    1 + (if has a.flags IFA_F_DEPRECATED then 0 else 8)
      + (if ipPrefix (addressDestination a) target a.length then 1 else 0)
      + (if ipEqual a.address target then 16 else 0)
      + (if a.address.family = AF_INET6 ∧ (has a.flags IFA_F_TEMPORARY ↔ link.ipv6.useTempaddr > 1) then 2 else 0)

/-- A multicast group of link scope is reached like a link-local address. -/
def sourceTarget (target : IpAddress) : IpAddress :=
  if target.family = AF_INET6 ∧ ipMulticast target ∧
    target.byte 1 &&& 15 ≤ 2 then ipOf AF_INET6 [0xfe, 0x80] else target

def interfaceSource (link : Option Interface) (target : IpAddress) : IpAddress :=
  let target := sourceTarget target
  match link with
  | none => ipAny target.family
  | some link =>
    (link.addresses.foldl
      (fun (best : IpAddress × Nat) a => if sourceScore link target a > best.2
        then (a.address, sourceScore link target a) else best)
      (ipAny target.family, 0)).1

variable (n : Topology)

def routeSource (link : Option Interface) (route : Option RouteEntry) (target : IpAddress) : IpAddress :=
  match route with
  | none => interfaceSource link target
  | some route =>
    if ¬ ipUnspecified route.source ∧ n.links.any (interfaceHas · route.source) then route.source
    else interfaceSource link target

def connectedRoute (link : Interface) (a : Assignment) : RouteEntry :=
  { destination := ipNetwork (addressDestination a) a.length
    gateway := ipAny a.address.family
    length := a.length
    interface := link.index
    source := if ipUnspecified a.peer then ipAny a.address.family else a.address
    metric := if a.routeMetric ≠ 0 then a.routeMetric else if a.address.family = AF_INET6 then 256 else 0
    protocol := RTPROT_KERNEL
    scope := RT_SCOPE_LINK }

structure Choice where
  best : Option Interface
  selected : RouteEntry
  length : Nat
  metric : UInt32

def Choice.empty (family : UInt32) : Choice where
  best := none
  selected := { destination := ipAny family, gateway := ipAny family }
  length := 0
  metric := 0xffffffff

/-- Whether a link may carry the destination at all. -/
def carries (l : Interface) (ip : IpAddress) (output : UInt32) : Bool :=
  has l.flags IFF_UP && (output == 0 || output == l.index) && (!ipIsLoopback ip || l.kind == .loopback)

variable (ip : IpAddress)

def considerAddress (table : UInt32) (l : Interface) (choice : Choice) (a : Assignment) : Choice :=
  if a.address.family ≠ ip.family ∨ ¬ usable a then choice
  else
    let own := ipEqual a.address ip || l.kind == .loopback && ip.family == AF_INET && ipIsLoopback ip
    if table = RT_TABLE_LOCAL ∧ ¬ own then choice
    else
      let own := own && table != RT_TABLE_MAIN
      let bits := if own then ipSize ip.family * 8 else a.length
      if (own ∨ ¬ has a.flags IFA_F_NOPREFIXROUTE) ∧ (own ∨ ipPrefix (addressDestination a) ip bits) ∧
          (choice.best.isNone ∨ bits > choice.length) then
        let route := connectedRoute l a
        { best := some l
          length := bits
          metric := route.metric
          selected := if own then { route with destination := ip, length := bits, table := RT_TABLE_LOCAL } else route }
      else choice

/-- The order of route preferences: high, medium, low. -/
def preferenceRank (preference : UInt8) : Nat := if preference = 1 then 2 else if preference = 3 then 0 else 1

def considerRoute (output table : UInt32) (choice : Choice) (r : RouteEntry) : Choice :=
  if r.tableId ≠ table then choice
  else if ¬ ipPrefix ip r.destination r.length ∨ choice.best.isSome ∧ (r.length < choice.length ∨
      r.length = choice.length ∧ (r.metric > choice.metric ∨ r.metric = choice.metric ∧
        preferenceRank r.preference ≤ preferenceRank choice.selected.preference)) then choice
  else match interfaceFind n.links r.interface none with
    | none => choice
    | some l =>
      if ¬ carries l ip output ∨ ip.family = AF_INET6 ∧ l.ipv6.disabled ≠ 0 ∨
        ipUnspecified (routeSource n (some l) (some r) ip) then choice
      else { best := some l, selected := r, length := r.length, metric := r.metric }

/-- A multicast destination without a route leaves by a link of the namespace. -/
def multicastLink (output : UInt32) : Option Interface :=
  n.links.find? fun l => has l.flags IFF_UP && (if output ≠ 0 then output == l.index else l.kind != .loopback) &&
    !(ip.family == AF_INET6 && l.ipv6.disabled != 0) && !ipUnspecified (interfaceSource (some l) ip)

def multicastRoute (l : Interface) : RouteEntry :=
  let length := if ip.family = AF_INET6 then 8 else 4
  { destination := ipNetwork ip length, length := length, gateway := ipAny ip.family, interface := l.index
    scope := RT_SCOPE_LINK, protocol := RTPROT_KERNEL, metric := 256 }

def routeTable (output table : UInt32) : Option Interface × RouteEntry :=
  let connected := if table = RT_TABLE_LOCAL ∨ table = RT_TABLE_MAIN then
      n.links.foldl (fun choice l => if carries l ip output then l.addresses.foldl (considerAddress ip table l) choice
        else choice) (Choice.empty ip.family)
    else Choice.empty ip.family
  let choice := n.routes.foldl (considerRoute n ip output table) connected
  let found : Option Interface × RouteEntry :=
    if table = RT_TABLE_MAIN ∧ choice.best.isNone ∧ ipMulticast ip ∧ (output ≠ 0 ∨ ip.family = AF_INET6) then
      match multicastLink n ip output with
      | some l => (some l, multicastRoute ip l)
      | none => (none, choice.selected)
    else (choice.best, choice.selected)
  if ipUnspecified found.2.source then found
  else (found.1, { found.2 with source := routeSource n found.1 (some found.2) ip })

def FIB_RULE_INVERT : UInt32 := 2
def FR_ACT_TO_TBL : UInt32 := 1
def FR_ACT_BLACKHOLE : UInt32 := 6
def FR_ACT_UNREACHABLE : UInt32 := 7
def FR_ACT_PROHIBIT : UInt32 := 8

def ruleMatches (source destination : IpAddress) (mark : UInt32) (r : Rule) : Bool :=
  let hits := (r.sourceLength == 0 || ipPrefix source r.source r.sourceLength) &&
    ipPrefix destination r.destination r.destinationLength && !has (mark ^^^ r.mark) r.mask
  hits != has r.flags FIB_RULE_INVERT

/-- The decision of the rules for a packet: a route, or the error of the rule that ends the search. -/
def policyRoute (n : Topology) (source destination : IpAddress) (mark output : UInt32) :
    List Rule → Except Errno (Interface × RouteEntry)
  | [] => .error .ENETUNREACH
  | r :: rules =>
    if r.destination.family ≠ destination.family ∨ ¬ ruleMatches source destination mark r then
      policyRoute n source destination mark output rules
    else if r.action ≠ FR_ACT_TO_TBL then
      .error (if r.action = FR_ACT_PROHIBIT then .EACCES else if r.action = FR_ACT_BLACKHOLE then .EINVAL
        else .ENETUNREACH)
    else match routeTable n destination output r.table with
      | (some link, route) => .ok (link, route)
      | (none, _) => policyRoute n source destination mark output rules

def routeLookup (output : UInt32) : Option (Interface × RouteEntry) :=
  (policyRoute n (ipAny ip.family) ip 0 output n.rules).toOption

/-- The broadcast domain of a link; 0 for a loopback link. -/
def linkDomain (f : Fabric) (link : Interface) : UInt32 :=
  if link.kind = .loopback then 0
  else if link.master ≠ 0 then link.master
  else match (interfaceOwner f link.peer).bind fun id => interfaceFind (f.space id).links link.peer none with
    | none => link.index
    | some peer => if peer.master ≠ 0 then peer.master else if peer.index < link.index then peer.index else link.index

/-- Whether another link of the domain answers for an address. -/
def addressDuplicate (f : Fabric) (id : SpaceId) (position : Nat) (ip : IpAddress) : Bool :=
  match (f.space id).links[position]? with
  | none => false
  | some link =>
    let domain := linkDomain f link
    domain != 0 && f.spaces.any fun space =>
      (f.space space).links.zipIdx.any fun other =>
        !(space == id && other.2 == position) && has other.1.flags IFF_UP && interfaceHas other.1 ip &&
          linkDomain f other.1 == domain

end

open List Option UInt32

/-- A link and a route that may be taken over it. -/
abbrev Candidate := Interface × RouteEntry

/-- Longer prefixes are better, then smaller metrics, then higher preferences. -/
def Candidate.merit (c : Candidate) : ℕ ×ₗ ℕᵒᵈ ×ₗ ℕ :=
  toLex (c.2.length, toLex (OrderDual.toDual c.2.metric.toNat, preferenceRank c.2.preference))

/-- The arguments of `md_network_route_table`. -/
structure Query where
  n : Topology
  ip : IpAddress
  output : UInt32
  table : UInt32

namespace Query

section

variable (q : Query)

/-- The connected route of an address that the table has for the destination: to the address itself in the
local table, to its network in the main one. -/
def connectedTo (l : Interface) (a : Assignment) : Option RouteEntry :=
  if a.address.family ≠ q.ip.family ∨ ¬ usable a then none
  else if q.table = RT_TABLE_LOCAL then
    if ipEqual a.address q.ip ∨ l.kind = .loopback ∧ q.ip.family = AF_INET ∧ ipIsLoopback q.ip then
      some { connectedRoute l a with destination := q.ip, length := ipSize q.ip.family * 8, table := RT_TABLE_LOCAL }
    else none
  else if q.table = RT_TABLE_MAIN ∧ ¬ has a.flags IFA_F_NOPREFIXROUTE ∧
    ipPrefix (addressDestination a) q.ip a.length then
    some (connectedRoute l a)
  else none

def connected : List Candidate :=
  q.n.links.flatMap fun l => if carries l q.ip q.output
    then l.addresses.filterMap fun a => (q.connectedTo l a).map (l, ·) else []

/-- A route of the table that has the destination, if its link is up and usable. -/
def routedTo (r : RouteEntry) : Option Candidate :=
  if r.tableId ≠ q.table ∨ ¬ ipPrefix q.ip r.destination r.length then none
  else match interfaceFind q.n.links r.interface none with
    | none => none
    | some l =>
      if ¬ carries l q.ip q.output ∨ q.ip.family = AF_INET6 ∧ l.ipv6.disabled ≠ 0 ∨
          ipUnspecified (routeSource q.n (some l) (some r) q.ip) then none
      else some (l, r)

def candidates : List Candidate := q.connected ++ q.n.routes.filterMap q.routedTo

/-- A candidate is what the lookup returns; the source of its route may be another. -/
def Selects (c : Candidate) : Prop :=
  let result := routeTable q.n q.ip q.output q.table
  result.1 = some c.1 ∧ { result.2 with source := c.2.source } = c.2

instance (c : Candidate) : Decidable (q.Selects c) := inferInstanceAs (Decidable (_ ∧ _))

/-- The connected prefix that the first scan leaves: the first of the longest. -/
def longest : Option Candidate := argmax (fun c : Candidate => c.2.length) q.connected

/-- The state of the scans with a candidate. -/
def choice : Option Candidate → Choice
  | none => .empty q.ip.family
  | some c => { best := some c.1, selected := c.2, length := c.2.length, metric := c.2.metric }

end

variable {q : Query}

theorem merit_le {c d : Candidate} : c.merit ≤ d.merit ↔ c.2.length < d.2.length ∨ c.2.length = d.2.length ∧
    (c.2.metric > d.2.metric ∨ c.2.metric = d.2.metric ∧
      preferenceRank c.2.preference ≤ preferenceRank d.2.preference) := by
  simp only [Candidate.merit, Prod.Lex.toLex_le_toLex, OrderDual.toDual_lt_toDual, OrderDual.toDual_inj,
    UInt32.toNat_inj, gt_iff_lt,
    lt_iff_toNat_lt]

theorem considerAddress_choice (known : q.table = RT_TABLE_LOCAL ∨ q.table = RT_TABLE_MAIN) (l : Interface)
    (o : Option Candidate) (a : Assignment) : considerAddress q.ip q.table l (q.choice o) a =
      q.choice (((q.connectedTo l a).map (l, ·)).toList.foldl (argAux fun b c => c.2.length < b.2.length) o) := by
  have differ : RT_TABLE_MAIN ≠ RT_TABLE_LOCAL := by decide
  have takes : ∀ r : RouteEntry, q.choice (argAux (fun b c : Candidate => c.2.length < b.2.length) o (l, r)) =
      if (q.choice o).best.isNone ∨ r.length > (q.choice o).length then q.choice (some (l, r)) else q.choice o := by
    intro r
    cases o with
    | none => rfl
    | some d => by_cases longer : d.2.length < r.length <;> simp [argAux, choice, longer]
  unfold considerAddress connectedTo
  by_cases unfit : a.address.family ≠ q.ip.family ∨ ¬ usable a
  · rw [if_pos unfit, if_pos unfit]
    rfl
  rw [if_neg unfit, if_neg unfit]
  rcases known with isLocal | isMain
  · by_cases own : ipEqual a.address q.ip ∨ l.kind = .loopback ∧ q.ip.family = AF_INET ∧ ipIsLoopback q.ip
    · simp [isLocal, own, and_assoc, differ.symm, takes]
      rfl
    · simp [isLocal, own, and_assoc]
  · by_cases there : has a.flags IFA_F_NOPREFIXROUTE = false ∧ ipPrefix (addressDestination a) q.ip a.length
    · simp [isMain, there, differ, takes]
      rfl
    · simp [isMain, differ, ← and_assoc, there]

theorem considerRoute_choice (o : Option Candidate) (r : RouteEntry) :
    considerRoute q.n q.ip q.output q.table (q.choice o) r =
      q.choice ((q.routedTo r).toList.foldl (argAux fun b c => c.merit < b.merit) o) := by
  unfold considerRoute routedTo
  by_cases there : r.tableId = q.table
  case neg =>
    rw [if_pos there, if_pos (.inl there)]
    rfl
  by_cases inside : ipPrefix q.ip r.destination r.length
  case neg =>
    rw [if_neg (not_not.mpr there), if_pos (.inl inside), if_pos (.inr inside)]
    rfl
  rw [if_neg (not_not.mpr there), if_neg (show ¬ (r.tableId ≠ q.table ∨ _) by simp [there, inside])]
  cases interfaceFind q.n.links r.interface none with
  | none => simp
  | some l =>
    cases o with
    | none =>
      simp only [choice, Choice.empty, inside, not_true_eq_false, isSome_none, Bool.false_eq_true, false_and,
        or_false, if_false]
      split <;> rfl
    | some d =>
      have worse := merit_le (c := (l, r)) (d := d)
      simp only [choice, inside, isSome_some, true_and, not_true_eq_false, false_or, ← worse]
      split_ifs with less unfit
      · rfl
      · simp [argAux, less.not_gt]
      · rfl
      · simp [argAux, not_le.mp less]

/-- The second scan takes the best of the routes and of what the first one leaves. -/
theorem selects_argmax {c : Candidate}
    (best : c ∈ argmax Candidate.merit (q.longest.toList ++ q.n.routes.filterMap q.routedTo)) :
    q.Selects c := by
  have start : argmax Candidate.merit (q.longest.toList ++ q.n.routes.filterMap q.routedTo) =
      (q.n.routes.filterMap q.routedTo).foldl (argAux fun b c => c.merit < b.merit) q.longest := by
    cases q.longest <;> rfl
  rw [start, filterMap_eq_flatMap_toList, foldl_flatMap] at best
  unfold Selects routeTable
  dsimp only
  generalize first : (if q.table = RT_TABLE_LOCAL ∨ q.table = RT_TABLE_MAIN then _ else _) = connected
  have scanned : connected = q.choice q.longest := by
    rw [← first]
    unfold longest argmax Query.connected
    rw [foldl_flatMap]
    split
    next known =>
      change foldl _ (q.choice none) _ = _
      refine foldl_hom q.choice fun o l => ?_
      split
      · rw [filterMap_eq_flatMap_toList, foldl_flatMap]
        exact foldl_hom q.choice (considerAddress_choice known l)
      · rfl
    next unknown =>
      obtain ⟨notLocal, notMain⟩ := not_or.mp unknown
      simp [connectedTo, notLocal, notMain, choice]
  rw [scanned, foldl_hom q.choice considerRoute_choice, mem_def.mp best]
  simp only [choice, isNone_some, Bool.false_eq_true, false_and, and_false, if_false]
  split
  · exact ⟨rfl, rfl⟩
  · exact ⟨rfl, rfl⟩

/-- What is returned is one candidate, up to its source. -/
theorem Selects.merit_eq {c d : Candidate} (one : q.Selects c) (other : q.Selects d) : c.merit = d.merit := by
  rw [Candidate.merit, Candidate.merit, ← one.2, ← other.2]

/-- No candidate is better. -/
def Best (q : Query) (c : Candidate) : Prop := ∀ d ∈ q.candidates, d.merit ≤ c.merit

instance (q : Query) (c : Candidate) : Decidable (q.Best c) := inferInstanceAs (Decidable (∀ d ∈ q.candidates, _))

/-- A best candidate is returned exactly if one of the best is a configured route, or the first connected prefix
of its length. -/
theorem routeTable_best (q : Query) : (∃ c ∈ q.candidates, q.Best c ∧ q.Selects c) ↔
    ∃ c ∈ q.candidates, q.Best c ∧ (c ∈ q.n.routes.filterMap q.routedTo ∨
      q.connected.find? (fun d => d.2.length = c.2.length) = some c) := by
  by_cases eligible : q.candidates = []
  · simp [eligible]
  obtain ⟨m, best⟩ : ∃ m, m ∈ argmax Candidate.merit (q.longest.toList ++ q.n.routes.filterMap q.routedTo) := by
    refine ne_none_iff_exists'.mp fun none => eligible ?_
    obtain ⟨first, routes⟩ := append_eq_nil_iff.mp (argmax_eq_none.mp none)
    rw [candidates, routes, append_nil]
    exact argmax_eq_none.mp (toList_eq_nil_iff.mp first)
  have mem : m ∈ q.candidates := by
    rcases mem_append.mp (argmax_mem best) with here | here
    · exact mem_append_left _ (argmax_mem (mem_toList.mp here))
    · exact mem_append_right _ here
  constructor
  · rintro ⟨c, -, isBest, selected⟩
    refine ⟨m, mem, fun d isIn => (isBest d isIn).trans (selected.merit_eq (selects_argmax best)).le, ?_⟩
    rcases mem_append.mp (argmax_mem best) with here | here
    · exact .inr (find?_argmax (mem_toList.mp here))
    · exact .inl here
  · rintro ⟨c, isIn, isBest, stands⟩
    refine ⟨m, mem, fun d other => (isBest d other).trans (le_of_mem_argmax ?_ best), selects_argmax best⟩
    rcases stands with route | first
    · exact mem_append_right _ route
    -- of the longest connected prefixes the first scan leaves the first, and a best candidate is as long
    cases left : q.longest with
    | none =>
      rw [argmax_eq_none.mp left] at first
      cases first
    | some e =>
      have shorter : e.2.length ≤ c.2.length := by
        have less := merit_le.mp (isBest e (mem_append_left _ (argmax_mem left)))
        omega
      have longer : c.2.length ≤ e.2.length :=
        le_of_mem_argmax (f := fun c : Candidate => c.2.length) (mem_of_find?_eq_some first) left
      have same := find?_argmax left
      rw [shorter.antisymm longer, first] at same
      rw [some.inj same]
      exact mem_append_left _ (mem_singleton_self e)

/-- A link that is up, with an address of 10.0.0.0/24. -/
def hostLink (index metric : UInt32) (host : UInt8) : Interface :=
  { kind := .veth, index, name := [host], flags := IFF_UP, mtu := 1500, txQueueLength := 0, address := []
    addresses := [{ address := ipOf AF_INET [10, 0, 0, host], length := 24, routeMetric := metric }] }

/-- Two links to one network. -/
def twoLinks (first second : UInt32) : Query where
  n :=
    { links := [hostLink 2 first 1, hostLink 3 second 2], routes := [], nexthops := [], rules := [], neighbors := [] }
  ip := ipOf AF_INET [10, 0, 0, 9]
  output := 0
  table := RT_TABLE_MAIN

/-- The second link has the better metric, but the configured route is longer than both prefixes. -/
theorem routeTable_best_twoLinks :
    let host : RouteEntry :=
      { destination := ipOf AF_INET [10, 0, 0, 9], gateway := default, length := 32, interface := 3 }
    let q := { twoLinks 100 10 with n.routes := [host] }
    ∃ c ∈ q.candidates, q.Best c ∧ q.Selects c :=
  (routeTable_best _).mpr (by decide +kernel)

/-- The metrics of connected prefixes of one length are not compared. -/
theorem metric_ignored : (twoLinks 100 10).candidates ≠ [] ∧
    ¬ ∃ c ∈ (twoLinks 100 10).candidates, (twoLinks 100 10).Best c ∧ (twoLinks 100 10).Selects c := by
  decide +kernel

end Query

end Shroot.Network
