import Shroot.Network.LinkRequest

namespace Shroot.Network

open General List MonadExcept

section

/-- What a request asks of its surroundings: the clock, by reading; the timer of the fabric; the
random words of a template, by attempt; whether a neighbour table can be allocated; and what the
first free slot of the nexthop array still holds. -/
structure Surroundings where
  now : Nat → Int
  timer : Except Errno Unit
  random : Nat → Nat → Except Errno UInt64
  allocates : Bool
  staleNexthop : Nexthop

def limit (a b : Int) : Int := if a = 0 ∨ b ≠ 0 ∧ b < a then b else a

def isTemplate (a : Assignment) : Bool :=
  a.address.family == AF_INET6 && a.length == 64 && has a.flags IFA_F_MANAGETEMPADDR &&
    !has a.flags (IFA_F_TEMPORARY ||| IFA_F_TENTATIVE ||| IFA_F_DADFAILED)

def templateOf (addresses : List Assignment) (a : Assignment) : Option Assignment :=
  addresses.find? fun p => isTemplate p && p.address.bytes == a.temporaryParent

/-- The deadlines of a temporary address follow its template. -/
def retime (template : Option Assignment) (now : Int) (a : Assignment) : Assignment :=
  let timed := match template with
    | none => { a with validUntil := now }
    | some p =>
      let valid := limit a.temporaryValid p.validUntil
      let preferred := limit (limit a.temporaryPreferred p.preferredUntil) valid
      { a with
        validUntil := valid
        preferredUntil := preferred
        regenerateAt := if a.regenerateAt ≠ 0 then preferred - 5000 else 0 }
  if timed.regenerateAt ≤ now then { timed with regenerateAt := 0 } else timed

def markDeprecated (now : Int) (a : Assignment) : Assignment :=
  if a.preferredUntil ≠ 0 ∧ a.preferredUntil ≤ now then { a with flags := a.flags ||| IFA_F_DEPRECATED }
  else { a with flags := a.flags &&& ~~~ IFA_F_DEPRECATED }

/-- Pass over the addresses of a link: expired ones go, the others are timed and marked anew. -/
def refreshAddresses (now : Int) (done : List Assignment) : List Assignment → List Assignment
  | [] => done
  | a :: rest =>
    let timed := if a.address.family = AF_INET6 ∧ has a.flags IFA_F_TEMPORARY
      then retime (templateOf (done ++ a :: rest) a) now a else a
    if timed.validUntil ≠ 0 ∧ timed.validUntil ≤ now then refreshAddresses now done rest
    else refreshAddresses now (done ++ [markDeprecated now timed]) rest

variable (p : Assignment)

/-- A random address under a template; the universal bit is cleared. -/
def temporaryAddress (word : UInt64) : IpAddress :=
  let low := littleEndian 8 word.toNat
  ipOf p.address.family (p.address.bytes.take 8 ++ low.modify 0 (· &&& 0xfd))

def temporaryAssignment (now : Int) (word : UInt64) : Assignment :=
  let valid := now + 172800000
  let preferred := now + 86400000 - (word.toNat % 601 : Int) * 1000
  let validUntil := limit valid p.validUntil
  let preferredUntil := limit (limit preferred p.preferredUntil) validUntil
  { address := temporaryAddress p word, length := 64, scope := p.scope
    flags := IFA_F_TEMPORARY ||| IFA_F_NOPREFIXROUTE, temporaryParent := p.address.bytes
    temporaryValid := valid, temporaryPreferred := preferred
    validUntil := validUntil, preferredUntil := preferredUntil, regenerateAt := preferredUntil - 5000 }

/-- Up to five tries for an address that nobody has. -/
def chooseTemporary (taken : IpAddress → Bool) (p : Assignment) (now : Int) (random : Nat → Except Errno UInt64) :
    List Nat → Except Errno Assignment
  | [] => .error .EADDRNOTAVAIL
  | attempt :: more => do
    let word ← random attempt
    if taken (temporaryAddress p word) then chooseTemporary taken p now random more
    else return temporaryAssignment p now word

def createTemporary (taken : Interface → IpAddress → Bool) (p : Assignment) (now : Int)
    (random : Nat → Except Errno UInt64) : EStateM Errno Interface Unit := do
  let link ← get
  rejectIf (link.addresses.length = maxAddresses) .ENOSPC
  let a ← ofExcept
    (chooseTemporary (fun ip => interfaceHas link ip || taken link ip) p now random (range 5))
  set { link with addresses := link.addresses ++ [a] }

/-- The temporary addresses of a template that are past their regeneration no longer count. -/
def retireTemporary (now : Int) (a : Assignment) : Assignment :=
  if has a.flags IFA_F_TEMPORARY ∧ a.temporaryParent = p.address.bytes ∧ a.regenerateAt ≤ now
  then { a with regenerateAt := 0 } else a

def activeTemporary (now : Int) (a : Assignment) : Bool :=
  has a.flags IFA_F_TEMPORARY && a.temporaryParent == p.address.bytes && decide (a.regenerateAt > now)

variable (around : Surroundings)

def refreshTemplate (taken : Interface → IpAddress → Bool) (now : Int) (i : Nat) : EStateM Errno Interface Unit := do
  let link ← get
  match link.addresses[i]? with
  | none => pure ()
  | some p =>
    if ¬ isTemplate p ∨ p.preferredUntil ≠ 0 ∧ p.preferredUntil ≤ now + 5000 ∨ p.validUntil ≠ 0 ∧
      p.validUntil ≤ now + 5000 then pure ()
    else
      set { link with addresses := link.addresses.map (retireTemporary p now) }
      if link.addresses.any (activeTemporary p now) then pure ()
      else
        ofExcept around.timer
        createTemporary taken p now (around.random i)

def addressRefresh (taken : Interface → IpAddress → Bool) (now : Int) : EStateM Errno Interface Unit := do
  modify fun link => { link with addresses := refreshAddresses now [] link.addresses }
  let link ← get
  if link.ipv6.useTempaddr = 0 ∨ link.ipv6.disabled ≠ 0 ∨ ¬ has link.flags IFF_UP then pure ()
  else (range maxAddresses).forM (refreshTemplate around taken now)

/-- Run a computation on one link of a namespace; what it did stays when it fails. -/
def onLink (position : Nat) (link : Interface) (action : EStateM Errno Interface Unit) : EStateM Errno Namespace Unit :=
  fun n => match action.run link with
    | .ok _ after => .ok () { n with links := n.links.set position after }
    | .error error after => .error error { n with links := n.links.set position after }

def IFA_ADDRESS : Nat := 1
def IFA_LOCAL : Nat := 2
def IFA_LABEL : Nat := 3
def IFA_BROADCAST : Nat := 4
def IFA_CACHEINFO : Nat := 6
def IFA_FLAGS : Nat := 8
def IFA_RT_PRIORITY : Nat := 9
def IFA_MAX : Nat := 11

def ifaddrmsgSize : Nat := 8

def familySupported (family : UInt32) : Bool := family == AF_INET || family == AF_INET6

def readIp (data : Bytes) (family : UInt32) : Except Errno IpAddress :=
  if data.length ≠ ipSize family then .error .EINVAL else .ok (ipLoad family data)

structure AddressParse where
  flags : UInt32
  routeMetric : UInt32 := 0
  ownAddress : IpAddress
  peer : IpAddress
  preferred : UInt32 := 0xffffffff
  valid : UInt32 := 0xffffffff
  seen : List Nat := []

def addressAttribute (family : UInt32) (link : Interface) (p : AddressParse) (a : Attribute) :
    Except Errno AddressParse := do
  failIf (a.type = 0 ∨ a.type > IFA_MAX) .EOPNOTSUPP
  failIf (a.type ∈ p.seen) .EINVAL
  let p := { p with seen := a.type :: p.seen }
  if a.type = IFA_LOCAL then
    let ip ← readIp a.data family
    return { p with ownAddress := ip }
  else if a.type = IFA_ADDRESS then
    let ip ← readIp a.data family
    return { p with peer := ip }
  else if a.type = IFA_FLAGS then
    let value ← number a.data
    return { p with flags := value }
  else if a.type = IFA_RT_PRIORITY then
    let value ← number a.data
    return { p with routeMetric := value }
  else if a.type = IFA_LABEL then
    failIf (a.data ≠ link.name ++ [0]) .EOPNOTSUPP
    return p
  else if a.type = IFA_BROADCAST ∧ family = AF_INET then
    let _ ← readIp a.data AF_INET
    return p
  else if a.type = IFA_CACHEINFO then
    failIf (a.data.length ≠ 16) .EINVAL
    let preferred := field a.data 0 4
    let valid := field a.data 4 4
    failIf (valid = 0 ∨ preferred > valid) .EINVAL
    return { p with preferred := preferred, valid := valid }
  else throw .EOPNOTSUPP

def lifetimeDeadline (seconds : UInt32) (now : Int) : Int :=
  if seconds = 0xffffffff then 0 else now + seconds.toNat * 1000

/-- The assignment a request describes. -/
def assignmentOf (body : Bytes) (p : AddressParse) : Except Errno Assignment := do
  let both := !ipUnspecified p.ownAddress && !ipUnspecified p.peer && !ipEqual p.ownAddress p.peer
  failIf (both ∧ ipMulticast p.peer) .EINVAL
  let allowed := IFA_F_PERMANENT ||| IFA_F_NODAD ||| IFA_F_NOPREFIXROUTE ||| IFA_F_MANAGETEMPADDR
  failIf (has p.flags (~~~ allowed)) .EOPNOTSUPP
  return { address := if ipUnspecified p.ownAddress then p.peer else p.ownAddress
           peer := if both then p.peer else default
           length := (field body 1 1).toNat
           scope := field body 3 1
           flags := p.flags ||| IFA_F_PERMANENT
           routeMetric := p.routeMetric }

/-- The deadlines of a new address; a finite one needs the timer. -/
def timedAssignment (type : Nat) (p : AddressParse) (a : Assignment) : Except Errno Assignment :=
  if type = RTM_NEWADDR ∧ (p.preferred ≠ 0xffffffff ∨ p.valid ≠ 0xffffffff) then do
    around.timer
    let flags := if p.valid ≠ 0xffffffff then a.flags &&& ~~~ IFA_F_PERMANENT else a.flags
    return { a with
      preferredUntil := lifetimeDeadline p.preferred (around.now 0)
      validUntil := lifetimeDeadline p.valid (around.now 0)
      flags := if p.preferred = 0 then flags ||| IFA_F_DEPRECATED else flags }
  else .ok a

/-- Whether duplicate detection applies to a new address and finds one. -/
def detectsDuplicate (all6 : Ipv6Policy) (link : Interface) (type : Nat) (taken : IpAddress → Bool) (a : Assignment) :
    Bool :=
  type == RTM_NEWADDR && a.address.family == AF_INET6 && !has a.flags IFA_F_NODAD &&
    (link.ipv6.acceptDad != 0 || all6.acceptDad != 0) && taken a.address

/-- `md_network_addresses` for the two requests that change something. -/
def networkAddresses (f : Fabric) (id : SpaceId) (m : Message) : EStateM Errno Namespace Unit := do
  let n ← get
  rejectIf (m.body.length < ifaddrmsgSize) .EINVAL
  let family := field m.body 0 1
  rejectIf (family ≠ AF_UNSPEC ∧ ¬ familySupported family) .EAFNOSUPPORT
  rejectIf (¬ familySupported family ∨ (field m.body 1 1).toNat > ipSize family * 8) .EINVAL
  match findLink n.links (field m.body 4 4) none with
  | none => throw .ENODEV
  | some position =>
    match n.links[position]? with
    | none => throw .ENODEV
    | some link =>
      rejectIf (family = AF_INET6 ∧ (link.ipv6.disabled ≠ 0 ∨ link.mtu < 1280)) .EACCES
      let start : AddressParse :=
        { flags := field m.body 2 1 ||| IFA_F_PERMANENT, ownAddress := ipAny family, peer := ipAny family }
      let p ← ofExcept (eachAttribute (addressAttribute family link) start (m.body.drop ifaddrmsgSize))
      let a ← ofExcept (assignmentOf m.body p)
      let a ← ofExcept (timedAssignment around m.type p a)
      rejectIf (a.scope ≠ RT_SCOPE_UNIVERSE ∧ a.scope ≠ RT_SCOPE_LINK ∧ a.scope ≠ RT_SCOPE_HOST) .EINVAL
      rejectIf (ipMulticast a.address) .EINVAL
      let duplicate := detectsDuplicate n.all6 link m.type (addressDuplicate (f.put id n) id position) a
      if duplicate ∧ (link.ipv6.acceptDad = 2 ∨ n.all6.acceptDad = 2) ∧ ipLinklocal a.address then
        -- a link whose own address is taken loses IPv6
        set (interfaceIpv6Flush
          { n with links := n.links.set position { link with ipv6 := { link.ipv6 with disabled := 1 } } } position)
      else
        let a := if duplicate then { a with flags := a.flags ||| IFA_F_DADFAILED } else a
        let changed ← ofExcept (interfaceAddress link a (m.type == RTM_DELADDR) (has m.flags NLM_F_EXCL))
        let taken (link : Interface) (ip : IpAddress) : Bool :=
          addressDuplicate (f.put id { n with links := n.links.set position link }) id position ip
        onLink position changed (addressRefresh around taken (around.now 1))

end

section

def RTNH_F_ONLINK : UInt32 := 4

def RTAX_MTU : Nat := 2
def RTAX_HOPLIMIT : Nat := 10
def RTAX_QUICKACK : Nat := 15

def metricBit (type : Nat) : UInt32 := 1 <<< UInt32.ofNat type

def metricAttribute (family : UInt32) (m : RouteMetrics) (a : Attribute) : Except Errno RouteMetrics := do
  failIf (a.type ≠ RTAX_MTU ∧ a.type ≠ RTAX_HOPLIMIT ∧ a.type ≠ RTAX_QUICKACK) .EOPNOTSUPP
  failIf (has m.present (metricBit a.type)) .EINVAL
  let value ← number a.data
  let present := m.present ||| metricBit a.type
  if a.type = RTAX_MTU then
    failIf (family ≠ AF_INET6 ∧ value ≠ 0) .EOPNOTSUPP
    failIf (value ≠ 0 ∧ (value < 1280 ∨ value > 65535)) .EINVAL
    return { m with mtu := value, present := present }
  else if a.type = RTAX_HOPLIMIT then
    failIf (family ≠ AF_INET6 ∧ value ≠ 0) .EOPNOTSUPP
    failIf (value > 255) .EINVAL
    return { m with hops := value, present := present }
  else
    failIf (value ≠ 0) .EOPNOTSUPP
    return { m with present := present }

def RTA_DST : Nat := 1
def RTA_OIF : Nat := 4
def RTA_GATEWAY : Nat := 5
def RTA_PRIORITY : Nat := 6
def RTA_PREFSRC : Nat := 7
def RTA_METRICS : Nat := 8
def RTA_TABLE : Nat := 15
def RTA_PREF : Nat := 20
def RTA_EXPIRES : Nat := 23
def RTA_NH_ID : Nat := 30
def RTA_MAX : Nat := 30

def RTN_UNSPEC : UInt32 := 0
def RTN_UNICAST : UInt32 := 1

def rtmsgSize : Nat := 12

structure RouteParse where
  value : RouteEntry
  table : UInt32
  seen : List Nat := []

/-- One attribute of a request to make or remove a route. -/
def routeAttribute (now : Int) (family : UInt32) (p : RouteParse) (a : Attribute) : Except Errno RouteParse := do
  failIf (a.type = 0 ∨ a.type > RTA_MAX) .EOPNOTSUPP
  failIf (a.type ∈ p.seen) .EINVAL
  let p := { p with seen := a.type :: p.seen }
  if a.type = RTA_DST then
    let ip ← readIp a.data family
    return { p with value := { p.value with destination := ip } }
  else if a.type = RTA_GATEWAY then
    let ip ← readIp a.data family
    return { p with value := { p.value with gateway := ip } }
  else if a.type = RTA_PREFSRC then
    let ip ← readIp a.data family
    return { p with value := { p.value with source := ip } }
  else if a.type = RTA_OIF then
    let value ← number a.data
    return { p with value := { p.value with interface := value } }
  else if a.type = RTA_PRIORITY then
    let value ← number a.data
    return { p with value := { p.value with metric := value } }
  else if a.type = RTA_TABLE then
    let value ← number a.data
    return { p with table := value }
  else if a.type = RTA_NH_ID then
    let value ← number a.data
    return { p with value := { p.value with nexthop := value } }
  else if a.type = RTA_METRICS then
    let metrics ← eachAttribute (metricAttribute family) p.value.metrics a.data
    return { p with value := { p.value with metrics := metrics } }
  else if a.type = RTA_PREF then
    failIf (family ≠ AF_INET6 ∨ a.data.length ≠ 1) .EINVAL
    let preference := a.data.headD 0
    failIf (preference ≠ 0 ∧ preference ≠ 1 ∧ preference ≠ 3) .EINVAL
    return { p with value := { p.value with preference := preference } }
  else if a.type = RTA_EXPIRES then
    let expires ← number a.data
    return { p with value := { p.value with validUntil := lifetimeDeadline expires now } }
  else throw .EOPNOTSUPP

variable (around : Surroundings) (m : Message)

/-- The route a request describes, before its next hop is looked up. -/
def parseRoute : Except Errno RouteParse := do
  failIf (m.body.length < rtmsgSize) .EINVAL
  let family := field m.body 0 1
  failIf (family ≠ AF_UNSPEC ∧ ¬ familySupported family) .EAFNOSUPPORT
  failIf (¬ familySupported family) .EINVAL
  failIf (field m.body 2 1 ≠ 0 ∨ field m.body 3 1 ≠ 0 ∨ has (field m.body 8 4) (~~~ RTNH_F_ONLINK)) .EOPNOTSUPP
  failIf ((field m.body 1 1).toNat > ipSize family * 8) .EINVAL
  let type := field m.body 7 1
  failIf (type ≠ RTN_UNICAST ∧ ¬ (m.type = RTM_DELROUTE ∧ type = RTN_UNSPEC)) .EOPNOTSUPP
  let start : RouteEntry :=
    { destination := ipAny family, gateway := ipAny family, length := (field m.body 1 1).toNat
      protocol := field m.body 5 1, scope := field m.body 6 1, flags := field m.body 8 4
      metric := if family = AF_INET6 then 1024 else 0 }
  let p ← eachAttribute (routeAttribute (around.now 0) family) { value := start, table := field m.body 4 1 }
    (m.body.drop rtmsgSize)
  let value : RouteEntry := { p.value with table := if p.table ≠ 0 then p.table else RT_TABLE_MAIN }
  failIf (value.table = RT_TABLE_LOCAL) .EOPNOTSUPP
  failIf (¬ ipEqual (ipNetwork value.destination value.length) value.destination) .EINVAL
  failIf (has value.flags RTNH_F_ONLINK ∧ (value.interface = 0 ∨ ipUnspecified value.gateway)) .EINVAL
  return { p with value := value }

variable (n : Topology) (value : RouteEntry)

/-- The next hop of a route: of the object it names, or on the link its gateway is connected to. -/
def resolveNexthop : Except Errno RouteEntry := do
  if value.nexthop ≠ 0 then
    failIf (value.interface ≠ 0 ∨ ¬ ipUnspecified value.gateway ∨ value.flags ≠ 0) .EINVAL
    match n.nexthops.find? (·.id == value.nexthop) with
    | none => throw .ENOENT
    | some next =>
      failIf (next.gateway.family ≠ value.destination.family) .EINVAL
      return { value with interface := next.interface, gateway := next.gateway, flags := next.flags }
  else return value

def resolveGateway : RouteEntry :=
  if value.interface = 0 ∧ ¬ ipUnspecified value.gateway then
    match routeLookup n value.gateway 0 with
    | some (link, route) => if ipUnspecified route.gateway then { value with interface := link.index } else value
    | none => value
  else value

def deletes (seen : List Nat) (value r : RouteEntry) : Bool :=
  value.table == r.tableId && ipEqual value.destination r.destination && value.length == r.length &&
    (value.interface == 0 || value.interface == r.interface) &&
    (ipUnspecified value.gateway || ipEqual value.gateway r.gateway) &&
    (ipUnspecified value.source || ipEqual value.source r.source) &&
    (decide (RTA_PRIORITY ∉ seen) || value.metric == r.metric)

/-- Whether a new route takes the place of another. IPv6 keeps routes over different next hops apart. -/
def collides (flags : UInt32) (value r : RouteEntry) : Bool :=
  value.table == r.tableId && ipEqual value.destination r.destination && value.length == r.length &&
    value.metric == r.metric &&
    !(value.destination.family == AF_INET6 && !has flags NLM_F_REPLACE &&
      (value.interface != r.interface || value.nexthop != r.nexthop || !ipEqual value.gateway r.gateway))

def newRouteChecks : Except Errno Unit := do
  match interfaceFind n.links value.interface none with
  | none => throw .ENETUNREACH
  | some link =>
    failIf (has value.flags RTNH_F_ONLINK ∧ ¬ has link.flags IFF_UP) .ENETDOWN
    failIf (ipMulticast value.gateway) .EINVAL
    failIf (¬ ipUnspecified value.source ∧ ¬ n.links.any (interfaceHas · value.source)) .EINVAL
    failIf (¬ ipUnspecified value.gateway ∧ ipUnspecified (interfaceSource (some link) value.gateway)) .ENETUNREACH
    if value.validUntil ≠ 0 then around.timer

/-- `md_network_routes` for the two requests that change something. -/
def networkRoutes : EStateM Errno Namespace Unit := do
  let n ← get
  let p ← ofExcept (parseRoute around m)
  let value ← ofExcept (resolveNexthop n.toTopology p.value)
  let value := resolveGateway n.toTopology value
  if m.type = RTM_DELROUTE then
    match n.routes.findIdx? (deletes p.seen value) with
    | none => throw .ESRCH
    | some i => set { n with routes := n.routes.eraseIdx i }
  else
    ofExcept (newRouteChecks around n.toTopology value)
    match n.routes.findIdx? (collides m.flags value) with
    | some i =>
      rejectIf (has m.flags NLM_F_EXCL ∨ ¬ has m.flags NLM_F_REPLACE) .EEXIST
      set { n with routes := n.routes.set i value }
    | none =>
      rejectIf (¬ has m.flags NLM_F_CREATE) .ENOENT
      rejectIf (n.routes.length = maxRoutes) .ENOSPC
      set { n with routes := n.routes ++ [value] }

def NHA_ID : Nat := 1
def NHA_OIF : Nat := 5
def NHA_GATEWAY : Nat := 6

def nhmsgSize : Nat := 8

def nexthopAttribute (p : Nexthop × List Nat) (a : Attribute) : Except Errno (Nexthop × List Nat) := do
  failIf (a.type ≠ NHA_ID ∧ a.type ≠ NHA_OIF ∧ a.type ≠ NHA_GATEWAY) .EOPNOTSUPP
  failIf (a.type ∈ p.2) .EINVAL
  let seen := a.type :: p.2
  failIf (a.data.length ≠ if a.type = NHA_GATEWAY then ipSize p.1.gateway.family else 4) .EINVAL
  if a.type = NHA_GATEWAY then return ({ p.1 with gateway := ipLoad p.1.gateway.family a.data }, seen)
  else
    let value ← number a.data
    return (if a.type = NHA_ID then { p.1 with id := value } else { p.1 with interface := value }, seen)

def parseNexthop : Except Errno Nexthop := do
  failIf (m.body.length < nhmsgSize) .EINVAL
  let family := field m.body 0 1
  failIf (family ≠ AF_UNSPEC ∧ ¬ familySupported family) .EAFNOSUPPORT
  failIf (field m.body 3 1 ≠ 0 ∨ field m.body 1 1 ≠ 0 ∨ has (field m.body 4 4) (~~~ RTNH_F_ONLINK)) .EOPNOTSUPP
  let start : Nexthop :=
    { id := 0, interface := 0, flags := field m.body 4 4, protocol := field m.body 2 1, gateway := ipAny family }
  let p ← eachAttribute nexthopAttribute (start, []) (m.body.drop nhmsgSize)
  failIf (p.1.id = 0) .EINVAL
  return p.1

def newNexthopChecks (value : Nexthop) : Except Errno Unit := do
  failIf (¬ familySupported value.gateway.family) .EINVAL
  match interfaceFind n.links value.interface none with
  | none => throw .ENODEV
  | some link =>
    failIf (¬ has link.flags IFF_UP) .ENETDOWN
    failIf (value.gateway.family = AF_INET6 ∧ link.ipv6.disabled ≠ 0) .EACCES
    failIf (ipMulticast value.gateway) .EINVAL
    failIf (¬ ipUnspecified value.gateway ∧ ¬ has value.flags RTNH_F_ONLINK ∧
      ¬ (routeLookup n value.gateway value.interface).any fun found => ipUnspecified found.2.gateway) .EINVAL

/-- The routes over a nexthop follow it, one after the other, up to one of another family. -/
def redirectRoutes (value : Nexthop) : List RouteEntry → List RouteEntry × Except Errno Unit
  | [] => ([], .ok ())
  | r :: rest =>
    if r.nexthop ≠ value.id then
      let after := redirectRoutes value rest
      (r :: after.1, after.2)
    else if r.destination.family ≠ value.gateway.family then (r :: rest, .error .EINVAL)
    else
      let after := redirectRoutes value rest
      ({ r with interface := value.interface, gateway := value.gateway, flags := value.flags } :: after.1, after.2)

/-- `md_network_nexthops` for the two requests that change something. -/
def networkNexthops : EStateM Errno Namespace Unit := do
  let n ← get
  let value ← ofExcept (parseNexthop m)
  let position := n.nexthops.findIdx? (·.id == value.id)
  if m.type = RTM_DELNEXTHOP then
    match position with
    | none => throw .ENOENT
    | some i => set { n with nexthops := n.nexthops.eraseIdx i, routes := n.routes.filter (·.nexthop != value.id) }
  else
    ofExcept (newNexthopChecks n.toTopology value)
    rejectIf (position.isSome ∧ (has m.flags NLM_F_EXCL ∨ ¬ has m.flags NLM_F_REPLACE)) .EEXIST
    rejectIf (position.isNone ∧ ¬ has m.flags NLM_F_CREATE) .ENOENT
    rejectIf (position.isNone ∧ n.nexthops.length = maxRoutes) .ENOSPC
    let nexthops := if position.isNone then n.nexthops ++ [around.staleNexthop] else n.nexthops
    let redirected := redirectRoutes value n.routes
    set { n with nexthops := nexthops, routes := redirected.1 }
    ofExcept redirected.2
    set { n with nexthops := nexthops.set (position.getD n.nexthops.length) value, routes := redirected.1 }

end

def FRA_DST : Nat := 1
def FRA_SRC : Nat := 2
def FRA_PRIORITY : Nat := 6
def FRA_FWMARK : Nat := 10
def FRA_FLOW : Nat := 11
def FRA_SUPPRESS_PREFIXLEN : Nat := 14
def FRA_TABLE : Nat := 15
def FRA_FWMASK : Nat := 16
def FRA_PROTOCOL : Nat := 21

def ruleHeaderSize : Nat := 12

structure RuleParse where
  value : Rule
  seen : List Nat := []

def ruleNumber (p : RuleParse) (type : Nat) (number : UInt32) : Except Errno RuleParse :=
  if type = FRA_TABLE then .ok { p with value := { p.value with table := number } }
  else if type = FRA_PRIORITY then .ok { p with value := { p.value with priority := number } }
  else if type = FRA_FWMARK then .ok { p with value := { p.value with mark := number } }
  else if type = FRA_FWMASK then .ok { p with value := { p.value with mask := number } }
  else if type = FRA_FLOW ∧ number = 0 ∨ type = FRA_SUPPRESS_PREFIXLEN ∧ number = 0xffffffff then .ok p
  else .error .EOPNOTSUPP

def ruleAttribute (p : RuleParse) (a : Attribute) : Except Errno RuleParse := do
  failIf (a.type = 0 ∨ a.type ≥ 64) .EOPNOTSUPP
  failIf (a.type ∈ p.seen) .EINVAL
  let p := { p with seen := a.type :: p.seen }
  if a.type = FRA_SRC then
    failIf (a.data.length ≠ ipSize p.value.source.family) .EINVAL
    return { p with value := { p.value with source := ipLoad p.value.source.family a.data } }
  else if a.type = FRA_DST then
    failIf (a.data.length ≠ ipSize p.value.destination.family) .EINVAL
    return { p with value := { p.value with destination := ipLoad p.value.destination.family a.data } }
  else if a.type = FRA_PROTOCOL then
    let value ← byteValue a.data
    return { p with value := { p.value with protocol := value } }
  else
    let value ← number a.data
    ruleNumber p a.type value

variable (m : Message)

def parseRule : Except Errno RuleParse := do
  failIf (m.body.length < ruleHeaderSize) .EINVAL
  let family := field m.body 0 1
  failIf (¬ familySupported family) .EAFNOSUPPORT
  failIf (field m.body 3 1 ≠ 0 ∨ has (field m.body 8 4) (~~~ FIB_RULE_INVERT)) .EOPNOTSUPP
  let sourceLength := (field m.body 2 1).toNat
  let destinationLength := (field m.body 1 1).toNat
  failIf (sourceLength > ipSize family * 8 ∨ destinationLength > ipSize family * 8) .EINVAL
  let start : Rule :=
    { source := ipAny family, destination := ipAny family, table := field m.body 4 1, sourceLength := sourceLength
      destinationLength := destinationLength, flags := field m.body 8 4, action := field m.body 7 1
      protocol := RTPROT_BOOT }
  let p ← eachAttribute ruleAttribute { value := start } (m.body.drop ruleHeaderSize)
  let value : Rule := if FRA_FWMARK ∈ p.seen ∧ FRA_FWMASK ∉ p.seen then { p.value with mask := 0xffffffff } else p.value
  failIf (¬ ipEqual (ipNetwork value.source value.sourceLength) value.source ∨
    ¬ ipEqual (ipNetwork value.destination value.destinationLength) value.destination) .EINVAL
  failIf (value.action ≠ FR_ACT_TO_TBL ∧ value.action ≠ FR_ACT_UNREACHABLE ∧ value.action ≠ FR_ACT_PROHIBIT ∧
    value.action ≠ FR_ACT_BLACKHOLE ∧ ¬ (m.type = RTM_DELRULE ∧ value.action = 0)) .EOPNOTSUPP
  failIf (m.type = RTM_NEWRULE ∧ value.action = FR_ACT_TO_TBL ∧ value.table = 0) .EINVAL
  return { p with value := value }

/-- The priority of a rule added without one: before every rule of its family that has one. -/
def defaultPriority (family : UInt32) (rules : List Rule) : UInt32 :=
  rules.foldl (fun priority r =>
    if r.destination.family = family ∧ r.priority ≠ 0 ∧ r.priority ≤ priority then r.priority - 1 else priority) 32765

def deletesRule (seen : List Nat) (value r : Rule) : Bool :=
  r.destination.family == value.destination.family &&
    (decide (FRA_PRIORITY ∉ seen) || value.priority == r.priority) &&
    (value.table == 0 || value.table == r.table) && (value.action == 0 || value.action == r.action) &&
    value.flags == r.flags && (decide (FRA_PROTOCOL ∉ seen) || value.protocol == r.protocol) &&
    (decide (FRA_FWMARK ∉ seen) || value.mark == r.mark && value.mask == r.mask) &&
    value.sourceLength == r.sourceLength && value.destinationLength == r.destinationLength &&
    ipEqual value.source r.source && ipEqual value.destination r.destination

/-- `md_network_rules` for the two requests that change something. -/
def networkRules : EStateM Errno Namespace Unit := do
  let n ← get
  let p ← ofExcept (parseRule m)
  if m.type = RTM_DELRULE then
    match n.rules.findIdx? (deletesRule p.seen p.value) with
    | none => throw .ENOENT
    | some i => set { n with rules := n.rules.eraseIdx i }
  else
    let value : Rule := if FRA_PRIORITY ∈ p.seen then p.value
      else { p.value with priority := defaultPriority p.value.destination.family n.rules }
    rejectIf (value ∈ n.rules ∧ has m.flags NLM_F_EXCL) .EEXIST
    rejectIf (has m.flags NLM_F_REPLACE) .EOPNOTSUPP
    rejectIf (n.rules.length = maxRules) .ENOSPC
    let before := n.rules.takeWhile fun r => r.priority ≤ value.priority
    set { n with rules := before ++ value :: n.rules.drop before.length }

def NDA_DST : Nat := 1
def NDA_LLADDR : Nat := 2
def NTF_SELF : UInt32 := 2
def NUD_REACHABLE : UInt32 := 0x2
def NUD_NOARP : UInt32 := 0x40
def NUD_PERMANENT : UInt32 := 0x80

def ndmsgSize : Nat := 12

/-- The order of a neighbour table: by link, family, and then address of its own kind. -/
def neighborCompare (a b : Neighbor) : Ordering :=
  (compare a.index b.index).then <| (compare a.family b.family).then <|
    if a.family = AF_BRIDGE then compare a.mac b.mac
    else compare (a.ip.bytes.take (ipSize a.ip.family)) (b.ip.bytes.take (ipSize a.ip.family))

def findNeighbor (table : List Neighbor) (key : Neighbor) : Option Neighbor :=
  table.find? fun e => neighborCompare key e == .eq

/-- An entry lives as long as the link it was made for. -/
def neighborLive (links : List Interface) (e : Neighbor) : Bool :=
  (interfaceFind links e.index none).any fun l => l.policyId == e.lifetime

def neighborsPrune (allocates : Bool) (n : Namespace) : Except Errno Namespace :=
  let kept := n.neighbors.filter (neighborLive n.links)
  if kept.length = n.neighbors.length then .ok n
  else if allocates then .ok { n with neighbors := kept }
  else .error .ENOMEM

def neighborUpdate (allocates : Bool) (n : Namespace) (key : Neighbor) (deleting : Bool) : Except Errno Namespace := do
  let kept := n.neighbors.filter fun e => neighborLive n.links e && neighborCompare key e != .eq
  let next := if deleting then kept else kept ++ [key]
  failIf (next.length > 1024) .ENOSPC
  failIf (¬ allocates) .ENOMEM
  return { n with neighbors := next.insertionSort fun a b => neighborCompare a b ≠ .gt }

structure NeighborParse where
  key : Neighbor
  hasIp : Bool := false
  hasMac : Bool := false

variable (p : NeighborParse)

def neighborAttribute (a : Attribute) : Except Errno NeighborParse := do
  if a.type = NDA_DST then
    failIf (p.hasIp ∨ a.data.length ≠ 4 ∧ a.data.length ≠ 16 ∨ p.key.family ≠ AF_BRIDGE ∧
      a.data.length ≠ ipSize p.key.family) .EINVAL
    let ip := ipLoad (if a.data.length = 4 then AF_INET else AF_INET6) a.data
    return { p with key := { p.key with ip := ip }, hasIp := true }
  else if a.type = NDA_LLADDR then
    failIf (p.hasMac ∨ a.data.length ≠ 6) .EINVAL
    return { p with key := { p.key with mac := a.data }, hasMac := true }
  else throw .EOPNOTSUPP

/-- The states a new entry may be given; a tunnel's forwarding entry may be marked as no ARP. -/
def neighborState (family state : UInt32) : Bool :=
  let plain := if family = AF_BRIDGE then state &&& ~~~ NUD_NOARP else state
  plain == NUD_PERMANENT ||
    family == AF_BRIDGE && has state NUD_NOARP && (plain == NUD_REACHABLE || plain == 0)

def newNeighborChecks (found : Option Neighbor) : Except Errno Unit := do
  failIf (¬ neighborState p.key.family (field m.body 8 2) ∨ ¬ p.hasMac ∨ ¬ p.hasIp) .EOPNOTSUPP
  failIf (ipUnspecified p.key.ip ∨ ipMulticast p.key.ip ∨ p.key.mac.headD 0 &&& 1 ≠ 0) .EINVAL
  failIf (p.key.family ≠ AF_BRIDGE ∧ p.key.mac = replicate 6 0) .EINVAL
  failIf (found.isSome ∧ has m.flags NLM_F_EXCL) .EEXIST
  failIf (found.isNone ∧ ¬ has m.flags NLM_F_CREATE) .ENOENT
  failIf (found.isSome ∧ ¬ has m.flags NLM_F_REPLACE) .EEXIST

def deletedNeighborChecks (found : Option Neighbor) : Except Errno Unit :=
  failIf (¬ found.any fun e => (!p.hasIp || ipEqual e.ip p.key.ip) && (!p.hasMac || e.mac == p.key.mac)) .ENOENT

/-- `md_network_neighbors_control` for the two requests that change something. -/
def networkNeighbors (around : Surroundings) (m : Message) : EStateM Errno Namespace Unit := do
  let n ← get
  rejectIf (m.body.length < ndmsgSize) .EINVAL
  let family := field m.body 0 1
  let index := field m.body 4 4
  rejectIf (index ≥ 0x80000000 ∨ field m.body 1 1 ≠ 0 ∨ field m.body 2 2 ≠ 0) .EINVAL
  rejectIf (family ≠ AF_UNSPEC ∧ ¬ familySupported family ∧ family ≠ AF_BRIDGE) .EAFNOSUPPORT
  let p ← ofExcept
    (eachAttribute neighborAttribute { key := { index := index, family := family } } (m.body.drop ndmsgSize))
  match interfaceFind n.links p.key.index none with
  | none => throw .ENODEV
  | some link =>
    rejectIf (family = AF_UNSPEC ∨ (if family = AF_BRIDGE then ¬ p.hasMac else ¬ p.hasIp)) .EINVAL
    rejectIf (family = AF_BRIDGE ∧ link.kind ≠ .vxlan) .EOPNOTSUPP
    let key := { p.key with lifetime := link.policyId }
    let found := (findNeighbor n.neighbors key).filter (neighborLive n.links)
    let given := field m.body 11 1
    rejectIf (field m.body 10 1 ≠ (if family = AF_BRIDGE then NTF_SELF else 0) ∨ given ≠ 0 ∧ given ≠ 1) .EOPNOTSUPP
    if m.type = RTM_DELNEIGH then
      ofExcept (deletedNeighborChecks { p with key := key } found)
      let after ← ofExcept (neighborUpdate around.allocates n key true)
      set after
    else
      ofExcept (newNeighborChecks m { p with key := key } found)
      let after ← ofExcept (neighborUpdate around.allocates n { key with state := field m.body 8 2 } false)
      set after

end Shroot.Network
