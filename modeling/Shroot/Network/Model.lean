import Shroot.General.Checks
import Shroot.General.Image
import Shroot.Errno

namespace Shroot.Network

section

def AF_UNSPEC : UInt32 := 0
def AF_UNIX : UInt32 := 1
def AF_INET : UInt32 := 2
def AF_BRIDGE : UInt32 := 7
def AF_INET6 : UInt32 := 10
def AF_PACKET : UInt32 := 17

/-- `struct md_ip_address`: a family and sixteen bytes in network order, of which IPv4 uses four. -/
structure IpAddress where
  family : UInt32
  bytes : Bytes
  size : bytes.length = 16
  deriving DecidableEq

/-- The given bytes, with zeros up to sixteen. -/
def ipPad (bytes : Bytes) : Bytes := (bytes ++ List.replicate 16 0).take 16

theorem length_ipPad (bytes : Bytes) : (ipPad bytes).length = 16 := by simp [ipPad]

variable (family : UInt32)

def ipOf (bytes : Bytes) : IpAddress := ⟨family, ipPad bytes, length_ipPad bytes⟩

def ipAny : IpAddress := ipOf family []

/-- The value a zeroed address has. -/
instance : Inhabited IpAddress := ⟨ipAny AF_UNSPEC⟩

def ipSize : Nat := if family = AF_INET6 then 16 else 4

variable (a : IpAddress)

def IpAddress.byte (i : Nat) : UInt8 := a.bytes.getD i 0

def ipLoad (data : Bytes) : IpAddress := ipOf family (data.take (ipSize family))

def ipEqual (a b : IpAddress) : Bool :=
  a.family == b.family && if a.family = AF_INET then a.bytes.take 4 == b.bytes.take 4 else a.bytes == b.bytes

def ipUnspecified : Bool := if a.family = AF_INET then (a.bytes.take 4).all (· == 0) else a.bytes.all (· == 0)

def ipIsLoopback : Bool :=
  if a.family = AF_INET then a.byte 0 == 127 else (a.bytes.take 15).all (· == 0) && a.byte 15 == 1

def ipMulticast : Bool := if a.family = AF_INET then a.byte 0 >>> 4 == 14 else a.byte 0 == 0xff

def ipLinklocal : Bool := a.family == AF_INET6 && a.byte 0 == 0xfe && a.byte 1 &&& 0xc0 == 0x80

def ipLoopback : IpAddress :=
  if family = AF_INET then ipOf family [127, 0, 0, 1] else ipOf family (List.replicate 15 0 ++ [1])

/-- The bits of byte `i` that a prefix of the given length keeps. -/
def prefixByte (length i : Nat) : UInt8 :=
  if 8 * (i + 1) ≤ length then 0xff
  else if 8 * i < length then 0xff <<< (8 - length % 8).toUInt8
  else 0

def ipNetwork (length : Nat) : IpAddress :=
  if length > ipSize a.family * 8 then ipAny a.family
  else ipOf a.family (a.bytes.mapIdx fun i byte => if i < ipSize a.family then byte &&& prefixByte length i else byte)

def ipPrefix (a b : IpAddress) (length : Nat) : Bool :=
  decide (length ≤ ipSize a.family * 8) && ipEqual (ipNetwork a length) (ipNetwork b length)

example : ipPrefix (ipOf AF_INET [10, 1, 130, 7]) (ipOf AF_INET [10, 1, 128, 0]) 17 = true := by decide

def IFF_UP : UInt32 := 0x1
def IFF_BROADCAST : UInt32 := 0x2
def IFF_LOOPBACK : UInt32 := 0x8
def IFF_NOARP : UInt32 := 0x80
def IFF_PROMISC : UInt32 := 0x100
def IFF_ALLMULTI : UInt32 := 0x200
def IFF_MULTICAST : UInt32 := 0x1000

def IFA_F_TEMPORARY : UInt32 := 0x1
def IFA_F_NODAD : UInt32 := 0x2
def IFA_F_DADFAILED : UInt32 := 0x8
def IFA_F_DEPRECATED : UInt32 := 0x20
def IFA_F_TENTATIVE : UInt32 := 0x40
def IFA_F_PERMANENT : UInt32 := 0x80
def IFA_F_MANAGETEMPADDR : UInt32 := 0x100
def IFA_F_NOPREFIXROUTE : UInt32 := 0x200

def RT_SCOPE_UNIVERSE : UInt32 := 0
def RT_SCOPE_LINK : UInt32 := 253
def RT_SCOPE_HOST : UInt32 := 254

def RT_TABLE_DEFAULT : UInt32 := 253
def RT_TABLE_MAIN : UInt32 := 254
def RT_TABLE_LOCAL : UInt32 := 255

def RTPROT_KERNEL : UInt32 := 2
def RTPROT_BOOT : UInt32 := 3

inductive LinkKind where
  | loopback | uplink | bridge | veth | tun | tap | vxlan
  deriving DecidableEq

structure Ipv4Policy where
  routeLocalnet : UInt32 := 0
  rpFilter : UInt32 := 0
  srcValidMark : UInt32 := 0
  arpNotify : UInt32 := 0
  deriving DecidableEq

structure Ipv6Policy where
  forwarding : UInt32 := 0
  disabled : UInt32 := 0
  acceptDad : UInt32 := 0
  acceptRa : UInt32 := 0
  autoconf : UInt32 := 0
  mtu : UInt32 := 0
  hopLimit : UInt32 := 0
  addrGenMode : UInt32 := 0
  useTempaddr : UInt32 := 0
  deriving DecidableEq

/-- `struct md_network_ip_assignment`. Deadlines are in milliseconds; zero is an infinite lifetime. -/
structure Assignment where
  address : IpAddress
  peer : IpAddress := default
  length : Nat
  scope : UInt32 := 0
  flags : UInt32 := 0
  routeMetric : UInt32 := 0
  preferredUntil : Int := 0
  validUntil : Int := 0
  temporaryParent : Bytes := ipPad []
  temporaryPreferred : Int := 0
  temporaryValid : Int := 0
  regenerateAt : Int := 0
  deriving DecidableEq

def addressDestination (a : Assignment) : IpAddress := if ipUnspecified a.peer then a.address else a.peer

structure RouteMetrics where
  mtu : UInt32 := 0
  hops : UInt32 := 0
  present : UInt32 := 0
  deriving DecidableEq

structure RouteEntry where
  destination : IpAddress
  gateway : IpAddress
  source : IpAddress := default
  length : Nat := 0
  interface : UInt32 := 0
  metric : UInt32 := 0
  protocol : UInt32 := 0
  scope : UInt32 := 0
  nexthop : UInt32 := 0
  table : UInt32 := 0
  flags : UInt32 := 0
  validUntil : Int := 0
  preference : UInt8 := 0
  metrics : RouteMetrics := {}
  deriving DecidableEq

/-- The table of a route; an unset one is the main table. -/
def RouteEntry.tableId (r : RouteEntry) : UInt32 := if r.table ≠ 0 then r.table else RT_TABLE_MAIN

structure Nexthop where
  id : UInt32
  interface : UInt32
  flags : UInt32
  protocol : UInt32
  gateway : IpAddress

structure Rule where
  source : IpAddress
  destination : IpAddress
  priority : UInt32 := 0
  table : UInt32 := 0
  mark : UInt32 := 0
  mask : UInt32 := 0
  flags : UInt32 := 0
  sourceLength : Nat := 0
  destinationLength : Nat := 0
  action : UInt32 := 0
  protocol : UInt32 := 0
  deriving DecidableEq

structure VxlanConfig where
  id : UInt32 := 0
  link : UInt32 := 0
  localAddress : IpAddress := default
  remoteAddress : IpAddress := default
  port : UInt32 := 0
  ttl : UInt32 := 0
  tos : UInt32 := 0
  deriving DecidableEq

/-- A static neighbour. The lifetime is the policy id of the link it was made for. -/
structure Neighbor where
  index : UInt32
  family : UInt32
  lifetime : UInt64 := 0
  ip : IpAddress := default
  mac : Bytes := List.replicate 6 0
  state : UInt32 := 0

/-- `struct md_network_interface` with its `info`. The queueing discipline is a shared object that
only its own requests look into; here it is its name. -/
structure Interface where
  kind : LinkKind
  index : UInt32
  name : Bytes
  flags : UInt32
  mtu : UInt32
  txQueueLength : UInt32
  address : Bytes
  tc : Option Nat := none
  vxlan : VxlanConfig := {}
  master : UInt32 := 0
  peer : UInt32 := 0
  hairpin : UInt32 := 0
  isolated : UInt32 := 0
  bridgeForwardDelay : UInt32 := 0
  addresses : List Assignment := []
  policyId : UInt64 := 0
  policy : Ipv4Policy := {}
  ipv6 : Ipv6Policy := {}
  deriving DecidableEq

/-- What the requests of a namespace configure. The neighbour table is replaced as a whole:
a table that a checkpoint shares is copied before it is pruned. -/
structure Topology where
  links : List Interface
  routes : List RouteEntry
  nexthops : List Nexthop
  rules : List Rule
  neighbors : List Neighbor

structure Namespace extends Topology where
  capacity : Nat
  nextPolicy : UInt64
  all6 : Ipv6Policy
  defaults : Ipv4Policy
  defaults6 : Ipv6Policy
  vxlanPorts : List VxlanConfig
  configurationDeadline : Int

abbrev SpaceId := Nat

/-- `struct md_network_fabric`: its namespaces in the order of its list, and the next interface index. -/
structure Fabric where
  nextIndex : UInt32
  spaces : List SpaceId
  space : SpaceId → Namespace
  configurationDeadline : Int

variable (f : Fabric) (id : SpaceId) (n : Namespace)

def Fabric.put : Fabric := { f with space := Function.update f.space id n }

@[simp] theorem Fabric.put_nextIndex :
    (f.put id n).nextIndex = f.nextIndex := rfl

@[simp] theorem Fabric.put_self : (f.put id n).space id = n := by simp [Fabric.put]

theorem Fabric.put_other {id other : SpaceId} (n : Namespace) (ne : other ≠ id) :
    (f.put id n).space other = f.space other := by
  simp [Fabric.put, ne]

def maxAddresses : Nat := 16
def maxRoutes : Nat := 256
def maxRules : Nat := 128
def maxLinks : Nat := 256

end

open General

structure Attribute where
  type : Nat
  flags : Nat
  data : Bytes

def NLA_TYPE_MASK : Nat := 0x3fff

def alignWord (length : Nat) : Nat := (length + 3) / 4 * 4

/-- The first attribute of the bytes and what follows it. -/
def attributeNext (cursor : Bytes) : Except Errno (Option (Attribute × Bytes)) :=
  if cursor = [] then .ok none
  else if cursor.length < 4 then .error .EINVAL
  else
    let length := littleEndianValue (cursor.take 2)
    let wire := littleEndianValue ((cursor.drop 2).take 2)
    if length < 4 ∨ alignWord length > cursor.length then .error .EINVAL
    else
      .ok (some ({ type := wire &&& NLA_TYPE_MASK, flags := wire - (wire &&& NLA_TYPE_MASK)
                   data := (cursor.take length).drop 4 }, cursor.drop (alignWord length)))

theorem attributeNext_shorter {cursor rest : Bytes} {a : Attribute}
    (next : attributeNext cursor = .ok (some (a, rest))) :
    rest.length < cursor.length := by
  simp only [attributeNext] at next
  split at next
  · cases next
  · split at next
    · cases next
    · split at next
      · cases next
      next long fits =>
        obtain ⟨-, rfl⟩ := Prod.mk.inj (Option.some.inj (Except.ok.inj next))
        simp only [alignWord, List.length_drop] at fits ⊢
        omega

/-- `eachAttribute` for at most `fuel` attributes. -/
def attributesWithin {σ : Type} (step : σ → Attribute → Except Errno σ) : Nat → σ → Bytes → Except Errno σ
  | 0, _, _ => .error .EINVAL
  | fuel + 1, state, cursor => do
    match ← attributeNext cursor with
    | none => return state
    | some (a, rest) =>
      let state ← step state a
      attributesWithin step fuel state rest

/-- The attribute loops of the requests: each attribute in turn, up to the end or an error. -/
def eachAttribute {σ : Type} (step : σ → Attribute → Except Errno σ) (state : σ) (cursor : Bytes) : Except Errno σ :=
  attributesWithin step (cursor.length + 1) state cursor

section

variable {σ : Type} {step : σ → Attribute → Except Errno σ} {cursor : Bytes}

theorem attributesWithin_enough {fuel : Nat} {state : σ} (enough : cursor.length < fuel) :
    attributesWithin step fuel state cursor = eachAttribute step state cursor := by
  have larger : ∀ low high state cursor, cursor.length < low → low ≤ high →
      attributesWithin step low state cursor = attributesWithin step high state cursor := by
    intro low
    induction low with
    | zero => intro high state cursor bound; omega
    | succ low ih =>
      intro high state cursor bound le
      obtain ⟨high, rfl⟩ : ∃ k, high = k + 1 := ⟨high - 1, by omega⟩
      simp only [attributesWithin]
      cases next : attributeNext cursor with
      | error e => rfl
      | ok found =>
        cases found with
        | none => rfl
        | some pair =>
          have shorter := attributeNext_shorter next
          cases stepped : step state pair.1 with
          | error e => simp [stepped, bind, Except.bind]
          | ok new => simpa [stepped, bind, Except.bind] using ih high new pair.2 (by omega) (by omega)
  exact (larger _ _ state cursor (Nat.lt_succ_self _) (by omega)).symm

/-- The loop takes the attributes one after the other; its bound never ends it. -/
theorem eachAttribute_eq (state : σ) (cursor : Bytes) :
    eachAttribute step state cursor = (do
      match ← attributeNext cursor with
      | none => return state
      | some (a, rest) => step state a >>= fun state => eachAttribute step state rest) := by
  rw [eachAttribute, attributesWithin]
  cases next : attributeNext cursor with
  | error e => rfl
  | ok found =>
    cases found with
    | none => rfl
    | some pair =>
      have shorter := attributeNext_shorter next
      cases stepped : step state pair.1 with
      | error e => simp [stepped, bind, Except.bind]
      | ok new => simpa [stepped, bind, Except.bind] using attributesWithin_enough shorter

/-- What every attribute keeps holds in the end. -/
theorem eachAttribute_ok {has : σ → Prop} (kept : ∀ state a next, has state → step state a = .ok next → has next)
    {state final : σ} (initially : has state) (run : eachAttribute step state cursor = .ok final) : has final := by
  unfold eachAttribute at run
  generalize cursor.length + 1 = fuel at run
  induction fuel generalizing state cursor with
  | zero => cases run
  | succ fuel ih =>
    obtain ⟨found, -, run⟩ := bind_ok.mp run
    cases found with
    | none => rwa [← pure_ok.mp run]
    | some pair =>
      obtain ⟨next, ran, run⟩ := bind_ok.mp run
      exact ih (kept state pair.1 next initially ran) run

end

def number (data : Bytes) : Except Errno UInt32 :=
  if data.length ≠ 4 then .error .EINVAL else .ok (UInt32.ofNat (littleEndianValue data))

/-- A little-endian field of a fixed-size header. -/
def field (header : Bytes) (offset size : Nat) : UInt32 :=
  UInt32.ofNat (littleEndianValue ((header.drop offset).take size))

abbrev Attributes := List (Nat × Bytes)

/-- The table of the attributes of one level: known types, each at most once. -/
def attributes (data : Bytes) (max : Nat) : Except Errno Attributes :=
  eachAttribute
    (fun found a => do
      failIf (a.type > max ∨ a.type = 0) .EOPNOTSUPP
      failIf ((found.lookup a.type).isSome) .EINVAL
      return found ++ [(a.type, a.data)]) [] data

end Shroot.Network
