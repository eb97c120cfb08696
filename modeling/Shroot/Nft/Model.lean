import Shroot.General.Triples
import Shroot.Network.Model

namespace Shroot.Nft

open Network (IpAddress ipSize ipNetwork)

section

def NFPROTO_UNSPEC : UInt32 := 0
def NFPROTO_INET : UInt32 := 1
def NFPROTO_IPV4 : UInt32 := 2
def NFPROTO_IPV6 : UInt32 := 10

def NFT_SET_ANONYMOUS : UInt32 := 0x1
def NFT_SET_CONSTANT : UInt32 := 0x2
def NFT_SET_INTERVAL : UInt32 := 0x4
def NFT_SET_MAP : UInt32 := 0x8

def NFTA_FIB_F_SADDR : UInt32 := 0x1
def NFTA_FIB_F_DADDR : UInt32 := 0x2
def NFTA_FIB_F_MARK : UInt32 := 0x4
def NFTA_FIB_F_IIF : UInt32 := 0x8
def NFTA_FIB_F_OIF : UInt32 := 0x10
def NFTA_FIB_F_PRESENT : UInt32 := 0x20

def IPPROTO_ICMP : UInt32 := 1
def IPPROTO_TCP : UInt32 := 6
def IPPROTO_UDP : UInt32 := 17
def IPPROTO_ICMPV6 : UInt32 := 58

def NF_INET_PRE_ROUTING : Nat := 0
def NF_INET_LOCAL_IN : Nat := 1
def NF_INET_FORWARD : Nat := 2
def NF_INET_LOCAL_OUT : Nat := 3
def NF_INET_POST_ROUTING : Nat := 4
def NF_INET_NUMHOOKS : Nat := 5

/-- The verdicts that rules and maps can give. -/
inductive Verdict where
  | drop | accept | continue_ | break_ | return_
  | jump (target : Nat)
  | goto (target : Nat)
  deriving DecidableEq

def Verdict.target? : Verdict → Option Nat
  | .jump target | .goto target => some target
  | _ => none

inductive MetaKey where
  | mark | iif | oif | iifname | oifname | nfproto | l4proto | pkttype
  deriving DecidableEq

inductive CtKey where
  | state | status | mark
  deriving DecidableEq

inductive PayloadBase where
  | network | transport
  deriving DecidableEq

inductive FibResult where
  | oif | oifname | addrtype
  deriving DecidableEq

inductive RejectType where
  | none | tcp | icmp4 | icmp6 | icmpx
  deriving DecidableEq

/-- Where a mark is set from: a register, a value under a mask, or the other mark under masks. -/
inductive MarkSource where
  | register (src : Nat)
  | constant (value mask : UInt32)
  | copy (mask aux : UInt32)
  deriving DecidableEq

inductive NatAddress where
  | keep
  | constant (value : Bytes)
  | register (offset : Nat)
  deriving DecidableEq

/-- The ports of a translation, in host order. -/
inductive NatPort where
  | keep
  | constant (low : UInt16) (high : Option UInt16)
  | register (offset : Nat) (max : Option Nat)
  deriving DecidableEq

structure Counter where
  packets : UInt64 := 0
  bytes : UInt64 := 0
  deriving DecidableEq

/-- `struct md_filter_limit`, in nanoseconds. -/
structure Limit where
  cost : UInt64 := 0
  capacity : UInt64 := 0
  credit : UInt64 := 0
  previous : UInt64 := 0
  deriving DecidableEq

structure Log where
  group : UInt16
  label : Bytes
  deriving DecidableEq

/-- `struct md_filter_physdev`: the input and the output device. -/
structure Physdev where
  names : Bytes × Bytes
  masks : Bytes × Bytes
  flags : UInt32
  invert : UInt32
  deriving DecidableEq

/-- `struct md_filter_transport`, with inclusive bounds. -/
structure Transport where
  source : UInt16 × UInt16
  destination : UInt16 × UInt16
  protocol : UInt32
  invertSource : Bool := false
  invertDestination : Bool := false
  deriving DecidableEq

/-- `struct md_filter_multiport`: the ranges, of which a single port is one. -/
structure Multiport where
  ranges : List (UInt16 × UInt16)
  direction : UInt32
  invert : Bool
  deriving DecidableEq

/-- `struct md_filter_expression`, one constructor for each opcode. Operands in registers are given
by their offsets. -/
inductive Expression where
  | immediate (dst : Nat) (value : Bytes)
  | verdict (verdict : Verdict)
  | meta_ (key : MetaKey) (size dst : Nat)
  | metaSet (source : MarkSource)
  | payload (base : PayloadBase) (offset size dst : Nat)
  | compare (equal : Bool) (src : Nat) (value : Bytes)
  | range (equal : Bool) (src : Nat) (low high : Bytes)
  | bitwise (src dst : Nat) (mask xor : Bytes)
  | ct (key : CtKey) (dst : Nat)
  | ctSet (source : MarkSource)
  | fib (result : FibResult) (flags : UInt32) (size dst : Nat)
  | lookup (set src size : Nat) (invert : Bool)
  | nat (destination : Bool) (family : UInt32) (address : NatAddress) (port : NatPort) (flags : UInt32)
  | masquerade (port : NatPort) (flags : UInt32)
  | verdictMap (set src size : Nat)
  | dataMap (set src size dst dataSize : Nat)
  | counter (counter : Counter)
  | transport (transport : Transport)
  | stateMatch (state status : UInt32) (invert : Bool)
  | markMatch (mark mask : UInt32) (invert : Bool)
  | connmarkMatch (mark mask : UInt32) (invert : Bool)
  | addressType (source destination : UInt32) (invertSource invertDestination : Bool)
  | packetType (type : UInt32) (invert : Bool)
  | reversePath (flags : UInt32)
  | icmpMatch (protocol : UInt32) (type low high : UInt8) (invert : Bool)
  | reject (type : RejectType) (code : Nat)
  | ipset (set : Nat) (source invert : Bool)
  | multiport (multiport : Multiport)
  | limit (limit : Limit)
  | log (log : Log)
  | physdev (physdev : Physdev)
  deriving DecidableEq

/-- `md_filter_set_expression`, with the set it refers to. -/
def Expression.set? : Expression → Option Nat
  | .lookup set _ _ _ | .verdictMap set _ _ | .dataMap set _ _ _ _ => some set
  | _ => none

structure Table where
  handle : Nat
  family : UInt32
  name : Bytes
  userdata : Bytes := []

inductive Policy where
  | drop | accept
  deriving DecidableEq

/-- `struct md_filter_chain`. Without a hook it is no base chain. -/
structure Chain where
  table : Nat
  handle : Nat
  id : UInt32 := 0
  name : Bytes
  hook : Option Nat := none
  priority : Int := 0
  nat : Bool := false
  reroute : Bool := false
  policy : Policy := .accept
  counters : Bool := false
  counter : Counter := {}
  userdata : Bytes := []

structure Rule where
  chain : Nat
  handle : Nat
  id : UInt32 := 0
  expressions : List Expression
  wire : Bytes := []
  userdata : Bytes := []
  deriving DecidableEq

/-- `struct md_filter_element`. What a union holds there are two fields here. -/
structure Element where
  key : Bytes
  end_ : Bool := false
  verdict : Verdict := .drop
  data : Bytes := []

inductive IpsetKind where
  | ip | net

/-- `struct md_filter_set`. An ipset has no table. -/
structure ElementSet where
  table : Nat
  handle : Nat
  id : UInt32 := 0
  flags : UInt32 := 0
  keyType : UInt32 := 0
  keySize : Nat
  dataType : UInt32 := 0
  dataSize : Nat := 0
  name : Bytes
  elements : List Element := []
  userdata : Bytes := []
  ipset : Option IpsetKind := none
  ipsetFamily : UInt32 := 0
  ipsetIndex : Nat := 0
  ipsetRevision : Nat := 0
  ipsetMax : Nat := 0
  ipsetHashsize : Nat := 0
  ipsetTimeout : Bool := false
  /-- The prefix lengths that its networks have. -/
  prefixes : List Nat := []

structure NetworkFilter where
  generation : UInt32 := 1
  nextHandle : Nat := 1
  tables : List Table := []
  chains : List Chain := []
  rules : List Rule := []
  sets : List ElementSet := []

variable (f : NetworkFilter) (table : Nat) (name : Option Bytes) (handle : Nat) (id : UInt32)

/-- How `md_filter_chain_find` and `md_filter_set_find` select: by name, or else by handle, or else by
transaction id. -/
def selects (ofTable : Nat) (itsName : Bytes) (itsHandle : Nat) (itsId : UInt32) : Bool :=
  (table = 0 || ofTable = table) &&
    match name with
    | some name => name == itsName
    | none => if handle ≠ 0 then handle == itsHandle else id != 0 && id == itsId

def chainFind : Option Chain := f.chains.find? fun c => selects table name handle id c.table c.name c.handle c.id

def setFind : Option ElementSet := f.sets.find? fun s => selects table name handle id s.table s.name s.handle s.id

def networkFilterFind (family : UInt32) (name : Option Bytes) (handle : Nat) : Option Table :=
  f.tables.find? fun t =>
    t.family == family && match name with
      | some name => name == t.name
      | none => t.handle == handle

def chainIndex : Option Nat := f.chains.findIdx? (·.handle = handle)

def tableFamily : UInt32 := ((f.tables.find? (·.handle = table)).map (·.family)).getD NFPROTO_UNSPEC

/-- `md_filter_chain_applies`, for a packet's family. -/
def chainApplies (c : Chain) (family : UInt32) : Bool :=
  let protocol := if family = Network.AF_INET6 then NFPROTO_IPV6 else NFPROTO_IPV4
  match f.tables.find? (·.handle = c.table) with
  | some t => t.family == NFPROTO_INET || t.family == protocol
  | none => false

/-- `memcmp` of the first bytes. -/
def memcmp : Nat → Bytes → Bytes → Ordering
  | 0, _, _ => .eq
  | size + 1, a, b => (Ord.compare (a.headD 0) (b.headD 0)).then (memcmp size a.tail b.tail)

/-- Whether an element lies before a key. At a shared boundary an interval ends before the next one
starts. -/
def Element.before (size : Nat) (e : Element) (key : Bytes) (end_ : Bool) : Bool :=
  match memcmp size e.key key with
  | .lt => true
  | .eq => e.end_ && !end_
  | .gt => false

/-- The search between two positions. A step halves what is left, so that `fuel` positions are enough
steps. -/
def setSearch (s : ElementSet) (key : Bytes) (end_ : Bool) : Nat → Nat → Nat → Nat
  | 0, low, _ => low
  | fuel + 1, low, high =>
    if low < high then
      let mid := low + (high - low) / 2
      if (s.elements.getD mid { key := [] }).before s.keySize key end_ then setSearch s key end_ fuel (mid + 1) high
      else setSearch s key end_ fuel low mid
    else low

variable (s : ElementSet)

def setPosition (key : Bytes) (end_ : Bool) : Nat := setSearch s key end_ s.elements.length 0 s.elements.length

def setLookup (key : Bytes) : Option Element :=
  let at_ := setPosition s key false
  match s.elements[at_]?.filter fun e => !e.end_ && memcmp s.keySize e.key key == .eq with
  | some e => some e
  | none => if has s.flags NFT_SET_INTERVAL && at_ ≠ 0 then s.elements[at_ - 1]?.filter (!·.end_) else none

/-- The verdicts that an expression can give: `md_filter_verdict_at` up to `md_filter_verdict_count`. -/
def verdicts : Expression → List Verdict
  | .verdict v => [v]
  | .verdictMap set _ _ =>
    match f.sets.find? (·.handle = set) with
    | some s => s.elements.map fun e => if e.end_ then .continue_ else e.verdict
    | none => []
  | _ => []

/-- `md_ipset_matches`: the longest stored prefix decides. -/
def ipsetMatches (ip : IpAddress) : Bool :=
  if s.ipsetFamily ≠ ip.family then false
  else match s.ipset with
    | some .ip => (setLookup s ip.bytes).isSome
    | _ =>
      let keyOf length :=
        ((((ipNetwork ip length).bytes.take (ipSize ip.family)) ++ List.replicate 20 0).take 20).set (s.keySize - 1)
          (UInt8.ofNat length)
      match (List.range 192).reverse.findSome? fun length =>
          if s.prefixes.contains length then setLookup s (keyOf length) else none with
      | some e => e.data.headD 0 == 0
      | none => false

open General
open Network (Attribute eachAttribute)

def NLA_F_NESTED : Nat := 0x8000
def NLA_F_NET_BYTEORDER : Nat := 0x4000

def ascii (text : String) : Bytes := text.toList.map fun c => UInt8.ofNat c.toNat

/-- The attributes of one level, each of its own type. -/
abbrev Fields := List Attribute

/-- One of them; an absent one is one without data. -/
def Fields.get (a : Fields) (type : Nat) : Option Attribute := a.find? (·.type = type)

def fields (data : Bytes) (allowed : List Nat) : Except Errno Fields :=
  eachAttribute
    (fun found a => do
      failIf (a.type ∉ allowed) .EOPNOTSUPP
      failIf (Fields.get found a.type).isSome .EINVAL
      return found ++ [a]) [] data

variable (a : Option Attribute)

def nested (allowed : List Nat) : Except Errno Fields :=
  match a with
  | none => .error .EINVAL
  | some a => if a.flags ≠ 0 ∧ a.flags ≠ NLA_F_NESTED then .error .EINVAL else fields a.data allowed

/-- `string`: a text that ends with its only zero. -/
def string : Except Errno (Option Bytes) :=
  match a with
  | none => .ok none
  | some a =>
    if a.flags ≠ 0 ∨ a.data.length < 2 ∨ a.data.length > 256 ∨ a.data.getLast? ≠ some 0 ∨
      0 ∈ a.data.dropLast then .error .EINVAL
    else .ok (some a.data.dropLast)

def bigEndianValue (bytes : Bytes) : Nat := littleEndianValue bytes.reverse

/-- `number`: zero when it is absent. -/
def number (size : Nat) : Except Errno Nat :=
  match a with
  | none => .ok 0
  | some a =>
    if (a.flags ≠ 0 ∧ a.flags ≠ NLA_F_NET_BYTEORDER) ∨ a.data.length ≠ size then .error .EINVAL
    else .ok (bigEndianValue a.data)

def requiredNumber : Except Errno Nat :=
  match a with
  | none => .error .EINVAL
  | some a => number (some a) 4

/-- `blob`: the user data of an object. -/
def blob : Except Errno Bytes :=
  match a with
  | none => .ok []
  | some a => if a.flags ≠ 0 ∨ a.data.length > 256 then .error .EINVAL else .ok a.data

variable {σ : Type} (step : Attribute → EStateM Errno σ Unit)

/-- `eachItem` for at most `fuel` attributes. -/
def itemsWithin : Nat → Bytes → EStateM Errno σ Unit
  | 0, _ => throw .EINVAL
  | fuel + 1, cursor => do
    match ← MonadExcept.ofExcept (Network.attributeNext cursor) with
    | none => pure ()
    | some (a, rest) =>
      step a
      itemsWithin fuel rest

/-- A loop over attributes that keeps what it did before an error. -/
def eachItem (cursor : Bytes) : EStateM Errno σ Unit := itemsWithin step (cursor.length + 1) cursor

end

open General List
open Network (IpAddress ipSize ipOf ipAny ipEqual ipUnspecified ipLinklocal AF_INET AF_INET6)

def RTN_UNICAST : UInt32 := 1
def RTN_LOCAL : UInt32 := 2
def PACKET_BROADCAST : UInt32 := 1
def PACKET_MULTICAST : UInt32 := 2
def XT_RPFILTER_LOOSE : UInt32 := 0x1
def XT_RPFILTER_VALID_MARK : UInt32 := 0x2
def XT_RPFILTER_ACCEPT_LOCAL : UInt32 := 0x4
def XT_RPFILTER_INVERT : UInt32 := 0x8
def XT_PHYSDEV_OP_IN : UInt32 := 0x1
def XT_PHYSDEV_OP_OUT : UInt32 := 0x2
def XT_PHYSDEV_OP_BRIDGED : UInt32 := 0x4
def XT_PHYSDEV_OP_ISIN : UInt32 := 0x8
def XT_PHYSDEV_OP_ISOUT : UInt32 := 0x10
def IPS_SRC_NAT : UInt32 := 0x10
def IPS_DST_NAT : UInt32 := 0x20

structure Rejection where
  type : RejectType := .none
  code : Nat := 0

structure RouteResult where
  type : UInt32
  interface : UInt32 := 0
  name : Bytes := replicate 16 0

/-- `struct md_filter_packet`, without what its caller puts there for the evaluation. Ports are in host
order; `transport` has the bytes of its header that are there. -/
structure Packet where
  source : IpAddress
  destination : IpAddress
  sourcePort : UInt16 := 0
  destinationPort : UInt16 := 0
  protocol : UInt32
  state : UInt32 := 0
  mark : UInt32 := 0
  ctmark : UInt32 := 0
  status : UInt32 := 0
  input : UInt32 := 0
  output : UInt32 := 0
  fibType : UInt32 := 0
  sourceFibType : UInt32 := 0
  packetType : UInt32 := 0
  rejection : Rejection := {}
  transport : Bytes := []
  inputName : Bytes := replicate 16 0
  outputName : Bytes := replicate 16 0
  physical : UInt32 × UInt32 := (0, 0)
  bridged : Bool := false
  physicalName : Bytes × Bytes := (replicate 16 0, replicate 16 0)
  snat : Bool := false
  dnat : Bool := false
  masquerade : Bool := false
  masqueradeAddress : IpAddress := default
  unmediated : Bool := false
  hook : Nat := 0

/-- What the caller puts into a packet for its evaluation. The source translation chooses a port in a
range, or finds none free. -/
structure Environment where
  route : Option (Packet → UInt32 → RouteResult) := none
  sourceNat : Option (Packet → UInt16 → UInt16 → Option UInt16) := none
  log : Bool := false
  /-- Whether there is memory for so many accounting cells. -/
  grows : Nat → Bool := fun _ => true

/-- A counter that an evaluation passed. -/
inductive CounterCell where
  | expression (rule index : Nat)
  | chain (index : Nat)

/-- What an evaluation changes. The credits of the limits lie in the rules; here they are by the
positions of rule and expression. -/
structure State where
  packet : Packet
  limits : Nat → Nat → Limit
  accounting : Option (List CounterCell) := none
  logged : List (Packet × Log) := []
  /-- What the clock and the random numbers are going to say. -/
  times : List UInt64 := []
  randoms : List UInt32 := []
  /-- How deep the chains were nested that were evaluated. -/
  depths : List Nat := []

/-- How the evaluation of a chain or of a hook ends. A `fault` is an access outside the registers. -/
inductive Outcome where
  | drop | accept | return_
  | error (errno : Errno)
  | fault
  deriving DecidableEq

abbrev Run := EStateM Outcome State

def Run.packet : Run Packet := do
  return (← get).packet

def Run.change (change : Packet → Packet) : Run Unit := modify fun s => { s with packet := change s.packet }

/-- The registers of a rule, of which it has 64 bytes. -/
abbrev Registers := Nat → UInt8

def registerBytes : Nat := 64

def Registers.read (r : Registers) (offset size : Nat) : Run Bytes := do
  rejectIf (offset + size > registerBytes) .fault
  return (range size).map fun k => r (offset + k)

def Registers.write (r : Registers) (offset : Nat) (bytes : Bytes) : Run Registers := do
  rejectIf (offset + bytes.length > registerBytes) .fault
  return fun k => if offset ≤ k ∧ k < offset + bytes.length then bytes.getD (k - offset) 0 else r k

def filled (size : Nat) (bytes : Bytes) : Bytes := (bytes ++ replicate size 0).take size

variable (bytes : Bytes)

/-- The bytes, with zeros up to a whole register. -/
def padded : Bytes := bytes ++ replicate ((bytes.length + 3) / 4 * 4 - bytes.length) 0

def native32 (value : UInt32) : Bytes := littleEndian 4 value.toNat

def native32Value : UInt32 := UInt32.ofNat (littleEndianValue bytes)

def wirePort (port : UInt16) : Bytes := (littleEndian 2 port.toNat).reverse

def wirePortValue : UInt16 := UInt16.ofNat (littleEndianValue bytes.reverse)

def rejectValid (type : RejectType) (code : Nat) : Bool :=
  match type with
  | .tcp => code = 0
  | .icmp4 => code ≤ 3 || code = 9 || code = 10 || code = 13
  | .icmp6 => code ≤ 6
  | .icmpx => code ≤ 3
  | .none => false

def rejectResolve (type : RejectType) (code : Nat) (family : UInt32) : Rejection :=
  if type = .icmpx ∧ code > 3 then {}
  else
    let code :=
      if type = .icmpx then ((if family = AF_INET6 then [0, 4, 3, 1] else [0, 3, 1, 13]) : List Nat).getD code 0
      else code
    let type := if type = .icmpx then (if family = AF_INET6 then .icmp6 else .icmp4) else type
    if !rejectValid type code || (type = .icmp4 && family ≠ AF_INET) || (type = .icmp6 && family ≠ AF_INET6) then {}
    else { type, code }

def rejectError (r : Rejection) : Errno :=
  match r.type, r.code with
  | .tcp, _ => .ECONNREFUSED
  | .icmp4, 0 => .ENETUNREACH
  | .icmp4, 1 => .EHOSTUNREACH
  | .icmp4, 2 => .ENOPROTOOPT
  | .icmp4, 3 => .ECONNREFUSED
  | .icmp4, 9 => .ENETUNREACH
  | .icmp4, 10 => .EHOSTUNREACH
  | .icmp4, 13 => .EACCES
  | .icmp6, 0 => .ENETUNREACH
  | .icmp6, 1 => .EACCES
  | .icmp6, 5 => .EACCES
  | .icmp6, 2 => .EHOSTUNREACH
  | .icmp6, 3 => .EHOSTUNREACH
  | .icmp6, 4 => .ECONNREFUSED
  | .icmp6, 6 => .EACCES
  | _, _ => .EOPNOTSUPP

def portMatches (port : UInt16) (bounds : UInt16 × UInt16) (invert : Bool) : Bool :=
  (bounds.1 ≤ port && port ≤ bounds.2) != invert

def multiportContains (m : Multiport) (port : UInt16) : Bool :=
  m.ranges.any fun range => range.1 ≤ port && port ≤ range.2

variable (p : Packet)

def Packet.isTransport : Bool := p.protocol == IPPROTO_TCP || p.protocol == IPPROTO_UDP

/-- The flags of an interface name that agrees under the mask. -/
def physdevSame (present : UInt32) (name wanted mask : Bytes) : Bool :=
  present != 0 && (range 16).all fun k => (name.getD k 0 ^^^ wanted.getD k 0) &&& mask.getD k 0 == 0

def physdevMatches (v : Physdev) (p : Packet) : Bool :=
  let observed :=
    (if p.physical.1 ≠ 0 then XT_PHYSDEV_OP_ISIN else 0) ||| (if p.physical.2 ≠ 0 then XT_PHYSDEV_OP_ISOUT else 0) |||
    (if p.bridged then XT_PHYSDEV_OP_BRIDGED else 0) |||
    (if physdevSame p.physical.1 p.physicalName.1 v.names.1 v.masks.1 then XT_PHYSDEV_OP_IN else 0) |||
    (if physdevSame p.physical.2 p.physicalName.2 v.names.2 v.masks.2 then XT_PHYSDEV_OP_OUT else 0)
  (observed ^^^ v.invert) &&& v.flags == v.flags

def icmpMatches (protocol : UInt32) (type low high : UInt8) (invert : Bool) : Bool :=
  let matched := (protocol == IPPROTO_ICMP && type == 255) ||
    (p.transport.getD 0 0 == type && low ≤ p.transport.getD 1 0 && p.transport.getD 1 0 ≤ high)
  p.protocol == protocol && decide (p.transport.length ≥ 2) && matched != invert

def reversePath (env : Environment) (p : Packet) (flags : UInt32) : Bool :=
  if p.input = 0 then false
  else if p.input = 1 then true
  else if ipUnspecified p.source && (p.source.family == AF_INET6 || p.packetType == PACKET_BROADCAST ||
      p.packetType == PACKET_MULTICAST) then true
  else match env.route with
    | none => false
    | some route =>
      let query :=
        NFTA_FIB_F_SADDR ||| (if !has flags XT_RPFILTER_LOOSE || ipLinklocal p.source then NFTA_FIB_F_IIF else 0) |||
        (if has flags XT_RPFILTER_VALID_MARK then NFTA_FIB_F_MARK else 0)
      let found := route p query
      if found.type ≠ RTN_UNICAST ∧ ¬ (found.type = RTN_LOCAL ∧ has flags XT_RPFILTER_ACCEPT_LOCAL) then false
      else found.interface != 0

/-- The header that a payload is loaded from, as far as the packet has it. -/
def Packet.header : PayloadBase → Bytes
  | .network =>
    if p.destination.family = AF_INET6 then
      [0x60, 0, 0, 0, 0, 0, p.protocol.toUInt8, 0] ++ p.source.bytes ++ p.destination.bytes
    else
      [0x45, 0, 0, 0, 0, 0, 0, 0, 0, p.protocol.toUInt8, 0, 0] ++ p.source.bytes.take 4 ++ p.destination.bytes.take 4
  | .transport => if p.isTransport then wirePort p.sourcePort ++ wirePort p.destinationPort else p.transport.take 4

end Shroot.Nft
