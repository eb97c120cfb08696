import Shroot.Network.Lookup

namespace Shroot.Network

open General List MonadExcept

section

def RTM_NEWLINK : Nat := 16
def RTM_DELLINK : Nat := 17
def RTM_GETLINK : Nat := 18
def RTM_SETLINK : Nat := 19
def RTM_NEWADDR : Nat := 20
def RTM_DELADDR : Nat := 21
def RTM_NEWROUTE : Nat := 24
def RTM_DELROUTE : Nat := 25
def RTM_NEWNEIGH : Nat := 28
def RTM_DELNEIGH : Nat := 29
def RTM_NEWRULE : Nat := 32
def RTM_DELRULE : Nat := 33
def RTM_NEWNEXTHOP : Nat := 104
def RTM_DELNEXTHOP : Nat := 105

def NLM_F_REQUEST : UInt32 := 0x1
def NLM_F_ACK : UInt32 := 0x4
def NLM_F_REPLACE : UInt32 := 0x100
def NLM_F_EXCL : UInt32 := 0x200
def NLM_F_CREATE : UInt32 := 0x400

def IFLA_ADDRESS : Nat := 1
def IFLA_IFNAME : Nat := 3
def IFLA_MTU : Nat := 4
def IFLA_MASTER : Nat := 10
def IFLA_PROTINFO : Nat := 12
def IFLA_TXQLEN : Nat := 13
def IFLA_LINKINFO : Nat := 18
def IFLA_NET_NS_PID : Nat := 19
def IFLA_AF_SPEC : Nat := 26
def IFLA_NET_NS_FD : Nat := 28
def IFLA_EXT_MASK : Nat := 29
def IFLA_MAX : Nat := 65

def IFLA_INET6_ADDR_GEN_MODE : Nat := 8
def IFLA_INET6_MAX : Nat := 9
def IFLA_BRPORT_MODE : Nat := 4
def IFLA_BRPORT_ISOLATED : Nat := 33
def IFLA_BRPORT_MAX : Nat := 44
def IFLA_INFO_KIND : Nat := 1
def IFLA_INFO_DATA : Nat := 2
def IFLA_INFO_MAX : Nat := 5
def IFLA_BR_FORWARD_DELAY : Nat := 1
def IFLA_BR_STP_STATE : Nat := 5
def IFLA_BR_MAX : Nat := 49
def VETH_INFO_PEER : Nat := 1

def IFLA_VXLAN_ID : Nat := 1
def IFLA_VXLAN_GROUP : Nat := 2
def IFLA_VXLAN_LINK : Nat := 3
def IFLA_VXLAN_LOCAL : Nat := 4
def IFLA_VXLAN_TTL : Nat := 5
def IFLA_VXLAN_TOS : Nat := 6
def IFLA_VXLAN_LEARNING : Nat := 7
def IFLA_VXLAN_AGEING : Nat := 8
def IFLA_VXLAN_LIMIT : Nat := 9
def IFLA_VXLAN_PORT : Nat := 15
def IFLA_VXLAN_GROUP6 : Nat := 16
def IFLA_VXLAN_LOCAL6 : Nat := 17
def IFLA_VXLAN_UDP_CSUM : Nat := 18

/-- Flags of a tunnel that may be given only as zero: proxy, route short circuit, the two miss
notifications and the two zero checksums. -/
def vxlanZeroFlags : List Nat := [11, 12, 13, 14, 19, 20]

/-- A request: the fields of its header that the handlers read, and what follows the header. -/
structure Message where
  type : Nat
  flags : UInt32
  body : Bytes

inductive TargetReference where
  | fd (value : UInt32)
  | pid (value : UInt32)

inductive NewKind where
  | bridge | veth | vxlan
  deriving DecidableEq

def NewKind.kind : NewKind → LinkKind
  | .bridge => .bridge
  | .veth => .veth
  | .vxlan => .vxlan

/-- `struct link_change`; what was not given is absent. -/
structure LinkChange where
  index : UInt32
  change : UInt32
  flags : UInt32
  family : UInt32
  name : Option Bytes := none
  peerName : Option Bytes := none
  kind : Option NewKind := none
  vxlan : VxlanConfig := {}
  master : Option UInt32 := none
  mtu : Option UInt32 := none
  txQueueLength : Option UInt32 := none
  address : Option Bytes := none
  namespaceRef : Option TargetReference := none
  peerNamespace : Option TargetReference := none
  peerTxQueueLength : Option UInt32 := none
  peerMtu : Option UInt32 := none
  peerAddress : Option Bytes := none
  hairpin : Option UInt32 := none
  isolated : Option UInt32 := none
  addrgen : Option UInt32 := none
  forwardDelay : Option UInt32 := none

/-- A name attribute, with or without its terminator. -/
def nameString (data : Bytes) : Except Errno Bytes := do
  failIf (data = [] ∨ data.length > 16) .EINVAL
  let name := data.takeWhile (· != 0)
  failIf (name = [] ∨ name.length ≥ 16) .EINVAL
  return name

def kindIs (data name : Bytes) : Bool := data == name || data == name ++ [0]

def hardwareAddress (data : Bytes) : Except Errno Bytes := if data.length ≠ 6 then .error .EINVAL else .ok data

/-- One byte of a nested flag. -/
def byteValue (data : Bytes) : Except Errno UInt32 :=
  if data.length ≠ 1 then .error .EINVAL else .ok (data.headD 0).toUInt32

def namespaceReference (old : Option TargetReference) (type : Nat) (data : Bytes) : Except Errno TargetReference := do
  failIf (old.isSome) .EINVAL
  let value ← number data
  if type = IFLA_NET_NS_FD then
    failIf (value ≥ 0x80000000) .EBADF
    return .fd value
  else
    failIf (value ≥ 0x80000000 ∨ value = 0) .ESRCH
    return .pid value

/-- The bytes of "veth", "bridge" and "vxlan". -/
def vethName : Bytes := [118, 101, 116, 104]
def bridgeName : Bytes := [98, 114, 105, 100, 103, 101]
def vxlanName : Bytes := [118, 120, 108, 97, 110]

structure VxlanParse where
  config : VxlanConfig := { port := 0x1821, localAddress := ipAny AF_INET, remoteAddress := ipAny AF_INET }
  seen : List Nat := []
  hasId : Bool := false
  learning : UInt32 := 1
  localFamily : UInt32 := 0
  remoteFamily : UInt32 := 0

def vxlanAddress (p : VxlanParse) (isLocal : Bool) (family : UInt32) (data : Bytes) : Except Errno VxlanParse := do
  failIf ((if isLocal then p.localFamily else p.remoteFamily) ≠ 0) .EINVAL
  failIf (data.length ≠ ipSize family) .EINVAL
  let ip := ipLoad family data
  return if isLocal then { p with localFamily := family, config := { p.config with localAddress := ip } }
    else { p with remoteFamily := family, config := { p.config with remoteAddress := ip } }

def vxlanAttribute (p : VxlanParse) (a : Attribute) : Except Errno VxlanParse := do
  failIf (a.type = 0 ∨ a.type ≥ 64) .EOPNOTSUPP
  failIf (a.type ∈ p.seen) .EINVAL
  let p := { p with seen := a.type :: p.seen }
  let value : UInt32 := if a.data.length ≤ 4 then UInt32.ofNat (littleEndianValue a.data) else 0
  if a.type = IFLA_VXLAN_ID then
    failIf (a.data.length ≠ 4) .EINVAL
    return { p with config := { p.config with id := value }, hasId := true }
  else if a.type = IFLA_VXLAN_LINK then
    failIf (a.data.length ≠ 4) .EINVAL
    return { p with config := { p.config with link := value } }
  else if a.type = IFLA_VXLAN_LOCAL then vxlanAddress p true AF_INET a.data
  else if a.type = IFLA_VXLAN_LOCAL6 then vxlanAddress p true AF_INET6 a.data
  else if a.type = IFLA_VXLAN_GROUP then vxlanAddress p false AF_INET a.data
  else if a.type = IFLA_VXLAN_GROUP6 then vxlanAddress p false AF_INET6 a.data
  else if a.type = IFLA_VXLAN_PORT then
    failIf (a.data.length ≠ 2 ∨ value = 0) .EINVAL
    return { p with config := { p.config with port := value } }
  else if a.type = IFLA_VXLAN_TTL then
    failIf (a.data.length ≠ 1) .EINVAL
    return { p with config := { p.config with ttl := value } }
  else if a.type = IFLA_VXLAN_TOS then
    failIf (a.data.length ≠ 1) .EINVAL
    return { p with config := { p.config with tos := value } }
  else if a.type = IFLA_VXLAN_LEARNING then
    failIf (a.data.length ≠ 1 ∨ value > 1) .EINVAL
    return { p with learning := value }
  else if a.type = IFLA_VXLAN_AGEING ∨ a.type = IFLA_VXLAN_LIMIT then
    failIf (a.data.length ≠ 4) .EINVAL
    failIf (value ≠ 0) .EOPNOTSUPP
    return p
  else if a.type ∈ vxlanZeroFlags then
    failIf (a.data.length ≠ 1) .EINVAL
    failIf (value ≠ 0) .EOPNOTSUPP
    return p
  else if a.type = IFLA_VXLAN_UDP_CSUM then
    failIf (a.data.length ≠ 1 ∨ value > 1) .EINVAL
    return p
  else throw .EOPNOTSUPP

/-- The two ends of a tunnel in one family; an end that was not given is unspecified. -/
def vxlanEnds (config : VxlanConfig) : Except Errno VxlanConfig :=
  if ¬ ipUnspecified config.remoteAddress then
    let config := if ipUnspecified config.localAddress
      then { config with localAddress := ipAny config.remoteAddress.family } else config
    if config.localAddress.family ≠ config.remoteAddress.family then .error .EINVAL else .ok config
  else .ok { config with remoteAddress := ipAny config.localAddress.family }

def vxlanParse (data : Bytes) : Except Errno VxlanConfig := do
  let p ← eachAttribute vxlanAttribute {} data
  failIf (¬ p.hasId ∨ p.config.id > 0xffffff) .EINVAL
  failIf (p.learning ≠ 0 ∨ p.config.tos ≠ 0 ∨ p.config.ttl ≠ 0) .EOPNOTSUPP
  failIf (p.localFamily ≠ 0 ∧ p.remoteFamily ≠ 0 ∧ p.localFamily ≠ p.remoteFamily) .EINVAL
  failIf (ipMulticast p.config.localAddress ∨ ipMulticast p.config.remoteAddress) .EOPNOTSUPP
  vxlanEnds p.config

def eachType {σ : Type} (table : Attributes) (max : Nat) (step : σ → Nat → Bytes → Except Errno σ) (state : σ) :
    Except Errno σ :=
  (range (max + 1)).foldlM
    (fun state type => match table.lookup type with
      | none => .ok state
      | some data => step state type data) state

variable (c : LinkChange)

def afSpec (data : Bytes) : Except Errno LinkChange := do
  let families ← attributes data IFLA_MAX
  eachType families IFLA_MAX (fun c family data => do
    failIf (family ≠ 10) .EOPNOTSUPP
    let inet6 ← attributes data IFLA_INET6_MAX
    eachType inet6 IFLA_INET6_MAX (fun c type data => do
      failIf (type ≠ IFLA_INET6_ADDR_GEN_MODE) .EOPNOTSUPP
      let value ← byteValue data
      failIf (value > 1) .EOPNOTSUPP
      return { c with addrgen := some value }) c) c

def protinfo (data : Bytes) : Except Errno LinkChange := do
  failIf (c.family ≠ AF_BRIDGE) .EOPNOTSUPP
  let port ← attributes data IFLA_BRPORT_MAX
  eachType port IFLA_BRPORT_MAX (fun c type data => do
    failIf (type ≠ IFLA_BRPORT_MODE ∧ type ≠ IFLA_BRPORT_ISOLATED) .EOPNOTSUPP
    let value ← byteValue data
    failIf (value > 1) .EINVAL
    return if type = IFLA_BRPORT_MODE then { c with hairpin := some value } else { c with isolated := some value }) c

def linkAttribute (type : Nat) (data : Bytes) : Except Errno LinkChange := do
  if type = IFLA_IFNAME then
    let name ← nameString data
    return { c with name := some name }
  else if type = IFLA_MTU then
    let value ← number data
    return { c with mtu := some value }
  else if type = IFLA_TXQLEN then
    let value ← number data
    return { c with txQueueLength := some value }
  else if type = IFLA_MASTER then
    let value ← number data
    return { c with master := some value }
  else if type = IFLA_ADDRESS then
    let address ← hardwareAddress data
    return { c with address := some address }
  else if type = IFLA_NET_NS_FD ∨ type = IFLA_NET_NS_PID then
    let reference ← namespaceReference c.namespaceRef type data
    return { c with namespaceRef := some reference }
  else if type = IFLA_EXT_MASK then
    let _ ← number data
    return c
  else if type = IFLA_LINKINFO then return c
  else if type = IFLA_AF_SPEC then afSpec c data
  else if type = IFLA_PROTINFO then protinfo c data
  else throw .EOPNOTSUPP

def bridgeInfo (data : Bytes) : Except Errno LinkChange := do
  let table ← attributes data IFLA_BR_MAX
  eachType table IFLA_BR_MAX (fun c type data => do
    let value ← number data
    if type = IFLA_BR_FORWARD_DELAY then return { c with forwardDelay := some value }
    else
      failIf (type ≠ IFLA_BR_STP_STATE ∨ value ≠ 0) .EOPNOTSUPP
      return c) c

def peerAttribute (type : Nat) (data : Bytes) : Except Errno LinkChange := do
  if type = IFLA_TXQLEN then
    let value ← number data
    return { c with peerTxQueueLength := some value }
  else if type = IFLA_MTU then
    let value ← number data
    return { c with peerMtu := some value }
  else if type = IFLA_ADDRESS then
    let address ← hardwareAddress data
    return { c with peerAddress := some address }
  else if type = IFLA_NET_NS_FD ∨ type = IFLA_NET_NS_PID then
    let reference ← namespaceReference c.peerNamespace type data
    return { c with peerNamespace := some reference }
  else if type = IFLA_LINKINFO then
    let info ← attributes data IFLA_INFO_MAX
    failIf (¬ (info.lookup IFLA_INFO_KIND).any (kindIs · vethName)) .EINVAL
    failIf (info.any fun entry => entry.1 != IFLA_INFO_KIND) .EOPNOTSUPP
    return c
  else
    failIf (type ≠ IFLA_IFNAME) .EOPNOTSUPP
    return c

def ifinfomsgSize : Nat := 16

def vethInfo (data : Bytes) : Except Errno LinkChange := do
  let table ← attributes data VETH_INFO_PEER
  match table.lookup VETH_INFO_PEER with
  | none => throw .EINVAL
  | some peer =>
    failIf (peer.length < ifinfomsgSize) .EINVAL
    failIf (field peer 4 4 ≠ 0 ∨ field peer 8 4 ≠ 0 ∨ field peer 12 4 ≠ 0) .EOPNOTSUPP
    let given ← attributes (peer.drop ifinfomsgSize) IFLA_MAX
    let c ← eachType given IFLA_MAX peerAttribute c
    match given.lookup IFLA_IFNAME with
    | none => return c
    | some data =>
      let name ← nameString data
      return { c with peerName := some name }

def linkInfo (data : Bytes) : Except Errno LinkChange := do
  let info ← attributes data IFLA_INFO_MAX
  match info.lookup IFLA_INFO_KIND with
  | none => throw .EINVAL
  | some kind =>
    failIf (info.any fun entry => entry.1 != IFLA_INFO_KIND && entry.1 != IFLA_INFO_DATA) .EOPNOTSUPP
    let given := info.lookup IFLA_INFO_DATA
    if kindIs kind bridgeName then
      match given with
      | none => return { c with kind := some .bridge }
      | some data => bridgeInfo { c with kind := some .bridge } data
    else if kindIs kind vxlanName then
      match given with
      | none => throw .EINVAL
      | some data =>
        let config ← vxlanParse data
        return { c with kind := some .vxlan, vxlan := config }
    else if kindIs kind vethName then
      match given with
      | none | some [] => return { c with kind := some .veth }
      | some data => vethInfo { c with kind := some .veth } data
    else throw .EOPNOTSUPP

variable (m : Message)

/-- An IPv6 link may be changed by its index, never made. -/
def ipv6Update (family index : UInt32) : Bool :=
  family == AF_INET6 && index != 0 && (m.type == RTM_SETLINK || m.type == RTM_NEWLINK && !has m.flags NLM_F_CREATE)

def familyQuery (family : UInt32) : Bool :=
  m.type == RTM_GETLINK && (family == AF_INET6 || family == AF_INET || family == AF_UNIX)

def parseLink : Except Errno LinkChange := do
  failIf (m.body.length < ifinfomsgSize) .EINVAL
  let family := field m.body 0 1
  let index := field m.body 4 4
  failIf (index ≥ 0x80000000) .EINVAL
  failIf (family ≠ AF_UNSPEC ∧ family ≠ AF_PACKET ∧ family ≠ AF_BRIDGE ∧ ¬ familyQuery m family ∧
    ¬ ipv6Update m family index) .EINVAL
  let start : LinkChange := { index := index, change := field m.body 12 4, flags := field m.body 8 4, family := family }
  let table ← attributes (m.body.drop ifinfomsgSize) IFLA_MAX
  let c ← eachType table IFLA_MAX linkAttribute start
  match table.lookup IFLA_LINKINFO with
  | none => return c
  | some data => linkInfo c data

end

/-- The flags a request may change on a link. -/
def mutableFlags (link : Option Interface) : UInt32 :=
  let common := IFF_UP ||| IFF_MULTICAST ||| IFF_PROMISC ||| IFF_ALLMULTI
  if link.any (·.kind == .tun) then common ||| IFF_NOARP else common

def badMtu (mtu : Option UInt32) : Bool := mtu.any fun mtu => decide (mtu < 68 ∨ mtu > 65535)

def badAddress (address : Option Bytes) : Bool :=
  address.any fun mac => mac.headD 0 &&& 1 != 0 || mac == replicate 6 0

/-- The checks that come before any change. -/
def changeChecks (links : List Interface) (c : LinkChange) (link : Option Interface) : Except Errno Unit := do
  let fixed := ~~~ mutableFlags link
  failIf (has c.change fixed ∧ ¬ link.any fun link => (link.flags ^^^ c.flags) &&& c.change &&& fixed == 0) .EOPNOTSUPP
  failIf (badMtu c.mtu) .EOPNOTSUPP
  failIf (badMtu c.peerMtu) .EINVAL
  failIf (badAddress c.address ∨ badAddress c.peerAddress) .EADDRNOTAVAIL
  failIf (c.address.isSome ∧ link.any (·.kind == .loopback)) .EOPNOTSUPP
  failIf (c.master.any fun master => master != 0 &&
    !(interfaceFind links master none).any (·.kind == .bridge)) .EINVAL
  failIf ((c.hairpin.isSome ∨ c.isolated.isSome) ∧
    ¬ link.any fun link => link.kind == .veth && c.master.getD link.master != 0) .EINVAL

def numberedName (kind : Bytes) (i : Nat) : Bytes := (kind ++ (Nat.toDigits 10 i).map fun c => c.toNat.toUInt8).take 15

def automaticName (links : List Interface) (kind : Bytes) (avoid : Option Bytes) : Except Errno Bytes :=
  match (range 65535).find? fun i =>
      avoid != some (numberedName kind i) && (interfaceFind links 0 (some (numberedName kind i))).isNone with
  | some i => .ok (numberedName kind i)
  | none => .error .ENFILE

/-- The bytes of "br". -/
def brName : Bytes := [98, 114]

def automaticKind : NewKind → Bytes
  | .veth => vethName
  | .vxlan => vxlanName
  | .bridge => brName

def Namespace.modifyLink (n : Namespace) (position : Nat) (change : Interface → Interface) : Namespace :=
  { n with links := n.links.modify position change }

variable (c : LinkChange)

def peerSettings (index : UInt32) (link : Interface) : Interface :=
  { link with
    peer := index
    txQueueLength := c.peerTxQueueLength.getD link.txQueueLength
    mtu := c.peerMtu.getD link.mtu
    address := c.peerAddress.getD link.address }

/-- The configuration of a new tunnel. Its link stays when the underlay is too small. -/
def vxlanSettings (n : SpaceId) (c : LinkChange) (position : Nat) : EStateM Errno Fabric Unit := do
  modify fun f => f.put n ((f.space n).modifyLink position fun link => { link with vxlan := c.vxlan })
  let f ← get
  let underlay := if c.vxlan.link ≠ 0 then interfaceFind (f.space n).links c.vxlan.link none else none
  let mtu := (underlay.map Interface.mtu).getD 1500
  let overhead : UInt32 := if c.vxlan.localAddress.family = AF_INET6 then 70 else 50
  rejectIf (mtu < overhead + 68) .EINVAL
  modify fun f => f.put n ((f.space n).modifyLink position fun link => { link with mtu := mtu - overhead })

variable (grows : SpaceId → Bool)

/-- Make the peer of a new veth link and give its index; without it the link goes again. -/
def createPeer (n peerSpace : SpaceId) (c : LinkChange) (index : UInt32) (peerName : Bytes) :
    EStateM Errno Fabric UInt32 := do
  let before ← get
  match (interfaceAdd (grows peerSpace) peerSpace .veth peerName).run before with
  | .error error after =>
    set (leaves (interfaceRemove n index) after)
    throw error
  | .ok peer after =>
    set after
    match findLink (after.space peerSpace).links peer none with
    | none => return peer
    | some position =>
      modify fun f => f.put peerSpace ((f.space peerSpace).modifyLink position (peerSettings c index))
      return peer

def newNames (f : Fabric) (n : SpaceId) (c : LinkChange) (kind : NewKind) (peerSpace : SpaceId) :
    Except Errno (Bytes × Option Bytes) := do
  let name ← match c.name with
    | some name => .ok name
    | none => automaticName (f.space n).links (automaticKind kind) (if peerSpace = n then c.peerName else none)
  let peerName ← match c.peerName with
    | some peerName => .ok (some peerName)
    | none =>
      if kind = .veth then
        (automaticName (f.space peerSpace).links vethName (if peerSpace = n then some name else none)).map some
      else .ok none
  failIf (peerSpace = n ∧ peerName = some name) .EINVAL
  failIf (peerName.isSome ∧ (interfaceFind (f.space peerSpace).links 0 peerName).isSome) .EEXIST
  return (name, peerName)

/-- Room for a new link, and for a peer in another namespace. -/
def reserveLinks (n : SpaceId) (kind : NewKind) (peerSpace : SpaceId) : EStateM Errno Fabric Unit := do
  let f ← get
  let own ← ofExcept
    (interfaceReserve (f.space n) (if kind = .veth ∧ peerSpace = n then 2 else 1) (grows n))
  set (f.put n own)
  if peerSpace ≠ n then
    let other ← ofExcept (interfaceReserve (f.space peerSpace) 1 (grows peerSpace))
    modify fun f => f.put peerSpace other

/-- Tie a new link to its peer and give a tunnel its configuration. -/
def finishLink (n : SpaceId) (c : LinkChange) (kind : NewKind) (index peer : UInt32) : EStateM Errno Fabric Nat := do
  let f ← get
  match findLink (f.space n).links index none with
  | none => throw .ENODEV
  | some position =>
    modify fun f => f.put n ((f.space n).modifyLink position fun link => { link with peer := peer })
    if kind = .vxlan then vxlanSettings n c position
    return position

def createLink (n : SpaceId) (c : LinkChange) (kind : NewKind) (peerSpace : SpaceId) : EStateM Errno Fabric Nat := do
  let f ← get
  let names ← ofExcept (newNames f n c kind peerSpace)
  reserveLinks grows n kind peerSpace
  let index ← interfaceAdd (grows n) n kind.kind names.1
  if kind = .veth then
    let peer ← createPeer grows n peerSpace c index (names.2.getD [])
    finishLink n c kind index peer
  else finishLink n c kind index 0

def linkSettings (link : Interface) : Interface :=
  let link := { link with flags := (link.flags &&& ~~~ c.change) ||| (c.flags &&& c.change) }
  let link := match c.master with
    | some master => if link.master ≠ master then { link with master := master, hairpin := 0, isolated := 0 } else link
    | none => link
  let link := match c.mtu with
    | some mtu =>
      let ipv6Mtu := if link.ipv6.mtu = link.mtu ∨ link.ipv6.mtu > mtu then mtu else link.ipv6.mtu
      { link with ipv6 := { link.ipv6 with mtu := ipv6Mtu }, mtu := mtu }
    | none => link
  { link with
    ipv6 := { link.ipv6 with addrGenMode := c.addrgen.getD link.ipv6.addrGenMode }
    txQueueLength := c.txQueueLength.getD link.txQueueLength
    address := c.address.getD link.address
    hairpin := c.hairpin.getD link.hairpin
    isolated := c.isolated.getD link.isolated
    bridgeForwardDelay := c.forwardDelay.getD link.bridgeForwardDelay }

/-- Apply the settings and what follows from a link going down, up, or past the least IPv6 size. -/
def settleLink (position : Nat) (n : Namespace) : Namespace :=
  match n.links[position]? with
  | none => n
  | some old =>
    let wasUp := has old.flags IFF_UP
    let hadMtu : Bool := old.mtu ≥ 1280
    let link := linkSettings c old
    let n := { n with links := n.links.set position link }
    let n := if wasUp ∧ ¬ has link.flags IFF_UP ∨ hadMtu ∧ link.mtu < 1280 then interfaceIpv6Flush n position else n
    if ¬ wasUp ∨ ¬ hadMtu ∧ link.mtu ≥ 1280 then n.modifyLink position interfaceUp else n

/-- The checks of a request on a link that exists. -/
def existingChecks (m : Message) (c : LinkChange) (link : Interface) (peerTarget : Option SpaceId) :
    Except Errno Unit := do
  failIf (m.type = RTM_NEWLINK ∧ has m.flags NLM_F_CREATE ∧ has m.flags NLM_F_EXCL) .EEXIST
  failIf (peerTarget.isSome ∨ c.kind.any (·.kind != link.kind)) .EOPNOTSUPP
  failIf (c.kind = some .vxlan ∧ c.vxlan ≠ link.vxlan) .EOPNOTSUPP

/-- The position of the link a request is about, made if it does not exist. -/
def reachLink (n : SpaceId) (m : Message) (c : LinkChange) (target peerTarget : Option SpaceId)
    (position : Option Nat) : EStateM Errno Fabric Nat := do
  let f ← get
  match position.bind fun place => (f.space n).links[place]?.map fun link => (place, link) with
  | some (place, link) =>
    ofExcept (existingChecks m c link peerTarget)
    return place
  | none =>
    rejectIf (¬ (m.type = RTM_NEWLINK ∧ has m.flags NLM_F_CREATE)) .ENODEV
    match c.kind with
    | none => throw .EOPNOTSUPP
    | some kind =>
      rejectIf (c.index ≠ 0 ∨ target.isSome) .EOPNOTSUPP
      createLink grows n c kind (peerTarget.getD n)

/-- Move or rename the link when the request asks for it. -/
def relocate (n : SpaceId) (c : LinkChange) (target : Option SpaceId) (position : Nat) : EStateM Errno Fabric Nat := do
  let f ← get
  match (f.space n).links[position]? with
  | none => return position
  | some link =>
    if target.any (· != n) ∨ c.name.any (· != link.name) then
      let owner := target.getD n
      interfaceMove (grows owner) n link.index owner c.name
      let f ← get
      match findLink (f.space owner).links link.index none with
      | none => throw .ENODEV
      | some moved => return moved
    else return position

def changeLink (n : SpaceId) (m : Message) (c : LinkChange) (target peerTarget : Option SpaceId) :
    EStateM Errno Fabric Unit := do
  let f ← get
  let position := findLink (f.space n).links c.index c.name
  let link := interfaceFind (f.space n).links c.index c.name
  if m.type = RTM_DELLINK then
    match link with
    | none => throw .ENODEV
    | some link => interfaceRemove n link.index
  else
    ofExcept (changeChecks (f.space n).links c link)
    let position ← reachLink grows n m c target peerTarget position
    let position ← relocate grows n c target position
    rejectIf (target.isSome ∧ c.master.isSome) .EOPNOTSUPP
    let owner := target.getD n
    modify fun f => f.put owner (settleLink c position (f.space owner))

end Shroot.Network
