import Shroot.Nft.Model

namespace Shroot.Nft

open General List
open Network (Attribute eachAttribute ipUnspecified ipLoad AF_INET AF_INET6)

section

open UInt64

def NF_NAT_RANGE_MAP_IPS : UInt32 := 0x1
def NF_NAT_RANGE_PROTO_SPECIFIED : UInt32 := 0x2
def NF_NAT_RANGE_PROTO_RANDOM : UInt32 := 0x4
def NF_NAT_RANGE_PROTO_RANDOM_FULLY : UInt32 := 0x10

def IPSET_INV_MATCH : UInt8 := 0x1
def IPSET_DIM_ONE_SRC : UInt8 := 0x2

/-! The fields of the xtables structures, in native byte order unless they are ports or addresses. -/

variable (info : Bytes) (offset : Nat)

def u8At : UInt8 := info.getD offset 0
def u16At : UInt16 := UInt16.ofNat (littleEndianValue ((info.drop offset).take 2))
def u32At : UInt32 := UInt32.ofNat (littleEndianValue ((info.drop offset).take 4))
def portAt : UInt16 := wirePortValue ((info.drop offset).take 2)
def bytesAt (offset size : Nat) : Bytes := (info.drop offset).take size

/-- The structure of an extension, of exactly this size. -/
def extensionInfo (a : Option Attribute) (size : Nat) : Except Errno Bytes :=
  match a with
  | none => .error .EINVAL
  | some a => if a.flags ≠ 0 ∨ a.data.length ≠ size then .error .EINVAL else .ok a.data

/-- The extensions with their revisions, as bits; targets are marked. -/
def extensions : List (Bytes × Bool × UInt32) :=
  [(ascii "MARK", true, 0x4), (ascii "mark", false, 0x2), (ascii "addrtype", false, 0x2),
    (ascii "conntrack", false, 0x8),
    (ascii "CONNMARK", true, 0x2), (ascii "connmark", false, 0x2), (ascii "set", false, 0x1a),
    (ascii "DNAT", true, 0x7), (ascii "SNAT", true, 0x7), (ascii "MASQUERADE", true, 0x1), (ascii "REJECT", true, 0x1),
    (ascii "tcp", false, 0x1), (ascii "udp", false, 0x1), (ascii "comment", false, 0x1), (ascii "pkttype", false, 0x1),
    (ascii "rpfilter", false, 0x1), (ascii "icmp", false, 0x1), (ascii "icmp6", false, 0x1),
      (ascii "multiport", false, 0x3),
    (ascii "limit", false, 0x1), (ascii "NFLOG", true, 0x1), (ascii "physdev", false, 0x1)]

def compatRevision (family : UInt32) (name : Option Bytes) (revision : Nat) (target : Bool) : Except Errno Unit :=
  match name with
  | none => .error .ENOENT
  | some name =>
    if family ≠ NFPROTO_IPV4 ∧ family ≠ NFPROTO_IPV6 then .error .ENOENT
    else if (name = ascii "icmp" ∧ family ≠ NFPROTO_IPV4) ∨
      (name = ascii "icmp6" ∧ family ≠ NFPROTO_IPV6) then .error .ENOENT
    else if family = NFPROTO_IPV6 ∧ revision = 0 ∧
      (name = ascii "DNAT" ∨ name = ascii "SNAT") then .error .EPROTONOSUPPORT
    else match extensions.find? fun x => x.2.1 == target && x.1 == name with
      | some x => if revision < 32 ∧ has x.2.2 (1 <<< UInt32.ofNat revision) then .ok () else .error .EPROTONOSUPPORT
      | none => .error .ENOENT

def compatSupported (family : UInt32) (name : Option Bytes) (revision : Nat) (target : Bool) : Bool :=
  match compatRevision family name revision target with
  | .ok _ => true
  | .error _ => false

/-- `nat_flags`: the random ones are kept. -/
def natFlags (flags : UInt32) (destination : Bool) : Except Errno UInt32 := do
  let random := NF_NAT_RANGE_PROTO_RANDOM ||| NF_NAT_RANGE_PROTO_RANDOM_FULLY
  failIf (has flags (~~~(NF_NAT_RANGE_MAP_IPS ||| NF_NAT_RANGE_PROTO_SPECIFIED ||| random))) .EOPNOTSUPP
  failIf (destination ∧ has flags random) .EOPNOTSUPP
  return flags &&& random

structure NatRange where
  flags : UInt32
  minAddress : Bytes
  maxAddress : Bytes
  minPort : UInt16
  maxPort : UInt16

variable (wire : Option Attribute)

def natRange (family : UInt32) (revision : Nat) : Except Errno NatRange := do
  if revision = 0 ∧ family = NFPROTO_IPV4 then
    let info ← extensionInfo wire 24
    failIf (u32At info 0 ≠ 1) .EOPNOTSUPP
    return { flags := u32At info 4, minAddress := bytesAt info 8 4 ++ replicate 12 0
             maxAddress := bytesAt info 12 4 ++ replicate 12 0, minPort := portAt info 16, maxPort := portAt info 18 }
  else
    let info ← extensionInfo wire (if revision ≤ 1 then 40 else 48)
    return { flags := u32At info 0, minAddress := bytesAt info 4 16, maxAddress := bytesAt info 20 16
             minPort := portAt info 36, maxPort := portAt info 38 }

/-- The codes of the reject target, by its modes. -/
def rejectCodes (family : UInt32) : List (Option Nat) :=
  if family = NFPROTO_IPV6 then [some 0, some 1, some 2, some 3, some 4, none, none, some 5, some 6]
  else [some 0, some 1, some 2, some 3, none, some 9, some 10, none, some 13]

def rejectTarget (family : UInt32) : Except Errno Expression := do
  let info ← extensionInfo wire 8
  let mode := (u32At info 0).toNat
  -- The modes of a reset are the gaps that the codes leave.
  if mode = (if family = NFPROTO_IPV6 then 6 else 7) then return .reject .tcp 0
  else match ((rejectCodes family)[mode]?).join with
    | some code => return .reject (if family = NFPROTO_IPV6 then .icmp6 else .icmp4) code
    | none => throw .EOPNOTSUPP

def connmarkTarget : Except Errno Expression := do
  let info ← extensionInfo wire 16
  let (ctmark, ctmask, nfmask, mode) := (u32At info 0, u32At info 4, u32At info 8, u8At info 12)
  failIf (mode > 2) .EOPNOTSUPP
  return if mode = 2 then .metaSet (.copy nfmask ctmask)
    else if mode = 0 then .ctSet (.constant ctmark ctmask)
    else .ctSet (.copy ctmask nfmask)

/-- The translations: MASQUERADE, DNAT and SNAT. -/
def natTarget (name : Bytes) (protocol : UInt32) (revision : Nat) : Except Errno Expression := do
  let family := if protocol = NFPROTO_IPV6 then AF_INET6 else AF_INET
  let destination : Bool := name = ascii "DNAT"
  let range ← natRange wire protocol revision
  let flags ← natFlags range.flags destination
  let mapsIps := has range.flags NF_NAT_RANGE_MAP_IPS
  let specified := has range.flags NF_NAT_RANGE_PROTO_SPECIFIED
  failIf (specified ∧ range.minPort > range.maxPort) .EINVAL
  let ports : NatPort := if specified then .constant range.minPort (some range.maxPort) else .keep
  if name = ascii "MASQUERADE" then
    failIf (mapsIps ∨ ipUnspecified (ipLoad family range.minAddress) = false ∨
      ipUnspecified (ipLoad family range.maxAddress) = false ∨
      (specified = false ∧ (range.minPort ≠ 0 ∨ range.maxPort ≠ 0))) .EOPNOTSUPP
    return .masquerade ports flags
  else
    let size := Network.ipSize family
    failIf ((mapsIps ∧ range.minAddress.take size ≠ range.maxAddress.take size) ∨
      (destination ∧ specified ∧ range.minPort ≠ range.maxPort)) .EOPNOTSUPP
    failIf (mapsIps = false ∧ specified = false) .EOPNOTSUPP
    return .nat destination family (if mapsIps then .constant (range.minAddress.take size) else .keep) ports flags

variable (f : NetworkFilter) (table : Nat)

def target (data : Option Attribute) : Except Errno Expression := do
  let a ← nested data [1, 2, 3]
  let name ← string (a.get 1)
  let revision ← requiredNumber (a.get 2)
  failIf (compatSupported (tableFamily f table) name revision true = false) .EOPNOTSUPP
  let name := name.getD []
  let wire := a.get 3
  if name = ascii "NFLOG" then
    let info ← extensionInfo wire 80
    let label := bytesAt info 12 64
    failIf (u16At info 8 > 1 ∨ 0 ∉ label) .EINVAL
    return .log { group := u16At info 4, label := label.takeWhile (· ≠ 0) }
  else if name = ascii "REJECT" then rejectTarget wire (tableFamily f table)
  else if name = ascii "MARK" then
    let info ← extensionInfo wire 8
    return .metaSet (.constant (u32At info 0) (u32At info 4))
  else if name = ascii "CONNMARK" then connmarkTarget wire
  else natTarget wire name (tableFamily f table) revision

/-- The ranges of a multiport match: a port that begins one is flagged. -/
def portRanges : List (UInt16 × UInt8) → Except Errno (List (UInt16 × UInt16))
  | [] => .ok []
  | (port, 0) :: rest => do return (port, port) :: (← portRanges rest)
  | (first, 1) :: (last, 0) :: rest => do
    failIf (first > last) .EINVAL
    return (first, last) :: (← portRanges rest)
  | _ => .error .EINVAL

def multiportMatch (revision : Nat) : Except Errno Expression := do
  let info ← extensionInfo wire (if revision = 0 then 32 else 48)
  let (flags, count) := (u8At info 0, (u8At info 1).toNat)
  -- The first revision has neither ranges nor an inversion.
  let rangeFlag i := if revision = 0 then 0 else u8At info (32 + i)
  let invert := if revision = 0 then 0 else u8At info 47
  failIf (count = 0 ∨ count > 15 ∨ flags > 2 ∨ invert > 1) .EINVAL
  let ranges ← portRanges ((range count).map fun i => (u16At info (2 + 2 * i), rangeFlag i))
  return .multiport { ranges, direction := flags.toUInt32, invert := invert == 1 }

def ipsetFind (index : Nat) : Option ElementSet := f.sets.find? fun s => s.ipset.isSome && s.ipsetIndex == index

def setMatch (wire : Option Attribute) (revision : Nat) : Except Errno Expression := do
  let info ← extensionInfo wire (if revision = 1 then 8 else 48)
  -- Where the comparisons of counters lie depends on the revision.
  if revision = 3 then failIf (u8At info 8 ≠ 0 ∨ u8At info 24 ≠ 0 ∨ u32At info 40 ≠ 0) .EOPNOTSUPP
  else if revision = 4 then failIf (u8At info 16 ≠ 0 ∨ u8At info 32 ≠ 0 ∨ u32At info 40 ≠ 0) .EOPNOTSUPP
  let (index, dim, flags) := (u16At info 0, u8At info 2, u8At info 3)
  failIf (dim ≠ 1 ∨ flags &&& ~~~(IPSET_INV_MATCH ||| IPSET_DIM_ONE_SRC) ≠ 0) .EOPNOTSUPP
  match ipsetFind f index.toNat with
  | none => throw .ENOENT
  | some s =>
    failIf (s.ipsetFamily ≠ tableFamily f table) .EINVAL
    return .ipset s.handle (flags &&& IPSET_DIM_ONE_SRC != 0) (flags &&& IPSET_INV_MATCH != 0)

def limitMatch : Except Errno Expression := do
  let info ← extensionInfo wire 40
  let cost := (u32At info 0).toNat * 100000
  let burst := (u32At info 4).toNat
  failIf (cost = 0 ∨ burst = 0 ∨ cost > (2 ^ 64 - 1) / burst) .ERANGE
  return .limit { cost := ofNat cost, capacity := ofNat (cost * burst), credit := ofNat (cost * burst) }

def physdevMatch : Except Errno Expression := do
  let info ← extensionInfo wire 72
  let (invert, flags) := ((u8At info 64).toUInt32, (u8At info 65).toUInt32)
  failIf (flags = 0 ∨ flags &&& ~~~0x1f ≠ 0 ∨ invert &&& ~~~flags ≠ 0) .EINVAL
  return .physdev { names := (bytesAt info 0 16, bytesAt info 32 16), masks := (bytesAt info 16 16,
    bytesAt info 48 16), flags, invert }

def conntrackMatch : Except Errno Expression := do
  let info ← extensionInfo wire 168
  let (matchFlags, invertFlags, stateMask) := (u16At info 146, u16At info 148, (u16At info 150).toUInt32)
  -- The aliases for translated flows come after the states.
  let (snat, dnat) : UInt32 × UInt32 := (0x40, 0x80)
  failIf (matchFlags ≠ 1 ∨ invertFlags &&& ~~~1 ≠ 0 ∨ stateMask &&& ~~~(15 ||| snat ||| dnat) ≠ 0) .EOPNOTSUPP
  return .stateMatch (stateMask &&& 15)
    ((if has stateMask snat then IPS_SRC_NAT else 0) ||| (if has stateMask dnat then IPS_DST_NAT else 0))
      (invertFlags &&& 1 != 0)

/-- The transport matches, `tcp` and `udp`. -/
def transportMatch (tcp : Bool) : Except Errno Expression := do
  let info ← extensionInfo wire 16
  let inversion := if tcp then u8At info 11 else u8At info 8
  failIf (inversion &&& ~~~3 ≠ 0 ∨ (tcp ∧ (u8At info 8 ≠ 0 ∨ u8At info 9 ≠ 0 ∨ u8At info 10 ≠ 0))) .EOPNOTSUPP
  let source := (u16At info 0, u16At info 2)
  let destination := (u16At info 4, u16At info 6)
  failIf (source.1 > source.2 ∨ destination.1 > destination.2) .EINVAL
  return .transport { source, destination, protocol := if tcp then IPPROTO_TCP else IPPROTO_UDP
                      invertSource := inversion &&& 1 != 0, invertDestination := inversion &&& 2 != 0 }

def compatMatch (data : Option Attribute) : Except Errno Expression := do
  let a ← nested data [1, 2, 3]
  let name ← string (a.get 1)
  let revision ← requiredNumber (a.get 2)
  failIf (compatSupported (tableFamily f table) name revision false = false) .EOPNOTSUPP
  let name := name.getD []
  let wire := a.get 3
  if name = ascii "physdev" then physdevMatch wire
  else if name = ascii "limit" then limitMatch wire
  else if name = ascii "multiport" then multiportMatch wire revision
  else if name = ascii "set" then setMatch f table wire revision
  else if name = ascii "icmp" ∨ name = ascii "icmp6" then
    let info ← extensionInfo wire 8
    failIf (u8At info 3 &&& ~~~1 ≠ 0) .EINVAL
    return .icmpMatch (if tableFamily f table = NFPROTO_IPV4 then IPPROTO_ICMP else IPPROTO_ICMPV6)
      (u8At info 0) (u8At info 1) (u8At info 2) (u8At info 3 != 0)
  else if name = ascii "pkttype" then
    let info ← extensionInfo wire 8
    failIf (u32At info 0 > 255 ∨ u32At info 4 > 1) .EINVAL
    return .packetType (u32At info 0) (u32At info 4 == 1)
  else if name = ascii "rpfilter" then
    let info ← extensionInfo wire 8
    failIf (u8At info 0 > 15) .EINVAL
    return .reversePath (u8At info 0).toUInt32
  else if name = ascii "addrtype" then
    let info ← extensionInfo wire 8
    let (source, destination, flags) := ((u16At info 0).toUInt32, (u16At info 2).toUInt32, u32At info 4)
    failIf (flags > 3 ∨ (source ||| destination) &&& ~~~0x6 ≠ 0) .EOPNOTSUPP
    return .addressType source destination (has flags 1) (has flags 2)
  else if name = ascii "mark" ∨ name = ascii "connmark" then
    let info ← extensionInfo wire 16
    failIf (u8At info 8 > 1) .EINVAL
    return if name = ascii "connmark" then .connmarkMatch (u32At info 0) (u32At info 4) (u8At info 8 == 1)
      else .markMatch (u32At info 0) (u32At info 4) (u8At info 8 == 1)
  else if name = ascii "comment" then
    let _ ← extensionInfo wire 256
    return .verdict .continue_
  else if name = ascii "conntrack" then conntrackMatch wire
  else transportMatch wire (name = ascii "tcp")

end

open UInt32

/-- The bytes of the registers that the expressions so far have written. -/
abbrev Initialized := BitVec 64

abbrev Parse := EStateM Errno Initialized

def Parse.lift {α : Type} (result : Except Errno α) : Parse α := MonadExcept.ofExcept result

def NFT_REG_VERDICT : Nat := 0

/-- Where a register starts; 64 stands for none. -/
def registerStart (id : Nat) : Nat :=
  if 1 ≤ id ∧ id ≤ 4 then (id - 1) * 16 else if 8 ≤ id ∧ id ≤ 23 then (id - 8) * 4 else 64

def registerMask (start covered : Nat) : Initialized := (BitVec.allOnes 64 >>> (64 - covered)) <<< start

variable (a : Option Attribute)

/-- The start of a register that has the size, as `reg` checks it. -/
def registerOf (size : Nat) : Parse Nat := do
  let start := registerStart (← Parse.lift (requiredNumber a))
  rejectIf (size = 0 ∨ size > 64 ∨ start > 64 - size) .EINVAL
  return start

/-- `reg` for a register that is read. -/
def readRegister (size : Nat) : Parse Nat := do
  let start ← registerOf a size
  let mask := registerMask start size
  rejectIf ((← get) &&& mask ≠ mask) .EINVAL
  return start

/-- `reg` for a register that is written: up to its last word. -/
def writeRegister (size : Nat) : Parse Nat := do
  let start ← registerOf a size
  modify (· ||| registerMask start ((size + 3) / 4 * 4))
  return start

def dataValue : Except Errno Bytes := do
  let attrs ← nested a [1]
  match attrs.get 1 with
  | none => throw .EINVAL
  | some v =>
    failIf (v.flags ≠ 0 ∨ v.data.length = 0 ∨ v.data.length > 16) .EINVAL
    return v.data

/-- The verdict that a code without a chain stands for. -/
def plainVerdict (code : Nat) : Option Verdict :=
  if code = 0 then some .drop
  else if code = 1 then some .accept
  else if code = 2 ^ 32 - 1 then some .continue_
  else if code = 2 ^ 32 - 2 then some .break_
  else if code = 2 ^ 32 - 5 then some .return_
  else none

variable (f : NetworkFilter) (table : Nat)

def nftVerdict (a : Option Attribute) : Except Errno Verdict := do
  let b ← nested a [2]
  let v ← nested (b.get 2) [1, 2, 3]
  let code ← requiredNumber (v.get 1)
  if code = 2 ^ 32 - 3 ∨ code = 2 ^ 32 - 4 then
    let chain ← string (v.get 2)
    let id ← number (v.get 3) 4
    match chainFind f table chain 0 (ofNat id) with
    | none => throw .ENOENT
    | some c =>
      failIf c.hook.isSome .EOPNOTSUPP
      return if code = 2 ^ 32 - 3 then .jump c.handle else .goto c.handle
  else
    failIf ((v.get 2).isSome ∨ (v.get 3).isSome) .EINVAL
    match plainVerdict code with
    | some verdict => return verdict
    | none => throw .EOPNOTSUPP

/-- `md_nft_set`: by its name, or by the id that it has in the batch. -/
def nftSet (name : Option Bytes) (id : UInt32) : Option ElementSet :=
  (name.bind fun name => setFind f table (some name) 0 0).or (if id ≠ 0 then setFind f table none 0 id else none)

section

variable (f : NetworkFilter) (table : Nat) (data : Option Attribute)

def parseReject : Parse Expression := do
  let a ← Parse.lift (nested data [1, 2])
  let value ← Parse.lift (requiredNumber (a.get 1))
  let code := a.get 2
  rejectIf (code.any fun c => decide (c.flags ≠ 0 ∨ c.data.length ≠ 1)) .EINVAL
  if value = 1 then return .reject .tcp 0
  else match code with
    | none => throw .EINVAL
    | some c =>
      let code := (c.data.headD 0).toNat
      let family := tableFamily f table
      let type : RejectType :=
        if value = 2 ∧ family = NFPROTO_INET then .icmpx
        else if value = 0 ∧ family = NFPROTO_IPV4 then .icmp4
        else if value = 0 ∧ family = NFPROTO_IPV6 then .icmp6
        else .none
      rejectIf (rejectValid type code = false) .EOPNOTSUPP
      return .reject type code

def parseImmediate : Parse Expression := do
  let a ← Parse.lift (nested data [1, 2])
  let value ← Parse.lift (requiredNumber (a.get 1))
  if value = NFT_REG_VERDICT then return .verdict (← Parse.lift (nftVerdict f table (a.get 2)))
  else
    let bytes ← Parse.lift (dataValue (a.get 2))
    return .immediate (← writeRegister (a.get 1) bytes.length) bytes

def metaKeyOf (key : Nat) : Option MetaKey :=
  [(3, MetaKey.mark), (4, .iif), (5, .oif), (6, .iifname), (7, .oifname), (15, .nfproto), (16, .l4proto),
    (19, .pkttype)].lookup key

def MetaKey.size : MetaKey → Nat
  | .nfproto | .l4proto | .pkttype => 1
  | .iifname | .oifname => 16
  | .mark | .iif | .oif => 4

def parseMeta : Parse Expression := do
  let a ← Parse.lift (nested data [1, 2, 3])
  let key := metaKeyOf (← Parse.lift (requiredNumber (a.get 2)))
  if (a.get 3).isSome then
    rejectIf (key ≠ some .mark ∨ (a.get 1).isSome) .EOPNOTSUPP
    return .metaSet (.register (← readRegister (a.get 3) 4))
  else match key with
    | none => throw .EOPNOTSUPP
    | some key => return .meta_ key key.size (← writeRegister (a.get 1) key.size)

/-- Which bytes of the header can be loaded: the protocol and the addresses, or the ports. -/
def payloadAllowed (family : UInt32) (base : PayloadBase) (offset size : Nat) : Bool :=
  match base with
  | .network =>
    let v4 := (offset = 9 && size = 1) || (12 ≤ offset && offset < 20 && size ≤ 20 - offset)
    let v6 := (offset = 6 && size = 1) || (8 ≤ offset && offset < 40 && size ≤ 40 - offset)
    (family != NFPROTO_IPV6 && v4) || (family != NFPROTO_IPV4 && v6)
  | .transport => offset < 4 && size ≤ 4 - offset

def parsePayload : Parse Expression := do
  let a ← Parse.lift (nested data [1, 2, 3, 4])
  let key ← Parse.lift (requiredNumber (a.get 2))
  let offset ← Parse.lift (requiredNumber (a.get 3))
  let size ← Parse.lift (requiredNumber (a.get 4))
  match (if key = 1 then some PayloadBase.network else if key = 2 then some .transport else none) with
  | none => throw .EOPNOTSUPP
  | some base =>
    rejectIf (payloadAllowed (tableFamily f table) base offset size = false) .EOPNOTSUPP
    return .payload base offset size (← writeRegister (a.get 1) size)

def parseCompare : Parse Expression := do
  let a ← Parse.lift (nested data [1, 2, 3])
  let operation ← Parse.lift (requiredNumber (a.get 2))
  rejectIf (operation > 1) .EOPNOTSUPP
  let value ← Parse.lift (dataValue (a.get 3))
  return .compare (operation == 0) (← readRegister (a.get 1) value.length) value

def parseRange : Parse Expression := do
  let a ← Parse.lift (nested data [1, 2, 3, 4])
  let operation ← Parse.lift (requiredNumber (a.get 2))
  rejectIf (operation > 1) .EOPNOTSUPP
  let low ← Parse.lift (dataValue (a.get 3))
  let high ← Parse.lift (dataValue (a.get 4))
  rejectIf (high.length ≠ low.length ∨ memcmp low.length low high = .gt) .EINVAL
  return .range (operation == 0) (← readRegister (a.get 1) low.length) low high

def parseBitwise : Parse Expression := do
  let a ← Parse.lift (nested data [1, 2, 3, 4, 5, 6])
  let size ← Parse.lift (requiredNumber (a.get 3))
  let operation ← Parse.lift (number (a.get 6) 4)
  rejectIf (operation ≠ 0) .EOPNOTSUPP
  let mask ← Parse.lift (dataValue (a.get 4))
  rejectIf (mask.length ≠ size) .EINVAL
  let xor ← Parse.lift (dataValue (a.get 5))
  rejectIf (xor.length ≠ size) .EINVAL
  let src ← readRegister (a.get 1) size
  return .bitwise src (← writeRegister (a.get 2) size) mask xor

def parseCt : Parse Expression := do
  let a ← Parse.lift (nested data [1, 2, 4])
  let key := [(0, CtKey.state), (2, .status), (3, .mark)].lookup (← Parse.lift (requiredNumber (a.get 2)))
  if (a.get 4).isSome then
    rejectIf (key ≠ some .mark ∨ (a.get 1).isSome) .EOPNOTSUPP
    return .ctSet (.register (← readRegister (a.get 4) 4))
  else match key with
    | none => throw .EOPNOTSUPP
    | some key => return .ct key (← writeRegister (a.get 1) 4)

def parseFib : Parse Expression := do
  let a ← Parse.lift (nested data [1, 2, 3])
  let result := [(1, FibResult.oif), (2, .oifname), (3, .addrtype)].lookup (← Parse.lift (requiredNumber (a.get 2)))
  let flags := ofNat (← Parse.lift (requiredNumber (a.get 3)))
  let address := flags &&& (NFTA_FIB_F_DADDR ||| NFTA_FIB_F_SADDR)
  let device := flags &&& (NFTA_FIB_F_IIF ||| NFTA_FIB_F_OIF)
  rejectIf ((address ≠ NFTA_FIB_F_DADDR ∧ address ≠ NFTA_FIB_F_SADDR) ∨ device = NFTA_FIB_F_IIF ||| NFTA_FIB_F_OIF ∨
    flags > 0x3f) .EINVAL
  match result with
  | none => throw .EINVAL
  | some result =>
    rejectIf (result ≠ .addrtype ∧ has flags NFTA_FIB_F_OIF) .EINVAL
    let size := if result = .oifname then 16 else 4
    return .fib result flags size (← writeRegister (a.get 1) size)

def parseLookup : Parse Expression := do
  let a ← Parse.lift (nested data [1, 2, 3, 4, 5])
  let name ← Parse.lift (string (a.get 1))
  let id ← Parse.lift (number (a.get 4) 4)
  let flags ← Parse.lift (number (a.get 5) 4)
  rejectIf (flags > 1) .EOPNOTSUPP
  match nftSet f table name (ofNat id) with
  | none => throw .ENOENT
  | some s =>
    let src ← readRegister (a.get 2) s.keySize
    if has s.flags NFT_SET_MAP then
      let value ← Parse.lift (requiredNumber (a.get 3))
      rejectIf (flags ≠ 0) .EINVAL
      if s.dataSize ≠ 0 then return .dataMap s.handle src s.keySize (← writeRegister (a.get 3) s.dataSize) s.dataSize
      else
        rejectIf (value ≠ NFT_REG_VERDICT) .EINVAL
        return .verdictMap s.handle src s.keySize
    else
      rejectIf (a.get 3).isSome .EINVAL
      return .lookup s.handle src s.keySize (flags == 1)

/-- The address registers of a translation; both bounds must be the same. -/
def parseNatAddress (a : Fields) (size : Nat) : Parse NatAddress :=
  match a.get 3, a.get 4 with
  | none, none => return .keep
  | none, some _ => throw .EINVAL
  | some min, none => return .register (← readRegister (some min) size)
  | some min, some max => do
    let offset ← readRegister (some min) size
    let other ← readRegister (some max) size
    rejectIf (other ≠ offset) .EOPNOTSUPP
    return .register offset

def parseNatPorts (min max : Option Attribute) : Parse NatPort :=
  match min, max with
  | none, none => return .keep
  | none, some _ => throw .EINVAL
  | some min, none => return .register (← readRegister (some min) 2) none
  | some min, some max => do
    let offset ← readRegister (some min) 2
    return .register offset (some (← readRegister (some max) 2))

/-- Whether the ports of a destination translation would be a range. -/
def NatPort.isRange : NatPort → Bool
  | .register offset (some max) => max != offset
  | _ => false

def parseNat : Parse Expression := do
  let a ← Parse.lift (nested data [1, 2, 3, 4, 5, 6, 7])
  let operation ← Parse.lift (requiredNumber (a.get 1))
  let value := ofNat (← Parse.lift (requiredNumber (a.get 2)))
  let wanted := ofNat (← Parse.lift (number (a.get 7) 4))
  rejectIf ((value ≠ NFPROTO_IPV4 ∧ value ≠ NFPROTO_IPV6) ∨ operation > 1) .EOPNOTSUPP
  let flags ← Parse.lift (natFlags wanted (operation == 1))
  rejectIf (tableFamily f table ≠ NFPROTO_INET ∧ tableFamily f table ≠ value) .EAFNOSUPPORT
  let family := if value = NFPROTO_IPV6 then AF_INET6 else AF_INET
  let address ← parseNatAddress a (Network.ipSize family)
  let ports ← parseNatPorts (a.get 5) (a.get 6)
  rejectIf (operation = 1 ∧ ports.isRange) .EOPNOTSUPP
  rejectIf (address = .keep ∧ ports = .keep) .EINVAL
  rejectIf ((has wanted NF_NAT_RANGE_MAP_IPS ∧ address = .keep) ∨
    (has wanted NF_NAT_RANGE_PROTO_SPECIFIED ∧ ports = .keep)) .EINVAL
  return .nat (operation == 1) family address ports flags

def parseLog : Parse Expression := do
  let a ← Parse.lift (nested data [1, 2, 3, 4])
  match a.get 1 with
  | none => throw .EOPNOTSUPP
  | some group =>
    rejectIf (¬ ((group.flags = 0 ∨ group.flags = NLA_F_NET_BYTEORDER) ∧ group.data.length = 2)) .EINVAL
    let _ ← Parse.lift (number (a.get 3) 4)
    rejectIf ((a.get 4).any fun b => decide (¬ ((b.flags = 0 ∨ b.flags = NLA_F_NET_BYTEORDER) ∧ b.data.length = 2)))
      .EINVAL
    -- An empty text is a zero alone.
    let label ← if (a.get 2).any fun b => b.data == [0] && b.flags == 0 then pure none
      else Parse.lift (string (a.get 2))
    rejectIf ((label.getD []).length ≥ 64) .EINVAL
    return .log { group := UInt16.ofNat (bigEndianValue group.data), label := label.getD [] }

def parseLimit : Parse Expression := do
  let a ← Parse.lift (nested data [1, 2, 3, 4, 5])
  let rate ← Parse.lift (number (a.get 1) 8)
  let unit ← Parse.lift (number (a.get 2) 8)
  let burst ← Parse.lift (number (a.get 3) 4)
  let type ← Parse.lift (number (a.get 4) 4)
  let flags ← Parse.lift (number (a.get 5) 4)
  rejectIf (type ≠ 0 ∨ flags ≠ 0) .EOPNOTSUPP
  rejectIf (rate = 0 ∨ unit = 0 ∨ unit > (2 ^ 64 - 1) / 1000000000) .ERANGE
  let cost := unit * 1000000000 / rate
  let burst := if burst = 0 then 5 else burst
  rejectIf (cost = 0 ∨ cost > (2 ^ 64 - 1) / burst) .ERANGE
  return .limit
    { cost := UInt64.ofNat cost, capacity := UInt64.ofNat (cost * burst), credit := UInt64.ofNat (cost * burst) }

def parseCounter : Parse Expression := do
  let a ← Parse.lift (nested data [1, 2])
  let packets ← Parse.lift (number (a.get 2) 8)
  let bytes ← Parse.lift (number (a.get 1) 8)
  return .counter { packets := UInt64.ofNat packets, bytes := UInt64.ofNat bytes }

def parseMasquerade : Parse Expression := do
  let a ← Parse.lift (nested data [1, 2, 3])
  let wanted := ofNat (← Parse.lift (number (a.get 1) 4))
  rejectIf (has wanted NF_NAT_RANGE_MAP_IPS) .EOPNOTSUPP
  let flags ← Parse.lift (natFlags wanted false)
  let ports ← parseNatPorts (a.get 2) (a.get 3)
  rejectIf (ports = .keep ∧ has wanted NF_NAT_RANGE_PROTO_SPECIFIED) .EINVAL
  return .masquerade ports flags

/-- The kinds of expressions that `expression` knows by their names. -/
def expressionParsers : List (Bytes × Parse Expression) :=
  [(ascii "reject", parseReject f table data), (ascii "immediate", parseImmediate f table data),
    (ascii "meta", parseMeta data),
    (ascii "payload", parsePayload f table data), (ascii "cmp", parseCompare data), (ascii "range", parseRange data),
    (ascii "bitwise", parseBitwise data), (ascii "ct", parseCt data), (ascii "fib", parseFib data),
    (ascii "lookup", parseLookup f table data), (ascii "nat", parseNat f table data), (ascii "log", parseLog data),
    (ascii "limit", parseLimit data), (ascii "counter", parseCounter data), (ascii "masq", parseMasquerade data),
    (ascii "target", Parse.lift (target f table data)), (ascii "match", Parse.lift (compatMatch f table data))]

/-- `expression`, and the two kinds of extensions. -/
def parseExpression (name : Bytes) : Parse Expression :=
  match (expressionParsers f table data).lookup name with
  | some parser => parser
  | none => throw .EOPNOTSUPP

end

/-- One expression of a list, after those so far. -/
def parseItem (parsed : List Expression) (item : Attribute) : Parse (List Expression) := do
  rejectIf (item.type ≠ 1 ∨ (item.flags ≠ 0 ∧ item.flags ≠ NLA_F_NESTED)) .EINVAL
  let a ← Parse.lift (fields item.data [1, 2])
  match ← Parse.lift (string (a.get 1)) with
  | none => throw .E2BIG
  | some name =>
    rejectIf (parsed.length = 64) .E2BIG
    -- Without a payload its attributes are none.
    let data := (a.get 2).getD { type := 2, flags := 0, data := [] }
    return parsed ++ [← parseExpression f table (some data) name]

/-- The expressions so far, and the registers that they write. -/
def parseNext (state : List Expression × Initialized) (item : Attribute) :
    Except Errno (List Expression × Initialized) :=
  match (parseItem f table state.1 item).run state.2 with
  | .ok parsed initialized => .ok (parsed, initialized)
  | .error error _ => .error error

/-- `md_nft_expressions`: the expressions of a rule. -/
def nftExpressions (data : Bytes) : Except Errno (List Expression) :=
  (eachAttribute (parseNext f table) ([], 0) data).map Prod.fst

end Shroot.Nft
