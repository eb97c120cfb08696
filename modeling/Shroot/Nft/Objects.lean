import Shroot.Nft.Expressions

namespace Shroot.Nft

open General List Nat UInt32
open Network (Attribute)

def NLM_F_REQUEST : UInt32 := 0x1
def NLM_F_ECHO : UInt32 := 0x8
def NLM_F_DUMP : UInt32 := 0x300
def NLM_F_REPLACE : UInt32 := 0x100
def NLM_F_NONREC : UInt32 := 0x100
def NLM_F_EXCL : UInt32 := 0x200
def NLM_F_APPEND : UInt32 := 0x800

def NFT_DATA_VERDICT : UInt32 := 0xffffff00
def NFT_CHAIN_BASE : Nat := 1

/-- `enum nf_tables_msg_types`, as far as the requests are known. -/
def NFT_MSG_NEWTABLE : Nat := 0
def NFT_MSG_GETTABLE : Nat := 1
def NFT_MSG_DELTABLE : Nat := 2
def NFT_MSG_NEWCHAIN : Nat := 3
def NFT_MSG_GETCHAIN : Nat := 4
def NFT_MSG_DELCHAIN : Nat := 5
def NFT_MSG_NEWRULE : Nat := 6
def NFT_MSG_GETRULE : Nat := 7
def NFT_MSG_DELRULE : Nat := 8
def NFT_MSG_NEWSET : Nat := 9
def NFT_MSG_GETSET : Nat := 10
def NFT_MSG_DELSET : Nat := 11
def NFT_MSG_NEWSETELEM : Nat := 12
def NFT_MSG_GETSETELEM : Nat := 13
def NFT_MSG_DELSETELEM : Nat := 14
def NFT_MSG_GETGEN : Nat := 16
def NFT_MSG_GETOBJ : Nat := 19
def NFT_MSG_GETFLOWTABLE : Nat := 23

/-- A netlink message: its header and what follows it, where a `struct nfgenmsg` comes first. -/
structure Message where
  type : Nat
  flags : UInt32
  body : Bytes

namespace Message

variable (m : Message)

/-- `NFNL_SUBSYS_ID`. -/
def subsystem : Nat := m.type / 256

/-- `NFNL_MSG_TYPE`. -/
def operation : Nat := m.type % 256

def family : UInt32 := (m.body.getD 0 0).toUInt32

def version : UInt8 := m.body.getD 1 0

def resource : Nat := bigEndianValue ((m.body.drop 2).take 2)

def attributes (allowed : List Nat) : Except Errno Fields := fields (m.body.drop 4) allowed

def dumps : Bool := m.flags &&& NLM_F_DUMP == NLM_F_DUMP

end Message

/-- What a request meets outside: whether there is memory for so many objects and for the bytes of a rule, and
how its reply fails to be encoded. -/
structure Outside where
  memory : Nat → Bool := fun _ => true
  wire : Bool := true
  reply : Option Errno := none

abbrev Update := EStateM Errno NetworkFilter

def Update.lift {α : Type} (result : Except Errno α) : Update α := MonadExcept.ofExcept result

variable (o : Outside) (m : Message) (f : NetworkFilter)

def Outside.encode (asked : Bool) : Update Unit :=
  match o.reply with
  | some errno => rejectIf (asked = true) errno
  | none => pure ()

def echo (m : Message) : Update Unit := o.encode (has m.flags NLM_F_ECHO)

def reserve (count limit : Nat) : Update Unit := do
  rejectIf (count > limit) .ENOSPC
  rejectIf (o.memory count = false) .ENOMEM

/-- A handle that no object had. -/
def takeHandle : Update Nat := do
  let f ← get
  rejectIf (f.nextHandle = 2 ^ 64 - 1) .ENOSPC
  modifyGet fun f => (f.nextHandle, { f with nextHandle := f.nextHandle + 1 })

/-- The replies to a query for some of the objects. -/
def answer (found : Nat) : Except Errno Unit :=
  match (if found = 0 then none else o.reply) with
  | some errno => .error errno
  | none => .ok ()

/-- Whether an object of a table is asked for. -/
def selected (f : NetworkFilter) (m : Message) (requested : Option Table) (table : Nat) : Bool :=
  match f.tables.find? (·.handle = table) with
  | some t => (m.family == 0 || t.family == m.family) && requested.all (·.handle = t.handle)
  | none => false

def familySupported (family : UInt32) : Bool :=
  family == NFPROTO_INET || family == NFPROTO_IPV4 || family == NFPROTO_IPV6

/-- What all requests on tables are checked for: their attributes, name and handle. -/
def tableRequest : Except Errno (Fields × Option Bytes × Nat) := do
  let a ← m.attributes ([1, 4, 5] ++ if m.operation = NFT_MSG_NEWTABLE then [2, 6] else [])
  let name ← string (a.get 1)
  let handle ← number (a.get 4) 8
  failIf ((a.get 5).any fun b => decide (b.data ≠ [])) .EINVAL
  failIf (name.isSome ∧ handle ≠ 0) .EINVAL
  failIf (m.family ≠ 0 ∧ familySupported m.family = false) .EAFNOSUPPORT
  return (a, name, handle)

def tableMatches (name : Option Bytes) (handle : Nat) (t : Table) : Bool :=
  (m.family == 0 || t.family == m.family) && name.all (· == t.name) && (handle == 0 || t.handle == handle)

def queryTables (f : NetworkFilter) : Except Errno Unit := do
  let (_, name, handle) ← tableRequest m
  failIf (m.dumps = false ∧ (m.family = 0 ∨ (name = none ∧ handle = 0))) .EINVAL
  let found := f.tables.countP (tableMatches m name handle)
  answer o found
  failIf (m.dumps = false ∧ found = 0) .ENOENT

def filterAdd (family : UInt32) (name userdata : Bytes) : Update Unit := do
  let f ← get
  rejectIf (name = [] ∨ name.length ≥ 256 ∨ userdata.length > 256) .EINVAL
  rejectIf (networkFilterFind f family (some name) 0).isSome .EEXIST
  rejectIf (f.tables.length = 256 ∨ f.nextHandle = 2 ^ 64 - 1) .ENOSPC
  rejectIf (o.memory (f.tables.length + 1) = false) .ENOMEM
  modify fun f => { f with
    tables := f.tables ++ [{ handle := f.nextHandle, family, name, userdata }], nextHandle := f.nextHandle + 1 }

def newTable : Update Unit := do
  let f ← get
  let (a, name, handle) ← Update.lift (tableRequest m)
  rejectIf (m.family = 0 ∨ name = none ∨ handle ≠ 0) .EINVAL
  let flags ← Update.lift (number (a.get 2) 4)
  rejectIf (flags ≠ 0 ∨ has m.flags NLM_F_REPLACE) .EOPNOTSUPP
  let userdata ← Update.lift (blob (a.get 6))
  match networkFilterFind f m.family name 0 with
  | some _ =>
    rejectIf (has m.flags NLM_F_EXCL = true) .EEXIST
    echo o m
  | none =>
    filterAdd o m.family (name.getD []) userdata
    echo o m

/-- Deletes what a table has: its chains with their rules, and its sets. -/
def deleteContents (f : NetworkFilter) (t : Table) : NetworkFilter :=
  { f with
    rules := f.rules.filter fun r => !(f.chains.any fun c => c.table == t.handle && c.handle == r.chain)
    chains := f.chains.filter (·.table != t.handle)
    sets := f.sets.filter (·.table != t.handle) }

def filterDelete (name : Option Bytes) (handle : Nat) (f : NetworkFilter) : NetworkFilter :=
  { (f.tables.filter (tableMatches m name handle)).foldl deleteContents f with
    tables := f.tables.filter (!tableMatches m name handle ·) }

def delTable : Update Unit := do
  let f ← get
  let (_, name, handle) ← Update.lift (tableRequest m)
  rejectIf ((name.isSome ∨ handle ≠ 0) ∧ (m.family = 0 ∨ networkFilterFind f m.family name handle = none)) .ENOENT
  o.encode (has m.flags NLM_F_ECHO && f.tables.any (tableMatches m name handle))
  modify (filterDelete m name handle)

def tableSelector (f : NetworkFilter) (a : Option Attribute) (dump : Bool) : Except Errno (Option Table) := do
  match ← string a with
  | some name =>
    match networkFilterFind f m.family (some name) 0 with
    | some t => return some t
    | none => throw .ENOENT
  | none => if dump then return none else throw .EINVAL

/-- The table of a request that changes it. -/
def tableOf (f : NetworkFilter) (a : Option Attribute) : Except Errno Table := do
  match ← tableSelector m f a false with
  | some t => return t
  | none => throw .EINVAL

def queryChains : Except Errno Unit := do
  let a ← m.attributes [1, 3, 2]
  let t ← tableSelector m f (a.get 1) m.dumps
  let name ← string (a.get 3)
  let handle ← number (a.get 2) 8
  let found :=
    f.chains.countP fun c => selected f m t c.table && name.all (· == c.name) && (handle == 0 || c.handle == handle)
  answer o found
  failIf (m.dumps = false ∧ found = 0) .ENOENT

/-- Where a chain is, as `md_filter_chain_find` finds it. -/
def chainPosition (table : Nat) (name : Option Bytes) (handle : Nat) (id : UInt32) : Option Nat :=
  f.chains.findIdx? fun c => selects table name handle id c.table c.name c.handle c.id

/-- Whether an expression leads to a chain by its own verdict. -/
def Expression.leadsTo (handle : Nat) : Expression → Bool
  | .verdict v => v.target? == some handle
  | _ => false

/-- Whether a chain must stay: for its rules, when it is not to go with them, or for jumps to it. -/
def chainUsed (handle : Nat) (alone : Bool) : Bool :=
  (f.rules.any fun r => if r.chain = handle then alone else r.expressions.any (·.leadsTo handle)) ||
    (f.sets.any fun s => has s.flags NFT_SET_MAP && s.dataType == NFT_DATA_VERDICT &&
      s.elements.any fun e => e.verdict.target? == some handle)

def chainDelete (i handle : Nat) : NetworkFilter :=
  { f with rules := f.rules.filter (·.chain != handle), chains := f.chains.eraseIdx i }

def delChain : Update Unit := do
  let f ← get
  let a ← Update.lift (m.attributes [1, 3, 2, 6])
  let t ← Update.lift (tableOf m f (a.get 1))
  let name ← Update.lift (string (a.get 3))
  let handle ← Update.lift (number (a.get 2) 8)
  match (chainPosition f t.handle name handle 0).bind fun i => f.chains[i]?.map (i, ·) with
  | none => throw .ENOENT
  | some (i, existing) =>
    let _ ← Update.lift (number (a.get 6) 4)
    rejectIf (chainUsed f existing.handle (has m.flags NLM_F_NONREC) = true) .EBUSY
    modify fun f => chainDelete f i existing.handle

section

variable (t : Table) (existing : Option Chain)

/-- The hook of a base chain. -/
def chainHook (a : Fields) (hook : Attribute) (c : Chain) : Except Errno Chain := do
  let b ← nested (some hook) [1, 2]
  let number ← requiredNumber (b.get 1)
  let priority ← requiredNumber (b.get 2)
  let type ← string (a.get 7)
  failIf ((type ≠ some (ascii "filter") ∧ type ≠ some (ascii "nat") ∧ type ≠ some (ascii "route")) ∨
    number ≥ NF_INET_NUMHOOKS ∨
    familySupported t.family = false) .EOPNOTSUPP
  let c := { c with
    nat := decide (type = some (ascii "nat")), reroute := decide (type = some (ascii "route")), hook := some number
    priority := if priority < 2 ^ 31 then priority else (priority : Int) - 2 ^ 32 }
  failIf (c.nat ∧ number = NF_INET_FORWARD) .EOPNOTSUPP
  failIf (c.reroute ∧ number ≠ NF_INET_LOCAL_OUT) .EOPNOTSUPP
  failIf (existing.any fun old => c.hook != old.hook || c.nat != old.nat || c.reroute != old.reroute ||
    c.priority != old.priority)
    .EOPNOTSUPP
  return c

def chainCounters (a : Option Attribute) (c : Chain) : Except Errno Chain :=
  match a with
  | none => .ok c
  | some counters => do
    failIf (c.hook = none) .EOPNOTSUPP
    let b ← nested (some counters) [2, 1]
    failIf (b.get 2 = none ∨ b.get 1 = none) .EINVAL
    let packets ← number (b.get 2) 8
    let bytes ← number (b.get 1) 8
    return { c with counters := true, counter := { packets := UInt64.ofNat packets, bytes := UInt64.ofNat bytes } }

/-- The hook of a chain, or that it is no base chain. -/
def chainPlace (a : Fields) (flags : Nat) (c : Chain) : Except Errno Chain :=
  match a.get 4 with
  | some hook => chainHook t existing a hook c
  | none => do
    failIf ((a.get 7).isSome ∨ (existing = none ∧ (flags ≠ 0 ∨ (a.get 5).isSome))) .EINVAL
    return c

/-- The policy that a request asks for, else the one that is there. -/
def chainPolicy (a : Option Attribute) (c : Chain) : Except Errno Nat :=
  match a with
  | some policy => number (some policy) 4
  | none => .ok (if c.policy = .accept then 1 else 0)

/-- The chain that a request describes, from the one that is there. -/
def chainValue (name : Bytes) (a : Fields) : Except Errno Chain := do
  let c := { existing.getD { table := t.handle, handle := 0, name } with name }
  let flags ← number (a.get 10) 4
  let id ← number (a.get 11) 4
  let policy ← chainPolicy (a.get 5) c
  failIf (flags > NFT_CHAIN_BASE ∨ policy > 1) .EOPNOTSUPP
  let c := { c with id := ofNat id, policy := if policy = 1 then .accept else .drop }
  let c ← chainPlace t existing a flags c
  let c ← chainCounters (a.get 8) c
  match a.get 12 with
  | some data =>
    let userdata ← blob (some data)
    return { c with userdata }
  | none => return c

def addChain (c : Chain) : Update Unit := do
  let f ← get
  reserve o (f.chains.length + 1) 256
  let handle ← takeHandle
  modify fun f => { f with chains := f.chains ++ [{ c with handle }] }

def newChain : Update Unit := do
  let f ← get
  let a ← Update.lift (m.attributes [1, 3, 2, 4, 7, 5, 10, 11, 12, 8])
  let t ← Update.lift (tableOf m f (a.get 1))
  let name ← Update.lift (string (a.get 3))
  let handle ← Update.lift (number (a.get 2) 8)
  match name with
  | none => throw .EOPNOTSUPP
  | some text =>
    rejectIf (has m.flags NLM_F_REPLACE = true) .EOPNOTSUPP
    match (chainPosition f t.handle name handle 0).bind fun i => f.chains[i]?.map (i, ·) with
    | some (i, existing) =>
      rejectIf (has m.flags NLM_F_EXCL = true) .EEXIST
      let c ← Update.lift (chainValue t (some existing) text a)
      modify fun f => { f with chains := f.chains.set i c }
      echo o m
    | none =>
      let c ← Update.lift (chainValue t none text a)
      addChain o c
      echo o m

end

/-- What all requests on rules are checked for: the table, the chain and the handle. -/
def ruleRequest (allowed : List Nat) (dump : Bool) : Except Errno (Fields × Option Table × Option Chain × Nat) := do
  let a ← m.attributes ([1, 2, 3, 11] ++ allowed)
  let t ← tableSelector m f (a.get 1) dump
  let name ← string (a.get 2)
  let handle ← number (a.get 3) 8
  let id ← number (a.get 11) 4
  failIf ((a.get 4).any fun e => decide (e.flags ≠ 0 ∧ e.flags ≠ NLA_F_NESTED)) .EINVAL
  let c := if name.isSome ∨ id ≠ 0 then t.bind fun t => chainFind f t.handle name 0 (ofNat id) else none
  failIf ((name.isSome ∨ id ≠ 0) ∧ c = none) .ENOENT
  return (a, t, c, handle)

def ruleMatches (t : Option Table) (c : Option Chain) (handle : Nat) (r : Rule) : Bool :=
  match chainFind f 0 none r.chain 0 with
  | some chain => selected f m t chain.table && c.all (·.handle == chain.handle) && (handle == 0 || r.handle == handle)
  | none => false

def queryRules : Except Errno Unit := do
  let (_, t, c, handle) ← ruleRequest m f [] m.dumps
  let found := f.rules.countP (ruleMatches m f t c handle)
  answer o found
  failIf (found = 0 ∧ handle ≠ 0) .ENOENT

def delRule : Update Unit := do
  let f ← get
  let (_, t, c, handle) ← Update.lift (ruleRequest m f [4, 7] false)
  modify fun f => { f with rules := f.rules.filter (!ruleMatches m f t c handle ·) }
  rejectIf (f.rules.countP (ruleMatches m f t c handle) = 0 ∧ handle ≠ 0) .ENOENT

/-- The context of xtables extensions, which is only checked. -/
def ruleCompat (a : Option Attribute) : Except Errno Unit :=
  match a with
  | none => .ok ()
  | some compat => do
    let b ← nested (some compat) [1, 2]
    let protocol ← requiredNumber (b.get 1)
    let flags ← requiredNumber (b.get 2)
    failIf (protocol > 65535 ∨ has (ofNat flags) (~~~2)) .EINVAL

/-- Where a rule goes: the position, the rule with the handle, and whether the place was found. -/
structure Place where
  index : Nat
  replace : Option Nat := none
  located : Bool

/-- What a rule of the chain says about the place of another. -/
def placeAt (chain handle position : Nat) (positionId : UInt32) (append : Bool) (count : Nat) (place : Place) (r : Rule)
    (i : Nat) : Place :=
  if r.chain ≠ chain then place
  else
    let place := if handle ≠ 0 ∧ r.handle = handle then { place with replace := some i } else place
    if (position ≠ 0 ∧ r.handle = position) ∨ (positionId ≠ 0 ∧ r.id = positionId) then
      { place with index := if append then i + 1 else i, located := true }
    else if position = 0 ∧ positionId = 0 ∧ append = false ∧ place.index = count then { place with index := i }
    else place

def rulePlace (chain handle position : Nat) (positionId : UInt32) (append : Bool) : Place :=
  f.rules.zipIdx.foldl (fun place (r, i) => placeAt chain handle position positionId append f.rules.length place r i)
    { index := f.rules.length, located := decide (position = 0 ∧ positionId = 0) }

def ruleValue (table chain : Nat) (id : UInt32) (userdata : Option Attribute) (wire : Bytes) : Except Errno Rule := do
  let userdata ← blob userdata
  let expressions ← nftExpressions f table wire
  failIf (wire ≠ [] ∧ o.wire = false) .ENOMEM
  return { chain, handle := 0, id, expressions, wire, userdata }

def addRule (index : Nat) (r : Rule) : Update Unit := do
  let f ← get
  reserve o (f.rules.length + 1) 1024
  let handle ← takeHandle
  modify fun f => { f with rules := f.rules.insertIdx index { r with handle } }

/-- Puts a rule in the place of one that has its handle. -/
def replaceRule (index : Nat) (r : Rule) : Update Unit :=
  modify fun f => { f with rules := f.rules.modify index fun old => { r with handle := old.handle } }

def newRule : Update Unit := do
  let f ← get
  let (a, t, c, handle) ← Update.lift (ruleRequest m f [4, 7, 6, 9, 10, 5] false)
  match t, c, a.get 4 with
  | some t, some c, some expressions =>
    Update.lift (ruleCompat (a.get 5))
    let position ← Update.lift (number (a.get 6) 8)
    let positionId ← Update.lift (number (a.get 10) 4)
    let id ← Update.lift (number (a.get 9) 4)
    let place := rulePlace f c.handle handle position (ofNat positionId) (has m.flags NLM_F_APPEND)
    rejectIf (place.located = false) .ENOENT
    if has m.flags NLM_F_REPLACE then
      match place.replace with
      | none => throw .ENOENT
      | some index =>
        let r ← Update.lift (ruleValue o f t.handle c.handle (ofNat id) (a.get 7) expressions.data)
        replaceRule index r
        echo o m
    else
      rejectIf (handle ≠ 0) .EOPNOTSUPP
      let r ← Update.lift (ruleValue o f t.handle c.handle (ofNat id) (a.get 7) expressions.data)
      addRule o place.index r
      echo o m
  | _, _, _ => throw .EINVAL

def querySets : Except Errno Unit := do
  let a ← m.attributes [1, 2, 16, 10]
  let t ← tableSelector m f (a.get 1) m.dumps
  let name ← string (a.get 2)
  let handle ← number (a.get 16) 8
  let _ ← number (a.get 10) 4
  let found := f.sets.countP fun s => s.ipset.isNone && selected f m t s.table && name.all (· == s.name) &&
    (handle == 0 || s.handle == handle)
  answer o found
  failIf (m.dumps = false ∧ found = 0) .ENOENT

/-- Where a set is, as `md_filter_set_find` finds it. -/
def setPlace (table : Nat) (name : Option Bytes) (handle : Nat) (id : UInt32) : Option Nat :=
  f.sets.findIdx? fun s => selects table name handle id s.table s.name s.handle s.id

def setUsed (handle : Nat) : Bool := f.rules.any fun r => r.expressions.any (·.set? == some handle)

def setDelete (i : Nat) : NetworkFilter := { f with sets := f.sets.eraseIdx i }

def delSet : Update Unit := do
  let f ← get
  let a ← Update.lift (m.attributes [1, 2, 16, 10])
  let t ← Update.lift (tableOf m f (a.get 1))
  let name ← Update.lift (string (a.get 2))
  let handle ← Update.lift (number (a.get 16) 8)
  let id ← Update.lift (number (a.get 10) 4)
  match (setPlace f t.handle name handle (ofNat id)).bind fun i => f.sets[i]?.map (i, ·) with
  | none => throw .ENOENT
  | some (i, s) =>
    rejectIf (setUsed f s.handle = true) .EBUSY
    modify fun f => setDelete f i

def decimal (n : Nat) : Bytes :=
  (if n = 0 then [0] else (Nat.digits 10 n).reverse).map fun digit => 48 + UInt8.ofNat digit

theorem ofDigits_decimal (n : Nat) : Nat.ofDigits 10 ((decimal n).map fun byte => (byte - 48).toNat).reverse = n := by
  have digit : ∀ d < 10, (48 + UInt8.ofNat d - 48).toNat = d := by decide
  unfold decimal
  rw [map_map]
  split
  next zero =>
    rw [zero]
    rfl
  · have same :
      ((digits 10 n).reverse.map ((fun byte : UInt8 => (byte - 48).toNat) ∘ fun digit => 48 + UInt8.ofNat digit)) =
        (digits 10 n).reverse := by
      rw [map_congr_left (g := id), map_id]
      intro d mem
      exact digit d (digits_lt_base (by decide) (mem_reverse.mp mem))
    rw [same, reverse_reverse, ofDigits_digits]

def anonymousName (n : Nat) : Bytes := ascii "__set" ++ decimal n

theorem anonymousName_injective : Function.Injective anonymousName := by
  intro a b same
  have digits : decimal a = decimal b := append_cancel_left same
  rw [← ofDigits_decimal a, ← ofDigits_decimal b, digits]

/-- What the elements of a map are: verdicts, or data of a size. -/
def mapData (flags : UInt32) (type length : Option Attribute) : Except Errno (UInt32 × Nat) :=
  if has flags NFT_SET_MAP then do
    let dataType := ofNat (← requiredNumber type)
    let size ← number length 4
    if dataType = NFT_DATA_VERDICT then
      failIf (size ≠ 0) .EINVAL
      return (dataType, 0)
    else
      failIf (dataType ≥ NFT_DATA_VERDICT ∨ size = 0 ∨ size > 64) .EOPNOTSUPP
      return (dataType, size)
  else do
    failIf (type.isSome ∨ length.isSome) .EINVAL
    return (0, 0)

/-- The size that a set is expected to have. -/
def setDescription (a : Option Attribute) : Except Errno Unit :=
  match a with
  | none => .ok ()
  | some description => do
    let b ← nested (some description) [1]
    let hint ← number (b.get 1) 4
    failIf (hint > 1024) .ENOSPC

/-- The set that a request describes, with the name that it would have as an anonymous one. -/
def setValue (table : Nat) (id : UInt32) (name anonymous : Bytes) (a : Fields) : Except Errno ElementSet := do
  let flags := ofNat (← requiredNumber (a.get 3))
  let keyType := ofNat (← requiredNumber (a.get 4))
  let keySize ← requiredNumber (a.get 5)
  let userdata ← blob (a.get 13)
  failIf (has flags (~~~(NFT_SET_ANONYMOUS ||| NFT_SET_CONSTANT ||| NFT_SET_MAP ||| NFT_SET_INTERVAL)) ∨ keySize = 0 ∨
    keySize > 16)
    .EOPNOTSUPP
  let (dataType, dataSize) ← mapData flags (a.get 6) (a.get 7)
  setDescription (a.get 9)
  let policy ← number (a.get 8) 4
  failIf (policy > 1) .EOPNOTSUPP
  return { table, handle := 0, id, flags, keyType, keySize, dataType, dataSize, userdata
           name := if has flags NFT_SET_ANONYMOUS then anonymous else name }

def addSet (s : ElementSet) : Update Unit := do
  let f ← get
  reserve o (f.sets.length + 1) 256
  let handle ← takeHandle
  modify fun f => { f with sets := f.sets ++ [{ s with handle }] }

def newSetAttributes : List Nat := [1, 2, 16, 10, 3, 4, 5, 8, 9, 13, 6, 7]

def newSet : Update Unit := do
  let f ← get
  let a ← Update.lift (m.attributes newSetAttributes)
  let t ← Update.lift (tableOf m f (a.get 1))
  let name ← Update.lift (string (a.get 2))
  let handle ← Update.lift (number (a.get 16) 8)
  let id ← Update.lift (number (a.get 10) 4)
  match name with
  | none => throw .EINVAL
  | some text =>
    rejectIf (handle ≠ 0 ∨ has m.flags NLM_F_REPLACE) .EINVAL
    if (setPlace f t.handle name handle (ofNat id)).isSome then rejectIf (has m.flags NLM_F_EXCL = true) .EEXIST
    else
      let s ← Update.lift (setValue t.handle (ofNat id) text (anonymousName f.nextHandle) a)
      addSet o s

/-- Where a set is, as `md_nft_set` finds it. -/
def nftSetPlace (table : Nat) (name : Option Bytes) (id : UInt32) : Option Nat :=
  (name.bind fun name => setPlace f table (some name) 0 0).or (if id ≠ 0 then setPlace f table none 0 id else none)

/-- The set that a request on elements names. -/
def elementsRequest : Except Errno (Fields × Nat × ElementSet) := do
  let a ← m.attributes [1, 2, 4, 3]
  let t ← tableOf m f (a.get 1)
  let name ← string (a.get 2)
  let id ← number (a.get 4) 4
  match (nftSetPlace f t.handle name (ofNat id)).bind fun i => f.sets[i]?.map (i, ·) with
  | none => throw .ENOENT
  | some (i, s) => return (a, i, s)

def queryElements : Except Errno Unit := do
  let (a, _, _) ← elementsRequest m f
  failIf (a.get 3).isSome .EOPNOTSUPP
  answer o 1

variable (s : ElementSet)

def elementValue (data : Option Attribute) (e : Element) : Except Errno Element := do
  if has s.flags NFT_SET_MAP ∧ e.end_ = false then
    if s.dataSize ≠ 0 then
      let value ← nested data [1]
      match value.get 1 with
      | none => throw .EINVAL
      | some v =>
        failIf (v.flags ≠ 0 ∨ v.data.length ≠ s.dataSize) .EINVAL
        return { e with data := v.data }
    else
      let verdict ← nftVerdict f s.table data
      return { e with verdict }
  else
    failIf data.isSome .EINVAL
    return e

/-- The key of an element, and what comes with it. -/
def elementKey (item : Attribute) : Except Errno (Fields × Element) := do
  failIf (item.flags ≠ 0 ∧ item.flags ≠ NLA_F_NESTED) .EINVAL
  let b ← fields item.data [1, 3, 2]
  let flags ← number (b.get 3) 4
  let key ← nested (b.get 1) [1]
  failIf (flags > 1) .EOPNOTSUPP
  failIf (flags ≠ 0 ∧ has s.flags NFT_SET_INTERVAL = false) .EINVAL
  match key.get 1 with
  | none => throw .EINVAL
  | some value =>
    failIf (value.flags ≠ 0 ∨ value.data.length ≠ s.keySize) .EINVAL
    return (b, { key := value.data, end_ := decide (flags ≠ 0) })

/-- Whether the element at a position is the one that was looked for. -/
def elementFound (e : Element) (at_ : Nat) : Bool :=
  s.elements[at_]?.any fun old => old.end_ == e.end_ && memcmp s.keySize e.key old.key == .eq

def putElements (i : Nat) (elements : List Element) : Update Unit :=
  modify fun f => { f with sets := f.sets.modify i fun s => { s with elements } }

/-- One element of a request to add elements to the set at a position. -/
def newElement (i : Nat) (item : Attribute) : Update Unit := do
  let f ← get
  match f.sets[i]? with
  | none => throw .ENOENT
  | some s =>
    let (b, e) ← Update.lift (elementKey s item)
    let e ← Update.lift (elementValue f s (b.get 2) e)
    let at_ := setPosition s e.key e.end_
    if elementFound s e at_ then
      rejectIf (has m.flags NLM_F_EXCL = true) .EEXIST
      putElements i (s.elements.set at_ e)
    else
      reserve o (s.elements.length + 1) 1024
      putElements i (s.elements.insertIdx at_ e)

/-- One element of a request to delete elements; the key alone selects it. -/
def delElement (i : Nat) (item : Attribute) : Update Unit := do
  let f ← get
  match f.sets[i]? with
  | none => throw .ENOENT
  | some s =>
    let (_, e) ← Update.lift (elementKey s item)
    let at_ := setPosition s e.key e.end_
    rejectIf (elementFound s e at_ = false) .ENOENT
    putElements i (s.elements.eraseIdx at_)

def newElements : Update Unit := do
  let f ← get
  let (a, i, _) ← Update.lift (elementsRequest m f)
  match a.get 3 with
  | none => throw .EINVAL
  | some list =>
    rejectIf (list.flags ≠ 0 ∧ list.flags ≠ NLA_F_NESTED) .EINVAL
    eachItem (newElement o m i) list.data

def delElements : Update Unit := do
  let f ← get
  let (a, i, _) ← Update.lift (elementsRequest m f)
  match a.get 3 with
  | none => putElements i []
  | some list =>
    rejectIf (list.flags ≠ 0 ∧ list.flags ≠ NLA_F_NESTED) .EINVAL
    eachItem (delElement i) list.data

/-- The requests that change a ruleset, as `dispatch` and `md_nft_objects` find them. -/
def updates : List (Nat × (Outside → Message → Update Unit)) :=
  [(NFT_MSG_NEWTABLE, newTable), (NFT_MSG_DELTABLE, delTable), (NFT_MSG_NEWCHAIN, newChain),
    (NFT_MSG_DELCHAIN, fun _ => delChain),
    (NFT_MSG_NEWRULE, newRule), (NFT_MSG_DELRULE, fun _ => delRule), (NFT_MSG_NEWSET, newSet),
      (NFT_MSG_DELSET, fun _ => delSet),
    (NFT_MSG_NEWSETELEM, newElements), (NFT_MSG_DELSETELEM, fun _ => delElements)]

/-- `dispatch` for a request that is no query. -/
def dispatch : Update Unit :=
  match updates.lookup m.operation with
  | some update => update o m
  | none => throw .EOPNOTSUPP

/-- `NFT_MSG_GETGEN`. -/
def queryGeneration (_ : NetworkFilter) : Except Errno Unit := do
  failIf (m.body.length ≠ 4) .EINVAL
  answer o 1

/-- `empty_dump`. -/
def queryEmpty (f : NetworkFilter) : Except Errno Unit := do
  let a ← m.attributes [1]
  let table ← string (a.get 1)
  failIf (m.family ≠ 0 ∧ familySupported m.family = false) .EAFNOSUPPORT
  failIf (table.isSome ∧ (m.family = 0 ∨ networkFilterFind f m.family table 0 = none)) .ENOENT
  failIf (m.dumps = false) .EOPNOTSUPP

def queries : List (Nat × (Outside → Message → NetworkFilter → Except Errno Unit)) :=
  [(NFT_MSG_GETTABLE, queryTables), (NFT_MSG_GETCHAIN, queryChains), (NFT_MSG_GETRULE, queryRules),
    (NFT_MSG_GETSET, querySets),
    (NFT_MSG_GETSETELEM, queryElements), (NFT_MSG_GETGEN, queryGeneration), (NFT_MSG_GETOBJ, fun _ => queryEmpty),
    (NFT_MSG_GETFLOWTABLE, fun _ => queryEmpty)]

/-- `dispatch` for a query, which changes nothing. -/
def dispatchQuery (f : NetworkFilter) : Except Errno Unit :=
  match queries.lookup m.operation with
  | some query => query o m f
  | none => .error .EOPNOTSUPP

/-- `query`. -/
def isQuery (operation : Nat) : Bool := (queries.lookup operation).isSome

end Shroot.Nft
