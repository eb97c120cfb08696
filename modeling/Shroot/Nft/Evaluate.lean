import Shroot.General.Loop
import Shroot.Nft.Model
import Shroot.General.Colouring

namespace Shroot.Nft

open General Bool Prod
open Network (IpAddress ipSize ipOf ipPad ipEqual AF_INET6)

section

variable {previous : Option (Int × Nat)} {i : Nat}

/-- What an expression of a rule leads to: the next one, the end of the rule, or another chain. -/
inductive Progress where
  | next (registers : Registers)
  | miss
  | call (goto : Bool) (target : Chain) (registers : Registers)

def proceed (matched : Bool) (r : Registers) : Progress := if matched then .next r else .miss

section

variable (env : Environment)

def accountCounter (cell : CounterCell) : Run Unit := do
  let s ← get
  if s.packet.unmediated then return
  match s.accounting with
  | none => return
  | some cells =>
    rejectIf (cells.length + 1 > 1024) (.error .ENOSPC)
    rejectIf (env.grows (cells.length + 1) = false) (.error .ENOMEM)
    modify fun s => { s with accounting := some (cells ++ [cell]) }

/-- Whether a limit lets a packet pass, from the time that has gone by. -/
def Limit.spend (l : Limit) (now : UInt64) : Bool × Limit :=
  let elapsed := if now ≥ l.previous then now - l.previous else 0
  let credit := if elapsed ≥ l.capacity - l.credit then l.capacity else l.credit + elapsed
  let matched : Bool := credit ≥ l.cost
  (matched, { l with credit := if matched then credit - l.cost else credit, previous := now })

def readClock : Run UInt64 := modifyGet fun s => (s.times.headD 0, { s with times := s.times.tail })

def randomUniform (bound : Nat) : Run Nat :=
  modifyGet fun s => ((s.randoms.headD 0).toNat % bound, { s with randoms := s.randoms.tail })

/-- Takes a packet's cost from the limit of the `j`-th expression of the `i`-th rule, if it has that much. -/
def spendLimit (i j : Nat) (now : UInt64) : Run Bool :=
  modifyGet fun s =>
    let (matched, l) := (s.limits i j).spend now
    (matched, { s with limits := Function.update s.limits i (Function.update (s.limits i) j l) })

def setMark (source : MarkSource) (r : Registers) (old other : UInt32) : Run UInt32 :=
  match source with
  | .register src => native32Value <$> r.read src 4
  | .constant value mask => return (old &&& ~~~mask) ^^^ value
  | .copy mask aux => return (old &&& ~~~mask) ^^^ (other &&& aux)

def natPorts (r : Registers) : NatPort → Run (Option (UInt16 × UInt16))
  | .keep => return none
  | .constant low high => return some (low, high.getD low)
  | .register offset max => do
    let low := wirePortValue (← r.read offset 2)
    match max with
    | none => return some (low, low)
    | some max => return some (low, wirePortValue (← r.read max 2))

/-- The range that a source port stays in. -/
def portClass (port : UInt16) : UInt16 × UInt16 :=
  if port < 512 then (1, 511) else if port < 1024 then (600, 1023) else (1024, 65535)

/-- A random port of the range, where the flags ask for one. -/
def scatterPort (flags : UInt32) (low high : UInt16) : Run Unit :=
  if flags ≠ 0 then do
    let chosen ← randomUniform (high.toNat - low.toNat + 1)
    Run.change fun p => { p with sourcePort := low + UInt16.ofNat chosen }
  else return

/-- A port of the range that is free, or the first when that is not asked. -/
def choosePort (low high : UInt16) : Run Unit := do
  let p ← Run.packet
  match env.sourceNat with
  | some choose =>
    match choose p low high with
    | some port => Run.change fun p => { p with sourcePort := port }
    | none => throw (.error .EADDRNOTAVAIL)
  | none =>
    if p.sourcePort < low ∨ p.sourcePort > high then Run.change fun p => { p with sourcePort := low } else return

def sourceNat (ports : NatPort) (flags : UInt32) (r : Registers) : Run Unit := do
  let p ← Run.packet
  if !p.isTransport then rejectIf (ports ≠ .keep ∨ flags ≠ 0) (.error .EOPNOTSUPP)
  else
    let given ← natPorts r ports
    let range := given.getD (portClass p.sourcePort)
    rejectIf (given.isSome ∧ range.1 > range.2) (.error .EINVAL)
    scatterPort flags range.1 range.2
    choosePort env range.1 range.2

/-- The address of a translation, with the family that it had. -/
def natAddress (r : Registers) (old : IpAddress) : NatAddress → Run IpAddress
  | .keep => return old
  | .constant value =>
    return ipOf old.family ((ipPad value).take (ipSize old.family) ++ old.bytes.drop (ipSize old.family))
  | .register offset => do
    let bytes ← r.read offset (ipSize old.family)
    return ipOf old.family (bytes ++ old.bytes.drop (ipSize old.family))

variable (f : NetworkFilter)

def applyVerdict (c : Chain) (r : Registers) (v : Verdict) : Run Progress :=
  let follow (goto : Bool) (target : Nat) : Run Progress :=
    match chainFind f c.table none target 0 with
    | some chain => return .call goto chain r
    | none => throw (.error .ENOENT)
  match v with
  | .jump target => follow false target
  | .goto target => follow true target
  | .continue_ => return .next r
  | .break_ => return .miss
  | .return_ => throw .return_
  | .accept => throw .accept
  | .drop => throw .drop

def setOf (table set : Nat) : Run ElementSet :=
  match setFind f table none set 0 with
  | some s => return s
  | none => throw (.error .ENOENT)

/-- The number that a `meta` expression loads. -/
def Packet.metaNumber (p : Packet) : MetaKey → UInt32
  | .nfproto => if p.destination.family = AF_INET6 then NFPROTO_IPV6 else NFPROTO_IPV4
  | .l4proto => p.protocol
  | .pkttype => p.packetType
  | .mark => p.mark
  | .iif => p.input
  | .oif => p.output
  | .iifname | .oifname => 0

def loadName (p : Packet) (dst : Nat) (r : Registers) : MetaKey → Run Registers
  | .iifname => r.write dst (filled 16 p.inputName)
  | .oifname => r.write dst (filled 16 p.outputName)
  | _ => return r

/-- One expression of `evaluate_chain`, the `j`-th of the `i`-th rule. -/
def evaluateExpression (c : Chain) (i j : Nat) (e : Expression) (r : Registers) : Run Progress := do
  let p ← Run.packet
  match e with
  | .physdev v => return proceed (physdevMatches v p) r
  | .limit _ =>
    rejectIf (p.unmediated = true) (.error .EBUSY)
    return proceed (← spendLimit i j (← readClock)) r
  | .log log =>
    rejectIf (p.unmediated = true) (.error .EBUSY)
    if env.log then modify fun s => { s with logged := s.logged ++ [(p, log)] }
    return .next r
  | .ipset set source invert =>
    let s ← setOf f 0 set
    return proceed (ipsetMatches s (if source then p.source else p.destination) != invert) r
  | .reject type code =>
    rejectIf (type = .tcp ∧ p.protocol ≠ IPPROTO_TCP) (.error .EOPNOTSUPP)
    let rejection := rejectResolve type code p.destination.family
    Run.change fun p => { p with rejection }
    throw (.error (rejectError rejection))
  | .icmpMatch protocol type low high invert => return proceed (icmpMatches p protocol type low high invert) r
  | .transport t =>
    return proceed (p.protocol == t.protocol && portMatches p.sourcePort t.source t.invertSource &&
      portMatches p.destinationPort t.destination t.invertDestination) r
  | .multiport m =>
    let found := (m.direction != 1 && multiportContains m p.sourcePort) ||
      (m.direction != 0 && multiportContains m p.destinationPort)
    return proceed (p.isTransport && found != m.invert) r
  | .counter _ =>
    accountCounter env (.expression i j)
    return .next r
  | .immediate dst value => return .next (← r.write dst (padded value))
  | .compare equal src value =>
    let bytes ← r.read src value.length
    return proceed ((bytes == value) == equal) r
  | .range equal src low high =>
    let bytes ← r.read src low.length
    let inside := memcmp low.length bytes low != .lt && memcmp low.length bytes high != .gt
    return proceed (inside == equal) r
  | .bitwise src dst mask xor =>
    let bytes ← r.read src mask.length
    let result := (List.range mask.length).map fun k => (bytes.getD k 0 &&& mask.getD k 0) ^^^ xor.getD k 0
    return .next (← r.write dst (padded result))
  | .payload base offset size dst =>
    let header := p.header base
    if offset + size > header.length then return .miss
    return .next (← r.write dst (padded ((header.drop offset).take size)))
  | .meta_ key size dst =>
    let r ← loadName p dst r key
    if size ≤ 4 then return .next (← r.write dst (native32 (p.metaNumber key)))
    return .next r
  | .metaSet source =>
    let mark ← setMark source r p.mark p.ctmark
    Run.change fun p => { p with mark }
    return .next r
  | .ctSet source =>
    let ctmark ← setMark source r p.ctmark p.mark
    Run.change fun p => { p with ctmark }
    return .next r
  | .ct key dst =>
    let value := match key with
      | .state => p.state
      | .mark => p.ctmark
      | .status => p.status
    return .next (← r.write dst (native32 value))
  | .stateMatch state status invert => return proceed ((has p.state state || has p.status status) != invert) r
  | .markMatch mark mask invert => return proceed ((p.mark &&& mask == mark) != invert) r
  | .connmarkMatch mark mask invert => return proceed ((p.ctmark &&& mask == mark) != invert) r
  | .packetType type invert => return proceed ((p.packetType == type) != invert) r
  | .reversePath flags => return proceed (reversePath env p flags != has flags XT_RPFILTER_INVERT) r
  | .addressType source destination invertSource invertDestination =>
    return proceed ((source == 0 || has source (1 <<< p.sourceFibType) != invertSource) &&
      (destination == 0 || has destination (1 <<< p.fibType) != invertDestination)) r
  | .fib result flags size dst =>
    let found := match env.route with
      | some route => route p flags
      | none => { type := if has flags NFTA_FIB_F_SADDR then p.sourceFibType else p.fibType }
    let r ← r.write dst (List.replicate size 0)
    if result = .addrtype then return .next (← r.write dst (native32 found.type))
    else if has flags NFTA_FIB_F_PRESENT
      then return .next (← r.write dst (native32 (if found.interface ≠ 0 then 1 else 0)))
    else if result = .oifname then return .next (← r.write dst (filled 16 found.name))
    else return .next (← r.write dst (native32 found.interface))
  | .lookup set src _ invert =>
    let s ← setOf f c.table set
    let key ← r.read src s.keySize
    return proceed ((setLookup s key).isSome != invert) r
  | .dataMap set src _ dst _ =>
    let s ← setOf f c.table set
    let key ← r.read src s.keySize
    match setLookup s key with
    | none => return .miss
    | some element => return .next (← r.write dst (padded (filled s.dataSize element.data)))
  | .nat destination family address ports flags =>
    if family ≠ 0 ∧ family ≠ p.destination.family then return .miss
    if destination then
      let translated ← natAddress r p.destination address
      Run.change fun p => { p with destination := translated }
      let given ← natPorts r ports
      Run.change fun p => { p with
        destinationPort := (given.map (·.1)).getD p.destinationPort, dnat := true, status := p.status ||| IPS_DST_NAT }
    else
      let translated ← natAddress r p.source address
      Run.change fun p => { p with source := translated }
      sourceNat env ports flags r
      Run.change fun p => { p with snat := true, status := p.status ||| IPS_SRC_NAT }
    throw .accept
  | .masquerade ports flags =>
    Run.change fun p => { p with source := p.masqueradeAddress }
    sourceNat env ports flags r
    Run.change fun p => { p with snat := true, masquerade := true, status := p.status ||| IPS_SRC_NAT }
    throw .accept
  | .verdictMap set src _ =>
    let s ← setOf f c.table set
    let key ← r.read src s.keySize
    match setLookup s key with
    | none => return .miss
    | some element => applyVerdict f c r element.verdict
  | .verdict v => applyVerdict f c r v

end

section

variable (env : Environment) (f : NetworkFilter)

/-- How a rule ends: with the outcome of its chain, or so that the next rule is tried. -/
inductive RuleEnd where
  | done (outcome : Outcome) (state : State)
  | missed (state : State)

/-- The expressions of the `i`-th rule from the `j`-th on. Another chain is evaluated by `jump`. -/
def evaluateRule (c : Chain) (jump : Chain → State → Outcome × State) (i : Nat) :
    Nat → List Expression → Registers → State → RuleEnd
  | _, [], _, s => .missed s
  | j, e :: rest, r, s =>
    match (evaluateExpression env f c i j e r).run s with
    | .error outcome s => .done outcome s
    | .ok .miss s => .missed s
    | .ok (.next r) s => evaluateRule c jump i (j + 1) rest r s
    | .ok (.call goto target r) s =>
      match jump target s with
      | (.return_, s) => if goto then .done .return_ s else evaluateRule c jump i (j + 1) rest r s
      | (outcome, s) => .done outcome s

def evaluateRules (c : Chain) (jump : Chain → State → Outcome × State) : Nat → List Rule → State → Outcome × State
  | _, [], s => (.return_, s)
  | i, rule :: rest, s =>
    if rule.chain ≠ c.handle then evaluateRules c jump (i + 1) rest s
    else match evaluateRule env f c jump i 0 rule.expressions (fun _ => 0) s with
      | .done outcome s => (outcome, s)
      | .missed s => evaluateRules c jump (i + 1) rest s

def maxDepth : Nat := 16

/-- `evaluate_chain`, where `left` is how much deeper than `maxDepth` the chain is not. -/
def evaluateChain : Nat → Chain → State → Outcome × State
  | 0, _, s => (.error .ELOOP, { s with depths := (maxDepth + 1) :: s.depths })
  | left + 1, c, s =>
    evaluateRules env f c (evaluateChain left) 0 f.rules { s with depths := (maxDepth - left) :: s.depths }

end

variable (env : Environment) (f : NetworkFilter)

structure Rewrite where
  source : IpAddress
  destination : IpAddress
  fibType : UInt32
  sourceFibType : UInt32
  sourcePort : UInt16
  destinationPort : UInt16
  priority : Int

def Rewrite.apply (w : Rewrite) (p : Packet) : Packet :=
  { p with
    source := w.source, destination := w.destination, sourcePort := w.sourcePort, destinationPort := w.destinationPort
    fibType := w.fibType, sourceFibType := w.sourceFibType }

/-- Whether a chain comes after the one that was evaluated last, by priority and position. -/
def comesAfter (previous : Option (Int × Nat)) (priority : Int) (i : Nat) : Bool :=
  match previous with
  | none => true
  | some (p, k) => !(priority < p || (priority = p && i ≤ k))

def candidates (family : UInt32) (hook : Nat) (previous : Option (Int × Nat)) : List (Nat × Chain) :=
  (f.chains.zipIdx.map swap).filter fun (i, c) => chainApplies f c family && c.hook == some hook &&
    comesAfter previous c.priority i

/-- The one of them with the smallest priority, the first among equals. -/
def selectChain (found : List (Nat × Chain)) : Option (Nat × Chain) :=
  found.foldl (fun best next =>
    match best with
    | none => some next
    | some best => if next.2.priority < best.2.priority then some next else some best) none

structure Transition where
  state : State
  previous : Option (Int × Nat) := none
  rewrite : Option Rewrite := none
  natPriority : Option Int := none

variable (hook : Nat)

/-- Whether the translation of this hook was already made. -/
def mapped (p : Packet) : Bool := if hook = NF_INET_PRE_ROUTING ∨ hook = NF_INET_LOCAL_OUT then p.dnat else p.snat

/-- Ends a base chain without a verdict by its policy. -/
def applyPolicy (i : Nat) (c : Chain) (outcome : Outcome) (s : State) : Outcome × State :=
  if outcome ≠ .return_ then (outcome, s)
  else match (if c.counters then accountCounter env (.chain i) else pure ()).run s with
    | .error outcome s => (outcome, s)
    | .ok _ s => (if c.policy = .accept then .accept else .drop, s)

/-- Routes a packet again that a chain of type route changed. -/
def reroute (c : Chain) (before : Packet) : Run Unit := do
  let p ← Run.packet
  if c.reroute &&
    (p.mark != before.mark || !ipEqual p.source before.source || !ipEqual p.destination before.destination) then
    match env.route with
    | none => throw (.error .EOPNOTSUPP)
    | some route =>
      let found := route p (NFTA_FIB_F_DADDR ||| NFTA_FIB_F_MARK)
      rejectIf (found.interface = 0) (.error .ENETUNREACH)
      Run.change fun p => { p with output := found.interface, outputName := found.name }

/-- What `md_filter_evaluate_transition` returns for the outcome of a chain that does not accept. -/
def hookOutcome : Outcome → Outcome
  | .drop => .error .EACCES
  | .error errno => .error errno
  | .fault => .fault
  | .accept | .return_ => .error .EOPNOTSUPP

/-- A retained translation takes its place among the chains. -/
def Transition.translate (t : Transition) (selected : Option (Nat × Chain)) : Transition :=
  match t.rewrite with
  | some w =>
    if (selected.map (·.2.priority)).all (w.priority ≤ ·) then
      { t with state := { t.state with packet := w.apply t.state.packet }, rewrite := none }
    else t
  | none => t

variable (retained : Bool)

/-- Evaluates a base chain. Only the first packet of a flow is translated, and once. -/
def evaluateBase (c : Chain) (s : State) : Outcome × State :=
  if c.nat && (retained || s.packet.state != 8 || mapped hook s.packet) then (.accept, s)
  else evaluateChain env f (maxDepth + 1) c s

/-- Goes on in the hook after a base chain. -/
def endChain (hook i : Nat) (c : Chain) (t : Transition) (result : Outcome × State) :
    (Outcome × Transition) ⊕ Transition :=
  let before := t.state.packet
  let translated := c.nat && !mapped hook before && (result.2.packet.dnat || result.2.packet.snat)
  let t := { t with natPriority := if translated then some c.priority else t.natPriority }
  match applyPolicy env i c result.1 result.2 with
  | (.accept, s) =>
    match (reroute env c before).run s with
    | .error outcome s => .inl (outcome, { t with state := s })
    | .ok _ s => .inr { t with state := s, previous := some (c.priority, i) }
  | (outcome, s) => .inl (hookOutcome outcome, { t with state := s })

/-- One turn of the loop over the chains of a hook. -/
def transitionBody (t : Transition) : (Outcome × Transition) ⊕ Transition :=
  let selected := selectChain (candidates f t.state.packet.destination.family hook t.previous)
  let t := t.translate selected
  match selected with
  | none => .inl (.accept, t)
  | some (i, c) => endChain env hook i c t (evaluateBase env f hook retained c t.state)

/-- The chains of any hook that come after the one that was evaluated last. -/
def remaining (previous : Option (Int × Nat)) : List (Nat × Chain) :=
  (f.chains.zipIdx.map swap).filter fun (i, c) => comesAfter previous c.priority i

theorem selectChain_mem {found : List (Nat × Chain)} {x : Nat × Chain} (pick : selectChain found = some x) :
    x ∈ found := by
  have loop : ∀ (found seen : List (Nat × Chain)) (best : Option (Nat × Chain)), (∀ x, best = some x → x ∈ seen) →
      ∀ x, found.foldl (fun best next =>
        match best with
        | none => some next
        | some best => if next.2.priority < best.2.priority then some next else some best) best = some x →
          x ∈ seen ++ found := by
    intro found
    induction found with
    | nil => simp
    | cons next rest ih =>
      intro seen best sub x is
      have mem := ih (seen ++ [next]) _ ?_ x is
      · simpa using mem
      · intro y isY
        cases best with
        | none =>
          cases isY
          simp
        | some best =>
          dsimp only at isY
          split at isY
          · cases isY
            simp
          · cases isY
            exact List.mem_append_left _ (sub _ rfl)
  simpa using loop found [] none nofun x pick

theorem comesAfter_trans {p q : Int} {k : Nat} (first : comesAfter previous p i = true)
    (two : comesAfter (some (p, i)) q k = true) : comesAfter previous q k = true := by
  cases previous with
  | none => rfl
  | some pair =>
    simp only [comesAfter, not_eq_true', or_eq_false_iff, and_eq_false_iff, decide_eq_false_iff_not] at first two ⊢
    omega

/-- An evaluated chain does not come again. -/
theorem remaining_shorter {c : Chain} (mem : (i, c) ∈ remaining f previous) :
    (remaining f (some (c.priority, i))).length < (remaining f previous).length := by
  obtain ⟨there, new⟩ := List.mem_filter.mp mem
  have fewer : remaining f (some (c.priority, i)) =
      (remaining f previous).filter fun x => comesAfter (some (c.priority, i)) x.2.priority x.1 := by
    rw [remaining, remaining, List.filter_filter]
    refine List.filter_congr fun x _ => ?_
    obtain ⟨k, d⟩ := x
    by_cases later : comesAfter (some (c.priority, i)) d.priority k = true
    · simp [later, comesAfter_trans new later]
    · simp [later]
  rw [fewer]
  refine List.length_filter_lt_length_iff_exists.mpr ⟨(i, c), mem, ?_⟩
  simp [comesAfter]

theorem transitionBody_next {hook : Nat} {retained : Bool} {t next : Transition}
    (goes : transitionBody env f hook retained t = .inr next) :
    ∃ i c, selectChain (candidates f t.state.packet.destination.family hook t.previous) = some (i, c) ∧
      next.previous = some (c.priority, i) := by
  unfold transitionBody at goes
  dsimp only at goes
  split at goes
  · cases goes
  next i c pick =>
    refine ⟨i, c, pick, ?_⟩
    unfold endChain at goes
    dsimp only at goes
    split at goes
    · split at goes
      · cases goes
      · cases goes
        rfl
    · cases goes

/-- The loop of `md_filter_evaluate_transition`. -/
def transition : Loop Transition (Outcome × Transition) where
  body := transitionBody env f hook retained
  size t := ((remaining f t.previous).length, 0)
  decreases t next goes := by
    obtain ⟨i, c, selected, previous⟩ := transitionBody_next env f goes
    rw [previous]
    refine Prod.Lex.left _ _ (remaining_shorter f ?_)
    have mem := selectChain_mem selected
    simp only [candidates, remaining, List.mem_filter, and_eq_true] at mem ⊢
    exact ⟨mem.1, mem.2.2⟩

def limitsOf : Nat → Nat → Limit := fun i j =>
  match f.rules[i]?.bind (·.expressions[j]?) with
  | some (.limit l) => l
  | _ => {}

/-- The rules with the credits that an evaluation left. -/
def storeLimits (limits : Nat → Nat → Limit) : NetworkFilter :=
  { f with
    rules := f.rules.mapIdx fun i rule => { rule with
      expressions := rule.expressions.mapIdx fun j e => match e with
        | .limit _ => .limit (limits i j)
        | e => e } }

def startTransition (rewrite : Option Rewrite) (s : State) : Transition where
  state := { s with packet := { s.packet with hook, rejection := {} }, limits := limitsOf f, depths := [] }
  rewrite := rewrite

/-- `md_filter_evaluate_transition`: its result, the filter, and where the evaluation came. -/
def evaluateTransition (rewrite : Option Rewrite) (s : State) : Outcome × NetworkFilter × Transition :=
  let (outcome, t) := (transition env f hook rewrite.isSome).run (startTransition f hook rewrite s)
  (outcome, storeLimits f t.state.limits, t)

end

variable (f : NetworkFilter)

/-- Two elements that lie next to each other in a set. -/
def checkNeighbours (s : ElementSet) (first second : Element) : Except Errno Unit := do
  let order := memcmp s.keySize first.key second.key
  failIf (order = .gt ∨ (order = .eq ∧ (first.end_ = false ∨ second.end_ = true))) .EINVAL
  failIf (has s.flags NFT_SET_INTERVAL ∧ first.end_ = second.end_) .EEXIST

def checkElements (s : ElementSet) : Except Errno Unit :=
  (s.elements.zip s.elements.tail).forM fun (first, second) => checkNeighbours s first second

/-- The chain that a jump from another leads to. -/
def jumpTarget (c : Chain) (target : Nat) : Except Errno Nat :=
  match (chainIndex f target).bind fun i => f.chains[i]?.map (i, ·) with
  | some (i, d) => if d.table ≠ c.table ∨ d.hook.isSome then .error .EOPNOTSUPP else .ok i
  | none => .error .ENOENT

/-- The checks and the jumps of an expression, in their order. -/
def expressionWork (c : Chain) (e : Expression) : List (Except Errno Nat) :=
  ((verdicts f e).filterMap (·.target?)).map (jumpTarget f c) ++
    (match e.set? with
      | some set => if f.sets.any fun s => s.handle = set && s.table = c.table then [] else [.error .ENOENT]
      | none => []) ++
    (match e with
      | .ipset set _ _ => if f.sets.any fun s => s.ipset.isSome && s.handle = set then [] else [.error .ENOENT]
      | _ => [])

/-- What `validate_chain` goes through for the chain at a position. -/
def chainWork (i : Nat) : List (Except Errno Nat) :=
  match f.chains[i]? with
  | none => []
  | some c => (f.rules.filter (·.chain = c.handle)).flatMap fun rule => rule.expressions.flatMap (expressionWork f c)

/-- `validate_chain` for each chain. -/
def validateChains : Except Errno (Colouring Nat) :=
  Colouring.visitAll (chainWork f) .ELOOP maxDepth (List.range f.chains.length)

/-- A set of hooks: those of NAT chains in the low bits, those of filter chains above. -/
abbrev Hooks := BitVec 32

def natHooks (hooks : List Nat) : Hooks := hooks.foldl (fun set hook => set ||| 1#32 <<< hook) 0

def bothHooks (hooks : List Nat) : Hooks := natHooks hooks ||| natHooks hooks <<< NF_INET_NUMHOOKS

def baseContexts (i : Nat) : Hooks :=
  match f.chains[i]? with
  | some c =>
    match c.hook with
    | some hook => 1#32 <<< (hook + if c.nat then 0 else NF_INET_NUMHOOKS)
    | none => 0
  | none => 0

def jumps : List (Nat × Nat) :=
  f.rules.flatMap fun rule => rule.expressions.flatMap fun e => (verdicts f e).filterMap fun v => do
    return (← chainIndex f rule.chain, ← chainIndex f (← v.target?))

/-- The hooks that a chain is evaluated in, by jumps also. -/
def contexts : Nat → Hooks := (propagation (jumps f)).run (baseContexts f)

/-- `tcp_predicate`: whether the first expressions of a rule require TCP. -/
def tcpPredicate (rule : Rule) (end_ : Nat) : Bool :=
  let table := ((f.chains.find? (·.handle = rule.chain)).map (·.table)).getD 0
  let family := f.tables.foldl (fun family t => if t.handle = table then t.family else family) 0
  (List.range end_).any fun i =>
    match rule.expressions[i]? with
    | some (.transport t) => t.protocol == IPPROTO_TCP
    | some (.compare true src [value]) =>
      i ≠ 0 && value == IPPROTO_TCP.toUInt8 && match rule.expressions[i - 1]? with
        | some (.meta_ .l4proto _ dst) => dst == src
        | some (.payload .network offset 1 dst) =>
          dst == src && ((family == NFPROTO_IPV4 && offset == 9) || (family == NFPROTO_IPV6 && offset == 6))
        | _ => false
    | _ => false

/-- Whether a rule that limits may have an expression: its verdict must not be kept for later packets. -/
def Expression.unlimited : Expression → Bool
  | .verdict v => v != .continue_
  | .verdictMap _ _ _ | .nat _ _ _ _ _ | .masquerade _ _ | .metaSet _ | .ctSet _ | .reject _ _ => true
  | _ => false

/-- The hooks that an expression is for; any when it does not matter. -/
def Expression.hooks : Expression → Option Hooks
  | .masquerade _ _ => some (natHooks [NF_INET_POST_ROUTING])
  | .nat destination _ _ _ _ =>
    some (if destination then natHooks [NF_INET_PRE_ROUTING, NF_INET_LOCAL_OUT]
      else natHooks [NF_INET_POST_ROUTING, NF_INET_LOCAL_IN])
  | .fib result flags _ _ =>
    if result ≠ .addrtype ∨ has flags NFTA_FIB_F_IIF then
      some (bothHooks [NF_INET_PRE_ROUTING, NF_INET_LOCAL_IN, NF_INET_FORWARD])
    else if has flags NFTA_FIB_F_OIF then some (bothHooks [NF_INET_LOCAL_OUT, NF_INET_POST_ROUTING, NF_INET_FORWARD])
    else none
  | .reject _ _ => some (natHooks [NF_INET_LOCAL_IN, NF_INET_FORWARD, NF_INET_LOCAL_OUT] <<< NF_INET_NUMHOOKS)
  | _ => none

/-- The last checks of `md_filter_validate`, for one rule. -/
def checkRule (contexts : Nat → Hooks) (rule : Rule) : Except Errno Unit := do
  let context := ((chainIndex f rule.chain).map contexts).getD 0
  if rule.expressions.any fun e => match e with | .limit _ => true | _ => false then
    failIf (rule.expressions.all fun e => match e with | .log _ => false | _ => true) .EOPNOTSUPP
    failIf (rule.expressions.any (·.unlimited)) .EOPNOTSUPP
  rule.expressions.zipIdx.forM fun (e, j) => do
    match e with
    | .reject type code =>
      failIf (rejectValid type code = false ∨ (type = .tcp ∧ tcpPredicate f rule j = false)) .EOPNOTSUPP
    | _ => pure ()
    match e.hooks with
    | some allowed => failIf (context &&& ~~~allowed ≠ 0) .EOPNOTSUPP
    | none => pure ()

/-- `md_filter_validate`. That a rule's chain exists is asked before the contexts spread. -/
def validate : Except Errno Unit := do
  f.sets.forM checkElements
  let _ ← validateChains f
  failIf (f.rules.any fun rule => (chainIndex f rule.chain).isNone) .ENOENT
  f.rules.forM (checkRule f (contexts f))

end Shroot.Nft
