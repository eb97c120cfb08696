import Shroot.Network.Routes

namespace Shroot.Network

open General MonadExcept

/-- A namespace as the resolver of a request finds it. -/
structure Resolved where
  space : SpaceId
  capable : Bool
  sameFabric : Bool

/-- Everything a request meets outside of the fabric's configuration: the requester's capability,
the resolver of namespace references, allocations, what the endpoints admit of a tentative
configuration, the sockets and the stack of tunnels, the listeners, and the reply's way out. -/
structure Environment extends Surroundings where
  capable : Bool
  resolve : Option (TargetReference → Except Errno Resolved)
  saves : SpaceId → Bool
  grows : SpaceId → Bool
  prunes : SpaceId → Bool
  policyUpdate : Fabric → Except Errno Unit
  transportUpdate : Fabric → Except Errno Unit
  allocatesUpdate : Bool
  opensPort : VxlanConfig → Except Errno Unit
  preparesStack : Except Errno Unit
  notified : List SpaceId → Fabric → Fabric → Nat
  capacity : Nat
  cappedAck : Bool
  publish : Option (Except Errno Unit)

def isLinkRequest (type : Nat) : Bool := type == RTM_NEWLINK || type == RTM_SETLINK || type == RTM_DELLINK

structure LinkTargets where
  change : LinkChange
  target : Option SpaceId
  peerTarget : Option SpaceId

variable (env : Environment)

def resolveTarget (unsupported : Bool) (reference : TargetReference) : Except Errno SpaceId := do
  match env.resolve with
  | none => throw .EOPNOTSUPP
  | some resolve =>
    let found ← resolve reference
    failIf (¬ found.capable) .EPERM
    failIf (¬ found.sameFabric) .EXDEV
    failIf (unsupported) .EOPNOTSUPP
    return found.space

def resolveReference (unsupported : Bool) (reference : Option TargetReference) : Except Errno (Option SpaceId) :=
  match reference with
  | none => .ok none
  | some reference => (resolveTarget env unsupported reference).map some

/-- The checks before the fabric is locked. A link request comes with its change and the namespaces it names. -/
def admission (m : Message) : Except Errno (Option LinkTargets) := do
  failIf (¬ env.capable) .EPERM
  if isLinkRequest m.type then
    let change ← parseLink m
    let target ← resolveReference env change.master.isSome change.namespaceRef
    let peerTarget ← resolveReference env target.isSome change.peerNamespace
    return some ⟨change, target, peerTarget⟩
  else return none

variable (f : Fabric) (n : SpaceId)

/-- The second namespace a request is taken to touch: the one it names, or else its link's peer's. -/
def otherSpace (t : LinkTargets) : Option SpaceId :=
  match t.peerTarget.or t.target with
  | some other => some other
  | none => (interfaceFind (f.space n).links t.change.index t.change.name).bind fun found => interfaceOwner f found.peer

/-- The namespaces that are saved, and whether all could be. -/
def checkpoints (t : Option LinkTargets) : List SpaceId × Except Errno Unit :=
  if ¬ env.saves n then ([], .error .ENOMEM)
  else match t.bind (otherSpace f n) with
    | none => ([n], .ok ())
    | some other =>
      if other = n then ([n], .ok ())
      else if env.saves other then ([n, other], .ok ())
      else ([n], .error .ENOMEM)

def restoreSpace (before : Fabric) (f : Fabric) (id : SpaceId) : Fabric :=
  f.put id { f.space id with toTopology := (before.space id).toTopology, capacity := (before.space id).links.length }

def rollback (saved : List SpaceId) (before after : Fabric) : Fabric :=
  { saved.foldl (restoreSpace before) after with nextIndex := before.nextIndex }

/-- Run a computation on one namespace of the fabric; what it did stays when it fails. -/
def atSpace (id : SpaceId) (action : Fabric → EStateM Errno Namespace Unit) : EStateM Errno Fabric Unit :=
  fun f => match (action f).run (f.space id) with
    | .ok _ n => .ok () (f.put id n)
    | .error error n => .error error (f.put id n)

/-- The owner of a request. -/
def dispatch (m : Message) (t : Option LinkTargets) : EStateM Errno Fabric Unit :=
  match t with
  | some t => changeLink env.grows n m t.change t.target t.peerTarget
  | none =>
    if m.type = RTM_NEWADDR ∨ m.type = RTM_DELADDR then
      atSpace n fun f => networkAddresses env.toSurroundings f n m
    else if m.type = RTM_NEWROUTE ∨ m.type = RTM_DELROUTE then atSpace n fun _ => networkRoutes env.toSurroundings m
    else if m.type = RTM_NEWNEXTHOP ∨ m.type = RTM_DELNEXTHOP then
      atSpace n fun _ => networkNexthops env.toSurroundings m
    else if m.type = RTM_NEWRULE ∨ m.type = RTM_DELRULE then atSpace n fun _ => networkRules m
    else if m.type = RTM_NEWNEIGH ∨ m.type = RTM_DELNEIGH then
      atSpace n fun _ => networkNeighbors env.toSurroundings m
    else throw .EOPNOTSUPP

def vxlanPortMatches (port config : VxlanConfig) : Bool :=
  port.port == config.port && port.link == config.link && ipEqual port.localAddress config.localAddress &&
    port.ttl == config.ttl && port.tos == config.tos

/-- One tunnel of the preparation: its underlay, its uniqueness among the earlier links, its socket. -/
def vxlanPrepareLink (n : Namespace) (added : List VxlanConfig) (place : Interface × Nat) :
    Except Errno (List VxlanConfig) :=
  if place.1.kind ≠ .vxlan then .ok added
  else do
    let c := place.1.vxlan
    failIf (c.link ≠ 0 ∧ ¬ (interfaceFind n.links c.link none).any fun l => l.kind != .vxlan) .ENODEV
    failIf ((n.links.take place.2).any fun other => other.kind == .vxlan && c.id == other.vxlan.id &&
      c.port == other.vxlan.port && c.link == other.vxlan.link && ipEqual c.localAddress other.vxlan.localAddress)
        .EEXIST
    if (n.vxlanPorts ++ added).any (vxlanPortMatches · c) then return added
    else
      env.opensPort c
      return c :: added

/-- The sockets that the tunnels of a namespace still need. -/
def vxlanPrepare (n : Namespace) : Except Errno (List VxlanConfig) :=
  if n.vxlanPorts = [] ∧ ¬ n.links.any (·.kind == .vxlan) then .ok []
  else do
    failIf (¬ env.allocatesUpdate) .ENOMEM
    let added ← n.links.zipIdx.foldlM (vxlanPrepareLink env n) []
    env.preparesStack
    return added

def prune (id : SpaceId) : EStateM Errno Fabric Unit :=
  atSpace id fun _ => do
    let n ← get
    let after ← ofExcept (neighborsPrune (env.prunes id) n)
    set after

def changesRoutes (type : Nat) : Bool :=
  type == RTM_NEWROUTE || type == RTM_DELROUTE || type == RTM_NEWRULE || type == RTM_DELRULE ||
    type == RTM_NEWNEXTHOP || type == RTM_DELNEXTHOP

/-- What the endpoints say about a tentative configuration. -/
def admits (m : Message) (t : Option LinkTargets) (f : Fabric) : Except Errno Unit := do
  if t.any fun t => t.change.hairpin.isSome || t.change.isolated.isSome then env.policyUpdate f
  if changesRoutes m.type || t.any fun t => t.change.mtu.isSome then env.transportUpdate f

/-- The change and everything that may still refuse it. -/
def attempt (m : Message) (t : Option LinkTargets) (saved : List SpaceId) : EStateM Errno Fabric (List VxlanConfig) :=
  do
  dispatch env n m t
  let f ← get
  ofExcept (admits env m t f)
  if t.isSome then
    saved.forM (prune env)
    let f ← get
    ofExcept (vxlanPrepare env (f.space n))
  else return []

def earlier (a b : Int) : Int := if b = 0 ∨ a ≠ 0 ∧ a < b then a else b

def refreshDeadline (n : Namespace) : Namespace :=
  let addresses := n.links.foldl (fun next link => link.addresses.foldl (fun next a =>
    let next := earlier next a.validUntil
    let next := if has a.flags IFA_F_DEPRECATED then next else earlier next a.preferredUntil
    if link.ipv6.useTempaddr ≠ 0 then earlier next a.regenerateAt else next) next) 0
  { n with configurationDeadline := n.routes.foldl (fun next r => earlier next r.validUntil) addresses }

def fabricDeadline : Fabric :=
  { f with configurationDeadline := f.spaces.foldl (fun next id => earlier next (f.space id).configurationDeadline) 0 }

/-- The sockets of the tunnels after a commit: those that a tunnel still uses. -/
def vxlanFinish (added : List VxlanConfig) (n : Namespace) : Namespace :=
  { n with vxlanPorts := (added ++
    n.vxlanPorts).filter fun port => n.links.any fun l => l.kind == .vxlan && vxlanPortMatches port l.vxlan }

def settle (isLink : Bool) (added : List VxlanConfig) (saved : List SpaceId) (f : Fabric) : Fabric :=
  let f := if isLink then f.put n (vxlanFinish added (f.space n)) else f
  fabricDeadline (saved.foldl (fun f id => f.put id (refreshDeadline (f.space id))) f)

/-- The size of the acknowledgement or error reply; a plain success has none. -/
def messageDone (m : Message) (failed : Bool) : Except Errno Nat := do
  if failed ∨ has m.flags NLM_F_ACK then
    failIf (36 > env.capacity) .EMSGSIZE
    if failed ∧ ¬ env.cappedAck then
      failIf (alignWord m.body.length > env.capacity - 36) .EMSGSIZE
      return 36 + alignWord m.body.length
    else return 36
  else return 0

def publishReply (encoded : Except Errno Nat) : Except Errno Nat := do
  let size ← encoded
  if size = 0 then return size
  else match env.publish with
    | none => return size
    | some result =>
      result
      return size

structure RouteResult where
  committed : Bool
  reply : Except Errno Nat
  fabric : Fabric

/-- The saved namespaces of an admitted request. -/
def journal (admitted : Except Errno (Option LinkTargets)) : List SpaceId × Except Errno Unit :=
  match admitted with
  | .error error => ([], .error error)
  | .ok t => checkpoints env f n t

/-- What is tried on the fabric: nothing, when an earlier step failed. -/
def trial (m : Message) (admitted : Except Errno (Option LinkTargets)) : EStateM Errno Fabric (List VxlanConfig) :=
  let saved := journal env f n admitted
  match saved.2 with
  | .error error => throw error
  | .ok _ => attempt env n m admitted.toOption.join saved.1

/-- How many listeners were told of the change: none when it failed or has no reply. -/
def notifyChanges (failed : Bool) (encoded : Except Errno Nat) (saved : List SpaceId) (before after : Fabric) : Nat :=
  if failed ∨ encoded.toOption.isNone then 0 else env.notified saved before after

/-- The part of `md_network_route` under the fabric lock. Once a listener has seen a change, a
lost reply no longer takes it back. -/
def transact (m : Message) (admitted : Except Errno (Option LinkTargets)) : RouteResult :=
  let saved := (journal env f n admitted).1
  let outcome := gives (trial env f n m admitted) f
  let after := leaves (trial env f n m admitted) f
  let failed := outcome.toOption.isNone
  let encoded := messageDone env m failed
  let published := notifyChanges env failed encoded saved f after
  let reply := publishReply env encoded
  if ¬ failed ∧ (reply.toOption.isSome ∨ published ≠ 0) then
    { committed := true, reply := reply
      fabric := settle n admitted.toOption.join.isSome (outcome.toOption.getD []) saved after }
  else { committed := false, reply := reply, fabric := rollback saved f after }

/-- `md_network_route` for a request that may change the configuration. -/
def networkRoute (m : Message) : RouteResult :=
  if ¬ has m.flags NLM_F_REQUEST then { committed := false, reply := .error .EINVAL, fabric := f }
  else transact env f n m (admission env m)

end Shroot.Network
