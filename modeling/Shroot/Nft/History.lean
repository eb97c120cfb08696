import Shroot.Nft.Requests

namespace Shroot.Nft

open General
open Network (Attribute alignWord)

section

def NFNL_SUBSYS_NFTABLES : Nat := 10
def NFNL_SUBSYS_NFT_COMPAT : Nat := 11
def NFNL_MSG_BATCH_BEGIN : Nat := 16
def NFNL_MSG_BATCH_END : Nat := 17

variable (filter : Option NetworkFilter)

def filterGeneration : UInt32 := (filter.map (·.generation)).getD 1

def nextGeneration : UInt32 :=
  let next := filterGeneration filter + 1
  if next ≠ 0 then next else 1

/-- What `md_network_filter_copy` copies: no ruleset is an empty one. -/
def filterCopy : NetworkFilter := filter.getD {}

/-- A message, and whether the data end with it. -/
structure Frame where
  message : Message
  last : Bool

/-- `NLMSG_OK`: the message that the data begin with, and how far the next one is. -/
def frameNext (bytes : Bytes) : Option (Message × Nat) :=
  let length := littleEndianValue (bytes.take 4)
  if bytes.length < 16 ∨ length < 16 ∨ length > bytes.length then none
  else
    some ({ type := littleEndianValue ((bytes.drop 4).take 2)
            flags := UInt32.ofNat (littleEndianValue ((bytes.drop 6).take 2))
            body := (bytes.take length).drop 16 }, alignWord length)

/-- The messages of the data, and whether nothing remains after them. -/
def framesWithin : Nat → Bytes → List Frame × Bool
  | 0, _ => ([], false)
  | fuel + 1, bytes =>
    match frameNext bytes with
    | none => ([], decide (bytes = []))
    | some (message, size) =>
      -- The padding of the last message may be missing, which leaves less than nothing.
      if size > bytes.length then ([{ message, last := false }], false)
      else
        let (rest, whole) := framesWithin fuel (bytes.drop size)
        ({ message, last := decide (size = bytes.length) } :: rest, whole)

def frames (bytes : Bytes) : List Frame × Bool := framesWithin (bytes.length + 1) bytes

/-- What a call meets outside: the capability of its caller, memory for the copy, each request, how the
acknowledgments fail to be encoded, what the endpoints and the forwarder say to a ruleset, and whether the
reply was published. -/
structure Surroundings where
  capable : Bool := true
  copies : Bool := true
  outside : Nat → Outside := fun _ => {}
  acknowledgment : Nat → Option Errno := fun _ => none
  endpoints : NetworkFilter → Option Errno := fun _ => none
  forwarder : NetworkFilter → Option Errno := fun _ => none
  last : Option Errno := none
  published : Bool := true

section

variable (env : Surroundings) (filter : Option NetworkFilter)

def succeed (error : Option Errno) : Except Errno Unit :=
  match error with
  | some errno => .error errno
  | none => .ok ()

/-- Where the processing of messages is. -/
structure Session where
  next : Option NetworkFilter := none
  ended : Bool := false
  rejected : Bool := false

def checkHeader (m : Message) : Except Errno Unit := do
  failIf (m.body.length < 4 ∨ has m.flags NLM_F_REQUEST = false) .EINVAL
  failIf (m.version ≠ 0) .EPROTONOSUPPORT
  failIf (env.capable = false) .EPERM

/-- The generation that a batch is for; zero for any. -/
def batchGeneration (m : Message) : Except Errno Nat := do
  failIf (m.family ≠ 0 ∨ m.resource ≠ NFNL_SUBSYS_NFTABLES) .EINVAL
  let a ← m.attributes [1]
  number (a.get 1) 4

variable (i : Nat)

/-- The first message of a batch, which copies the ruleset. -/
def beginBatch (m : Message) : Except Errno Session := do
  failIf (i ≠ 0) .EINVAL
  let generation ← batchGeneration m
  failIf (generation ≠ 0 ∧ generation ≠ (filterGeneration filter).toNat) .ERESTART
  failIf (env.copies = false) .ENOMEM
  succeed (env.acknowledgment i)
  return { next := some { filterCopy filter with generation := nextGeneration filter } }

/-- Whether a message can end a batch. -/
def endsBatch (x : Frame) : Bool :=
  x.message.body.length == 4 && x.last && x.message.family == 0 &&
    (x.message.resource == 0 || x.message.resource == NFNL_SUBSYS_NFTABLES)

def endBatch (batch : Bool) (s : Session) (x : Frame) : Except Errno Session := do
  failIf (batch = false ∨ s.ended ∨ endsBatch x = false) .EINVAL
  return { s with ended := true }

def compatQuery (o : Outside) (m : Message) : Except Errno Unit := do
  failIf (m.operation ≠ 0) .EOPNOTSUPP
  let a ← m.attributes [1, 2, 3]
  let name ← string (a.get 1)
  let revision ← requiredNumber (a.get 2)
  let type ← requiredNumber (a.get 3)
  failIf (name = none ∨ (name.getD []).length ≥ 32 ∨ type > 1) .EINVAL
  compatRevision m.family name revision (type == 1)
  answer o 1

/-- A message that is no part of a batch. -/
def query (m : Message) : Except Errno Unit := do
  if m.subsystem = NFNL_SUBSYS_NFT_COMPAT then compatQuery (env.outside i) m
  else
    failIf (m.subsystem ≠ NFNL_SUBSYS_NFTABLES) .EOPNOTSUPP
    failIf (isQuery m.operation = false) .EINVAL
    dispatchQuery (env.outside i) m (filterCopy filter)

def operation (m : Message) : Update Unit := do
  rejectIf (m.subsystem ≠ NFNL_SUBSYS_NFTABLES) .EOPNOTSUPP
  rejectIf (isQuery m.operation = true) .EINVAL
  dispatch (env.outside i) m

/-- An operation of a batch in its session. When it fails, so will the batch, but the other operations are
tried. -/
def operate (s : Session) (m : Message) : Except Errno Session := do
  let s := match (operation env i m).run (s.next.getD (filterCopy filter)) with
    | .ok _ next => { s with next := some next }
    | .error _ next => { s with next := some next, rejected := true }
  succeed (env.acknowledgment i)
  return s

/-- One message of `md_network_nft`. -/
def sessionStep (batch : Bool) (s : Session) (x : Frame × Nat) : Except Errno Session := do
  checkHeader env x.1.message
  if x.1.message.type = NFNL_MSG_BATCH_BEGIN then beginBatch env filter x.2 x.1.message
  else if x.1.message.type = NFNL_MSG_BATCH_END then endBatch batch s x.1
  else if batch then operate env filter x.2 s x.1.message
  else do
    query env filter x.2 x.1.message
    succeed (env.acknowledgment x.2)
    return s

end

variable (env : Surroundings)

/-- Anonymous sets stay only for the rules that use them. -/
def prune (f : NetworkFilter) : NetworkFilter :=
  { f with sets := f.sets.filter fun s => setUsed f s.handle || !has s.flags NFT_SET_ANONYMOUS }

variable (next : NetworkFilter)

def prepare : Except Errno Unit := do
  validate next
  succeed (env.endpoints next)
  succeed (env.forwarder next)

/-- `md_network_filter_commit`: the ids of a transaction end with it. -/
def commit : NetworkFilter :=
  { next with
    chains := next.chains.map ({ · with id := 0 })
    rules := next.rules.map ({ · with id := 0 })
    sets := next.sets.map ({ · with id := 0 }) }

/-- What a batch without errors commits: after its preparation, the last reply and its publication. -/
def finish : Option NetworkFilter :=
  match prepare env (prune next) with
  | .error _ => none
  | .ok _ => if env.last.isSome ∨ env.published = false then none else some (commit (prune next))

variable (filter : Option NetworkFilter)

def committed (bytes : Bytes) : Option NetworkFilter :=
  if bytes.length < 16 ∨ bytes.length > 2 ^ 31 - 1 then none
  else
    let (messages, whole) := frames bytes
    let batch := messages.head?.any (·.message.type == NFNL_MSG_BATCH_BEGIN)
    match messages.zipIdx.foldlM (sessionStep env filter batch) {} with
    | .error _ => none
    | .ok s =>
      if whole = false ∨ batch = false ∨ s.ended = false ∨ s.rejected then none
      else finish env (s.next.getD (filterCopy filter))

/-- The ruleset of a namespace after the nftables messages of `md_network_nft`. -/
def nftables (bytes : Bytes) : Option NetworkFilter := (committed env filter bytes).or filter

end

open List
open Network (Attribute AF_INET AF_INET6 ipOf)

variable {unreserved : Prop} {g : NetworkFilter}

section

variable {f h : NetworkFilter}

/-- How a ruleset becomes another one that is as consistent. -/
structure Grows (unreserved : Prop) (f g : NetworkFilter) : Prop where
  consistent : Consistent f → Consistent g
  continues : Consistent f → Continues f g
  names : unreserved → Consistent f → SetNames f → SetNames g

theorem Grows.refl : Grows unreserved f f := ⟨id, fun _ => .refl f, fun _ _ => id⟩

theorem Grows.trans (first : Grows unreserved f g) (second : Grows unreserved g h) : Grows unreserved f h where
  consistent holds := second.consistent (first.consistent holds)
  continues holds := (first.continues holds).trans (second.continues (first.consistent holds))
  names free holds named := second.names free (first.consistent holds) (first.names free holds named)

theorem Grows.weaken {stronger : Prop} (grows : Grows unreserved f g) (implies : stronger → unreserved) :
    Grows stronger f g :=
  ⟨grows.consistent, grows.continues, fun free => grows.names (implies free)⟩

theorem Edit.grows (edit : Edit unreserved f g) : Grows unreserved f g :=
  ⟨edit.consistent, fun _ => edit.continues, fun free has => edit.setNames has free⟩

theorem edits_grow (edits : Edits unreserved f g) : Grows unreserved f g := by
  induction edits with
  | refl => exact .refl
  | tail _ last ih => exact ih.trans last.grows

/-- A ruleset with the same objects, up to what nothing refers to. -/
def renumbered (f : NetworkFilter) (id : UInt32 → UInt32) (generation : UInt32) : NetworkFilter :=
  { f with
    generation := generation
    chains := f.chains.map fun c => { c with id := id c.id }
    rules := f.rules.map fun r => { r with id := id r.id }
    sets := f.sets.map fun s => { s with id := id s.id } }

theorem renumbered_grows (id : UInt32 → UInt32) (gen : UInt32) : Grows unreserved f (renumbered f id gen) := by
  have chains : (renumbered f id gen).chains.map (·.handle) = f.chains.map (·.handle) := map_map
  have rules : (renumbered f id gen).rules.map (·.handle) = f.rules.map (·.handle) := map_map
  have sets : (renumbered f id gen).sets.map (·.handle) = f.sets.map (·.handle) := map_map
  refine ⟨fun good => ?_, fun _ => ?_, fun _ _ names => ?_⟩
  · refine Extended.consistent
      { good.whole with
        chains := fun c mem => ⟨_, mem_map_of_mem mem, rfl, rfl⟩
        sets := fun s mem => ⟨_, mem_map_of_mem mem, rfl, rfl⟩
        issued := good.isIssued.kept ?_ rfl
        sizes := ?_, chainNames := ?_, ofChain := ?_, ofSet := ?_, ofRule := ?_ } good
    · rw [handles, chains, rules, sets]
      exact .refl _
    · exact forall_mem_map.mpr good.whole.sizes
    · have names : (renumbered f id gen).chains.map (fun c => (c.table, c.name)) =
        f.chains.map fun c => (c.table, c.name) := map_map
      rw [names]
      exact good.chainNames
    · exact forall_mem_map.mpr good.whole.ofChain
    · exact forall_mem_map.mpr fun t there => .inl ⟨t, there, rfl, rfl, rfl, rfl, rfl, fun _ isIn => .inl isIn⟩
    · exact forall_mem_map.mpr fun q there => .inl ⟨q, there, rfl, rfl⟩
  · exact ⟨le_rfl, fun _ mem _ => mem, fun _ mem _ => chains ▸ mem, fun _ mem _ => rules ▸ mem,
      fun _ mem _ => sets ▸ mem⟩
  · refine ⟨?_, forall_mem_map.mpr names.anonymous, forall_mem_map.mpr names.named⟩
    exact (map_map (l := f.sets)).symm ▸ names.distinct

theorem generation_grows (generation : UInt32) : Grows unreserved f { f with generation } := by
  have same : renumbered f (fun id => id) generation = { f with generation } := by simp [renumbered]
  exact same ▸ renumbered_grows _ generation

theorem prune_kept : Kept f (prune f) := by
  refine
    { Kept.refl f with
      sets := filter_sublist
      setTables := fun _ _ _ there _ => there
      references := ?_
      elements := fun _ _ _ _ _ there _ => there }
  intro r isRule e isIn s there refers
  refine mem_filter.mpr ⟨there, ?_⟩
  have used : setUsed f s.handle = true := by
    refine any_eq_true.mpr ⟨r, isRule, any_eq_true.mpr ⟨e, isIn, ?_⟩⟩
    rw [refers, beq_self_eq_true]
  rw [used, Bool.true_or]

theorem empty_consistent : Consistent {} where
  positive := by decide
  distinct := by decide
  issued := by simp [handles]
  chainNames := by decide
  chainTables _ mem := nomatch mem
  setTables _ mem := nomatch mem
  rules _ mem := nomatch mem
  elements _ mem := nomatch mem
  verdictMaps _ mem := nomatch mem
  maps _ mem := nomatch mem
  ipsets _ mem := nomatch mem
  disciplined _ mem := nomatch mem

end

section

variable (env : Surroundings) (filter : Option NetworkFilter)

theorem operation_grows (i : Nat) (m : Message) (f : NetworkFilter) :
    Yields f (fun _ g => Consistent f → Grows (¬ Reserves m) f g) (operation env i m) := by
  refine .rejectIf_bind fun _ => .rejectIf_bind fun _ => ?_
  intro _ g run good
  exact edits_grow (dispatch_edits good (env.outside i) m _ _ run)

def Session.current (s : Session) : NetworkFilter := s.next.getD (filterCopy filter)

/-- As long as no operation fails, the ruleset of a session grows from the old one. -/
def Session.Sound (unreserved : Prop) (s : Session) : Prop :=
  s.rejected = false → Grows unreserved (filterCopy filter) (s.current filter)

variable {filter} {s : Session}

theorem operate_sound (good : Consistent (filterCopy filter)) (i : Nat) (m : Message) (free : unreserved → ¬ Reserves m)
    (sound : s.Sound filter unreserved) : Gives (Session.Sound filter unreserved) (operate env filter i s m) := by
  refine .bind fun _ _ => .pure ?_
  split
  next g run =>
    intro kept
    have old := sound kept
    exact old.trans ((operation_grows env i m _ _ _ run (old.consistent good)).weaken free)
  · exact nofun

theorem sessionStep_sound (good : Consistent (filterCopy filter)) (batch : Bool) (x : Frame × Nat)
    (free : unreserved → ¬ Reserves x.1.message) (sound : s.Sound filter unreserved) :
    Gives (Session.Sound filter unreserved) (sessionStep env filter batch s x) := by
  refine .bind fun _ _ => .ite (fun _ => ?_) fun _ => .ite (fun _ => ?_) fun _ => .ite (fun _ => ?_) fun _ => ?_
  · refine .failIf_bind fun _ => .bind fun _ _ => .failIf_bind fun _ => .failIf_bind fun _ => .bind fun _ _ => ?_
    exact .pure fun _ => generation_grows _
  · exact .failIf_bind fun _ => .pure sound
  · exact operate_sound env good x.2 x.1.message free sound
  · exact .bind fun _ _ => .bind fun _ _ => .pure sound

def batchMessages (bytes : Bytes) : List Message := (frames bytes).1.map (·.message)

/-- No message asks for a set with a name that anonymous sets are given. -/
def Unreserved (bytes : Bytes) : Prop := ∀ m ∈ batchMessages bytes, ¬ Reserves m

theorem sessions_sound (good : Consistent (filterCopy filter)) (batch : Bool) (messages : List (Frame × Nat))
    (free : unreserved → ∀ x ∈ messages, ¬ Reserves x.1.message) (sound : s.Sound filter unreserved) :
    Gives (Session.Sound filter unreserved) (messages.foldlM (sessionStep env filter batch) s) := by
  induction messages generalizing s with
  | nil => exact .pure sound
  | cons x rest ih =>
    refine .bind fun next ran => ih (fun has y mem => free has y (.tail _ mem)) ?_
    exact sessionStep_sound env good batch x (fun has => free has x (.head _)) sound next ran

theorem committed_grows (good : Consistent (filterCopy filter)) {bytes : Bytes}
    (commits : committed env filter bytes = some g) : Grows (Unreserved bytes) (filterCopy filter) g := by
  unfold committed at commits
  split at commits
  · cases commits
  dsimp only at commits
  split at commits
  · cases commits
  rename_i s run
  split at commits
  · cases commits
  rename_i whole
  have free : Unreserved bytes → ∀ x ∈ (frames bytes).1.zipIdx, ¬ Reserves x.1.message := by
    intro has x mem
    exact has _ (mem_map_of_mem (fst_mem_of_mem_zipIdx mem))
  have sound := sessions_sound env good _ _ free (s := {}) (fun _ => .refl) s run
  have kept : s.rejected = false := by
    by_contra rejected
    exact whole (by simp [rejected])
  unfold finish at commits
  split at commits
  · cases commits
  split at commits
  · cases commits
  cases commits
  exact (sound kept).trans ((Edit.delete prune_kept).grows.trans (renumbered_grows (fun _ => 0) _))

end

/-- A call of `md_network_nft` with nftables messages. -/
structure Call where
  env : Surroundings
  bytes : Bytes

/-- The ruleset after calls, from none. -/
def afterCalls (calls : List Call) : Option NetworkFilter :=
  calls.foldl (fun filter call => nftables call.env filter call.bytes) none

variable {filter : Option NetworkFilter}

theorem nftables_grows (good : Consistent (filterCopy filter)) (call : Call) :
    Grows (Unreserved call.bytes) (filterCopy filter) (filterCopy (nftables call.env filter call.bytes)) := by
  unfold nftables
  cases commits : committed call.env filter call.bytes with
  | none => exact .refl
  | some g => exact committed_grows call.env good commits

theorem foldl_grows (good : Consistent (filterCopy filter)) (calls : List Call) :
    Grows (∀ call ∈ calls, Unreserved call.bytes) (filterCopy filter)
      (filterCopy (calls.foldl (fun filter call => nftables call.env filter call.bytes) filter)) := by
  induction calls generalizing filter with
  | nil => exact .refl
  | cons call rest ih =>
    have first := nftables_grows good call
    refine (first.weaken fun free => free call (.head _)).trans ?_
    exact (ih (first.consistent good)).weaken fun free other mem => free other (.tail _ mem)

theorem afterCalls_grows (calls : List Call) :
    Grows (∀ call ∈ calls, Unreserved call.bytes) {} (filterCopy (afterCalls calls)) := by
  have initially : Consistent (filterCopy none) := empty_consistent
  exact foldl_grows initially calls

/-- Whatever batches there were: the objects have their own handles and names, all references lead to objects of
the same table, and no handle returns after its object is gone. Two sets of a table can have one name only after
a request for a set that is called as an anonymous one would be. -/
theorem committed_rulesets (earlier later : List Call) :
    Consistent (filterCopy (afterCalls (earlier ++ later))) ∧
      Continues (filterCopy (afterCalls earlier)) (filterCopy (afterCalls (earlier ++ later))) ∧
      ((∀ call ∈ earlier ++ later, Unreserved call.bytes) → SetNames (filterCopy (afterCalls (earlier ++ later)))) := by
  have old := (afterCalls_grows earlier).consistent empty_consistent
  have last := foldl_grows old later
  have whole := afterCalls_grows (earlier ++ later)
  refine ⟨whole.consistent empty_consistent, ?_,
    fun free => whole.names free empty_consistent ⟨by decide, nofun, nofun⟩⟩
  unfold afterCalls at last ⊢
  rw [foldl_append]
  exact last.continues old

/-! Messages, as a client encodes them. -/

def attributeBytes (type : Nat) (data : Bytes) : Bytes :=
  littleEndian 2 (data.length + 4) ++ littleEndian 2 type ++ data ++
    replicate (Network.alignWord data.length - data.length) 0

def numberBytes (n : Nat) : Bytes := (littleEndian 4 n).reverse

def textBytes (text : String) : Bytes := ascii text ++ [0]

def requestBytes (type : Nat) (family : UInt8) (resource : Nat) (fields : List Bytes) : Bytes :=
  let body := [family, 0] ++ (littleEndian 2 resource).reverse ++ fields.flatten
  littleEndian 4 (body.length + 16) ++ littleEndian 2 type ++ littleEndian 2 1 ++ replicate 8 0 ++ body

def operationBytes (operation : Nat) (fields : List Bytes) : Bytes :=
  requestBytes (NFNL_SUBSYS_NFTABLES * 256 + operation) 2 0 fields

def expressionBytes (name : String) (fields : List Bytes) : Bytes :=
  attributeBytes 1 (attributeBytes 1 (textBytes name) ++ attributeBytes (0x8000 + 2) fields.flatten)

/-- A batch that asks for a set with a name, and then for an anonymous one, whose handle is to be 3. -/
def setBatch (name : String) : Bytes :=
  requestBytes NFNL_MSG_BATCH_BEGIN 0 NFNL_SUBSYS_NFTABLES [] ++
    operationBytes 0 [attributeBytes 1 (textBytes "t")] ++
    operationBytes 9 [attributeBytes 1 (textBytes "t"), attributeBytes 2 (textBytes name),
      attributeBytes 3 (numberBytes 0),
      attributeBytes 4 (numberBytes 0), attributeBytes 5 (numberBytes 1)] ++
    operationBytes 9 [attributeBytes 1 (textBytes "t"), attributeBytes 2 (textBytes "__set%d"),
      attributeBytes 3 (numberBytes 1),
      attributeBytes 4 (numberBytes 0), attributeBytes 5 (numberBytes 1), attributeBytes 10 (numberBytes 7)] ++
    operationBytes 3 [attributeBytes 1 (textBytes "t"), attributeBytes 3 (textBytes "c")] ++
    operationBytes 6 [attributeBytes 1 (textBytes "t"), attributeBytes 2 (textBytes "c"), attributeBytes (0x8000 + 4)
      (expressionBytes "meta" [attributeBytes 1 (numberBytes 1), attributeBytes 2 (numberBytes 16)] ++
        expressionBytes "lookup" [attributeBytes 1 (textBytes "__set%d"), attributeBytes 2 (numberBytes 1),
          attributeBytes 4 (numberBytes 7)])] ++
    requestBytes NFNL_MSG_BATCH_END 0 NFNL_SUBSYS_NFTABLES []

theorem setBatch_unreserved : Unreserved (setBatch "s") := by
  have fine : ∀ m ∈ batchMessages (setBatch "s"), m.operation = NFT_MSG_NEWSET →
      ∀ a ∈ (m.attributes newSetAttributes).toOption,
        (∀ text ∈ (string (a.get 2)).toOption.join, text.take 5 ≠ ascii "__set") ∨
          ∀ flags ∈ (requiredNumber (a.get 3)).toOption, has (UInt32.ofNat flags) NFT_SET_ANONYMOUS = true := by
    decide +kernel
  rintro m mem ⟨isNew, a, n, flags, read, named, flagged, plain⟩
  rcases fine m mem isNew a (by rw [read]; rfl) with other | anonymous
  · exact other (anonymousName n) (by rw [named]; rfl) rfl
  · have anon := anonymous flags (by rw [flagged]; rfl)
    rw [plain] at anon
    cases anon

theorem committed_rulesets_named :
    SetNames (filterCopy (afterCalls [{ env := {}, bytes := setBatch "s" }])) ∧
      ((filterCopy (afterCalls [{ env := {}, bytes := setBatch "s" }])).sets.map (·.name)) =
        [ascii "s", ascii "__set3"] := by
  refine ⟨(committed_rulesets [] [{ env := {}, bytes := setBatch "s" }]).2.2 fun call mem => ?_, by decide +kernel⟩
  rw [mem_singleton.mp mem]
  exact setBatch_unreserved

theorem setBatch_names :
    ((filterCopy (afterCalls [{ env := {}, bytes := setBatch "__set3" }])).sets.map fun s => (s.table, s.name)) =
      [(1, ascii "__set3"), (1, ascii "__set3")] := by
  decide +kernel

/-- Two sets of one table with one name. -/
theorem setNames_collide : ∃ calls, ¬ ((filterCopy (afterCalls calls)).sets.map fun s => (s.table, s.name)).Nodup := by
  refine ⟨[{ env := {}, bytes := setBatch "__set3" }], ?_⟩
  rw [setBatch_names]
  simp

/-- A rule whose expressions were accepted when the sets had the sizes that they have. -/
def Rule.AcceptedIn (g : NetworkFilter) (rule : Rule) : Prop :=
  ∃ f table data, (f.sets.map (·.handle)).Nodup ∧ nftExpressions f table data = .ok rule.expressions ∧
    ∀ s ∈ g.sets, ∀ t ∈ f.sets, s.handle = t.handle → t.keySize = s.keySize ∧ t.dataSize = s.dataSize

theorem Rule.AcceptedIn.disciplined {rule : Rule} (fine : rule.AcceptedIn g) : Disciplined g 0 rule.expressions := by
  obtain ⟨f, table, data, nodup, read, sizes⟩ := fine
  obtain ⟨sound, resolves⟩ := nftExpressions_parsed nodup read
  refine sound.mono fun e mem sized => sized.mono fun handle refers s there is => ?_
  have found : ∃ t ∈ f.sets, t.handle = handle := by
    have here := resolves e mem
    cases e with
    | lookup _ _ _ _ | verdictMap _ _ _ | dataMap _ _ _ _ _ =>
      cases refers
      obtain ⟨t, isIn, same, -⟩ := here
      exact ⟨t, isIn, same⟩
    | _ => cases refers
  obtain ⟨t, isIn, same⟩ := found
  exact ⟨t, isIn, same, sizes s there t isIn (is.trans same.symm)⟩

/-- What the rules of a ruleset were accepted by: the parser, one by one, or batches. -/
def RulesAccepted (g : NetworkFilter) : Prop :=
  (∀ rule ∈ g.rules, rule.AcceptedIn g) ∨ ∃ calls, g = filterCopy (afterCalls calls)

theorem RulesAccepted.disciplined (fine : RulesAccepted g) : AllDisciplined g := by
  rcases fine with read | ⟨calls, rfl⟩
  · exact fun rule mem => (read rule mem).disciplined
  · exact ((afterCalls_grows calls).consistent empty_consistent).disciplined

/-- The source that a rule leaves the packet with. -/
def RuleEnd.source : RuleEnd → Bytes
  | .done _ s => s.packet.source.bytes
  | .missed s => s.packet.source.bytes

end Shroot.Nft
