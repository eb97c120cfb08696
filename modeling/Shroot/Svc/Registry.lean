import Shroot.Errno
import Shroot.General.Checks
import Shroot.General.Triples

namespace Shroot.Svc

open General List

section

abbrev Word := BitVec 32

/-- `UINTPTR_MAX`. -/
def addressMax : Nat := 2 ^ 64 - 1

def branch (src dst : Nat) : Except Errno Word := do
  failIf (src % 4 ≠ 0 ∨ dst % 4 ≠ 0) .EINVAL
  let distance := if src > dst then src - dst else dst - src
  failIf (distance > 2 ^ 27 - if dst ≥ src then 4 else 0) .ERANGE
  let words : Int := if dst ≥ src then (distance / 4 : Nat) else -(distance / 4 : Nat)
  return 0x14000000#32 ||| (BitVec.ofInt 32 words &&& 0x03ffffff#32)

/-! The offsets of the labels of `svc_single.S` from its first byte. -/

def singlePrefixAt : Nat := 76
def singleReturned : Nat := 224
def singleDoneReplay : Nat := 344
def singleDoneBranch : Nat := 348
def singleKernelReplay : Nat := 364
def singleKernelBranch : Nat := 368
def singleBusyReplay : Nat := 372
def singleBusyBranch : Nat := 376
def singleDispatch : Nat := 384
def singleState : Nat := 392
def singleOwner : Nat := 400

def singleSize : Nat := 408

/-- The words between `md_svc_single_begin` and `md_svc_single_end`. -/
structure Template where
  words : List Word
  whole : 4 * words.length = singleSize

def slotSize : Nat := 65536
def slotCount : Nat := 64
def poolSize : Nat := slotCount * slotSize

/-- The half of the frame base that a MOVK of the template builds. -/
def movkHalf (word : Word) : Option Nat :=
  if word &&& 0xff800000#32 = 0xf2800000#32 then some (word >>> 21 &&& 3#32).toNat else none

def relocateWord (frames : Nat) (word : Word) : Word :=
  match movkHalf word with
  | none => word
  | some half => (word &&& ~~~0x001fffe0#32) ||| BitVec.ofNat 32 (frames / 2 ^ (16 * half) % 65536) <<< 5

def frameRelocate (words : List Word) (frames : Nat) : Except Errno (List Word) := do
  failIf (frames = 0 ∨ frames % poolSize ≠ 0 ∨ frames > addressMax - poolSize - 65536) .EINVAL
  let halves := words.map movkHalf
  failIf (some 0 ∈ halves) .EINVAL
  let pieces (half : Nat) := halves.count (some half)
  failIf (¬ (pieces 1 ≠ 0 ∧ pieces 1 = pieces 2 ∧ pieces 2 = pieces 3)) .EINVAL
  return words.map (relocateWord frames)

def guardBytes : Nat := 64 * 4
def mapGuard : Nat := 32
def mapGuardEnd : Nat := 40

def sysMmap : BitVec 64 := 222

def sysGetuid : Nat := 174

def directPending : Nat := 392

def svcWord : Word := 0xd4000001#32
def nopWord : Word := 0xd503201f#32

def directSize : Nat := guardBytes + singleSize + 16
def directSignalSize : Nat := directSize + 32

structure DirectContext where
  svc : Nat
  gate : Nat
  frames : Nat
  number : BitVec 64

structure DirectFallback where
  mismatch : Nat
  declined : Nat
  busy : Nat

def directKernel (svc destination : Nat) : Except Errno (List Word) := do
  failIf (svc % 4 ≠ 0 ∨ destination % 4 ≠ 0 ∨ svc > addressMax - 4 ∨ destination > addressMax - 4) .EINVAL
  let back ← branch (destination + 4) (svc + 4)
  return [svcWord, back]

def quad (value : BitVec 64) : List Word := [value.truncate 32, (value >>> 32).truncate 32]

def setQuad (code : List Word) (offset : Nat) (value : BitVec 64) : List Word :=
  (code.set (offset / 4) (value.truncate 32)).set (offset / 4 + 1) ((value >>> 32).truncate 32)

variable (number : BitVec 64)

def subWord : Word := 0xd1000108#32 ||| number.truncate 32 <<< 10
def addWord : Word := 0x91000108#32 ||| number.truncate 32 <<< 10
def cbnzWord : Word := 0xb5000048#32

/-- The test of one flag of a mapping, `i` being 0 or 1. -/
def mapTest (i : Nat) : Word :=
  0x36000003#32 ||| BitVec.ofNat 32 (4 + i) <<< 19
    ||| (BitVec.ofInt 32 (Int.tdiv (12 - (mapGuard + 4 * i : Nat)) 4) &&& 0x3fff#32) <<< 5

variable (c : DirectContext)

/-- The words from the map guard to the end of the guard. -/
def mapGuardWords : Except Errno (List Word) :=
  if c.number = sysMmap then do
    let enter ← branch (c.gate + mapGuardEnd) (c.gate + guardBytes)
    return [mapTest 0, mapTest 1, enter] ++ replicate 53 nopWord
  else return replicate 56 nopWord

/-- The test of one bit of the number, which leaves to the branch behind the body. -/
def bitOffset (bit : Nat) : Nat := guardBytes + singleSize + 8 - 4 * bit

def bitTest (value : Bool) (bit : Nat) : Word :=
  0x36000008#32 ||| BitVec.ofNat 32 (bit / 32) <<< 31 ||| BitVec.ofNat 32 (bit % 32) <<< 19
    ||| (if value then 0#32 else 1#32 <<< 24) ||| BitVec.ofNat 32 (bitOffset bit / 4) <<< 5

def guardBit (bit : Nat) : Except Errno Word := do
  failIf (bitOffset bit ≥ 32768) .ERANGE
  return bitTest (number.getLsbD bit) bit

def guardWords (mismatch : Nat) : Except Errno (List Word) :=
  if c.number.toNat ≤ 4095 then do
    let enter ← branch (c.gate + 8) (if c.number = sysMmap then c.gate + mapGuard else c.gate + guardBytes)
    let leave ← branch (c.gate + 16) mismatch
    let rest ← mapGuardWords c
    return [subWord c.number, cbnzWord, enter, addWord c.number, leave, nopWord, nopWord, nopWord] ++ rest
  else (range 64).mapM (guardBit c.number)

/-- The load of the number from behind the body into x8. -/
def replayWord (replay : Nat) : Word := 0x58000008#32 ||| BitVec.ofNat 32 ((singleSize - replay) / 4) <<< 5

def replays : List Nat := [singlePrefixAt, singleDoneReplay, singleKernelReplay, singleBusyReplay]

/-- Where the three branches of the body go. -/
def bodyExits (exits : DirectFallback) : List (Nat × Nat) :=
  [(singleDoneBranch, c.svc + 4), (singleKernelBranch, exits.declined), (singleBusyBranch, exits.busy)]

def setBranch (body : List Word) (exit : Nat × Nat) : Except Errno (List Word) := do
  let word ← branch (c.gate + guardBytes + exit.1) exit.2
  return body.set (exit.1 / 4) word

/-- `md_svc_direct_plan`: the code and the instruction that replaces the call. -/
def directPlan (t : Template) (c : DirectContext) (dispatch : Nat) (exits : DirectFallback) (capacity : Nat) :
    Except Errno (List Word × Word) := do
  failIf (dispatch = 0 ∨ (∃ a ∈ [c.svc, c.gate, dispatch, exits.mismatch, exits.declined, exits.busy], a % 4 ≠ 0)
    ∨ c.svc > addressMax - 4 ∨ c.gate > addressMax - directSize) .EINVAL
  failIf (capacity < directSize) .ENOSPC
  let jump ← branch c.svc c.gate
  let relocated ← frameRelocate t.words c.frames
  let literal := setQuad (setQuad (setQuad relocated singleDispatch (BitVec.ofNat 64 dispatch))
    singleState (BitVec.ofNat 64 (c.frames + poolSize))) singleOwner (BitVec.ofNat 64 c.gate)
  let miss ← branch (c.gate + guardBytes + singleSize + 8) exits.mismatch
  let guard ← guardWords c exits.mismatch
  let replayed := replays.foldl (fun body replay => body.set (replay / 4) (replayWord replay)) literal
  let body ← (bodyExits c exits).foldlM (setBranch c) replayed
  return (guard ++ body ++ quad c.number ++ [miss, nopWord], jump)

def directSignalPlan (t : Template) (c : DirectContext) (dispatch : Nat) (exits : DirectFallback) (capacity : Nat) :
    Except Errno (List Word × Word) := do
  failIf (capacity < directSignalSize) .EINVAL
  let (code, replacement) ← directPlan t c dispatch exits capacity
  let returned := guardBytes + singleReturned
  let back ← branch (c.gate + directSize + 12) (c.gate + returned + 4)
  let jump ← branch (c.gate + returned) (c.gate + directSize)
  let tail : List Word :=
    [code.getD (returned / 4) 0#32,
      0xf9400000#32 ||| BitVec.ofNat 32 (directPending / 8) <<< 10 ||| 8#32 <<< 5 ||| 30#32,
      0xb5000000#32 ||| 2#32 <<< 5 ||| 30#32, back, 0xd2800008#32 ||| BitVec.ofNat 32 sysGetuid <<< 5, svcWord,
        0xd4200000#32, 0x14000000#32]
  return (code.set (returned / 4) jump ++ tail, replacement)

end

open Prod

variable {setup : Setup} {words body : List Word}

/-- `MD_SVC_SITES`. -/
def sitesMax : Nat := 128

@[irreducible] def codeBytes : Nat := 65536

def codePools : Nat := 8

def payloadSize : Nat := 16384

structure CodePool where
  address : Nat
  used : Nat

inductive SiteState where
  | published
  | retired
  deriving DecidableEq

/-- A site; the gate is zero until it is published. -/
structure Site where
  direct : DirectContext
  kernelAlias : Nat
  original : Word
  replacement : Word
  state : SiteState

/-- What a registry is made with: `md_svc_registry_new`, then `md_svc_registry_pool` for every range of code. -/
structure Setup where
  frames : Nat
  dispatch : Nat
  nativeBegin : Nat
  nativeEnd : Nat
  pools : List Nat
  template : Template
  frames_ok : frames ≠ 0 ∧ frames % poolSize = 0 ∧ frames ≤ addressMax - poolSize - payloadSize
  dispatch_ok : dispatch ≠ 0 ∧ dispatch % 4 = 0
  pools_ok : ∀ pool ∈ pools, pool ≠ 0 ∧ pool % 65536 = 0 ∧ pool ≤ addressMax - codeBytes
  distinct : pools.Nodup
  few : pools.length ≤ codePools

/-- Where the payload is told whether calls are admitted. -/
@[irreducible] def Setup.admitted (setup : Setup) : Nat := setup.frames + poolSize + 32

structure Registry where
  pools : List CodePool
  sites : List Site
  disabled : Bool

/-- A registry, the text of its process by words, and the answers to come of the accesses to that. -/
structure Space where
  registry : Registry
  text : Nat → Word
  faults : List (Option Errno)

abbrev SpaceM := EStateM Errno Space

/-- The mappings of the process. The state of the payload is in a writable one. -/
structure Maps (setup : Setup) where
  executable : Nat → Bool
  state_writable : ∀ address, executable address → ¬ (setup.admitted ≤ address ∧ address < setup.admitted + 8)

/-- What `pwrite` through the retained descriptor does. -/
inductive Staging where
  | absent
  | failed
  | written (bytes : Nat)

def access : SpaceM Unit := do
  let space ← get
  set { space with faults := space.faults.tail }
  match space.faults.head? with
  | some (some error) => throw error
  | _ => return ()

variable (address : Nat)

def putWord (word : Word) : SpaceM Unit :=
  modify fun space => { space with text := Function.update space.text address word }

/-- `md_svc_registry_read` of a word. -/
def registryRead : SpaceM Word := do
  rejectIf (4 > addressMax - address) .EFAULT
  access
  return (← get).text address

/-- The loop of `md_svc_registry_write`, eight bytes at a time. Half a unit is read first and put back with the other
half as it was. -/
def writeWords (address : Nat) : List Word → SpaceM Unit
  | [] => return ()
  | [word] => do
    access
    access
    putWord address word
  | word :: other :: rest =>
    if address % 8 = 0 then do
      access
      putWord address word
      putWord (address + 4) other
      writeWords (address + 8) rest
    else do
      access
      access
      putWord address word
      writeWords (address + 4) (other :: rest)

def registryWrite (words : List Word) : SpaceM Unit := do
  rejectIf (4 * words.length > addressMax - address) .EFAULT
  writeWords address words

/-- A word of which only the first bytes are written. -/
def tornWord (old new : Word) (bytes : Nat) : Word :=
  (old >>> (8 * bytes)) <<< (8 * bytes) ||| (new &&& (BitVec.ofNat 32 (2 ^ (8 * bytes) - 1)))

/-- The first bytes of some words, written at an address. -/
def putBytes (words : List Word) (bytes : Nat) (text : Nat → Word) : Nat → Word := fun a =>
  if address ≤ a ∧ a < address + 4 * words.length ∧ (a - address) % 4 = 0 ∧ a - address < bytes then
    let word := words.getD ((a - address) / 4) 0#32
    if a - address + 4 ≤ bytes then word else tornWord (text a) word (bytes - (a - address))
  else text a

def registryStage (staging : Staging) (address : Nat) (words : List Word) : SpaceM Unit := do
  rejectIf (4 * words.length > 2 ^ 63 - 1 ∨ 4 * words.length > addressMax - address) .EFAULT
  if words = [] then return ()
  match staging with
  | .absent | .failed => registryWrite address words
  | .written bytes =>
    modify fun space => { space with text := putBytes address words bytes space.text }
    if bytes ≥ 4 * words.length then return ()
    rejectIf (bytes = 0) .ESRCH
    registryWrite address words

/-- `head`: the newest gate of a site. -/
def newest (sites : List Site) (svc : Nat) : Option Site :=
  sites.reverse.find? fun s => s.direct.svc = svc ∧ s.state = .published

def setSite (i : Nat) (s : Site) : SpaceM Unit :=
  modify fun space => { space with registry := { space.registry with sites := space.registry.sites.set i s } }

/-- `svc - address` as the machine has it. -/
def distance (svc address : Nat) : Nat := (svc + 2 ^ 64 - address) % 2 ^ 64

/-- The room a gate takes in its pool. -/
@[irreducible] def gateBytes : Nat := directSignalSize + 8

theorem gateBytes_eq : gateBytes = 720 := by unfold gateBytes; rfl

/-- The code of a gate with its kernel alias behind it. -/
def gateCode (setup : Setup) (c : DirectContext) (previous : Option Site) : Except Errno (List Word × Word) := do
  let kernelAlias := c.gate + directSignalSize
  let exits : DirectFallback := ⟨(previous.map (·.direct.gate)).getD kernelAlias, kernelAlias, kernelAlias⟩
  let (code, replacement) ← directSignalPlan setup.template c setup.dispatch exits 2048
  let call ← directKernel c.svc kernelAlias
  return (code ++ call, replacement)

/-- The pool at `i` with a gate more. -/
def usePool (i : Nat) : SpaceM Unit :=
  modify fun space =>
    { space with
      registry :=
        { space.registry with
          pools :=
            space.registry.pools.modify i fun pool => { pool with used := pool.used + (gateBytes + 15) / 16 * 16 } } }

/-- The search for a pool that a gate fits in. -/
def extendIn (setup : Setup) (staging : Staging) (slot svc : Nat) (number : BitVec 64) (previous : Option Site) :
    List (Nat × CodePool) → SpaceM Nat
  | [] => return 0
  | (i, pool) :: rest =>
    if pool.used + gateBytes > codeBytes then extendIn setup staging slot svc number previous rest
    else
      let context : DirectContext := ⟨svc, pool.address + pool.used, setup.frames, number⟩
      match gateCode setup context previous with
      | .error _ => extendIn setup staging slot svc number previous rest
      | .ok (code, replacement) => do
        registryStage staging context.gate code
        registryWrite svc [replacement]
        setSite slot
          { direct := context, kernelAlias := context.gate + directSignalSize, original := svcWord
            replacement := replacement, state := .published }
        usePool i
        return 1

def extend (maps : Maps setup) (staging : Staging) (svc : Nat) (number : BitVec 64) (previous : Option Site) :
    SpaceM Nat := do
  let r := (← get).registry
  if r.disabled ∨ svc % 4 ≠ 0 ∨ svc < 4 ∨ r.sites.length = sitesMax ∨ setup.nativeBegin ≤ svc ∧
    svc < setup.nativeEnd then return 0
  if ∃ pool ∈ r.pools, distance svc pool.address < codeBytes then return 0
  let site : Site := { direct := ⟨svc, 0, 0, 0⟩, kernelAlias := 0, original := 0, replacement := 0, state := .retired }
  modify fun space => { space with registry := { space.registry with sites := space.registry.sites ++ [site] } }
  -- a failed read is no error here
  let current ← tryCatch (some <$> registryRead svc) fun _ => pure none
  if current = none ∨ (current ≠ some svcWord ∧ current ≠ previous.map (·.replacement)) ∨
    ¬ maps.executable svc then return 0
  rejectIf (gateBytes > 2048) .E2BIG
  extendIn setup staging r.sites.length svc number previous (r.pools.mapIdx fun i pool => (i, pool))

def registryResume (svc : Nat) : SpaceM Unit := do
  let r := (← get).registry
  match newest r.sites svc with
  | none => return ()
  | some s =>
    if r.disabled then return ()
    let current ← registryRead svc
    if current ≠ s.original then return ()
    registryWrite svc [s.replacement]

def registrySuspend (svc : Nat) : SpaceM Unit := do
  match newest (← get).registry.sites svc with
  | none => return ()
  | some s =>
    let current ← registryRead svc
    if current = s.replacement then registryWrite svc [s.original]

def registryDirect (maps : Maps setup) (staging : Staging) (svc : Nat) (number : BitVec 64) : SpaceM Nat := do
  let r := (← get).registry
  if r.disabled then return 0
  match newest r.sites svc with
  | some s =>
    if ∃ other ∈ r.sites, other.state = .published ∧ other.direct.svc = svc ∧ other.direct.number = number then
      registryResume svc
      return 0
    let current ← registryRead svc
    if current ≠ s.original ∧ current ≠ s.replacement then return 0
    let extended ← extend maps staging svc number (some s)
    if extended ≠ 0 then return 0
    registryResume svc
    return 0
  | none =>
    if ∃ other ∈ r.sites, other.direct.svc = svc then return 0
    extend maps staging svc number none

/-- `md_svc_registry_retire` of the site at `i`. -/
def registryRetire (i : Nat) : SpaceM Unit := do
  match (← get).registry.sites[i]? with
  | none => return ()
  | some s =>
    if s.state ≠ .published then return ()
    let current ← registryRead s.direct.svc
    if current = s.replacement then registryWrite s.direct.svc [s.original]
    setSite i { s with state := .retired }

def registryRevoke (setup : Setup) : SpaceM Unit := do
  let r := (← get).registry
  if r.disabled then return ()
  modify fun space => { space with registry := { space.registry with disabled := true } }
  registryWrite setup.admitted [0#32, 0#32]
  (range r.sites.length).forM registryRetire

def inRange (start size svc : Nat) : Prop := start ≤ svc ∧ svc - start < size

instance (start size svc : Nat) : Decidable (inRange start size svc) := inferInstanceAs (Decidable (_ ∧ _))

/-- One turn of `md_svc_registry_unpatch`. -/
def unpatchAt (start size i : Nat) : SpaceM Unit := do
  match (← get).registry.sites[i]? with
  | none => return ()
  | some s => if inRange start size s.direct.svc then registryRetire i

def registryUnpatch (start size : Nat) : SpaceM Unit := do
  if size = 0 then return ()
  let r := (← get).registry
  (range r.sites.length).forM (unpatchAt start size)

inductive Event (setup : Setup) where
  | direct (maps : Maps setup) (staging : Staging) (svc number : BitVec 64)
  | suspend (svc : BitVec 64)
  | resume (svc : BitVec 64)
  | retire (site : Nat)
  | unpatch (start size : BitVec 64)
  | revoke

def operation {setup : Setup} : Event setup → SpaceM Nat
  | .direct maps staging svc number => registryDirect maps staging svc.toNat number
  | .suspend svc => do
    registrySuspend svc.toNat
    return 0
  | .resume svc => do
    registryResume svc.toNat
    return 0
  | .retire site => do
    registryRetire site
    return 0
  | .unpatch start size => do
    registryUnpatch start.toNat size.toNat
    return 0
  | .revoke => do
    registryRevoke setup
    return 0

/-- What happened and how the accesses to the text went. -/
structure Call (setup : Setup) where
  event : Event setup
  faults : List (Option Errno)

def Space.facing (space : Space) (faults : List (Option Errno)) : Space := { space with faults := faults }

def happen {setup : Setup} (space : Space) (call : Call setup) : Space :=
  leaves (operation call.event) (space.facing call.faults)

def succeeds {setup : Setup} (space : Space) (call : Call setup) : Bool :=
  match gives (operation call.event) (space.facing call.faults) with
  | .ok _ => true
  | .error _ => false

def start (setup : Setup) (text : Nat → Word) : Space :=
  { registry := { pools := setup.pools.map fun pool => ⟨pool, 0⟩, sites := [], disabled := false }
    text := text, faults := [] }

def run {setup : Setup} (space : Space) (calls : List (Call setup)) : Space := calls.foldl happen space

open List

theorem frameRelocate_length {relocated : List Word} {frames : Nat} (run : frameRelocate words frames = .ok relocated) :
    relocated.length = words.length := by
  obtain ⟨-, run⟩ := failIf_bind_ok.mp run
  obtain ⟨-, run⟩ := failIf_bind_ok.mp run
  obtain ⟨-, run⟩ := failIf_bind_ok.mp run
  rw [← pure_ok.mp run, length_map]

variable {c : DirectContext}

theorem setBranch_length {next : List Word} {exit : Nat × Nat} (run : setBranch c body exit = .ok next) :
    next.length = body.length := by
  obtain ⟨word, -, run⟩ := bind_ok.mp run
  rw [← pure_ok.mp run, length_set]

theorem setBranches_length {exits : List (Nat × Nat)} {final : List Word}
    (run : exits.foldlM (setBranch c) body = .ok final) : final.length = body.length := by
  induction exits generalizing body with
  | nil => rw [← pure_ok.mp run]
  | cons exit rest ih =>
    obtain ⟨next, first, run⟩ := bind_ok.mp run
    rw [ih run, setBranch_length first]

theorem mapGuardWords_length (run : mapGuardWords c = .ok words) : words.length = 56 := by
  unfold mapGuardWords at run
  split at run
  · obtain ⟨enter, -, run⟩ := bind_ok.mp run
    rw [← pure_ok.mp run]
    rfl
  · rw [← pure_ok.mp run]
    rfl

theorem guardWords_length {mismatch : Nat} (run : guardWords c mismatch = .ok words) : words.length = 64 := by
  unfold guardWords at run
  split at run
  · obtain ⟨enter, -, run⟩ := bind_ok.mp run
    obtain ⟨leave, -, run⟩ := bind_ok.mp run
    obtain ⟨rest, rested, run⟩ := bind_ok.mp run
    rw [← pure_ok.mp run, length_append, mapGuardWords_length rested]
    rfl
  · rw [(mapM_ok run).1, length_range]

variable {replacement : Word} {code : List Word}

theorem directPlan_length {t : Template} {dispatch capacity : Nat} {exits : DirectFallback}
    (run : directPlan t c dispatch exits capacity = .ok (code, replacement)) : code.length = 170 := by
  obtain ⟨-, run⟩ := failIf_bind_ok.mp run
  obtain ⟨-, run⟩ := failIf_bind_ok.mp run
  obtain ⟨jump, -, run⟩ := bind_ok.mp run
  obtain ⟨relocated, moved, run⟩ := bind_ok.mp run
  obtain ⟨miss, -, run⟩ := bind_ok.mp run
  obtain ⟨guard, guarded, run⟩ := bind_ok.mp run
  obtain ⟨body, exited, run⟩ := bind_ok.mp run
  obtain ⟨rfl, rfl⟩ := mk.inj (pure_ok.mp run)
  have sized : body.length = 102 := by
    have whole := t.whole
    unfold singleSize at whole
    rw [setBranches_length exited]
    simp only [replays, foldl_cons, foldl_nil, length_set, setQuad]
    rw [frameRelocate_length moved]
    omega
  simp [guardWords_length guarded, sized, quad]

theorem gateCode_length {prev : Option Site} (run : gateCode setup c prev = .ok (code, replacement)) :
    code.length = 180 := by
  obtain ⟨⟨planned, entered⟩, plan, run⟩ := bind_ok.mp run
  obtain ⟨native, kernel, run⟩ := bind_ok.mp run
  obtain ⟨rfl, rfl⟩ := mk.inj (pure_ok.mp run)
  obtain ⟨-, plan⟩ := failIf_bind_ok.mp plan
  obtain ⟨⟨direct, jump⟩, plain, plan⟩ := bind_ok.mp plan
  obtain ⟨back, -, plan⟩ := bind_ok.mp plan
  obtain ⟨out, -, plan⟩ := bind_ok.mp plan
  obtain ⟨rfl, rfl⟩ := mk.inj (pure_ok.mp plan)
  obtain ⟨-, kernel⟩ := failIf_bind_ok.mp kernel
  obtain ⟨home, -, kernel⟩ := bind_ok.mp kernel
  obtain rfl := pure_ok.mp kernel
  simp [directPlan_length plain]

end Shroot.Svc
