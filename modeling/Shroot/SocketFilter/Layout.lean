import Shroot.General.Bits
import Shroot.General.Checks
import Shroot.General.ClassicBpf
import Shroot.Errno

namespace Shroot

open General Bpf

section

section

def bpfLd : UInt16 := 0x00
def bpfLdx : UInt16 := 0x01
def bpfSt : UInt16 := 0x02
def bpfStx : UInt16 := 0x03
def bpfAlu : UInt16 := 0x04
def bpfJmp : UInt16 := 0x05
def bpfRet : UInt16 := 0x06
def bpfMisc : UInt16 := 0x07
def bpfW : UInt16 := 0x00
def bpfImm : UInt16 := 0x00
def bpfAbs : UInt16 := 0x20
def bpfInd : UInt16 := 0x40
def bpfMem : UInt16 := 0x60
def bpfLen : UInt16 := 0x80
def bpfMsh : UInt16 := 0xa0
def bpfAdd : UInt16 := 0x00
def bpfSub : UInt16 := 0x10
def bpfJa : UInt16 := 0x00
def bpfJeq : UInt16 := 0x10
def bpfJgt : UInt16 := 0x20
def bpfJge : UInt16 := 0x30
def bpfK : UInt16 := 0x00
def bpfX : UInt16 := 0x08
def bpfA : UInt16 := 0x10
def bpfTax : UInt16 := 0x00

variable (code : UInt16)

def bpfClass : UInt16 := code &&& 0x07
def bpfMode : UInt16 := code &&& 0xe0
def bpfOp : UInt16 := code &&& 0xf0
def bpfRval : UInt16 := code &&& 0x18

def stmt (k : UInt32) : SockFilter := ⟨code, 0, 0, k⟩
def jump (k : UInt32) (jt jf : UInt8) : SockFilter := ⟨code, jt, jf, k⟩

def intMax32 : UInt32 := 2147483647
def allOnes32 : UInt32 := 4294967295

/-- `struct translation`: the code emitted so far, the length of the carrier's
header and the scratch word free for saving the accumulator. -/
structure Translation where
  code : List SockFilter
  header : UInt32
  temporary : Nat

variable (out : Translation)

def emit (ins : SockFilter) : Except Errno Translation := do
  failIf (out.code.length = maxInsns) .E2BIG
  return { out with code := out.code ++ [ins] }

def emitAll (fragment : List SockFilter) : Except Errno Translation := fragment.foldlM emit out

def loads : Bool := bpfClass code = bpfLd || bpfClass code = bpfLdx

def readsPacket : Bool := loads code && (bpfMode code = bpfAbs || bpfMode code = bpfInd || bpfMode code = bpfMsh)

/-- One source instruction. The refusals of a branch come before its first
`EMIT`, as in the source. -/
def instruction (ins : SockFilter) : Except Errno Translation := do
  let kind := bpfClass ins.code
  let mode := bpfMode ins.code
  let h := out.header
  let temporary := UInt32.ofNat out.temporary
  if readsPacket ins.code then
    failIf (ins.k > intMax32 - h) .EOPNOTSUPP
    if mode = bpfInd then
      failIf (out.temporary = memwords) .EOPNOTSUPP
      emitAll out
        [stmt bpfSt temporary,
         stmt (bpfLd ||| bpfImm) (intMax32 - h - ins.k),
         jump (bpfJmp ||| bpfJge ||| bpfX) 0 1 0,
         stmt (bpfRet ||| bpfK) 0,
         stmt (bpfLd ||| bpfMem) temporary,
         { ins with k := ins.k + h }]
    else emitAll out [{ ins with k := ins.k + h }]
  else if loads ins.code && mode = bpfLen then
    if kind = bpfLdx then
      failIf (out.temporary = memwords) .EOPNOTSUPP
      emitAll out
        [stmt bpfSt temporary,
         stmt (bpfLd ||| bpfW ||| bpfLen) 0,
         stmt (bpfAlu ||| bpfSub ||| bpfK) h,
         stmt (bpfMisc ||| bpfTax) 0,
         stmt (bpfLd ||| bpfMem) temporary]
    else emitAll out [stmt (bpfLd ||| bpfW ||| bpfLen) 0, stmt (bpfAlu ||| bpfSub ||| bpfK) h]
  else if kind = bpfRet then
    if bpfRval ins.code = bpfK then
      emitAll out [if ins.k ≠ 0 then { ins with k := if ins.k > allOnes32 - h then allOnes32 else ins.k + h } else ins]
    else
      emitAll out
        [jump (bpfJmp ||| bpfJeq ||| bpfK) 0 3 0,
         jump (bpfJmp ||| bpfJgt ||| bpfK) (allOnes32 - h) 0 1,
         stmt (bpfRet ||| bpfK) allOnes32,
         stmt (bpfAlu ||| bpfAdd ||| bpfK) h,
         stmt (bpfRet ||| bpfA) 0]
  else if kind = bpfJmp && bpfOp ins.code ≠ bpfJa then
    emitAll out [{ ins with jt := 0, jf := 1 }, stmt (bpfJmp ||| bpfJa) 0, stmt (bpfJmp ||| bpfJa) 0]
  else emitAll out [ins]

/-- Does the instruction name a scratch word? -/
def usesScratch : Bool := bpfClass code = bpfSt || bpfClass code = bpfStx || (loads code && bpfMode code = bpfMem)

variable (code : List SockFilter)

def usedScratch : BitVec 32 :=
  code.foldl (fun used ins => if usesScratch ins.code then used ||| flag 32 ins.k.toNat else used) 0

def temporaryWord : Nat := ((List.range memwords).find? fun i => !(usedScratch code).getLsbD i).getD memwords

/-- The first loop: every instruction in turn, and where its code starts. -/
def emitProgram : Translation → List Nat → List SockFilter → Except Errno (Translation × List Nat)
  | out, offsets, [] => .ok (out, offsets ++ [out.code.length])
  | out, offsets, ins :: rest => do
    let next ← instruction out ins
    emitProgram next (offsets ++ [out.code.length]) rest

/-- The assignments to `k` that the second loop makes for instruction `i`. -/
def jumpPatches (offsets : List Nat) (i : Nat) (ins : SockFilter) : List (Nat × UInt32) :=
  let offset (j : Nat) : UInt32 := UInt32.ofNat (offsets.getD j 0)
  let start := offsets.getD i 0
  if bpfClass ins.code ≠ bpfJmp then []
  else if bpfOp ins.code = bpfJa then [(start, offset (i + 1 + ins.k.toNat) - offset i - 1)]
  else [(start + 1, offset (i + 1 + ins.jt.toNat) - offset i - 2),
        (start + 2, offset (i + 1 + ins.jf.toNat) - offset i - 3)]

def applyPatches (patches : List (Nat × UInt32)) : List SockFilter :=
  patches.foldl (fun code patch => code.modify patch.1 fun ins => { ins with k := patch.2 }) code

def translateFilter (header : UInt32) (allocated : Bool) : Except Errno (List SockFilter) := do
  failIf (!allocated) .ENOMEM
  let (out, offsets) ← emitProgram ⟨[], header, temporaryWord code⟩ [] code
  return applyPatches out.code (code.zipIdx.flatMap fun (ins, i) => jumpPatches offsets i ins)

end

variable {code : UInt16} {ins : SockFilter} {next out : Translation} {op : Opcode}

open General Bpf List Bool UInt32

/-- What the translator reads off an operation code. -/
structure CodeTraits where
  packet : Bool
  indirect : Bool
  length : Bool
  lengthX : Bool
  ret : Bool
  retK : Bool
  cond : Bool
  always : Bool
  scratch : Bool
  deriving DecidableEq

def codeTraits (code : UInt16) : CodeTraits where
  packet := readsPacket code
  indirect := readsPacket code && bpfMode code = bpfInd
  length := loads code && bpfMode code = bpfLen
  lengthX := loads code && bpfMode code = bpfLen && bpfClass code = bpfLdx
  ret := bpfClass code = bpfRet
  retK := bpfClass code = bpfRet && bpfRval code = bpfK
  cond := bpfClass code = bpfJmp && bpfOp code ≠ bpfJa
  always := bpfClass code = bpfJmp && bpfOp code = bpfJa
  scratch := usesScratch code

def CodeTraits.plain : CodeTraits := ⟨false, false, false, false, false, false, false, false, false⟩

/-- The same traits by meaning. -/
def Opcode.traits : Opcode → CodeTraits
  | .ldAbs _ | .ldxMsh => { CodeTraits.plain with packet := true }
  | .ldInd _ => { CodeTraits.plain with packet := true, indirect := true }
  | .ldLen => { CodeTraits.plain with length := true }
  | .ldxLen => { CodeTraits.plain with length := true, lengthX := true }
  | .retK => { CodeTraits.plain with ret := true, retK := true }
  | .retA => { CodeTraits.plain with ret := true }
  | .jump _ _ => { CodeTraits.plain with cond := true }
  | .ja => { CodeTraits.plain with always := true }
  | .ldMem | .ldxMem | .st | .stx => { CodeTraits.plain with scratch := true }
  | _ => .plain

theorem decode_mem (read : decode code = some op) : (code, op) ∈ opcodes := by
  obtain ⟨entry, found, rfl⟩ := Option.map_eq_some_iff.mp read
  have same := find?_some found
  have m := mem_of_find?_eq_some found
  rw [beq_iff_eq] at same
  rwa [← same]

theorem decode_traits (read : decode code = some op) : codeTraits code = Opcode.traits op := by
  have table : ∀ entry ∈ opcodes, codeTraits entry.1 = Opcode.traits entry.2 := by decide
  exact table _ (decode_mem read)

variable (h : UInt32) (tmp : Nat)

/-- The code emitted for one instruction, by its operation. -/
def expansion (op : Opcode) (ins : SockFilter) : List SockFilter :=
  match op with
  | .ldAbs _ | .ldxMsh => [{ ins with k := ins.k + h }]
  | .ldInd _ =>
    [stmt 0x02 (ofNat tmp), stmt 0x00 (intMax32 - h - ins.k), jump 0x3d 0 1 0, stmt 0x06 0,
     stmt 0x60 (ofNat tmp), { ins with k := ins.k + h }]
  | .ldLen => [stmt 0x80 0, stmt 0x14 h]
  | .ldxLen => [stmt 0x02 (ofNat tmp), stmt 0x80 0, stmt 0x14 h, stmt 0x07 0, stmt 0x60 (ofNat tmp)]
  | .retK => [if ins.k ≠ 0 then { ins with k := if ins.k > allOnes32 - h then allOnes32 else ins.k + h } else ins]
  | .retA => [jump 0x15 0 3 0, jump 0x25 (allOnes32 - h) 0 1, stmt 0x06 allOnes32, stmt 0x04 h, stmt 0x16 0]
  | .jump _ _ => [{ ins with jt := 0, jf := 1 }, stmt 0x05 0, stmt 0x05 0]
  | _ => [ins]

/-- When the translator does not refuse an instruction. -/
structure Expressible (h : UInt32) (tmp : Nat) (op : Opcode) (ins : SockFilter) : Prop where
  offset : (Opcode.traits op).packet = true → ins.k ≤ intMax32 - h

theorem emitAll_ok {fragment : List SockFilter} (run : emitAll out fragment = .ok next)
    (bound : out.code.length ≤ maxInsns) :
    next = { out with code := out.code ++ fragment } ∧ next.code.length ≤ maxInsns := by
  induction fragment generalizing out with
  | nil =>
    have same : out = next := pure_ok.mp run
    subst same
    simpa using bound
  | cons ins rest ih =>
    obtain ⟨mid, emitted, later⟩ := bind_ok.mp run
    simp only [emit, failIf_bind_ok, pure_ok] at emitted
    obtain ⟨room, rfl⟩ := emitted
    have step := ih later (by simp only [length_append, length_singleton]; omega)
    simpa using step

/-- The branches of the translator, taken by operation. -/
def instructionByOpcode (out : Translation) (op : Opcode) (ins : SockFilter) : Except Errno Translation :=
  match op with
  | .ldAbs _ | .ldxMsh => do
    failIf (ins.k > intMax32 - out.header) .EOPNOTSUPP
    emitAll out (expansion out.header out.temporary op ins)
  | .ldInd _ => do
    failIf (ins.k > intMax32 - out.header) .EOPNOTSUPP
    failIf (out.temporary = memwords) .EOPNOTSUPP
    emitAll out (expansion out.header out.temporary op ins)
  | .ldxLen => do
    failIf (out.temporary = memwords) .EOPNOTSUPP
    emitAll out (expansion out.header out.temporary op ins)
  | _ => emitAll out (expansion out.header out.temporary op ins)

theorem instruction_eq (read : decode ins.code = some op) : instruction out ins = instructionByOpcode out op ins := by
  have traits := decode_traits read
  have packet : readsPacket ins.code = (Opcode.traits op).packet := congrArg CodeTraits.packet traits
  have indirect : (readsPacket ins.code && bpfMode ins.code = bpfInd) = (Opcode.traits op).indirect :=
    congrArg CodeTraits.indirect traits
  have len : (loads ins.code && bpfMode ins.code = bpfLen) = (Opcode.traits op).length :=
    congrArg CodeTraits.length traits
  have lenX : (loads ins.code && bpfMode ins.code = bpfLen && bpfClass ins.code = bpfLdx) =
      (Opcode.traits op).lengthX := congrArg CodeTraits.lengthX traits
  have ret : decide (bpfClass ins.code = bpfRet) = (Opcode.traits op).ret := congrArg CodeTraits.ret traits
  have retK : (decide (bpfClass ins.code = bpfRet) && bpfRval ins.code = bpfK) = (Opcode.traits op).retK :=
    congrArg CodeTraits.retK traits
  have cond : (decide (bpfClass ins.code = bpfJmp) && bpfOp ins.code ≠ bpfJa) = (Opcode.traits op).cond :=
    congrArg CodeTraits.cond traits
  rw [packet] at indirect
  rw [len] at lenX
  rw [ret] at retK
  -- Once the code's traits are known the branch is fixed, and both sides emit the same list.
  dsimp only [instruction]
  cases op with
  | ldAbs _ | ldxMsh =>
    have direct : ¬ bpfMode ins.code = bpfInd := of_decide_eq_false indirect
    simp only [show readsPacket ins.code = true from packet, direct, if_true, if_false]
    rfl
  | ldInd _ =>
    have idx : bpfMode ins.code = bpfInd := of_decide_eq_true indirect
    simp only [show readsPacket ins.code = true from packet, idx, if_true]
    rfl
  | ldLen =>
    have accumulator : ¬ bpfClass ins.code = bpfLdx := of_decide_eq_false lenX
    simp only [show readsPacket ins.code = false from packet, len, accumulator, false_eq_true, if_false]
    rfl
  | ldxLen =>
    have register : bpfClass ins.code = bpfLdx := of_decide_eq_true lenX
    simp only [show readsPacket ins.code = false from packet, len, register, false_eq_true, if_false, if_true]
    rfl
  | retK =>
    have constant : bpfRval ins.code = bpfK := of_decide_eq_true retK
    simp only [show readsPacket ins.code = false from packet, len, of_decide_eq_true ret, constant, false_eq_true,
      if_false, if_true]
    rfl
  | retA =>
    have accumulator : ¬ bpfRval ins.code = bpfK := of_decide_eq_false retK
    simp only [show readsPacket ins.code = false from packet, len, of_decide_eq_true ret, accumulator, false_eq_true,
      if_false, if_true]
    rfl
  | _ =>
    have other : ¬ bpfClass ins.code = bpfRet := of_decide_eq_false ret
    simp only [show readsPacket ins.code = false from packet, len, other, cond, false_eq_true, if_false]
    rfl

theorem instruction_ok (read : decode ins.code = some op) (run : instruction out ins = .ok next)
    (bound : out.code.length ≤ maxInsns) :
    next = { out with code := out.code ++ expansion out.header out.temporary op ins } ∧
      next.code.length ≤ maxInsns ∧ Expressible out.header out.temporary op ins := by
  rw [instruction_eq read] at run
  unfold instructionByOpcode at run
  split at run
  iterate 2
    · simp only [failIf_bind_ok, gt_iff_lt, UInt32.not_lt] at run
      obtain ⟨made, short⟩ := emitAll_ok run.2 bound
      exact ⟨made, short, ⟨fun _ => run.1⟩⟩
  · simp only [failIf_bind_ok, gt_iff_lt, UInt32.not_lt] at run
    obtain ⟨made, short⟩ := emitAll_ok run.2.2 bound
    exact ⟨made, short, ⟨fun _ => run.1⟩⟩
  · simp only [failIf_bind_ok] at run
    obtain ⟨made, short⟩ := emitAll_ok run.2 bound
    exact ⟨made, short, ⟨by simp [Opcode.traits, CodeTraits.plain]⟩⟩
  · obtain ⟨made, short⟩ := emitAll_ok run bound
    exact ⟨made, short, ⟨by cases op <;> simp_all [Opcode.traits, CodeTraits.plain]⟩⟩

def expand (ins : SockFilter) : List SockFilter :=
  match decode ins.code with
  | some op => expansion h tmp op ins
  | none => []

def startOf (code : List SockFilter) (pc : Nat) : Nat := ((code.take pc).flatMap (expand h tmp)).length

theorem expand_eq {h : UInt32} {tmp : Nat} (read : decode ins.code = some op) :
    expand h tmp ins = expansion h tmp op ins := by rw [expand, read]

theorem emitProgram_ok {final : Translation} {old offsets : List Nat} {code : List SockFilter}
    (run : emitProgram out old code = .ok (final, offsets))
    (read : ∀ ins ∈ code, (decode ins.code).isSome = true) (bound : out.code.length ≤ maxInsns) :
    final.code = out.code ++ code.flatMap (expand out.header out.temporary) ∧
    offsets = old ++ (range (code.length + 1)).map
        (fun pc => out.code.length + startOf out.header out.temporary code pc) ∧ final.code.length ≤ maxInsns ∧
      ∀ ins ∈ code, ∀ op, decode ins.code = some op → Expressible out.header out.temporary op ins := by
  induction code generalizing out old with
  | nil =>
    obtain ⟨rfl, rfl⟩ := run
    simpa [startOf] using bound
  | cons ins rest ih =>
    obtain ⟨next, first, later⟩ := bind_ok.mp run
    obtain ⟨op, decodedIns⟩ := Option.isSome_iff_exists.mp (read ins (by simp))
    obtain ⟨rfl, short, expressible⟩ := instruction_ok decodedIns first bound
    obtain ⟨code, offs, length, all⟩ := ih later (fun ins m => read ins (by simp [m])) short
    refine ⟨?_, ?_, length, ?_⟩
    · rw [code, flatMap_cons, expand_eq decodedIns, append_assoc]
    · have split := range_succ_eq_map (n := rest.length + 1)
      rw [offs, length_cons, split, map_cons, map_map, append_assoc, singleton_append]
      have first : out.code.length = out.code.length + startOf out.header out.temporary (ins :: rest) 0 := by
        simp [startOf]
      rw [← first]
      simp [Function.comp_def, startOf, expand_eq decodedIns, Nat.add_assoc]
    · intro other m op' decodedOther
      rcases mem_cons.mp m with same | later
      · subst same
        rw [decodedIns] at decodedOther
        rwa [← Option.some.inj decodedOther]
      · exact all other later op' decodedOther

end

open List Nat UInt32

variable {k : UInt32} {op : Opcode} {count : Nat}

variable {h : UInt32} {tmp : Nat} {code : List SockFilter} {ins : SockFilter} {pc j : Nat}

theorem startOf_succ (here : code[pc]? = some ins) :
    startOf h tmp code (pc + 1) = startOf h tmp code pc + (expand h tmp ins).length := by
  rw [startOf, take_add_one, here]
  simp [startOf]

theorem startOf_mono (h : UInt32) (tmp : Nat) (code : List SockFilter) {a b : Nat} (le : a ≤ b) :
    startOf h tmp code a ≤ startOf h tmp code b := by
  have split : code.take b = code.take a ++ (code.drop a).take (b - a) := by rw [← take_add, Nat.add_sub_cancel' le]
  rw [startOf, startOf, split, flatMap_append, length_append]
  omega

theorem flatMap_getElem? (here : code[pc]? = some ins) (fits : j < (expand h tmp ins).length) :
    (code.flatMap (expand h tmp))[startOf h tmp code pc + j]? = (expand h tmp ins)[j]? := by
  have split : code = code.take pc ++ ins :: code.drop (pc + 1) := by
    have val := (List.getElem?_eq_some_iff.mp here).2
    rw [← val, cons_getElem_drop_succ, take_append_drop]
  have whole : code.flatMap (expand h tmp) = (code.take pc).flatMap (expand h tmp) ++
      (expand h tmp ins ++ (code.drop (pc + 1)).flatMap (expand h tmp)) := by
    conv_lhs => rw [split]
    rw [flatMap_append, flatMap_cons]
  rw [whole, startOf, getElem?_append_right (by omega), Nat.add_sub_cancel_left, getElem?_append_left fits]

theorem startOf_unique {other q : Nat} {ins' : SockFilter} (here : code[pc]? = some ins)
    (there : code[other]? = some ins') (low : startOf h tmp code pc ≤ q)
    (high : q < startOf h tmp code pc + (expand h tmp ins).length)
    (low' : startOf h tmp code other ≤ q)
    (high' : q < startOf h tmp code other + (expand h tmp ins').length) : pc = other := by
  rw [← startOf_succ here] at high
  rw [← startOf_succ there] at high'
  by_contra ne
  rcases lt_or_gt_of_ne ne with old | new
  · have := startOf_mono h tmp code (show pc + 1 ≤ other by omega)
    omega
  · have := startOf_mono h tmp code (show other + 1 ≤ pc by omega)
    omega

variable {patches : List (Nat × UInt32)} {q : Nat}

theorem applyPatches_untouched (free : ∀ patch ∈ patches, patch.1 ≠ q) :
    (applyPatches code patches)[q]? = code[q]? := by
  induction patches generalizing code with
  | nil => rfl
  | cons patch rest ih =>
    rw [applyPatches, foldl_cons, ← applyPatches, ih fun other mem => free other (by simp [mem]), getElem?_modify_ne]
    exact free patch (by simp)

theorem applyPatches_patched (agreed : ∀ patch ∈ patches, patch.1 = q → patch.2 = k) (patched : (q, k) ∈ patches) :
    (applyPatches code patches)[q]? = code[q]?.map fun ins => { ins with k := k } := by
  induction patches generalizing code with
  | nil => simp at patched
  | cons patch rest ih =>
    rw [applyPatches, foldl_cons, ← applyPatches]
    by_cases again : (q, k) ∈ rest
    · rw [ih (fun other mem => agreed other (by simp [mem])) again, getElem?_modify]
      by_cases same : patch.1 = q
      · simp [same, Function.comp_def]
      · simp [same]
    · have atHead : patch = (q, k) := by
        rcases mem_cons.mp patched with first | later
        · exact first.symm
        · exact absurd later again
      have free : ∀ other ∈ rest, other.1 ≠ q := by
        intro other mem same
        have val := agreed other (by simp [mem]) same
        exact again (by rw [← same, ← val]; exact mem)
      rw [applyPatches_untouched free, atHead, getElem?_modify_eq]
      rfl

/-- The finished code of instruction `pc`: as emitted, with the trampolines
aimed at the starts of the original targets. -/
def placed (h : UInt32) (tmp : Nat) (code : List SockFilter) (pc : Nat) (op : Opcode) (ins : SockFilter) :
    List SockFilter :=
  let start (i : Nat) : UInt32 := ofNat (startOf h tmp code i)
  match op with
  | .ja => [{ ins with k := start (pc + 1 + ins.k.toNat) - start pc - 1 }]
  | .jump _ _ =>
    [{ ins with jt := 0, jf := 1 },
     stmt 0x05 (start (pc + 1 + ins.jt.toNat) - start pc - 2),
     stmt 0x05 (start (pc + 1 + ins.jf.toNat) - start pc - 3)]
  | _ => expansion h tmp op ins

theorem placed_length (h : UInt32) (tmp : Nat) (code : List SockFilter) (pc : Nat) (op : Opcode)
    (ins : SockFilter) : (placed h tmp code pc op ins).length = (expansion h tmp op ins).length := by
  cases op <;> rfl

/-- The offsets the first loop records. -/
def starts (h : UInt32) (tmp : Nat) (code : List SockFilter) : List Nat :=
  (range (code.length + 1)).map (startOf h tmp code)

theorem starts_getD (bound : pc ≤ code.length) : (starts h tmp code).getD pc 0 = startOf h tmp code pc := by
  simp [starts, getD_eq_getElem?_getD, getElem?_range (show pc < code.length + 1 by omega)]

theorem decode_jump {code : UInt16} (read : decode code = some op) :
    (bpfClass code = bpfJmp ∧ bpfOp code ≠ bpfJa ↔ (Opcode.traits op).cond = true) ∧
      (bpfClass code = bpfJmp ∧ bpfOp code = bpfJa ↔ (Opcode.traits op).always = true) := by
  have traits := decode_traits read
  rw [← congrArg CodeTraits.cond traits, ← congrArg CodeTraits.always traits]
  simp [codeTraits]

theorem checkProgram_insn (valid : checkProgram code = true) (here : code[pc]? = some ins) :
    checkInsn code.length pc ins = true := by
  simp only [checkProgram, Bool.and_eq_true, all_eq_true] at valid
  exact valid.1.2 (ins, pc) (mem_zipIdx_iff_getElem?.mpr here)

theorem checkInsn_decode (fine : checkInsn count pc ins = true) : ∃ op, decode ins.code = some op := by
  unfold checkInsn at fine
  split at fine
  · cases fine
  · exact ⟨_, by assumption⟩

theorem checkInsn_ja (fine : checkInsn count pc ins = true) (read : decode ins.code = some .ja) :
    pc + 1 + ins.k.toNat < count := by
  simpa [checkInsn, read] using fine

theorem checkInsn_jump {cond : Cond} {x : Bool} (fine : checkInsn count pc ins = true)
    (read : decode ins.code = some (.jump cond x)) :
    pc + 1 + ins.jt.toNat < count ∧ pc + 1 + ins.jf.toNat < count := by
  simpa [checkInsn, read] using fine

theorem jumpPatches_ja (fine : checkInsn code.length pc ins = true)
    (read : decode ins.code = some .ja) :
    jumpPatches (starts h tmp code) pc ins =
      [(startOf h tmp code pc, ofNat (startOf h tmp code (pc + 1 + ins.k.toNat)) -
        ofNat (startOf h tmp code pc) - 1)] := by
  have target := checkInsn_ja fine read
  obtain ⟨isJump, isJa⟩ := (decode_jump read).2.mpr rfl
  simp only [jumpPatches, isJump, isJa, ne_eq, not_true, if_false, if_true]
  rw [starts_getD (by omega), starts_getD (by omega)]

theorem jumpPatches_jump {cond : Cond} {x : Bool} (fine : checkInsn code.length pc ins = true)
    (read : decode ins.code = some (.jump cond x)) :
    jumpPatches (starts h tmp code) pc ins =
      [(startOf h tmp code pc + 1, ofNat (startOf h tmp code (pc + 1 + ins.jt.toNat)) -
          ofNat (startOf h tmp code pc) - 2),
       (startOf h tmp code pc + 2, ofNat (startOf h tmp code (pc + 1 + ins.jf.toNat)) -
          ofNat (startOf h tmp code pc) - 3)] := by
  have target := checkInsn_jump fine read
  obtain ⟨isJump, notJa⟩ := (decode_jump read).1.mpr rfl
  simp only [jumpPatches, isJump, ne_eq, not_true, if_false, notJa]
  rw [starts_getD (by omega), starts_getD (by omega), starts_getD (by omega)]

theorem jumpPatches_other {offsets : List Nat} (read : decode ins.code = some op)
    (noJump : (Opcode.traits op).cond = false ∧ (Opcode.traits op).always = false) :
    jumpPatches offsets pc ins = [] := by
  obtain ⟨cond, always⟩ := decode_jump read
  rw [noJump.1] at cond
  rw [noJump.2] at always
  have other : bpfClass ins.code ≠ bpfJmp := by
    intro isJump
    by_cases isJa : bpfOp ins.code = bpfJa
    · exact Bool.false_ne_true (always.mp ⟨isJump, isJa⟩)
    · exact Bool.false_ne_true (cond.mp ⟨isJump, isJa⟩)
  simp [jumpPatches, other]

theorem jumpPatches_inside (fine : checkInsn code.length pc ins = true)
    {patch : Nat × UInt32} (mem : patch ∈ jumpPatches (starts h tmp code) pc ins) :
    startOf h tmp code pc ≤ patch.1 ∧ patch.1 < startOf h tmp code pc + (expand h tmp ins).length := by
  obtain ⟨op, read⟩ := checkInsn_decode fine
  rw [expand_eq read]
  cases op with
  | ja =>
    rw [jumpPatches_ja fine read, mem_singleton] at mem
    subst mem
    exact ⟨le_refl _, lt_succ_self _⟩
  | jump cond x =>
    rw [jumpPatches_jump fine read] at mem
    have size : (expansion h tmp (.jump cond x) ins).length = 3 := rfl
    rcases mem_cons.mp mem with first | two
    · subst first
      exact ⟨by simp, by simp [size]⟩
    · rw [mem_singleton.mp two]
      exact ⟨by simp, by simp [size]⟩
  | _ =>
    rw [jumpPatches_other read ⟨rfl, rfl⟩] at mem
    cases mem

def allPatches (h : UInt32) (tmp : Nat) (code : List SockFilter) : List (Nat × UInt32) :=
  code.zipIdx.flatMap fun (ins, i) => jumpPatches (starts h tmp code) i ins

theorem allPatches_local (valid : checkProgram code = true) (here : code[pc]? = some ins)
    (fits : j < (expand h tmp ins).length) :
    (startOf h tmp code pc + j, k) ∈ allPatches h tmp code ↔
    (startOf h tmp code pc + j, k) ∈ jumpPatches (starts h tmp code) pc ins := by
  constructor
  · intro mem
    obtain ⟨⟨ins', i⟩, entry, patch⟩ := mem_flatMap.mp mem
    have there : code[i]? = some ins' := mem_zipIdx_iff_getElem?.mp entry
    obtain ⟨low, high⟩ := jumpPatches_inside (checkProgram_insn valid there) patch
    have same := startOf_unique here there (le_add_right _ j) (Nat.add_lt_add_left fits _) low high
    subst same
    rw [here] at there
    rwa [Option.some.inj there]
  · intro patch
    exact mem_flatMap.mpr ⟨(ins, pc), mem_zipIdx_iff_getElem?.mpr here, patch⟩

/-- The translated program: everything emitted, then every jump patched. -/
def finished (h : UInt32) (tmp : Nat) (code : List SockFilter) : List SockFilter :=
  applyPatches (code.flatMap (expand h tmp)) (allPatches h tmp code)

section

variable (valid : checkProgram code = true) (here : code[pc]? = some ins)

include valid here

theorem finished_unpatched (fits : j < (expand h tmp ins).length)
    (free : ∀ k, (startOf h tmp code pc + j, k) ∉ jumpPatches (starts h tmp code) pc ins) :
    (finished h tmp code)[startOf h tmp code pc + j]? = (expand h tmp ins)[j]? := by
  rw [finished, applyPatches_untouched, flatMap_getElem? here fits]
  intro patch mem same
  have entry : (startOf h tmp code pc + j, patch.2) ∈ allPatches h tmp code := by
    rw [← same]
    exact mem
  exact free _ ((allPatches_local valid here fits).mp entry)

theorem finished_patched (fits : j < (expand h tmp ins).length)
    (only : ∀ k', (startOf h tmp code pc + j, k') ∈ jumpPatches (starts h tmp code) pc ins ↔ k' = k) :
    (finished h tmp code)[startOf h tmp code pc + j]? =
      (expand h tmp ins)[j]?.map fun ins => { ins with k := k } := by
  have patched := (allPatches_local valid here fits).mpr ((only k).mpr rfl)
  rw [finished, applyPatches_patched _ patched, flatMap_getElem? here fits]
  intro patch mem same
  have entry : (startOf h tmp code pc + j, patch.2) ∈ allPatches h tmp code := by
    rw [← same]
    exact mem
  exact (only _).mp ((allPatches_local valid here fits).mp entry)

theorem finished_at (read : decode ins.code = some op) (fits : j < (placed h tmp code pc op ins).length) :
    (finished h tmp code)[startOf h tmp code pc + j]? = (placed h tmp code pc op ins)[j]? := by
  have fine := checkProgram_insn valid here
  have expanded : expand h tmp ins = expansion h tmp op ins := expand_eq read
  rw [placed_length] at fits
  have inside' : j < (expand h tmp ins).length := by rwa [expanded]
  cases op with
  | ja =>
    have zero : j = 0 := lt_one_iff.mp fits
    subst zero
    rw [finished_patched valid here inside' (k := ofNat (startOf h tmp code (pc + 1 + ins.k.toNat)) -
      ofNat (startOf h tmp code pc) - 1), expanded]
    · rfl
    · simp [jumpPatches_ja fine read]
  | jump cond x =>
    have patches := @jumpPatches_jump h tmp _ _ _ _ _ fine read
    have cases : j = 0 ∨ j = 1 ∨ j = 2 := by
      have : j < 3 := fits
      omega
    rcases cases with rfl | rfl | rfl
    · rw [finished_unpatched valid here inside', expanded]
      · rfl
      · simp [patches]
    · rw [finished_patched valid here inside' (k := ofNat (startOf h tmp code (pc + 1 + ins.jt.toNat)) -
        ofNat (startOf h tmp code pc) - 2), expanded]
      · rfl
      · simp [patches]
    · rw [finished_patched valid here inside' (k := ofNat (startOf h tmp code (pc + 1 + ins.jf.toNat)) -
        ofNat (startOf h tmp code pc) - 3), expanded]
      · rfl
      · simp [patches]
  | _ =>
    rw [finished_unpatched valid here inside', expanded]
    · rfl
    · simp [jumpPatches_other read ⟨rfl, rfl⟩]

end

theorem applyPatches_length (code : List SockFilter) (patches : List (Nat × UInt32)) :
    (applyPatches code patches).length = code.length := by
  induction patches generalizing code with
  | nil => rfl
  | cons patch rest ih => rw [applyPatches, foldl_cons, ← applyPatches, ih, length_modify]

theorem finished_length (h : UInt32) (tmp : Nat) (code : List SockFilter) :
    (finished h tmp code).length = startOf h tmp code code.length := by
  simp [finished, applyPatches_length, startOf]

/-- A successful translation of an accepted program is the finished layout,
and nothing in it was refused. -/
theorem translateFilter_ok {out : List SockFilter} {allocated : Bool} (valid : checkProgram code = true)
    (run : translateFilter code h allocated = .ok out) :
    out = finished h (temporaryWord code) code ∧ out.length ≤ maxInsns ∧
      ∀ ins ∈ code, ∀ op, decode ins.code = some op → Expressible h (temporaryWord code) op ins := by
  simp only [translateFilter, failIf_bind_ok] at run
  obtain ⟨⟨final, offsets⟩, emitted, made⟩ := bind_ok.mp run.2
  have read : ∀ ins ∈ code, (decode ins.code).isSome = true := by
    intro ins mem
    obtain ⟨pc, here⟩ := mem_iff_getElem?.mp mem
    obtain ⟨op, read⟩ := checkInsn_decode (checkProgram_insn valid here)
    simp [read]
  obtain ⟨final_code, offs, short, expressible⟩ := emitProgram_ok emitted read (by simp [maxInsns])
  have offs' : offsets = starts h (temporaryWord code) code := by simpa [starts] using offs
  have code' : final.code = code.flatMap (expand h (temporaryWord code)) := by simpa using final_code
  have out' : out = finished h (temporaryWord code) code := by
    rw [← pure_ok.mp made, finished, allPatches, code', offs']
  refine ⟨out', ?_, expressible⟩
  rwa [out', finished, applyPatches_length, ← code']

end Shroot
