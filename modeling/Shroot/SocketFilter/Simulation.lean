import Shroot.SocketFilter.Layout

namespace Shroot

open General Bpf List UInt32 Nat Function

variable {r : UInt32} {skip : Nat} {x : Bool} {size : Size}

/-- Registers agree, and so do all scratch words but the borrowed one. -/
structure Machine.Matches (tmp : Nat) (m m' : Machine) : Prop where
  a : m'.a = m.a
  x : m'.x = m.x
  mem : ∀ w, w ≠ tmp → m'.mem w = m.mem w

/-- Both results drop the packet, or both keep the same bytes of it. -/
structure SameVerdict (h length : Nat) (r r' : UInt32) : Prop where
  drop : r = 0 ↔ r' = 0
  keep : min length r.toNat = min (length + h) r'.toNat - h

/-- One translation at work: a program, the finished code and two packets that
differ by a header. -/
structure Carried (h : UInt32) (tmp : Nat) (code : List SockFilter) (header packet : List UInt8) : Prop where
  accepted : checkProgram code = true
  expressible : ∀ ins ∈ code, ∀ op, decode ins.code = some op → Expressible h tmp op ins
  unused : ∀ ins ∈ code, usesScratch ins.code = true → ins.k.toNat ≠ tmp
  word : tmp ≤ memwords
  headerLength : header.length = h.toNat
  short : packet.length + h.toNat ≤ intMax32.toNat

/-- The outcome of one source instruction at `pc`, on both sides. -/
inductive StepMatch (h : UInt32) (tmp : Nat) (code : List SockFilter) (header packet : List UInt8)
    (pc : Nat) (ins : SockFilter) (m m' : Machine) : Prop
  | done (r r' : UInt32) : step packet ins m = .done r →
    exec (header ++ packet) (finished h tmp code) (startOf h tmp code pc) m' = some r' →
      SameVerdict h.toNat packet.length r r' → StepMatch h tmp code header packet pc ins m m'
  | next (m₁ m₁' : Machine) (skip : Nat) : step packet ins m = .next m₁ skip → pc + 1 + skip < code.length →
      exec (header ++ packet) (finished h tmp code) (startOf h tmp code pc) m' =
        exec (header ++ packet) (finished h tmp code) (startOf h tmp code (pc + 1 + skip)) m₁' →
      Machine.Matches tmp m₁ m₁' → StepMatch h tmp code header packet pc ins m m'

variable {h : UInt32} {tmp : Nat} {code : List SockFilter} {header packet : List UInt8}
  {pc : Nat} {ins : SockFilter} {op : Opcode} {m m' : Machine}

theorem SameVerdict.zero (h length : Nat) : SameVerdict h length 0 0 := ⟨Iff.rfl, by simp⟩

theorem checkProgram_continues (valid : checkProgram code = true) (here : code[pc]? = some ins)
    (read : decode ins.code = some op) (continues : (Opcode.traits op).ret = false) : pc + 1 < code.length := by
  have bound : pc < code.length := (List.getElem?_eq_some_iff.mp here).1
  by_contra atEnd
  have last : code.getLast? = some ins := by rw [getLast?_eq_getElem?, show code.length - 1 = pc by omega, here]
  simp only [checkProgram, last, Option.any_some, read, Bool.and_eq_true, Bool.or_eq_true, beq_iff_eq,
    Option.some.injEq] at valid
  rcases valid.2 with rfl | rfl <;> cases continues

theorem Carried.nextStart (here : code[pc]? = some ins) (read : decode ins.code = some op) :
    startOf h tmp code (pc + 1) = startOf h tmp code pc + (expansion h tmp op ins).length := by
  rw [startOf_succ here, expand_eq read]

theorem Carried.length_sub (carried : Carried h tmp code header packet) :
    ofNat (header ++ packet).length - h = ofNat packet.length := by
  have short := carried.short
  have top : intMax32.toNat = 2147483647 := rfl
  rw [← UInt32.toNat_inj, UInt32.toNat_sub, length_append, carried.headerLength, toNat_ofNat', toNat_ofNat']
  omega

theorem SameVerdict.shifted {length : Nat} (short : length + h.toNat ≤ intMax32.toNat) (kept : r ≠ 0) :
    SameVerdict h.toNat length r (if r > allOnes32 - h then allOnes32 else r + h) := by
  have top : intMax32.toNat = 2147483647 := rfl
  have all : allOnes32.toNat = 4294967295 := rfl
  have room : (allOnes32 - h).toNat = 4294967295 - h.toNat :=
    UInt32.toNat_sub_of_le allOnes32 h (le_iff_toNat_le.mpr (by omega))
  have pos : 0 < r.toNat := pos_of_ne_zero fun zero => kept (UInt32.toNat_inj.mp zero)
  by_cases wraps : r > allOnes32 - h
  · rw [if_pos wraps]
    rw [gt_iff_lt, lt_iff_toNat_lt, room] at wraps
    exact ⟨by simp [kept, allOnes32], by omega⟩
  · rw [if_neg wraps]
    rw [gt_iff_lt, lt_iff_toNat_lt, room] at wraps
    have sum : (r + h).toNat = r.toNat + h.toNat := by
      rw [UInt32.toNat_add]
      omega
    refine ⟨?_, by omega⟩
    rw [← UInt32.toNat_inj, ← UInt32.toNat_inj, sum, UInt32.toNat_zero]
    omega

/-- The displacement of a trampoline, undone: it leads where it was aimed. -/
theorem startOf_displacement {place : Nat} (short : (finished h tmp code).length ≤ maxInsns)
    (here : code[pc]? = some ins) (read : decode ins.code = some op) (fits : place ≤ (expansion h tmp op ins).length)
    (mem : pc + 1 + skip < code.length) (k : UInt32) (constant : k.toNat = place) :
    startOf h tmp code pc + place + (ofNat (startOf h tmp code (pc + 1 + skip)) -
      ofNat (startOf h tmp code pc) - k).toNat = startOf h tmp code (pc + 1 + skip) := by
  have new := startOf_mono h tmp code (show pc + 1 ≤ pc + 1 + skip by omega)
  have bound := startOf_mono h tmp code mem.le
  rw [Carried.nextStart here read] at new
  rw [finished_length] at short
  simp only [maxInsns] at short
  rw [UInt32.toNat_sub, UInt32.toNat_sub, toNat_ofNat', toNat_ofNat', constant]
  omega

section

variable (carried : Carried h tmp code header packet) (here : code[pc]? = some ins)
  (read : decode ins.code = some op)
variable {found : SockFilter} {j : Nat} {m₁ : Machine} {update update' : UInt32 → Machine} {value : Option UInt32}

include carried here read

theorem Carried.fetch (place : (placed h tmp code pc op ins)[j]? = some found) :
    (finished h tmp code)[startOf h tmp code pc + j]? = some found := by
  rw [finished_at carried.accepted here read (List.getElem?_eq_some_iff.mp place).1, place]

theorem Carried.advance (j : Nat) (place : (placed h tmp code pc op ins)[j]? = some found)
    (ran : step (header ++ packet) found m' = .next m₁ skip) :
    exec (header ++ packet) (finished h tmp code) (startOf h tmp code pc + j) m' =
      exec (header ++ packet) (finished h tmp code) (startOf h tmp code pc + (j + 1 + skip)) m₁ := by
  rw [exec_next (carried.fetch here read place) ran]
  simp only [add_assoc]

theorem Carried.finish (j : Nat) (place : (placed h tmp code pc op ins)[j]? = some found)
    (ran : step (header ++ packet) found m' = .done r) :
    exec (header ++ packet) (finished h tmp code) (startOf h tmp code pc + j) m' = some r :=
  exec_done (carried.fetch here read place) ran

/-- The last step of a fragment, whose value may not exist on either side. -/
theorem Carried.step_set (continues : (Opcode.traits op).ret = false) (orig : step packet ins m = .set value update)
    (size : (expansion h tmp op ins).length = j + 1) {m₀ : Machine}
    (place : (placed h tmp code pc op ins)[j]? = some found)
    (got : exec (header ++ packet) (finished h tmp code) (startOf h tmp code pc) m' =
      exec (header ++ packet) (finished h tmp code) (startOf h tmp code pc + j) m₀)
    (translated : step (header ++ packet) found m₀ = .set value update')
    (rel : ∀ v, Machine.Matches tmp (update v) (update' v)) :
    StepMatch h tmp code header packet pc ins m m' := by
  cases value with
  | none => exact .done 0 0 orig (got.trans (carried.finish here read j place translated)) (.zero _ _)
  | some v =>
    refine .next (update v) (update' v) 0 orig (checkProgram_continues carried.accepted here read continues) ?_
      (rel v)
    rw [got, carried.advance here read j place translated, add_zero, add_zero, Carried.nextStart here read, size]

section

variable (same : placed h tmp code pc op ins = [ins]) (continues : (Opcode.traits op).ret = false)

include same continues

theorem Carried.step_same (orig : op.step packet ins m = .set value update)
    (translated : op.step (header ++ packet) ins m' = .set value update')
    (rel : ∀ v, Machine.Matches tmp (update v) (update' v)) :
    StepMatch h tmp code header packet pc ins m m' := by
  have size : (expansion h tmp op ins).length = 0 + 1 := by
    rw [← placed_length h tmp code pc, same]
    rfl
  refine carried.step_set here read continues (by rw [step_eq read, orig]) size (by rw [same]; rfl) rfl
    (by rw [step_eq read, translated]) rel

theorem Carried.step_next {m₁' : Machine} (orig : op.step packet ins m = .next m₁ 0)
    (translated : op.step (header ++ packet) ins m' = .next m₁' 0) (rel : Machine.Matches tmp m₁ m₁') :
    StepMatch h tmp code header packet pc ins m m' :=
  carried.step_same here read same continues
    (orig.trans (show Outcome.next m₁ 0 = .set (some 0) fun _ => m₁ from rfl))
    (translated.trans (show Outcome.next m₁' 0 = .set (some 0) fun _ => m₁' from rfl)) fun _ => rel

end

/-- The offset of an admitted load moves past the header without wrapping. -/
theorem Carried.offset (reads : (Opcode.traits op).packet = true) :
    ins.k.toNat + h.toNat ≤ intMax32.toNat ∧ (ins.k + h).toNat = header.length + ins.k.toNat := by
  have m : ins ∈ code := mem_of_getElem? here
  have bound := le_iff_toNat_le.mp ((carried.expressible ins m op read).offset reads)
  have short := carried.short
  have top : intMax32.toNat = 2147483647 := rfl
  rw [UInt32.toNat_sub_of_le intMax32 h (le_iff_toNat_le.mpr (by omega))] at bound
  rw [UInt32.toNat_add, carried.headerLength]
  omega

omit here read in
theorem Carried.temporary_toNat : (ofNat tmp).toNat = tmp := by
  have word := carried.word
  simp only [memwords] at word
  exact toNat_ofNat_of_lt' (by simp only [UInt32.size]; omega)

theorem Carried.trampoline (j : Nat) {target : Nat}
    (place : (placed h tmp code pc op ins)[j]? = some found) (always : decode found.code = some .ja)
    (lands : startOf h tmp code pc + (j + 1) + found.k.toNat = startOf h tmp code target) :
    exec (header ++ packet) (finished h tmp code) (startOf h tmp code pc + j) m' =
      exec (header ++ packet) (finished h tmp code) (startOf h tmp code target) m' := by
  have ran : step (header ++ packet) found m' = .next m' found.k.toNat := step_eq always
  rw [exec_next (carried.fetch here read place) ran, ← lands, add_assoc (startOf h tmp code pc)]

end

section

/-- The accumulator saved in the borrowed word. -/
def withSaved (tmp : Nat) (m : Machine) : Machine := { m with mem := update m.mem tmp m.a }

variable (word : (ofNat tmp).toNat = tmp)
include word

theorem step_save (packet : List UInt8) : step packet (stmt 0x02 (ofNat tmp)) m = .next (withSaved tmp m) 0 := by
  rw [step_eq (show decode 0x02 = some .st by decide), Opcode.step, stmt, word]
  rfl

theorem step_restore (packet : List UInt8) (a x : UInt32) :
    step packet (stmt 0x60 (ofNat tmp)) { withSaved tmp m with a := a, x := x } =
      .next { withSaved tmp m with x := x } 0 := by
  rw [step_eq (show decode 0x60 = some .ldMem by decide), Opcode.step, stmt, word]
  simp [withSaved]

end

variable (carried : Carried h tmp code header packet) (here : code[pc]? = some ins) (rel : Machine.Matches tmp m m')

include carried here rel

theorem Carried.step_alu {op : AluOp} (read : decode ins.code = some (.alu op x)) :
    StepMatch h tmp code header packet pc ins m m' := by
  have operands : operand ins m' x = operand ins m x := by simp [operand, rel.x]
  have translated : (Opcode.alu op x).step (header ++ packet) ins m' =
      .set (op.eval m.a (operand ins m x)) fun value => { m' with a := value } := by
    simp only [Opcode.step, operands, rel.a]
  exact carried.step_same here read rfl rfl rfl translated fun _ => ⟨rfl, rel.x, rel.mem⟩

theorem Carried.step_move (read : decode ins.code = some op)
    (moves : op ∈ [.ldImm, .ldMem, .ldxImm, .ldxMem, .st, .stx, .neg, .tax, .txa]) :
    StepMatch h tmp code header packet pc ins m m' := by
  have member : ins ∈ code := mem_of_getElem? here
  have other (scratch : (Opcode.traits op).scratch = true) : ins.k.toNat ≠ tmp := by
    refine carried.unused ins member ?_
    rw [← scratch, ← decode_traits read]
    rfl
  have stored {v v' : UInt32} (same : v' = v) (w : Nat) (off : w ≠ tmp) :
      update m'.mem ins.k.toNat v' w = update m.mem ins.k.toNat v w := by
    by_cases atWord : w = ins.k.toNat
    · simp [atWord, same]
    · simp [atWord, rel.mem w off]
  simp only [mem_cons, not_mem_nil, or_false] at moves
  rcases moves with rfl | rfl | rfl | rfl | rfl | rfl | rfl | rfl | rfl
  all_goals refine carried.step_next here read rfl rfl rfl rfl ?_
  · exact ⟨rfl, rel.x, rel.mem⟩
  · exact ⟨rel.mem _ (other rfl), rel.x, rel.mem⟩
  · exact ⟨rel.a, rfl, rel.mem⟩
  · exact ⟨rel.a, rel.mem _ (other rfl), rel.mem⟩
  · exact ⟨rel.a, rel.x, stored rel.a⟩
  · exact ⟨rel.a, rel.x, stored rel.x⟩
  · exact ⟨congrArg (0 - ·) rel.a, rel.x, rel.mem⟩
  · exact ⟨rel.a, rel.a, rel.mem⟩
  · exact ⟨rel.x, rel.x, rel.mem⟩

theorem Carried.step_ldAbs (read : decode ins.code = some (.ldAbs size)) :
    StepMatch h tmp code header packet pc ins m m' := by
  have moved := (carried.offset here read rfl).2
  have translated : step (header ++ packet) { ins with k := ins.k + h } m' =
      .set (load packet ins.k.toNat size) fun value => { m' with a := value } := by
    have same : decode ({ ins with k := ins.k + h } : SockFilter).code = some (.ldAbs size) := read
    rw [step_eq same, Opcode.step, moved, load_append]
  exact carried.step_set here read rfl (step_eq read) rfl rfl rfl translated
    fun _ => ⟨rfl, rel.x, rel.mem⟩

theorem Carried.step_ldxMsh (read : decode ins.code = some .ldxMsh) :
    StepMatch h tmp code header packet pc ins m m' := by
  have moved := (carried.offset here read rfl).2
  have translated : step (header ++ packet) { ins with k := ins.k + h } m' =
      .set (load packet ins.k.toNat .byte) fun value => { m' with x := (value &&& 0xf) * 4 } := by
    have same : decode ({ ins with k := ins.k + h } : SockFilter).code = some .ldxMsh := read
    rw [step_eq same, Opcode.step, moved, load_append]
  exact carried.step_set here read rfl (step_eq read) rfl rfl rfl translated
    fun _ => ⟨rel.a, rfl, rel.mem⟩

/-- An indirect load saves the accumulator, refuses an index that would leave
the signed range, restores and loads. -/
theorem Carried.step_ldInd (read : decode ins.code = some (.ldInd size)) :
    StepMatch h tmp code header packet pc ins m m' := by
  obtain ⟨bound, moved⟩ := carried.offset here read rfl
  have word := carried.temporary_toNat
  have top : intMax32.toNat = 2147483647 := rfl
  have limit : (intMax32 - h - ins.k).toNat = intMax32.toNat - h.toNat - ins.k.toNat := by
    rw [UInt32.toNat_sub, UInt32.toNat_sub, top]
    omega
  let guarded : Machine := { withSaved tmp m' with a := intMax32 - h - ins.k }
  have constant : step (header ++ packet) (stmt 0x00 (intMax32 - h - ins.k)) (withSaved tmp m') = .next guarded 0 := rfl
  have compare : step (header ++ packet) (jump 0x3d 0 1 0) guarded =
      .next guarded (if m.x ≤ intMax32 - h - ins.k then 1 else 0) := by
    have test : Cond.jge.eval guarded.a guarded.x = decide (m.x ≤ intMax32 - h - ins.k) := by
      rw [show guarded.x = m.x from rel.x]
      rfl
    rw [step_eq (show decode 0x3d = some (.jump .jge true) by decide), Opcode.step]
    simp only [operand, if_true, test, decide_eq_true_eq]
    rfl
  have toCompare := ((carried.advance here read 0 rfl (step_save word _)).trans
    (carried.advance here read 1 rfl constant)).trans (carried.advance here read 2 rfl compare)
  by_cases inRange : m.x ≤ intMax32 - h - ins.k
  · rw [if_pos inRange] at toCompare
    have translated : step (header ++ packet) { ins with k := ins.k + h } (withSaved tmp m') =
        .set (load packet (m.x.toNat + ins.k.toNat) size) fun value => { guarded with a := value } := by
      have same : decode ({ ins with k := ins.k + h } : SockFilter).code = some (.ldInd size) := read
      have idx : (withSaved tmp m').x = m.x := rel.x
      rw [step_eq same, Opcode.step, moved]
      rw [idx, add_left_comm, load_append]
    refine carried.step_set here read rfl (step_eq read) rfl rfl
      (toCompare.trans (carried.advance here read 4 rfl (step_restore word _ _ _))) translated fun _ => ⟨rfl, rel.x, ?_⟩
    intro w off
    simp [guarded, withSaved, off, rel.mem w off]
  · rw [if_neg inRange] at toCompare
    have beyond : load packet (m.x.toNat + ins.k.toNat) size = none := by
      refine load_beyond size ?_
      have short := carried.short
      rw [le_iff_toNat_le, limit] at inRange
      omega
    have reject : step (header ++ packet) (stmt 0x06 0) guarded = .done 0 := rfl
    refine .done 0 0 ?_ (toCompare.trans (carried.finish here read 3 rfl reject)) (.zero _ _)
    rw [step_eq read, Opcode.step, beyond]
    rfl

theorem Carried.step_ldLen (read : decode ins.code = some .ldLen) : StepMatch h tmp code header packet pc ins m m' := by
  have measure : step (header ++ packet) (stmt 0x80 0) m' =
    .next { m' with a := ofNat (header ++ packet).length } 0 := rfl
  have subtract : step (header ++ packet) (stmt 0x14 h) { m' with a := ofNat (header ++ packet).length } =
      .next { m' with a := ofNat packet.length } 0 := by
    rw [← carried.length_sub]
    rfl
  refine .next _ { m' with a := ofNat packet.length } 0 (step_eq read)
    (checkProgram_continues carried.accepted here read rfl) ?_ ⟨rfl, rel.x, rel.mem⟩
  rw [add_zero, Carried.nextStart here read]
  exact (carried.advance here read 0 rfl measure).trans (carried.advance here read 1 rfl subtract)

theorem Carried.step_ldxLen (read : decode ins.code = some .ldxLen) :
    StepMatch h tmp code header packet pc ins m m' := by
  have word := carried.temporary_toNat
  have measure : step (header ++ packet) (stmt 0x80 0) (withSaved tmp m') =
      .next { withSaved tmp m' with a := ofNat (header ++ packet).length } 0 := rfl
  have subtract :
    step (header ++ packet) (stmt 0x14 h) { withSaved tmp m' with a := ofNat (header ++ packet).length } =
      .next { withSaved tmp m' with a := ofNat packet.length } 0 := by
    rw [← carried.length_sub]
    rfl
  have transfer : step (header ++ packet) (stmt 0x07 0) { withSaved tmp m' with a := ofNat packet.length } =
      .next { withSaved tmp m' with a := ofNat packet.length, x := ofNat packet.length } 0 := rfl
  refine .next _ { withSaved tmp m' with x := ofNat packet.length } 0 (step_eq read)
    (checkProgram_continues carried.accepted here read rfl) ?_ ⟨rel.a, rfl, fun w off => ?_⟩
  · rw [add_zero, Carried.nextStart here read]
    exact (carried.advance here read 0 rfl (step_save word _)).trans <|
      (carried.advance here read 1 rfl measure).trans <|
      (carried.advance here read 2 rfl subtract).trans <| (carried.advance here read 3 rfl transfer).trans
        (carried.advance here read 4 rfl (step_restore word _ _ _))
  · simp [withSaved, off, rel.mem w off]

omit rel in
theorem Carried.step_retK (read : decode ins.code = some .retK) : StepMatch h tmp code header packet pc ins m m' := by
  by_cases zero : ins.k = 0
  · have place : (placed h tmp code pc .retK ins)[0]? = some ins := by simp [placed, expansion, zero]
    refine .done ins.k ins.k (step_eq read) (carried.finish here read 0 place (step_eq read)) ?_
    rw [zero]
    exact .zero _ _
  · have place : (placed h tmp code pc .retK ins)[0]? =
        some { ins with k := if ins.k > allOnes32 - h then allOnes32 else ins.k + h } := by
      simp only [placed, expansion, ne_eq, zero, not_false_eq_true, if_true]
      rfl
    have same : decode ({ ins with k := if ins.k > allOnes32 - h then allOnes32 else ins.k + h } : SockFilter).code =
      some .retK := read
    exact .done ins.k _ (step_eq read) (carried.finish here read 0 place (step_eq same))
      (.shifted carried.short zero)

theorem Carried.step_retA (read : decode ins.code = some .retA) : StepMatch h tmp code header packet pc ins m m' := by
  have orig : step packet ins m = .done m.a := step_eq read
  have testZero : step (header ++ packet) (jump 0x15 0 3 0) m' = .next m' (if m.a = 0 then 3 else 0) := by
    have test : Cond.jeq.eval m'.a 0 = decide (m.a = 0) := by
      rw [rel.a]
      rfl
    rw [step_eq (show decode 0x15 = some (.jump .jeq false) by decide), Opcode.step]
    simp only [operand, Bool.false_eq_true, if_false, jump, test, decide_eq_true_eq]
    rfl
  have testWrap : step (header ++ packet) (jump 0x25 (allOnes32 - h) 0 1) m' =
      .next m' (if m.a > allOnes32 - h then 0 else 1) := by
    have test : Cond.jgt.eval m'.a (allOnes32 - h) = decide (m.a > allOnes32 - h) := by
      rw [rel.a]
      rfl
    rw [step_eq (show decode 0x25 = some (.jump .jgt false) by decide), Opcode.step]
    simp only [operand, Bool.false_eq_true, if_false, jump, test, decide_eq_true_eq]
    rfl
  have returns {m₁ : Machine} : step (header ++ packet) (stmt 0x16 0) m₁ = .done m₁.a := rfl
  have first := carried.advance here read 0 rfl testZero
  by_cases zero : m.a = 0
  · rw [if_pos zero] at first
    refine .done m.a m'.a orig (first.trans (carried.finish here read 4 rfl returns)) ?_
    rw [rel.a, zero]
    exact .zero _ _
  · rw [if_neg zero] at first
    have two := first.trans (carried.advance here read 1 rfl testWrap)
    have verdict := SameVerdict.shifted (h := h) carried.short zero
    by_cases wraps : m.a > allOnes32 - h
    · rw [if_pos wraps] at two verdict
      have all : step (header ++ packet) (stmt 0x06 allOnes32) m' = .done allOnes32 := rfl
      exact .done m.a allOnes32 orig (two.trans (carried.finish here read 2 rfl all)) verdict
    · rw [if_neg wraps] at two verdict
      have add : step (header ++ packet) (stmt 0x04 h) m' = .next { m' with a := m'.a + h } 0 := rfl
      refine .done m.a (m'.a + h) orig ((two.trans (carried.advance here read 3 rfl add)).trans
        (carried.finish here read 4 rfl returns)) ?_
      rwa [rel.a]

variable (short : (finished h tmp code).length ≤ maxInsns)

include short

theorem Carried.step_ja (read : decode ins.code = some .ja) : StepMatch h tmp code header packet pc ins m m' := by
  have target := checkInsn_ja (checkProgram_insn carried.accepted here) read
  have lands := startOf_displacement short here read (le_refl _) target 1 rfl
  exact .next m m' ins.k.toNat (step_eq read) target (carried.trampoline here read 0 rfl read lands) rel

theorem Carried.step_jump {cond : Cond} (read : decode ins.code = some (.jump cond x)) :
    StepMatch h tmp code header packet pc ins m m' := by
  obtain ⟨jt, jf⟩ := checkInsn_jump (checkProgram_insn carried.accepted here) read
  have test : step (header ++ packet) { ins with jt := 0, jf := 1 } m' =
      .next m' (if cond.eval m.a (operand ins m x) then 0 else 1) := by
    have same : decode ({ ins with jt := 0, jf := 1 } : SockFilter).code = some (.jump cond x) := read
    have operands : operand ins m' x = operand ins m x := by simp [operand, rel.x]
    rw [step_eq same, Opcode.step, ← operands, rel.a]
    rfl
  have tested := carried.advance here read 0 rfl test
  have orig : step packet ins m = .next m (if cond.eval m.a (operand ins m x) then ins.jt.toNat else ins.jf.toNat) :=
    step_eq read
  have always : decode 0x05 = some .ja := by decide
  by_cases taken : cond.eval m.a (operand ins m x) = true
  · rw [if_pos taken] at tested orig
    have lands := startOf_displacement short here read (le_succ 2) jt 2 rfl
    exact .next m m' _ orig jt (tested.trans (carried.trampoline here read 1 rfl always lands)) rel
  · rw [if_neg taken] at tested orig
    have lands := startOf_displacement short here read (le_refl _) jf 3 rfl
    exact .next m m' _ orig jf (tested.trans (carried.trampoline here read 2 rfl always lands)) rel

/-- Every instruction of an accepted program is simulated by its code. -/
theorem Carried.step_match : StepMatch h tmp code header packet pc ins m m' := by
  obtain ⟨op, read⟩ := checkInsn_decode (checkProgram_insn carried.accepted here)
  cases op with
  | ldAbs size => exact carried.step_ldAbs here rel read
  | ldInd size => exact carried.step_ldInd here rel read
  | ldLen => exact carried.step_ldLen here rel read
  | ldxLen => exact carried.step_ldxLen here rel read
  | ldxMsh => exact carried.step_ldxMsh here rel read
  | alu op x => exact carried.step_alu here rel read
  | ja => exact carried.step_ja here rel short read
  | jump cond x => exact carried.step_jump here rel short read
  | retK => exact carried.step_retK here read
  | retA => exact carried.step_retA here rel read
  | _ => exact carried.step_move here rel read (by simp)

end Shroot
