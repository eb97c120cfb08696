import Shroot.SocketFilter.Simulation

namespace Shroot

open General Bpf List Option Nat UInt32

variable {count q : Nat} {op : Opcode} {x : Bool}

variable {h : UInt32} {tmp : Nat} {code : List SockFilter} {pc j : Nat} {ins found : SockFilter}

theorem usedScratch_mem (m : ins ∈ code) (uses : usesScratch ins.code = true) (bound : ins.k.toNat < 32) :
    (usedScratch code).getLsbD ins.k.toNat = true := by
  have step (rest : List SockFilter) (used : BitVec 32)
      (found : used.getLsbD ins.k.toNat = true ∨ ins ∈ rest) :
      (rest.foldl (fun used ins => if usesScratch ins.code then used ||| flag 32 ins.k.toNat else used)
        used).getLsbD ins.k.toNat = true := by
    induction rest generalizing used with
    | nil => simpa using found
    | cons first rest ih =>
      refine ih _ ?_
      dsimp only
      rcases found with already | later
      · refine .inl ?_
        split
        · simp [already]
        · exact already
      · rcases mem_cons.mp later with same | later
        · subst same
          rw [if_pos uses, BitVec.getLsbD_or, getLsbD_flag]
          simp [bound]
        · exact .inr later
  exact step code 0 (.inr m)

theorem temporaryWord_le (code : List SockFilter) : temporaryWord code ≤ memwords := by
  unfold temporaryWord
  cases found : (range memwords).find? fun i => !(usedScratch code).getLsbD i with
  | none => exact le_refl _
  | some word =>
    have m := mem_of_find?_eq_some found
    exact le_of_lt (mem_range.mp m)

theorem temporaryWord_unused (mem : ins ∈ code)
    (uses : usesScratch ins.code = true) (bound : ins.k.toNat < memwords) : ins.k.toNat ≠ temporaryWord code := by
  have used := usedScratch_mem mem uses (lt_trans bound (by decide))
  intro same
  unfold temporaryWord at same
  cases found : (range memwords).find? fun i => !(usedScratch code).getLsbD i with
  | none =>
    rw [found, getD_none] at same
    omega
  | some word =>
    rw [found, getD_some] at same
    have free := find?_some found
    simp [← same, used] at free

theorem checkInsn_scratch (fine : checkInsn count pc ins = true) (uses : usesScratch ins.code = true) :
    ins.k.toNat < memwords := by
  obtain ⟨op, read⟩ := checkInsn_decode fine
  have scratch : (Opcode.traits op).scratch = true := by
    rw [← decode_traits read]
    exact uses
  cases op with
  | ldMem | ldxMem | st | stx => simpa [checkInsn, read] using fine
  | _ => cases scratch

/-- From any instruction on, both programs end, with the same verdict. -/
theorem Carried.run {header packet : List UInt8} (kept : Carried h tmp code header packet)
    (short : (finished h tmp code).length ≤ maxInsns) (bound : pc < code.length) {m m' : Machine}
    (matched : Machine.Matches tmp m m') :
    ∃ r r', exec packet code pc m = some r ∧
      exec (header ++ packet) (finished h tmp code) (startOf h tmp code pc) m' = some r' ∧
      SameVerdict h.toNat packet.length r r' := by
  -- Jumps only lead forward, so the rest of the program shrinks at every step.
  induction fuel : code.length - pc using Nat.strong_induction_on generalizing pc m m' with
  | _ fuel ih =>
    have here : code[pc]? = some code[pc] := getElem?_eq_getElem bound
    cases kept.step_match here matched short with
    | done r r' orig translated verdict => exact ⟨r, r', exec_done here orig, translated, verdict⟩
    | next m₁ m₁' skip orig mem translated matched₁ =>
      obtain ⟨r, r', ran, ran', verdict⟩ := ih (code.length - (pc + 1 + skip)) (by omega) mem matched₁ rfl
      exact ⟨r, r', by rw [exec_next here orig, ran], by rw [translated, ran'], verdict⟩

/-- Every instruction of the finished code belongs to one of the program. -/
theorem startOf_covers (bound : q < startOf h tmp code code.length) :
    ∃ pc ins j, code[pc]? = some ins ∧ j < (expand h tmp ins).length ∧ q = startOf h tmp code pc + j := by
  have search (n : Nat) (le : n ≤ code.length) (below : q < startOf h tmp code n) :
      ∃ pc ins j, code[pc]? = some ins ∧ j < (expand h tmp ins).length ∧ q = startOf h tmp code pc + j := by
    induction n with
    | zero => simp [startOf] at below
    | succ n ih =>
      by_cases earlier : q < startOf h tmp code n
      · exact ih (by omega) earlier
      · have here : code[n]? = some code[n] := getElem?_eq_getElem (by omega)
        rw [startOf_succ here] at below
        exact ⟨n, code[n], q - startOf h tmp code n, here, by omega, by omega⟩
  exact search code.length (le_refl _) bound

theorem expansion_ne_nil (h : UInt32) (tmp : Nat) (op : Opcode) (ins : SockFilter) :
    0 < (expansion h tmp op ins).length := by
  cases op <;> simp [expansion]

theorem startOf_lt_length (accepted : checkProgram code = true) {target : Nat} (fits : target < code.length) :
    startOf h tmp code target < (finished h tmp code).length := by
  have here : code[target]? = some code[target] := getElem?_eq_getElem fits
  obtain ⟨op, read⟩ := checkInsn_decode (checkProgram_insn accepted here)
  have next := startOf_mono h tmp code (show target + 1 ≤ code.length by omega)
  rw [startOf_succ here, expand_eq read] at next
  have pos := expansion_ne_nil h tmp op code[target]
  rw [finished_length]
  omega

theorem fragment_le_length (here : code[pc]? = some ins) (read : decode ins.code = some op) :
    startOf h tmp code pc + (expansion h tmp op ins).length ≤ (finished h tmp code).length := by
  have bound : pc < code.length := (List.getElem?_eq_some_iff.mp here).1
  have next := startOf_mono h tmp code (show pc + 1 ≤ code.length by omega)
  rwa [startOf_succ here, expand_eq read, ← finished_length] at next

/-- Both targets of the jump at `q`, if it is one, are instructions of a program of `count`. -/
structure JumpsInside (count q : Nat) (found : SockFilter) : Prop where
  always : decode found.code = some .ja → q + 1 + found.k.toNat < count
  cond : ∀ c x, decode found.code = some (.jump c x) → q + 1 + found.jt.toNat < count ∧ q + 1 + found.jf.toNat < count

theorem JumpsInside.ofAlways (read : decode found.code = some .ja) (lands : q + 1 + found.k.toNat < count) :
    JumpsInside count q found where
  always _ := lands
  cond c x jump := by
    rw [read] at jump
    cases jump

theorem JumpsInside.ofCond {c : Cond} (read : decode found.code = some (.jump c x))
    (jt : q + 1 + found.jt.toNat < count) (jf : q + 1 + found.jf.toNat < count) : JumpsInside count q found where
  always ja := by
    rw [read] at ja
    cases ja
  cond _ _ _ := ⟨jt, jf⟩

/-- A fragment whose jumps stay in it. -/
inductive Closed : List SockFilter → Prop
  | nil : Closed []
  | plain {ins : SockFilter} {rest : List SockFilter} {op : Opcode} : decode ins.code = some op →
    (Opcode.traits op).cond = false →
      (Opcode.traits op).always = false → Closed rest → Closed (ins :: rest)
  | cond {ins : SockFilter} {rest : List SockFilter} {c : Cond} {x : Bool} : decode ins.code = some (.jump c x) →
      ins.jt.toNat < rest.length → ins.jf.toNat < rest.length → Closed rest → Closed (ins :: rest)

theorem Closed.inside {fragment : List SockFilter} (closed : Closed fragment) {start : Nat}
    (room : start + fragment.length ≤ count) (place : fragment[j]? = some found) :
    JumpsInside count (start + j) found := by
  induction closed generalizing start j with
  | nil => cases place
  | plain read noCond noAlways _ ih =>
    cases j with
    | zero =>
      obtain rfl := some.inj place
      refine ⟨fun ja => ?_, fun c x jump => ?_⟩
      · cases read.symm.trans ja
        cases noAlways
      · cases read.symm.trans jump
        cases noCond
    | succ j =>
      rw [add_comm j, ← add_assoc]
      exact ih (by simp only [length_cons] at room; omega) place
  | cond read jt jf _ ih =>
    simp only [length_cons] at room
    cases j with
    | zero =>
      obtain rfl := some.inj place
      exact .ofCond read (by omega) (by omega)
    | succ j =>
      rw [add_comm j, ← add_assoc]
      exact ih (by omega) place

/-- Every emitted code is one of the fixed ones or the instruction's own. -/
theorem placed_closed (read : decode ins.code = some op) (straight : op ≠ .ja ∧ (Opcode.traits op).cond = false) :
    Closed (placed h tmp code pc op ins) := by
  have save : decode 0x02 = some .st := by decide
  have restore : decode 0x60 = some .ldMem := by decide
  have measure : decode 0x80 = some .ldLen := by decide
  have subtract : decode 0x14 = some (.alu .sub false) := by decide
  have finish : decode 0x06 = some .retK := by decide
  cases op with
  | ja => exact absurd rfl straight.1
  | jump _ _ => cases straight.2
  | ldInd _ =>
    have constant : decode 0x00 = some .ldImm := by decide
    have compare : decode 0x3d = some (.jump .jge true) := by decide
    exact .plain save rfl rfl <| .plain constant rfl rfl <| .cond compare (by simp [jump]) (by simp [jump]) <|
      .plain finish rfl rfl <|
      .plain restore rfl rfl <| .plain read rfl rfl .nil
  | retA =>
    have testZero : decode 0x15 = some (.jump .jeq false) := by decide
    have testWrap : decode 0x25 = some (.jump .jgt false) := by decide
    have add : decode 0x04 = some (.alu .add false) := by decide
    have returns : decode 0x16 = some .retA := by decide
    exact .cond testZero (by simp [jump]) (by simp [jump]) <| .cond testWrap (by simp [jump]) (by simp [jump]) <|
      .plain finish rfl rfl <|
      .plain add rfl rfl <| .plain returns rfl rfl .nil
  | ldLen => exact .plain measure rfl rfl <| .plain subtract rfl rfl .nil
  | ldxLen =>
    have transfer : decode 0x07 = some .tax := by decide
    exact .plain save rfl rfl <| .plain measure rfl rfl <| .plain subtract rfl rfl <| .plain transfer rfl rfl <|
      .plain restore rfl rfl .nil
  | retK =>
    refine .plain (?_ : decode _ = some .retK) rfl rfl .nil
    split <;> exact read
  | _ => exact .plain read rfl rfl .nil

section

variable (accepted : checkProgram code = true) (short : (finished h tmp code).length ≤ maxInsns)
  (here : code[pc]? = some ins)
include accepted short here

theorem placed_ja_inside (read : decode ins.code = some .ja) (place : (placed h tmp code pc .ja ins)[j]? = some found) :
    JumpsInside (finished h tmp code).length (startOf h tmp code pc + j) found := by
  have target := checkInsn_ja (checkProgram_insn accepted here) read
  have lands := startOf_displacement short here read (le_refl _) target 1 rfl
  obtain ⟨bound, val⟩ := List.getElem?_eq_some_iff.mp place
  have zero : j = 0 := lt_one_iff.mp bound
  subst zero
  subst val
  refine .ofAlways read ?_
  have mem := @startOf_lt_length h tmp _ accepted _ target
  rwa [← lands] at mem

theorem placed_jump_inside {cond : Cond} (read : decode ins.code = some (.jump cond x))
    (place : (placed h tmp code pc (.jump cond x) ins)[j]? = some found) :
    JumpsInside (finished h tmp code).length (startOf h tmp code pc + j) found := by
  obtain ⟨jt, jf⟩ := checkInsn_jump (checkProgram_insn accepted here) read
  have room : startOf h tmp code pc + 3 ≤ (finished h tmp code).length := fragment_le_length here read
  have always : decode 0x05 = some .ja := by decide
  obtain ⟨bound, val⟩ := List.getElem?_eq_some_iff.mp place
  have cases : j = 0 ∨ j = 1 ∨ j = 2 := by
    have : j < 3 := bound
    omega
  rcases cases with rfl | rfl | rfl
  · subst val
    have same : decode ({ ins with jt := 0, jf := 1 } : SockFilter).code = some (.jump cond x) := read
    refine .ofCond same ?_ ?_
    · show startOf h tmp code pc + 0 + 1 + 0 < _
      omega
    · show startOf h tmp code pc + 0 + 1 + 1 < _
      omega
  · subst val
    have lands := startOf_displacement short here read (le_succ 2) jt 2 rfl
    have mem := @startOf_lt_length h tmp _ accepted _ jt
    rw [← lands] at mem
    exact .ofAlways always mem
  · subst val
    have lands := startOf_displacement short here read (le_refl _) jf 3 rfl
    have mem := @startOf_lt_length h tmp _ accepted _ jf
    rw [← lands] at mem
    exact .ofAlways always mem

theorem placed_inside (read : decode ins.code = some op) (place : (placed h tmp code pc op ins)[j]? = some found) :
    JumpsInside (finished h tmp code).length (startOf h tmp code pc + j) found := by
  by_cases straight : op ≠ .ja ∧ (Opcode.traits op).cond = false
  · refine (placed_closed read straight).inside ?_ place
    rw [placed_length]
    exact fragment_le_length here read
  · cases op with
    | ja => exact placed_ja_inside accepted short here read place
    | jump _ _ => exact placed_jump_inside accepted short here read place
    | _ => exact absurd ⟨nofun, rfl⟩ straight

end

/-- Every scratch word of the emitted code is one of the instruction's own, or
the borrowed one. -/
theorem placed_scratch (read : decode ins.code = some op) (m : found ∈ placed h tmp code pc op ins)
    (uses : usesScratch found.code = true) :
    found.k = ofNat tmp ∨ (usesScratch ins.code = true ∧ found.k = ins.k) := by
  have own : usesScratch ins.code = (Opcode.traits op).scratch := congrArg CodeTraits.scratch (decode_traits read)
  have quiet (none : usesScratch found.code = false) : found.k = ofNat tmp ∨
      (usesScratch ins.code = true ∧ found.k = ins.k) := by
    rw [none] at uses
    cases uses
  cases op with
  | ldInd _ =>
    simp only [placed, expansion, mem_cons, not_mem_nil, or_false] at m
    rcases m with rfl | rfl | rfl | rfl | rfl | rfl
    · exact .inl rfl
    · exact quiet (by decide : usesScratch 0x00 = false)
    · exact quiet rfl
    · exact quiet rfl
    · exact .inl rfl
    · exact quiet own
  | ldxLen =>
    simp only [placed, expansion, mem_cons, not_mem_nil, or_false] at m
    rcases m with rfl | rfl | rfl | rfl | rfl
    · exact .inl rfl
    · exact quiet rfl
    · exact quiet (by decide : usesScratch 0x14 = false)
    · exact quiet rfl
    · exact .inl rfl
  | ldLen =>
    simp only [placed, expansion, mem_cons, not_mem_nil, or_false] at m
    rcases m with rfl | rfl
    · exact quiet rfl
    · exact quiet (by decide : usesScratch 0x14 = false)
  | retA =>
    simp only [placed, expansion, mem_cons, not_mem_nil, or_false] at m
    rcases m with rfl | rfl | rfl | rfl | rfl
    · exact quiet rfl
    · exact quiet (by decide : usesScratch 0x25 = false)
    · exact quiet rfl
    · exact quiet (by decide : usesScratch 0x04 = false)
    · exact quiet rfl
  | jump _ _ =>
    simp only [placed, mem_cons, not_mem_nil, or_false] at m
    rcases m with rfl | rfl | rfl
    · exact quiet own
    · exact quiet (by decide : usesScratch 0x05 = false)
    · exact quiet (by decide : usesScratch 0x05 = false)
  | retK =>
    refine quiet ?_
    rw [mem_singleton.mp m]
    split <;> exact own
  | ldMem | ldxMem | st | stx =>
    rw [mem_singleton.mp m]
    exact .inr ⟨own, rfl⟩
  | _ =>
    rw [mem_singleton.mp m] at quiet ⊢
    exact quiet own

theorem finished_mem (accepted : checkProgram code = true) (atPlace : (finished h tmp code)[q]? = some found) :
    ∃ pc ins op j, code[pc]? = some ins ∧ decode ins.code = some op ∧ q = startOf h tmp code pc + j ∧
      (placed h tmp code pc op ins)[j]? = some found := by
  have bound := (List.getElem?_eq_some_iff.mp atPlace).1
  rw [finished_length] at bound
  obtain ⟨pc, ins, j, here, mem, rfl⟩ := startOf_covers bound
  obtain ⟨op, read⟩ := checkInsn_decode (checkProgram_insn accepted here)
  rw [expand_eq read, ← placed_length h tmp code pc] at mem
  refine ⟨pc, ins, op, j, here, read, rfl, ?_⟩
  rw [← finished_at accepted here read mem, atPlace]

/-- A translated filter stays a program, borrows a word the original leaves
alone, and on any header before the packet gives the original's verdict. -/
theorem translateFilter_correct {code out : List SockFilter} {h : UInt32} {allocated : Bool}
    (accepted : checkProgram code = true) (run : translateFilter code h allocated = .ok out) :
    (∀ q found, out[q]? = some found → JumpsInside out.length q found) ∧ out.length ≤ maxInsns ∧
    (∀ ins ∈ code, usesScratch ins.code = true → ins.k.toNat ≠ temporaryWord code) ∧
    (∀ found ∈ out, usesScratch found.code = true → found.k = ofNat (temporaryWord code) ∨
      ∃ ins ∈ code, usesScratch ins.code = true ∧ found.k = ins.k) ∧
    ∀ header packet : List UInt8, header.length = h.toNat → packet.length + h.toNat ≤ intMax32.toNat →
      ∀ mem : Nat → UInt32, ∃ r r', exec packet code 0 ⟨0, 0, mem⟩ = some r ∧
        exec (header ++ packet) out 0 ⟨0, 0, mem⟩ = some r' ∧ (r = 0 ↔ r' = 0) ∧
        min packet.length r.toNat = min (packet.length + h.toNat) r'.toNat - h.toNat := by
  obtain ⟨rfl, short, expressible⟩ := translateFilter_ok accepted run
  have free : ∀ ins ∈ code, usesScratch ins.code = true → ins.k.toNat ≠ temporaryWord code := by
    intro ins m uses
    obtain ⟨pc, here⟩ := mem_iff_getElem?.mp m
    exact temporaryWord_unused m uses (checkInsn_scratch (checkProgram_insn accepted here) uses)
  refine ⟨fun q found atPlace => ?_, short, free, fun found m uses => ?_, fun header packet size bound mem => ?_⟩
  · obtain ⟨pc, ins, op, j, here, read, rfl, place⟩ := finished_mem accepted atPlace
    exact placed_inside accepted short here read place
  · obtain ⟨q, atPlace⟩ := mem_iff_getElem?.mp m
    obtain ⟨pc, ins, op, j, here, read, rfl, place⟩ := finished_mem accepted atPlace
    refine (placed_scratch read (mem_of_getElem? place) uses).imp_right fun own => ?_
    exact ⟨ins, mem_of_getElem? here, own⟩
  · have nonempty : 0 < code.length := by
      refine length_pos_iff.mpr fun empty => ?_
      rw [empty] at accepted
      cases accepted
    have kept : Carried h (temporaryWord code) code header packet :=
      ⟨accepted, expressible, free, temporaryWord_le code, size, bound⟩
    obtain ⟨r, r', ran, ran', verdict⟩ := kept.run short nonempty ⟨rfl, rfl, fun _ _ => rfl⟩
    exact ⟨r, r', ran, by simpa [startOf] using ran', verdict.drop, verdict.keep⟩

/-- Keeps one byte of a packet whose byte after the second, counted from the
index register, is 9, and otherwise as many as that byte says. -/
def indexedFilter : List SockFilter := [stmt 0x50 2, jump 0x15 9 0 1, stmt 0x06 1, stmt 0x16 0]

theorem indexedFilter_carried :
    checkProgram indexedFilter = true ∧ ∃ out r', translateFilter indexedFilter 16 true = .ok out ∧
        exec [7, 7, 9] indexedFilter 0 ⟨0, 0, fun _ => 0⟩ = some 1 ∧
        exec (replicate 16 0 ++ [7, 7, 9]) out 0 ⟨0, 0, fun _ => 0⟩ = some r' ∧ 1 = min 19 r'.toNat - 16 := by
  have accepted : checkProgram indexedFilter = true := by decide
  obtain ⟨out, run⟩ : ∃ out, translateFilter indexedFilter 16 true = .ok out := ⟨_, rfl⟩
  obtain ⟨r, r', ran, ran', _, keep⟩ :=
    (translateFilter_correct accepted run).2.2.2.2 (replicate 16 0) [7, 7, 9] rfl (by decide) fun _ => 0
  have one : exec [7, 7, 9] indexedFilter 0 ⟨0, 0, fun _ => 0⟩ = some 1 := by decide
  obtain rfl := Option.some.inj ran
  exact ⟨accepted, out, r', run, one, ran', keep⟩

end Shroot
