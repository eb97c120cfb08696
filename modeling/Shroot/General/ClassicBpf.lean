import Mathlib

namespace Shroot.General

variable {packet : List UInt8}

/-- One instruction of a classic BPF program, as it lies in memory. -/
structure SockFilter where
  code : UInt16
  jt : UInt8
  jf : UInt8
  k : UInt32

namespace Bpf

inductive Size where
  | word | half | byte
  deriving DecidableEq

def Size.bytes : Size → Nat
  | .word => 4
  | .half => 2
  | .byte => 1

inductive AluOp where
  | add | sub | mul | div | mod | and | or | xor | lsh | rsh
  deriving DecidableEq

inductive Cond where
  | jeq | jgt | jge | jset
  deriving DecidableEq

/-- The operations a kernel accepts. `x` tells whether the operand is the
index register instead of the constant. -/
inductive Opcode where
  | ldAbs (size : Size)
  | ldInd (size : Size)
  | ldLen
  | ldImm
  | ldMem
  | ldxImm
  | ldxMem
  | ldxLen
  | ldxMsh
  | st
  | stx
  | alu (op : AluOp) (x : Bool)
  | neg
  | ja
  | jump (cond : Cond) (x : Bool)
  | retK
  | retA
  | tax
  | txa
  deriving DecidableEq

def opcodes : List (UInt16 × Opcode) :=
  [(0x20, .ldAbs .word), (0x28, .ldAbs .half), (0x30, .ldAbs .byte),
   (0x40, .ldInd .word), (0x48, .ldInd .half), (0x50, .ldInd .byte),
   (0x80, .ldLen), (0x00, .ldImm), (0x60, .ldMem),
   (0x01, .ldxImm), (0x61, .ldxMem), (0x81, .ldxLen), (0xb1, .ldxMsh),
   (0x02, .st), (0x03, .stx),
   (0x04, .alu .add false), (0x0c, .alu .add true), (0x14, .alu .sub false), (0x1c, .alu .sub true),
   (0x24, .alu .mul false), (0x2c, .alu .mul true), (0x34, .alu .div false), (0x3c, .alu .div true),
   (0x94, .alu .mod false), (0x9c, .alu .mod true), (0x54, .alu .and false), (0x5c, .alu .and true),
   (0x44, .alu .or false), (0x4c, .alu .or true), (0xa4, .alu .xor false), (0xac, .alu .xor true),
   (0x64, .alu .lsh false), (0x6c, .alu .lsh true), (0x74, .alu .rsh false), (0x7c, .alu .rsh true),
   (0x84, .neg), (0x05, .ja),
   (0x15, .jump .jeq false), (0x1d, .jump .jeq true), (0x25, .jump .jgt false), (0x2d, .jump .jgt true),
   (0x35, .jump .jge false), (0x3d, .jump .jge true), (0x45, .jump .jset false), (0x4d, .jump .jset true),
   (0x06, .retK), (0x16, .retA), (0x07, .tax), (0x87, .txa)]

def decode (code : UInt16) : Option Opcode := (opcodes.find? fun entry => entry.1 == code).map (·.2)

structure Machine where
  a : UInt32
  x : UInt32
  mem : Nat → UInt32

/-- Shifts use the low five bits of their count. A division by zero has no value. -/
def AluOp.eval (op : AluOp) (a b : UInt32) : Option UInt32 :=
  match op with
  | .add => some (a + b)
  | .sub => some (a - b)
  | .mul => some (a * b)
  | .div => if b = 0 then none else some (a / b)
  | .mod => if b = 0 then none else some (a % b)
  | .and => some (a &&& b)
  | .or => some (a ||| b)
  | .xor => some (a ^^^ b)
  | .lsh => some (a <<< b)
  | .rsh => some (a >>> b)

def Cond.eval (cond : Cond) (a b : UInt32) : Bool :=
  match cond with
  | .jeq => a == b
  | .jgt => a > b
  | .jge => a ≥ b
  | .jset => a &&& b != 0

/-- The big-endian number at a natural address, if the packet reaches that far. -/
def load (packet : List UInt8) (address : Nat) (size : Size) : Option UInt32 :=
  if address + size.bytes ≤ packet.length then
    some (((packet.drop address).take size.bytes).foldl (fun value byte => value * 256 + byte.toUInt32) 0)
  else none

/-- What one instruction does: go on after skipping some, or end. -/
inductive Outcome where
  | next (m : Machine) (skip : Nat)
  | done (result : UInt32)
  | stuck

/-- A value that does not exist ends the program with result 0. -/
def Outcome.set (value : Option UInt32) (update : UInt32 → Machine) : Outcome :=
  match value with
  | some value => .next (update value) 0
  | none => .done 0

def operand (ins : SockFilter) (m : Machine) (x : Bool) : UInt32 := if x then m.x else ins.k

def Opcode.step (op : Opcode) (packet : List UInt8) (ins : SockFilter) (m : Machine) : Outcome :=
  match op with
  | .ldAbs size => .set (load packet ins.k.toNat size) fun value => { m with a := value }
  | .ldInd size => .set (load packet (m.x.toNat + ins.k.toNat) size) fun value => { m with a := value }
  | .ldLen => .next { m with a := UInt32.ofNat packet.length } 0
  | .ldImm => .next { m with a := ins.k } 0
  | .ldMem => .next { m with a := m.mem ins.k.toNat } 0
  | .ldxImm => .next { m with x := ins.k } 0
  | .ldxMem => .next { m with x := m.mem ins.k.toNat } 0
  | .ldxLen => .next { m with x := UInt32.ofNat packet.length } 0
  | .ldxMsh => .set (load packet ins.k.toNat .byte) fun value => { m with x := (value &&& 0xf) * 4 }
  | .st => .next { m with mem := Function.update m.mem ins.k.toNat m.a } 0
  | .stx => .next { m with mem := Function.update m.mem ins.k.toNat m.x } 0
  | .alu op x => .set (op.eval m.a (operand ins m x)) fun value => { m with a := value }
  | .neg => .next { m with a := 0 - m.a } 0
  | .ja => .next m ins.k.toNat
  | .jump cond x => .next m (if cond.eval m.a (operand ins m x) then ins.jt.toNat else ins.jf.toNat)
  | .retK => .done ins.k
  | .retA => .done m.a
  | .tax => .next { m with x := m.a } 0
  | .txa => .next { m with a := m.x } 0

def step (packet : List UInt8) (ins : SockFilter) (m : Machine) : Outcome :=
  match decode ins.code with
  | some op => op.step packet ins m
  | none => .stuck

/-- Runs a program after skipping some instructions. All jumps are forward, so
the program itself bounds the run; only falling off its end gives nothing. -/
def exec (packet : List UInt8) : List SockFilter → Nat → Machine → Option UInt32
  | [], _, _ => none
  | _ :: rest, skip + 1, m => exec packet rest skip m
  | ins :: rest, 0, m =>
    match step packet ins m with
    | .next m skip => exec packet rest skip m
    | .done result => some result
    | .stuck => none

section

variable {code : List SockFilter} {pc : Nat} {ins : SockFilter} {m : Machine}

theorem exec_at (here : code[pc]? = some ins) :
    exec packet code pc m = match step packet ins m with
      | .next m skip => exec packet code (pc + 1 + skip) m
      | .done result => some result
      | .stuck => none := by
  induction code generalizing pc with
  | nil => simp at here
  | cons first rest ih =>
    cases pc with
    | zero =>
      rw [List.getElem?_cons_zero, Option.some.injEq] at here
      subst here
      rw [exec]
      cases step packet first m with
      | next m skip => simp [exec, Nat.add_comm]
      | done result => rfl
      | stuck => rfl
    | succ pc =>
      rw [exec, ih here]
      cases step packet ins m with
      | next m skip =>
        have shift : pc + 1 + 1 + skip = (pc + 1 + skip) + 1 := by omega
        simp only [shift, exec]
      | done result => rfl
      | stuck => rfl

theorem exec_next {m' : Machine} {skip : Nat} (here : code[pc]? = some ins) (ran : step packet ins m = .next m' skip) :
    exec packet code pc m = exec packet code (pc + 1 + skip) m' := by
  rw [exec_at here, ran]

theorem exec_done {res : UInt32} (here : code[pc]? = some ins) (ran : step packet ins m = .done res) :
    exec packet code pc m = some res := by
  rw [exec_at here, ran]

theorem step_eq {op : Opcode} (read : decode ins.code = some op) : step packet ins m = op.step packet ins m := by
  rw [step, read]

end

theorem load_append (header packet : List UInt8) (addr : Nat) (size : Size) :
    load (header ++ packet) (header.length + addr) size = load packet addr size := by
  have reach : header.length + addr + size.bytes ≤ (header ++ packet).length ↔ addr + size.bytes ≤ packet.length := by
    rw [List.length_append]
    omega
  simp only [load, reach, List.drop_length_add_append]

theorem load_beyond {addr : Nat} (size : Size) (beyond : packet.length ≤ addr) : load packet addr size = none := by
  have pos : 0 < size.bytes := by cases size <;> decide
  rw [load, if_neg (by omega)]

def memwords : Nat := 16
def maxInsns : Nat := 4096

/-- Operand and target checks of the kernel for one instruction of a program
of `count`, at `pc`. -/
def checkInsn (count pc : Nat) (ins : SockFilter) : Bool :=
  match decode ins.code with
  | none => false
  | some op => match op with
    | .alu .div false | .alu .mod false => ins.k != 0
    | .alu .lsh false | .alu .rsh false => ins.k < 32
    | .ldMem | .ldxMem | .st | .stx => ins.k.toNat < memwords
    | .ja => pc + 1 + ins.k.toNat < count
    | .jump _ _ => pc + 1 + ins.jt.toNat < count && pc + 1 + ins.jf.toNat < count
    | _ => true

/-- The kernel accepts no program that fails one of these checks. -/
def checkProgram (code : List SockFilter) : Bool :=
  code.length ≤ maxInsns && (code.zipIdx.all fun (ins, pc) => checkInsn code.length pc ins) &&
    (code.getLast?.any fun ins => decode ins.code == some .retK || decode ins.code == some .retA)

end Bpf
end Shroot.General
