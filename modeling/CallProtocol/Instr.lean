import CallProtocol.RegType

/-!
# Instructions

An instruction is an opcode and three operand bytes. Some opcodes read the last
two bytes as one 16-bit operand, some read all three as one 24-bit operand; both
come in an unsigned and in a signed form. The wide operand has its high byte
first.

The operand forms are functions of the bytes, and `ofBx`, `ofSbx`, `ofAx` and
`ofSax` write an instruction from a wide operand. A 24-bit operand is the one
number in its range that agrees with the written one modulo `2 ^ 24`.
-/

namespace CallProtocol

inductive Opcode where
  | nop
  | li
  | lk
  | lkf
  | lks
  | lkp
  | move
  | movef
  | movea
  | add
  | addf
  | param
  | parami
  | call
  | callk
  | tail
  | tailk
  | result
  | ret
  | reti
  deriving DecidableEq

namespace Opcode

def all : List Opcode :=
  [nop, li, lk, lkf, lks, lkp, move, movef, movea, add, addf, param, parami, call, callk, tail,
    tailk, result, ret, reti]

def code (o : Opcode) : Nat := all.idxOf o

def mnemonic : Opcode → String
  | nop => "NOP"
  | li => "LI"
  | lk => "LK"
  | lkf => "LKF"
  | lks => "LKS"
  | lkp => "LKP"
  | move => "MOVE"
  | movef => "MOVEF"
  | movea => "MOVEA"
  | add => "ADD"
  | addf => "ADDF"
  | param => "PARAM"
  | parami => "PARAMI"
  | call => "CALL"
  | callk => "CALL_K"
  | tail => "TAIL"
  | tailk => "TAIL_K"
  | result => "RESULT"
  | ret => "RET"
  | reti => "RETI"

def ofMnemonic? (s : String) : Option Opcode :=
  all.find? (·.mnemonic == s)

theorem mem_all (o : Opcode) : o ∈ all := by
  cases o <;> decide

end Opcode

structure Instr where
  op : Opcode
  a : UInt8
  b : UInt8
  c : UInt8
  deriving DecidableEq

namespace Instr

def ofBx (op : Opcode) (a : UInt8) (x : UInt16) : Instr :=
  ⟨op, a, (x >>> 8).toUInt8, x.toUInt8⟩

def ofSbx (op : Opcode) (a : UInt8) (x : Int16) : Instr :=
  ofBx op a x.toUInt16

def ofAx (op : Opcode) (x : UInt32) : Instr :=
  ⟨op, (x >>> 16).toUInt8, (x >>> 8).toUInt8, x.toUInt8⟩

def ofSax (op : Opcode) (x : Int32) : Instr :=
  ofAx op x.toUInt32

def bx (i : Instr) : UInt16 :=
  (i.b.toUInt16 <<< 8) ||| i.c.toUInt16

def sbx (i : Instr) : Int16 := i.bx.toInt16

def ax (i : Instr) : UInt32 :=
  (i.a.toUInt32 <<< 16) ||| (i.b.toUInt32 <<< 8) ||| i.c.toUInt32

def sax (i : Instr) : Int32 :=
  Int32.ofInt (Int.bmod i.ax.toNat 0x1000000)

def param (t : RegType) (index : UInt8) : Instr := ⟨.param, 0, t.bits, index⟩

def paramImm (value : Int32) : Instr := ofSax .parami value

def call (reg args results : UInt8) : Instr := ⟨.call, reg, args, results⟩

def callConst (index args results : UInt8) : Instr := ⟨.callk, index, args, results⟩

def tail (reg args : UInt8) : Instr := ⟨.tail, reg, args, 0⟩

def tailConst (index args : UInt8) : Instr := ⟨.tailk, index, args, 0⟩

def result (t : RegType) (reg : UInt8) : Instr := ⟨.result, 0, t.bits, reg⟩

/-- The bit of the first operand of a return that marks it as the final one. -/
def finalBit : UInt8 := 128

def retOperand (slot : UInt8) (final : Bool) : UInt8 :=
  if final then slot ||| finalBit else slot

def ret (slot : UInt8) (final : Bool) (t : RegType) (index : UInt8) : Instr :=
  ⟨.ret, retOperand slot final, t.bits, index⟩

def retImm (slot : UInt8) (final : Bool) (value : Int16) : Instr :=
  ofSbx .reti (retOperand slot final) value

def slot (i : Instr) : UInt8 := i.a &&& ~~~finalBit

def isFinal (i : Instr) : Bool := i.a &&& finalBit != 0

end Instr

end CallProtocol
