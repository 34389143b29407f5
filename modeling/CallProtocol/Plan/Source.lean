import CallProtocol.RegType

/-!
# Operand sources

Where a staged parameter or a returned value comes from, and the staged
parameter itself, which remembers the place of the instruction that produced it.
-/

namespace CallProtocol

inductive Source where
  | nil
  | reg (bank : Bank) (index : Nat)
  | const (bank : Bank) (index : Nat)
  /-- An int in the instruction itself. -/
  | imm (value : Int32)
  /-- The address of a register's frame slot. -/
  | address (bank : Bank) (index : Nat)
  deriving DecidableEq

def Source.kind : Source → Kind
  | nil => .nil
  | reg b _ => .of b
  | const b _ => .of b
  | imm _ => .of .int
  | address _ _ => .of .pointer

structure Staged where
  pc : Nat
  source : Source
  deriving DecidableEq

end CallProtocol
