import CallProtocol.Kind
import CallProtocol.Text.Fields
import CallProtocol.Text.Hex

/-!
# Pointers

The machine has no general memory. A pointer is the address of a register slot,
the address of a function, or a bare number, and the three never meet. A slot
belongs to a frame or to the storage behind a return descriptor. Which frame is
told by its serial number, so the address of a slot stays what it is when other
frames come and go.

Null is the number zero.
-/

namespace CallProtocol

inductive FuncRef where
  | script (index : Nat)
  | native (index : Nat)
  deriving DecidableEq

inductive Owner where
  /-- The frame with the given serial number. -/
  | frame (serial : Nat)
  /-- The storage of one return slot of the outermost call. -/
  | output (index : Nat)
  deriving DecidableEq

structure Slot where
  owner : Owner
  bank : Bank
  reg : Nat
  deriving DecidableEq

inductive Pointer where
  | address (value : UInt64)
  | function (f : FuncRef)
  | slot (s : Slot)
  deriving DecidableEq

namespace FuncRef

def isNative : FuncRef → Bool
  | script _ => false
  | native _ => true

@[simp] theorem isNative_script (i : Nat) : (script i).isNative = false := rfl

@[simp] theorem isNative_native (i : Nat) : (native i).isNative = true := rfl

def nativeFlag : Nat := 1

def flags (f : FuncRef) : Nat := if f.isNative then nativeFlag else 0

end FuncRef

namespace Slot

def offset (s : Slot) (k : Nat) : Slot := { s with reg := s.reg + k }

@[simp] theorem offset_zero (s : Slot) : s.offset 0 = s := rfl

end Slot

namespace Pointer

def null : Pointer := .address 0

instance : Inhabited Pointer := ⟨null⟩

def isNull (p : Pointer) : Bool := p = null

@[simp] theorem isNull_null : null.isNull = true := rfl

@[simp] theorem isNull_function (f : FuncRef) : (function f).isNull = false := rfl

@[simp] theorem isNull_slot (s : Slot) : (slot s).isNull = false := rfl

def function? : Pointer → Option FuncRef
  | function f => some f
  | _ => none

def constantDetails (name : FuncRef → String) : Pointer → String
  | function f => Text.applied "Function" (name f)
  | address a => Text.applied "Raw" (Text.hexAddress a.toNat)
  | slot _ => "Slot"

end Pointer

end CallProtocol
