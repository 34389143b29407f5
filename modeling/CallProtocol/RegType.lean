import CallProtocol.Kind

/-!
# Register types

A register type is a kind and one modifier. Instructions and return slots carry
it as a byte: the tag of the bank in the two low bits and one bit for the
modifier. Nil is a byte of its own and takes no modifier.

`RegType.ofBits?` refuses a byte with an undefined bit or with two modifiers. It
reads back every type that `RegType.bits` can tell apart.
-/

namespace CallProtocol

inductive Modifier where
  | plain
  /-- An entry of the constant pool. -/
  | constant
  /-- The address of the register's frame slot. -/
  | address
  /-- A float value in two consecutive registers. -/
  | pair
  /-- A float value in three consecutive registers. -/
  | triple
  deriving DecidableEq

structure RegType where
  kind : Kind
  modifier : Modifier := .plain
  deriving DecidableEq

namespace Modifier

def bits : Modifier → UInt8
  | plain => 0
  | constant => 4
  | pair => 8
  | triple => 16
  | address => 32

def all : List Modifier := [.plain, .constant, .address, .pair, .triple]

def ofBits? (b : UInt8) : Option Modifier :=
  all.find? (·.bits == b)

@[simp] theorem ofBits?_bits (m : Modifier) : ofBits? m.bits = some m := by
  cases m <;> rfl

def components : Modifier → Nat
  | pair => 2
  | triple => 3
  | _ => 1

theorem components_pos (m : Modifier) : 0 < m.components := by
  cases m <;> decide

def ending : Modifier → String
  | plain => ""
  | constant => "|konst"
  | address => "|addrof"
  | pair => "|multi2"
  | triple => "|multi3"

end Modifier

namespace RegType

def of (b : Bank) : RegType := ⟨.of b, .plain⟩

def nil : RegType := ⟨.nil, .plain⟩

def bits (t : RegType) : UInt8 :=
  match t.kind with
  | .nil => Kind.nil.tag
  | .of b => b.tag ||| t.modifier.bits

def bankMask : UInt8 := 3

def modifierMask : UInt8 := 60

def ofBits? (b : UInt8) : Option RegType :=
  if b = Kind.nil.tag then some nil
  else if b &&& ~~~(bankMask ||| modifierMask) = 0 then do
    let bank ← Bank.ofTag? (b &&& bankMask)
    let modifier ← Modifier.ofBits? (b &&& modifierMask)
    return ⟨.of bank, modifier⟩
  else none

def components (t : RegType) : Nat := t.modifier.components

/-- A constant operand of this type is an index into a pool. -/
def isConstant (t : RegType) : Bool := t.modifier = .constant

/-- An operand of this type stands for the address of its frame slot. -/
def isAddress (t : RegType) : Bool := t.modifier = .address

def text (t : RegType) : String := t.kind.name ++ t.modifier.ending

/-- The float type of the given number of components. Any number but two and
three stands for a single float. -/
def float (components : UInt8) : RegType :=
  ⟨.of .float, if components = 2 then .pair else if components = 3 then .triple else .plain⟩

@[simp] theorem ofBits?_bits_nil (m : Modifier) : ofBits? (bits ⟨.nil, m⟩) = some nil := rfl

@[simp] theorem ofBits?_bits_of (b : Bank) (m : Modifier) :
    ofBits? (bits ⟨.of b, m⟩) = some ⟨.of b, m⟩ := by
  cases b <;> cases m <;> rfl

end RegType

end CallProtocol
