import CallProtocol.Cell
import CallProtocol.RegType

/-!
# Return descriptors

A descriptor tells a callee where to write one return value and of which type
the caller wants it. There are two ways to answer it. A host function calls a
setter, which does nothing unless the value is of the declared kind and at most
as wide as declared. Compiled code looks at the bits of the type alone: it
compares the two bits of the bank and cuts a float to the declared width.

Both ways yield a list of writes, so what a callee may change can be read off
the descriptor without running anything.
-/

namespace CallProtocol

structure Write where
  slot : Slot
  cell : Cell
  deriving DecidableEq

/-- Where one return value goes. A descriptor without a location takes none. -/
structure Descriptor where
  location : Option Slot := none
  type : UInt8 := Kind.nil.tag
  deriving DecidableEq

namespace Descriptor

def regType? (d : Descriptor) : Option RegType := RegType.ofBits? d.type

def writesFrom (s : Slot) : Nat → List Cell → List Write
  | _, [] => []
  | k, c :: cs => ⟨s.offset k, c⟩ :: writesFrom s (k + 1) cs

def writes (d : Descriptor) (cs : List Cell) : List Write :=
  match d.location with
  | some s => writesFrom s 0 cs
  | none => []

def accepts (d : Descriptor) (b : Bank) (n : Nat) : Bool :=
  match d.regType? with
  | some t => t.kind == .of b && n ≤ t.components
  | none => false

def put (d : Descriptor) (b : Bank) (xs : List b.Content) : List Write :=
  if d.accepts b xs.length then d.writes (xs.map (Cell.mk b)) else []

/-- The number of components that the bits of the type leave room for. -/
def width (d : Descriptor) : Nat :=
  if d.type &&& Modifier.triple.bits ≠ 0 then 3
  else if d.type &&& Modifier.pair.bits ≠ 0 then 2
  else 1

def give (d : Descriptor) (b : Bank) (cs : List Cell) : List Write :=
  if d.type &&& RegType.bankMask = b.tag then d.writes (cs.take d.width) else []

def details (d : Descriptor) (location : String) : String :=
  let type := match d.regType? with
    | some t => t.text
    | none => "?" ++ toString d.type.toNat
  "VmReturn(" ++ type ++ " @ " ++ location ++ ")"

end Descriptor

end CallProtocol
