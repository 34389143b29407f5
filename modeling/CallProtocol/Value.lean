import CallProtocol.Cell
import CallProtocol.RegType

/-!
# Tagged values

A parameter travels as a record of a payload and a tag byte. Ints, floats and
pointers are in the payload. A string is carried by reference: the record points
at a string register of some frame, at a constant, or nowhere, and whoever reads
it finds the text that is there at that time.

A record built from raw bytes may have a tag that is no kind.
-/

namespace CallProtocol

inductive TextRef where
  | null
  | text (s : String)
  | register (frame reg : Nat)
  deriving DecidableEq

inductive Value where
  | int (i : Int32)
  | float (x : Double)
  | string (t : TextRef)
  | pointer (p : Pointer)
  | nil
  | invalid (tag : UInt8)
  deriving DecidableEq

namespace Value

/-- The kind of a value. A record with an unknown tag has none. -/
def kind? : Value → Option Kind
  | int _ => some (.of .int)
  | float _ => some (.of .float)
  | string _ => some (.of .string)
  | pointer _ => some (.of .pointer)
  | nil => some .nil
  | invalid _ => none

def tag : Value → UInt8
  | int _ => Bank.int.tag
  | float _ => Bank.float.tag
  | string _ => Bank.string.tag
  | pointer _ => Bank.pointer.tag
  | nil => Kind.nil.tag
  | invalid t => t

def ofCell : Cell → Value
  | ⟨.int, i⟩ => int i
  | ⟨.float, x⟩ => float x
  | ⟨.string, s⟩ => string (.text s)
  | ⟨.pointer, p⟩ => pointer p

/-- The value of a record with the given tag and payload. An int is the low half
of the payload. A string made this way has no text to refer to. -/
def ofRecord (tag : UInt8) (payload : UInt64) : Value :=
  match Kind.ofTag? tag with
  | some (.of .int) => int payload.toUInt32.toInt32
  | some (.of .float) => float ⟨payload⟩
  | some (.of .string) => string .null
  | some (.of .pointer) => pointer (.address payload)
  | some .nil => nil
  | none => invalid tag

def int? : Value → Option Int32
  | int i => some i
  | _ => none

def float? : Value → Option Double
  | float x => some x
  | _ => none

def pointer? : Value → Option Pointer
  | pointer p => some p
  | _ => none

def textRef? : Value → Option TextRef
  | string t => some t
  | _ => none

/-- The content that a value gives to a register of bank `b`, where `text` reads
the texts that strings refer to. A value of another kind and a string without a
text give the blank content. -/
def contentFor (text : TextRef → Option String) (v : Value) : (b : Bank) → b.Content
  | .int => v.int?.getD (Bank.blank .int)
  | .float => v.float?.getD (Bank.blank .float)
  | .string =>
    (v.textRef?.bind text).getD (Bank.blank .string)
  | .pointer => v.pointer?.getD (Bank.blank .pointer)

@[simp] theorem kind?_ofCell (c : Cell) : (ofCell c).kind? = some (.of c.bank) := by
  rcases c with ⟨_ | _ | _ | _, _⟩ <;> rfl

end Value

end CallProtocol
