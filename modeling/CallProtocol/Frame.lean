import CallProtocol.Abort
import CallProtocol.Banks
import CallProtocol.Double.Decimal
import CallProtocol.Value

/-!
# Frames

A frame holds the registers of one activation. Its parameters are distributed to
the first registers of their banks, in order; nil takes no register. A parameter
with an unknown tag, or one too many for its bank, is refused.

A frame is known by its serial number. Frames never share one within a context.
-/

namespace CallProtocol

structure Frame where
  serial : Nat
  layout : FrameLayout
  registers : Banks
  deriving DecidableEq

inductive FillError where
  | invalidTag (index : Nat) (tag : UInt8)
  | tooMany (bank : Bank) (capacity : Nat)
  deriving DecidableEq

def FillError.abort : FillError → Abort
  | invalidTag index tag =>
    { kind := .badArgument
      message := "parameter " ++ toString index ++ " has invalid tag " ++ toString tag.toNat }
  | tooMany b capacity =>
    { kind := .tooManyParameters
      message :=
        "too many " ++ b.name ++ " parameters (" ++ toString capacity ++ " registers)" }

namespace Frame

def advance (next : Bank → Nat) (b : Bank) : Bank → Nat :=
  fun c => if c = b then next c + 1 else next c

/-- The registers after the parameters have been written, the first of which has
the given index. `next` is the first free register of each bank, and `text` reads
the texts of string parameters. -/
def fill (text : TextRef → Option String) :
    Nat → (Bank → Nat) → Banks → List Value → Except FillError Banks
  | _, _, r, [] => .ok r
  | index, next, r, v :: vs =>
    match v.kind? with
    | none => .error (.invalidTag index v.tag)
    | some .nil => fill text (index + 1) next r vs
    | some (.of b) =>
      if next b < r.size b then
        fill text (index + 1) (advance next b) (r.set b (next b) (v.contentFor text b)) vs
      else .error (.tooMany b (r.size b))

def ofParams (text : TextRef → Option String) (serial : Nat) (layout : FrameLayout)
    (params : List Value) : Except FillError Frame :=
  (fill text 0 (fun _ => 0) (.blank layout.registers) params).map fun r => ⟨serial, layout, r⟩

/-- Floats of a frame keep a fractional digit, and are written with a power of
ten below a ten-thousandth and from ten to the sixteenth on. -/
def floatStyle : DecimalStyle where
  positional e := -4 ≤ e && e < 16
  wholeEnding := ".0"

def details (f : Frame) : String :=
  Text.fields "VmFrame"
    [("ints", Text.items (f.registers.ints.map fun i => toString i.toInt)),
      ("floats", Text.items (f.registers.floats.map floatStyle.text)),
      ("strings", Text.items (f.registers.strings.map Text.quoted)),
      ("pointers", toString f.registers.pointers.length),
      ("params", toString f.layout.params.toNat),
      ("returns", toString f.layout.returns.toNat)]

end Frame

/-- Floats of a tagged value are written without a power of ten, and whole
numbers without a point. -/
def Value.floatStyle : DecimalStyle where
  positional _ := true
  wholeEnding := ""

def Value.details (pointer : Pointer → String) : Value → String
  | int i => Text.applied "Int" (toString i.toInt)
  | float x => Text.applied "Float" (floatStyle.text x)
  | string _ => "String"
  | .pointer p => Text.applied "Pointer" (pointer p)
  | nil => "Nil"
  | invalid t => Text.applied "Invalid" ("tag=" ++ toString t.toNat)

end CallProtocol
