import CallProtocol.Double
import CallProtocol.Pointer

/-!
# Cells

The content of a register depends on its bank. A cell is a content together with
its bank, so that contents of all banks can be in one list.

A slot that is written with a cell of its own bank holds the content of that
cell. A float or pointer slot may also be written with a cell of another bank
whose bits fit into it: its bits are then replaced from the low end.
-/

namespace CallProtocol

abbrev Bank.Content : Bank → Type
  | .int => Int32
  | .float => Double
  | .string => String
  | .pointer => Pointer

namespace Bank

def blank : (b : Bank) → b.Content
  | .int => (0 : Int32)
  | .float => Double.zero
  | .string => ""
  | .pointer => Pointer.null

instance (b : Bank) : Inhabited b.Content := ⟨b.blank⟩

instance : (b : Bank) → DecidableEq b.Content
  | .int => inferInstanceAs (DecidableEq Int32)
  | .float => inferInstanceAs (DecidableEq Double)
  | .string => inferInstanceAs (DecidableEq String)
  | .pointer => inferInstanceAs (DecidableEq Pointer)

end Bank

structure Cell where
  bank : Bank
  content : bank.Content
  deriving DecidableEq

namespace Cell

def int (i : Int32) : Cell := ⟨.int, i⟩

def float (x : Double) : Cell := ⟨.float, x⟩

def string (s : String) : Cell := ⟨.string, s⟩

def pointer (p : Pointer) : Cell := ⟨.pointer, p⟩

def as? (c : Cell) (b : Bank) : Option b.Content :=
  if h : c.bank = b then some (h ▸ c.content) else none

@[simp] theorem as?_self (b : Bank) (x : b.Content) : (Cell.mk b x).as? b = some x := by
  simp [as?]

theorem as?_eq_none (c : Cell) (b : Bank) (h : c.bank ≠ b) : c.as? b = none := by
  simp [as?, h]

/-- The number of low bits that a cell has of its own, and these bits. Texts and
the addresses of slots and functions are no numbers. -/
def bits? : Cell → Option (UInt64 × UInt64)
  | ⟨.int, i⟩ => some (0xFFFFFFFF, Int32.toUInt32 i |>.toUInt64)
  | ⟨.float, x⟩ => some (0xFFFFFFFFFFFFFFFF, Double.bits x)
  | ⟨.pointer, .address a⟩ => some (0xFFFFFFFFFFFFFFFF, a)
  | _ => none

def blend (old mask new : UInt64) : UInt64 := (old &&& ~~~mask) ||| (new &&& mask)

/-- What a slot of bank `b` that holds `old` holds after the cell is written to
it. -/
def overlay (b : Bank) (old : b.Content) (c : Cell) : b.Content :=
  match c.as? b with
  | some x => x
  | none =>
    match b, old, c.bits? with
    | .float, old, some (mask, new) => (⟨blend (Double.bits old) mask new⟩ : Double)
    | .pointer, .address old, some (mask, new) => Pointer.address (blend old mask new)
    | _, old, _ => old

@[simp] theorem overlay_self (b : Bank) (old x : b.Content) : overlay b old ⟨b, x⟩ = x := by
  simp [overlay]

end Cell

end CallProtocol
