/-!
# Banks and kinds

The machine keeps its registers in four banks. A value is of the kind of one of
the banks, or it is nil. A kind is therefore a bank or nil, and the statements
about registers quantify over banks without a case for nil.

Every kind has a tag byte. `Kind.ofTag?` reads exactly the tags that
`Kind.tag` writes.
-/

namespace CallProtocol

inductive Bank where
  | int
  | float
  | string
  | pointer
  deriving DecidableEq

inductive Kind where
  | of (bank : Bank)
  | nil
  deriving DecidableEq

namespace Bank

def all : List Bank := [.int, .float, .string, .pointer]

theorem mem_all (b : Bank) : b ∈ all := by
  cases b <;> decide

def name : Bank → String
  | int => "int"
  | float => "float"
  | string => "string"
  | pointer => "pointer"

def tag : Bank → UInt8
  | int => 0
  | float => 1
  | string => 2
  | pointer => 3

def ofTag? (t : UInt8) : Option Bank :=
  all.find? (·.tag == t)

@[simp] theorem ofTag?_tag (b : Bank) : ofTag? b.tag = some b := by
  cases b <;> rfl

/-- Int, float and pointer registers are held outside the frame while a body
runs. String registers stay in the frame. -/
def isCached : Bank → Bool
  | string => false
  | _ => true

end Bank

namespace Kind

def name : Kind → String
  | of b => b.name
  | nil => "nil"

def tag : Kind → UInt8
  | of b => b.tag
  | nil => 128

def ofTag? (t : UInt8) : Option Kind :=
  if t = nil.tag then some nil else (Bank.ofTag? t).map of

def bank? : Kind → Option Bank
  | of b => some b
  | nil => none

@[simp] theorem bank?_of (b : Bank) : (of b).bank? = some b := rfl

@[simp] theorem bank?_nil : nil.bank? = none := rfl

@[simp] theorem ofTag?_tag (k : Kind) : ofTag? k.tag = some k := by
  rcases k with (_ | _ | _ | _) | _ <;> rfl

end Kind

end CallProtocol
