import CallProtocol.Kind

/-!
# Record layouts

The records that compiled code shares with the host have fixed layouts. Fields
follow each other in order, each at the next multiple of its alignment, and a
record is filled up to a multiple of its widest alignment.
-/

namespace CallProtocol

structure RecordField where
  size : Nat
  alignment : Nat

namespace RecordField

def word (size : Nat) : RecordField := ⟨size, size⟩

end RecordField

/-- The least multiple of `alignment` that is not below `n`. -/
def alignUp (alignment n : Nat) : Nat := (n + alignment - 1) / alignment * alignment

def fieldOffsetsFrom : Nat → List RecordField → List Nat
  | _, [] => []
  | start, f :: fs =>
    let offset := alignUp f.alignment start
    offset :: fieldOffsetsFrom (offset + f.size) fs

def fieldOffsets (fs : List RecordField) : List Nat := fieldOffsetsFrom 0 fs

def recordSize (fs : List RecordField) : Nat :=
  let stop := (((fieldOffsets fs).zip fs).map fun p => p.1 + p.2.size).foldl max 0
  alignUp ((fs.map (·.alignment)).foldl max 1) stop

def addressSize : Nat := 8

/-- The size of one register slot in a frame. A string slot holds the address
and the length of its text. -/
def Bank.slotSize : Bank → Nat
  | .int => 4
  | .float => 8
  | .string => 2 * addressSize
  | .pointer => addressSize

namespace RecordLayout

/-- A tagged value: payload and tag. -/
def value : List RecordField := [.word 8, .word 1]

/-- A return descriptor: location and register type. -/
def descriptor : List RecordField := [.word addressSize, .word 1]

/-- The head of a frame: the base addresses of the four banks, of the parameter
array and of the return descriptor array. -/
def frame : List RecordField := List.replicate 6 (.word addressSize)

/-- The head of a function: flags and script entry. -/
def function : List RecordField := [.word 4, .word addressSize]

/-- The head of a context: the call counter. -/
def context : List RecordField := [.word 8]

def bankOffset (b : Bank) : Nat := (fieldOffsets frame).getD (Bank.all.idxOf b) 0

end RecordLayout

end CallProtocol
