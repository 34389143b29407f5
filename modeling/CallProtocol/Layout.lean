import CallProtocol.Kind

/-!
# Frame layouts

A layout says how many registers of each bank a frame has and how many outgoing
parameters and return descriptors it has room for. It is packed into two 64-bit
words, the register counts into one and the capacities into the other, from the
low bits up, so that code can carry it as two immediates.
-/

namespace CallProtocol

structure RegisterCounts where
  ints : UInt16 := 0
  floats : UInt16 := 0
  strings : UInt16 := 0
  pointers : UInt16 := 0
  deriving DecidableEq

def RegisterCounts.get (r : RegisterCounts) : Bank → UInt16
  | .int => r.ints
  | .float => r.floats
  | .string => r.strings
  | .pointer => r.pointers

structure FrameLayout where
  registers : RegisterCounts := {}
  /-- The capacity of the outgoing parameter array. -/
  params : UInt32 := 0
  /-- The capacity of the return descriptor array. -/
  returns : UInt32 := 0
  deriving DecidableEq

namespace FrameLayout

def pack (l : FrameLayout) : UInt64 × UInt64 :=
  (l.registers.ints.toUInt64 ||| (l.registers.floats.toUInt64 <<< 16) |||
      (l.registers.strings.toUInt64 <<< 32) ||| (l.registers.pointers.toUInt64 <<< 48),
    l.params.toUInt64 ||| (l.returns.toUInt64 <<< 32))

def unpack (w : UInt64 × UInt64) : FrameLayout where
  registers :=
    ⟨w.1.toUInt16, (w.1 >>> 16).toUInt16, (w.1 >>> 32).toUInt16, (w.1 >>> 48).toUInt16⟩
  params := w.2.toUInt32
  returns := (w.2 >>> 32).toUInt32

/-- The packed layout as code carries it: its immediates are signed. -/
def immediates (l : FrameLayout) : Int64 × Int64 := (l.pack.1.toInt64, l.pack.2.toInt64)

def ofImmediates (w : Int64 × Int64) : FrameLayout := unpack (w.1.toUInt64, w.2.toUInt64)

end FrameLayout

end CallProtocol
