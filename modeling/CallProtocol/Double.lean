/-!
# Doubles

A float of the machine is a 64-bit pattern in the binary interchange format. The
machine moves patterns around unchanged, so they are kept as bits, which also
gives decidable equality. Only addition and multiplication interpret them.
-/

namespace CallProtocol

structure Double where
  bits : UInt64
  deriving DecidableEq

namespace Double

def zero : Double := ⟨0⟩

instance : Inhabited Double := ⟨zero⟩

instance : Add Double := ⟨fun x y => ⟨(Float.ofBits x.bits + Float.ofBits y.bits).toBits⟩⟩

instance : Mul Double := ⟨fun x y => ⟨(Float.ofBits x.bits * Float.ofBits y.bits).toBits⟩⟩

def isNegative (x : Double) : Bool := x.bits >>> 63 != 0

def exponentField (x : Double) : Nat := ((x.bits >>> 52) &&& 0x7FF).toNat

def fractionField (x : Double) : Nat := (x.bits &&& 0xFFFFFFFFFFFFF).toNat

def isSpecial (x : Double) : Bool := x.exponentField == 0x7FF

def isNaN (x : Double) : Bool := x.isSpecial && x.fractionField != 0

end Double

end CallProtocol
