import CallProtocol.RegType
import CallProtocol.Text.Hex

/-!
# Planning errors

What can be wrong with the instructions of a body, and where.
-/

namespace CallProtocol

/-- A violation of the call protocol or of the bounds of an operand. -/
inductive PlanFault where
  | argCountMismatch (staged declared : Nat)
  | resultMustFollowCall
  | constantResult
  | strayResult
  | unknownRegType (bits : UInt8)
  | unsupportedParam (type : RegType)
  | unsupportedResult (type : RegType)
  | unsupportedReturn (type : RegType)
  | registerOutOfRange (bank : Bank) (reg : Nat) (count : UInt16)
  | constantOutOfRange (bank : Bank) (index : Nat)
  | calleeNotFunction (index : Nat)
  deriving DecidableEq

structure PlanError where
  pc : Nat
  fault : PlanFault
  deriving DecidableEq

namespace PlanFault

def name : PlanFault → String
  | argCountMismatch _ _ => "ArgCountMismatch"
  | resultMustFollowCall => "ResultMustFollowCall"
  | constantResult => "ConstantResult"
  | strayResult => "StrayResult"
  | unknownRegType _ => "UnknownRegType"
  | unsupportedParam _ => "UnsupportedParam"
  | unsupportedResult _ => "UnsupportedResult"
  | unsupportedReturn _ => "UnsupportedReturn"
  | registerOutOfRange _ _ _ => "RegisterOutOfRange"
  | constantOutOfRange _ _ => "ConstantOutOfRange"
  | calleeNotFunction _ => "CalleeNotFunction"

def words : PlanFault → String
  | argCountMismatch staged declared =>
    "argument count does not match preceding parameter instructions (" ++ toString staged
      ++ " staged, " ++ toString declared ++ " declared)"
  | resultMustFollowCall => "result type must follow call"
  | constantResult => "result must not be a compile-time constant"
  | strayResult => "RESULT without a preceding call"
  | unknownRegType bits => "unrecognized register type 0x" ++ Text.hexPadded 2 bits.toNat
  | unsupportedParam t => "unsupported parameter type " ++ t.text
  | unsupportedResult t => "unsupported result type " ++ t.text
  | unsupportedReturn t => "unsupported return type " ++ t.text
  | registerOutOfRange b reg count =>
    b.name ++ " register " ++ toString reg ++ " out of range (" ++ toString count.toNat
      ++ " registers)"
  | constantOutOfRange b index => b.name ++ " constant " ++ toString index ++ " out of range"
  | calleeNotFunction index => "pointer constant " ++ toString index ++ " is not a function"

end PlanFault

def PlanError.message (e : PlanError) : String :=
  "pc " ++ toString e.pc ++ ": " ++ e.fault.words

end CallProtocol
