import CallProtocol.Kind

/-!
# Signatures of compiled code

The shapes of the routines on both sides of the call boundary: the entry of a
compiled function and the helpers that compiled code calls. Addresses have the
word type of the target, all counts and result codes are 32-bit ints.
-/

namespace CallProtocol

inductive MachineType where
  | i8
  | i32
  | i64
  | f64
  deriving DecidableEq

def MachineType.name : MachineType → String
  | i8 => "i8"
  | i32 => "i32"
  | i64 => "i64"
  | f64 => "f64"

structure Signature where
  params : List MachineType
  returns : List MachineType
  deriving DecidableEq

inductive Routine where
  /-- The entry of a script function. Native calls have the same shape. -/
  | entry
  | pushFrame
  | popFrame
  | unwindFrame
  | nullCallee
  | stringAssign
  deriving DecidableEq

namespace Routine

def all : List Routine := [entry, pushFrame, popFrame, unwindFrame, nullCallee, stringAssign]

def name : Routine → String
  | entry => "script_entry"
  | pushFrame => "push_frame"
  | popFrame => "pop_frame"
  | unwindFrame => "unwind_frame"
  | nullCallee => "null_callee"
  | stringAssign => "string_assign"

/-- The signature of a routine on a target whose addresses have type `word`. An
entry takes the context, the callee, the parameters and their number, and the
return descriptors and their number. A frame is pushed for a callee and its
parameters, with the layout packed in two words. -/
def signature (word : MachineType) : Routine → Signature
  | entry => ⟨[word, word, word, .i32, word, .i32], [.i32]⟩
  | pushFrame => ⟨[word, word, word, .i32, .i64, .i64], [word]⟩
  | popFrame => ⟨[word], []⟩
  | unwindFrame => ⟨[word, word], []⟩
  | nullCallee => ⟨[word], [.i32]⟩
  | stringAssign => ⟨[word, word], []⟩

end Routine

def Bank.machineType? (word : MachineType) : Bank → Option MachineType
  | .int => some .i32
  | .float => some .f64
  | .string => none
  | .pointer => some word

end CallProtocol
