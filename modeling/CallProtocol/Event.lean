import CallProtocol.Abort
import CallProtocol.Layout

/-!
# Events

What the machine and the engine report while they work.
-/

namespace CallProtocol

inductive Level where
  | debug
  | warn
  | error
  deriving DecidableEq

def Level.name : Level → String
  | debug => "DEBUG"
  | warn => "WARN"
  | error => "ERROR"

inductive Event where
  | compiled (function : String) (instructions callSites : Nat) (layout : FrameLayout)
  | replacingPending (previous : Abort)
  | hostAbort (kind : AbortKind) (message : String)
  | frameUnderflow
  | unwoundWithoutAbort (function : String)
  deriving DecidableEq

def RegisterCounts.details (r : RegisterCounts) : String :=
  Text.fields "RegisterCounts"
    [("ints", toString r.ints.toNat), ("floats", toString r.floats.toNat),
      ("strings", toString r.strings.toNat), ("pointers", toString r.pointers.toNat)]

def FrameLayout.details (l : FrameLayout) : String :=
  Text.fields "FrameLayout"
    [("registers", l.registers.details), ("params", toString l.params.toNat),
      ("returns", toString l.returns.toNat)]

namespace Event

def level : Event → Level
  | compiled _ _ _ _ => .debug
  | replacingPending _ => .debug
  | hostAbort _ _ => .warn
  | frameUnderflow => .error
  | unwoundWithoutAbort _ => .error

def message : Event → String
  | compiled _ _ _ _ => "compiled"
  | replacingPending _ => "replacing pending abort"
  | hostAbort _ message => message
  | frameUnderflow => "frame stack underflow"
  | unwoundWithoutAbort _ => "unwinding without a pending abort"

def details : Event → List (String × String)
  | compiled function instructions callSites layout =>
    [("function", function), ("instructions", toString instructions),
      ("call_sites", toString callSites), ("layout", layout.details)]
  | replacingPending previous => [("previous", previous.text)]
  | hostAbort kind _ => [("kind", kind.words)]
  | frameUnderflow => []
  | unwoundWithoutAbort function => [("function", function)]

end Event

end CallProtocol
