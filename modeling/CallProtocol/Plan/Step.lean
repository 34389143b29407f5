import CallProtocol.Layout
import CallProtocol.Plan.Staging

/-!
# Plans

A plan has one step for every instruction of a body. A step says what the
instruction does in terms of registers, constants and parameter slots; the
instruction itself is not looked at again when the body runs.

Beside the steps, a plan records after each instruction which parameters are
staged and which results are still expected, and it gives the layout of the
body's frame.
-/

namespace CallProtocol

inductive PlainOp where
  | nop
  | assign (bank : Bank) (reg : Nat) (source : Source)
  | addInts (reg left right : Nat)
  | addFloats (reg left right : Nat)
  deriving DecidableEq

structure ResultSpec where
  pc : Nat
  type : RegType
  bank : Bank
  reg : Nat
  deriving DecidableEq

def ResultSpec.width (r : ResultSpec) : Nat := r.type.components

/-- A call returns to the body, a tail call leaves it. -/
inductive CallKind where
  | call
  | tail
  deriving DecidableEq

inductive Callee where
  /-- A function of the pointer constants. -/
  | static (index : Nat) (native : Bool)
  /-- The function whose address is in a pointer register. -/
  | register (index : Nat)
  deriving DecidableEq

inductive Dispatch where
  | script
  | native
  | dynamic
  deriving DecidableEq

structure CallSite where
  pc : Nat
  kind : CallKind
  callee : Callee
  /-- The parameters it takes and the slot of the first one. -/
  window : Window
  /-- Where its results land. A tail call has none of its own. -/
  results : List ResultSpec
  deriving DecidableEq

structure ReturnSite where
  slot : Nat
  /-- The return leaves the body. -/
  final : Bool
  source : Source
  /-- The number of float components. -/
  width : Nat
  bank : Bank
  type : RegType
  deriving DecidableEq

inductive Step where
  | plain (op : PlainOp)
  /-- Stage parameters in the slots from `slot` on. -/
  | stage (slot : Nat) (params : List Staged)
  | call (site : CallSite)
  | result (spec : ResultSpec)
  | ret (site : ReturnSite)
  deriving DecidableEq

structure Snapshot where
  staged : List Staged
  pending : List ResultSpec
  deriving DecidableEq

structure Plan where
  steps : List Step
  layout : FrameLayout
  states : List Snapshot
  deriving DecidableEq

namespace CallSite

def dispatch (c : CallSite) : Dispatch :=
  match c.callee with
  | .static _ true => .native
  | .static _ false => .script
  | .register _ => .dynamic

/-- The registers whose frame slots are passed by address. A string register is
not among them, since it has no value outside of its slot. -/
def inOuts (c : CallSite) : List (Bank × Nat) :=
  c.window.params.filterMap fun p =>
    match p.source with
    | .address b r => if b.isCached then some (b, r) else none
    | _ => none

end CallSite

def Plan.calls (p : Plan) : List CallSite :=
  p.steps.filterMap fun
    | .call c => some c
    | _ => none

end CallProtocol
