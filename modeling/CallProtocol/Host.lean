import CallProtocol.Arguments
import CallProtocol.Descriptor

/-!
# Host functions

What a host function does during one invocation is a tree. Each node is one
request to the machine, and what follows may depend on the answer. A leaf says
how the invocation ends: with a count of return values, with an abort, or with a
panic.

A host function reaches the machine through these requests only. It can read its
arguments, use the setters of its return descriptors, and read and write the
slots whose addresses it was given.
-/

namespace CallProtocol

inductive LogEntry where
  /-- A native looked at its call. -/
  | native (index : Nat) (length : Nat) (args : List (Option Arg)) (types : List (Option RegType))
  | entry (f : FuncRef) (args : List (Option Arg))

inductive Host where
  | finish (count : Int32)
  | abort (a : Abort)
  | panic (p : Panic)
  | put (slot : Nat) (bank : Bank) (values : List bank.Content) (next : Host)
  | arg (index : Nat) (next : Option Arg → Host)
  | load (s : Slot) (next : s.bank.Content → Host)
  | store (s : Slot) (value : s.bank.Content) (next : Host)
  | note (entry : LogEntry) (next : Host)

structure Invocation where
  /-- The number of invocations of the same function before. -/
  earlier : Nat
  params : Nat
  defaults : Nat
  returns : List (Option RegType)

namespace Host

def want (i : Nat) (b : Bank) (next : b.Content → Host) : Host :=
  .arg i fun got =>
    match Arguments.want i b got with
    | .ok x => next x
    | .error a => .abort a

def args : List Nat → (List (Option Arg) → Host) → Host
  | [], next => next []
  | i :: is, next => .arg i fun a => args is fun as => next (a :: as)

end Host

end CallProtocol
