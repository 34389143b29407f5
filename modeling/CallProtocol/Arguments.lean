import CallProtocol.Abort
import CallProtocol.Value

/-!
# Arguments of a host function

A host function sees the parameters of its call, and past them the default
arguments of the function at the same index. It asks for an argument of a certain
kind and is aborted if there is none.
-/

namespace CallProtocol

inductive Arg where
  | nil
  | of (c : Cell)
  deriving DecidableEq

def Arg.kindName : Option Arg → String
  | none => "nothing"
  | some nil => "nil"
  | some (of c) => c.bank.name

structure Arguments where
  params : List Value
  defaults : List Cell := []

/-- A parameter as an argument. A record that is no value and a string without a
text are none. -/
def Value.arg? (text : TextRef → Option String) : Value → Option Arg
  | int i => some (.of (.int i))
  | float x => some (.of (.float x))
  | string t => (text t).map fun s => .of (.string s)
  | pointer p => some (.of (.pointer p))
  | nil => some .nil
  | invalid _ => none

namespace Arguments

def get? (text : TextRef → Option String) (a : Arguments) (i : Nat) : Option Arg :=
  match a.params[i]? with
  | some v => v.arg? text
  | none => (a.defaults[i]?).map .of

def mismatch (i : Nat) (wanted : Bank) (got : Option Arg) : Abort where
  kind := .badArgument
  message :=
    "argument " ++ toString i ++ ": expected " ++ wanted.name ++ ", got " ++ Arg.kindName got

def want (i : Nat) (b : Bank) (got : Option Arg) : Except Abort b.Content :=
  match got with
  | some (.of c) =>
    match c.as? b with
    | some x => .ok x
    | none => .error (mismatch i b got)
  | _ => .error (mismatch i b got)

end Arguments

end CallProtocol
