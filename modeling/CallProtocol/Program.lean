import CallProtocol.Host
import CallProtocol.Plan.Build

/-!
# Programs

A program is a table of functions. A script has a body of instructions, a native
is implemented by the host. Either may have an entry, the code that runs when the
function is called as a script: the stub it begins with, compiled code, or an
entry that the host has installed.

Compiled code is a prototype together with its plan, so there is none for a body
that cannot be planned. Entries are looked up when a function is called, not when
its caller is compiled.
-/

namespace CallProtocol

structure Code where
  proto : Prototype
  plan : Plan
  planned : proto.plan = .ok plan

/-- An entry that the host has installed: it pushes empty frames, raises an abort
if it has one, and answers a fixed result. -/
structure HostEntry where
  pushes : Nat := 0
  raises : Option Abort := none
  result : Int32

inductive Entry where
  /-- Reports that the function has not been compiled. -/
  | stub
  | compiled (code : Code)
  | host (h : HostEntry)

structure FunctionHead where
  name : String
  defaults : List Cell := []
  entry : Option Entry := none

structure Script extends FunctionHead where
  proto : Prototype := {}

structure Native extends FunctionHead where
  behaviour : Invocation → Host

structure Program where
  scripts : List Script := []
  natives : List Native := []

def HostEntry.needsContext (h : HostEntry) : Bool := 0 < h.pushes || h.raises.isSome

namespace Entry

def isCompiled : Entry → Bool
  | stub => false
  | _ => true

end Entry

namespace FunctionHead

def isCompiled (h : FunctionHead) : Bool :=
  match h.entry with
  | some e => e.isCompiled
  | none => false

def details (h : FunctionHead) (native : Bool) : String :=
  Text.fields "VmFunction"
    [("name", Text.quoted h.name), ("native", Text.bool native),
      ("compiled", Text.bool h.isCompiled)]

end FunctionHead

namespace Program

/-- A script of the program. A number past its scripts stands for a nameless
script without entry. -/
def script (p : Program) (i : Nat) : Script := p.scripts.getD i { name := "" }

/-- A native of the program. A number past its natives stands for a nameless
native that does nothing. -/
def native (p : Program) (i : Nat) : Native :=
  p.natives.getD i { name := "", behaviour := fun _ => .finish 0 }

def head (p : Program) : FuncRef → FunctionHead
  | .script i => (p.script i).toFunctionHead
  | .native i => (p.native i).toFunctionHead

def name (p : Program) (f : FuncRef) : String := (p.head f).name

def setEntry (p : Program) (f : FuncRef) (e : Option Entry) : Program :=
  match f with
  | .script i => { p with scripts := p.scripts.modify i fun s => { s with entry := e } }
  | .native i => { p with natives := p.natives.modify i fun n => { n with entry := e } }

end Program

end CallProtocol
