import CallProtocol.Event
import CallProtocol.Program

/-!
# The engine

The engine compiles the scripts of a program: it plans a body and installs the
result as the entry of the function. It counts what it has compiled. A function
that cannot be compiled keeps the entry it has, and nothing is counted for it.
-/

namespace CallProtocol

structure EngineStats where
  functions : Nat := 0
  /-- All call sites, tail calls among them. -/
  callSites : Nat := 0
  tailSites : Nat := 0
  /-- The call sites whose callee is in a register. -/
  dynamicSites : Nat := 0
  deriving DecidableEq

inductive CompileError where
  | plan (e : PlanError)
  | notScript (name : String)
  deriving DecidableEq

namespace CompileError

def name : CompileError → String
  | plan e => e.fault.name
  | notScript _ => "NotScript"

def message : CompileError → String
  | plan e => e.message
  | notScript name => name ++ " is not a script function"

end CompileError

def EngineStats.add (s : EngineStats) (p : Plan) : EngineStats where
  functions := s.functions + 1
  callSites := s.callSites + p.calls.length
  tailSites := s.tailSites + p.calls.countP (·.kind = .tail)
  dynamicSites := s.dynamicSites + p.calls.countP (·.dispatch = .dynamic)

def Code.ofProto (p : Prototype) : Except PlanError Code :=
  match h : p.plan with
  | .ok plan => .ok ⟨p, plan, h⟩
  | .error e => .error e

/-- A program, what has been compiled of it, and the events reported meanwhile. -/
structure Engine where
  program : Program
  stats : EngineStats := {}
  events : List Event := []

namespace Engine

def codeFor (g : Engine) (f : FuncRef) : Except CompileError Code :=
  match f with
  | .script i => (Code.ofProto (g.program.script i).proto).mapError .plan
  | .native i => .error (.notScript (g.program.native i).name)

def plan (g : Engine) (f : FuncRef) : Except CompileError Plan := (g.codeFor f).map (·.plan)

def install (g : Engine) (f : FuncRef) (e : Option Entry) : Engine :=
  { g with program := g.program.setEntry f e }

def compile (g : Engine) (f : FuncRef) : Except CompileError Engine :=
  (g.codeFor f).map fun code =>
    { g.install f (some (.compiled code)) with
      stats := g.stats.add code.plan
      events := g.events ++
        [.compiled (g.program.name f) code.proto.code.length code.plan.calls.length
          code.plan.layout] }

/-- Compile the scripts among the functions, up to the first one that fails. The
answer is how many were compiled, if all of them were. -/
def compileAll (g : Engine) : List FuncRef → Except CompileError Nat × Engine
  | [] => (.ok 0, g)
  | f :: fs =>
    if f.isNative then g.compileAll fs
    else
      match g.compile f with
      | .ok g =>
        let (count, g) := g.compileAll fs
        (count.map (· + 1), g)
      | .error e => (.error e, g)

end Engine

end CallProtocol
