import CallProtocol.Clock
import CallProtocol.Event
import CallProtocol.Frame
import CallProtocol.Host

/-!
# The machine

All state that running code can change. The first fields are the execution
context: its stack of frames, its counters, its clock and the abort that is
pending. The others belong to the host: the storage behind the return
descriptors of the outermost call, which natives have been invoked, and the log.
Events are recorded in the order in which they are reported.

Slots are found through their owner. Reading a slot of a frame that is gone gives
the blank content, writing it changes nothing.
-/

namespace CallProtocol

structure FrameStats where
  pushed : Nat := 0
  popped : Nat := 0
  maxDepth : Nat := 0
  deriving DecidableEq

def FrameStats.details (s : FrameStats) : String :=
  Text.fields "FrameStats"
    [("pushed", toString s.pushed), ("popped", toString s.popped),
      ("max_depth", toString s.maxDepth)]

structure Machine where
  /-- The stack of frames, the innermost one first. -/
  frames : List Frame := []
  /-- The number of calls of scripts from compiled code. -/
  callCount : Nat := 0
  clock : Clock := {}
  /-- The abort on its way up. -/
  pending : Option Abort := none
  stats : FrameStats := {}
  /-- The storage behind the return descriptors of the outermost call. -/
  outputs : List Banks := []
  /-- The natives that have been invoked, in order. -/
  invoked : List Nat := []
  log : List LogEntry := []
  events : List Event := []

namespace Machine

def depth (m : Machine) : Nat := m.frames.length

def registers? (m : Machine) : Owner → Option Banks
  | .frame serial => (m.frames.find? (·.serial == serial)).map (·.registers)
  | .output i => m.outputs[i]?

def modifyRegisters (m : Machine) (f : Banks → Banks) : Owner → Machine
  | .frame serial =>
    { m with
      frames := m.frames.map fun x =>
        if x.serial = serial then { x with registers := f x.registers } else x }
  | .output i => { m with outputs := m.outputs.modify i f }

def load (m : Machine) (s : Slot) : s.bank.Content :=
  match m.registers? s.owner with
  | some r => r.get s.bank s.reg
  | none => s.bank.blank

def store (m : Machine) (s : Slot) (c : Cell) : Machine :=
  m.modifyRegisters (fun r => r.set s.bank s.reg (Cell.overlay s.bank (r.get s.bank s.reg) c))
    s.owner

def write (m : Machine) (ws : List Write) : Machine :=
  ws.foldl (fun m w => m.store w.slot w.cell) m

def text (m : Machine) : TextRef → Option String
  | .null => none
  | .text s => some s
  | .register serial r => some (m.load ⟨.frame serial, .string, r⟩)

def report (m : Machine) (e : Event) : Machine := { m with events := m.events ++ [e] }

def raise (m : Machine) (a : Abort) : Machine :=
  let m := match m.pending with
    | some previous => m.report (.replacingPending previous)
    | none => m
  { m with pending := some a }

def clearPending (m : Machine) : Machine := { m with pending := none }

/-- The message of an abort is reported when it first leaves host code. -/
def reportAbort (m : Machine) (a : Abort) : Abort × Machine :=
  if a.printed then (a, m) else (a.report, m.report (.hostAbort a.kind a.message))

/-- The machine with one more frame, which holds the given parameters. The number
of frames pushed so far is the serial number of the new one. -/
def push (m : Machine) (layout : FrameLayout) (params : List Value) :
    Except FillError (Frame × Machine) := do
  let f ← Frame.ofParams m.text m.stats.pushed layout params
  return (f, { m with
    frames := f :: m.frames
    stats := { m.stats with
      pushed := m.stats.pushed + 1
      maxDepth := max m.stats.maxDepth (m.frames.length + 1) } })

def pushEmpty (m : Machine) : Machine :=
  match m.push {} [] with
  | .ok (_, m) => m
  | .error _ => m

def pushEmpties (n : Nat) (m : Machine) : Machine := n.repeat pushEmpty m

def pop (m : Machine) : Machine :=
  match m.frames with
  | [] => m.report .frameUnderflow
  | _ :: fs => { m with frames := fs, stats := { m.stats with popped := m.stats.popped + 1 } }

def popTo (m : Machine) (depth : Nat) : Machine :=
  let surplus := m.frames.length - depth
  { m with
    frames := m.frames.drop surplus
    stats := { m.stats with popped := m.stats.popped + surplus } }

def orphanAbort (name : String) : Abort :=
  { kind := .other, message := name ++ ": callee unwound without an abort" }

def unwind (m : Machine) (name : String) : Machine :=
  let m := m.pop
  match m.pending with
  | some a => m.clearPending.raise (a.through name)
  | none => (m.report (.unwoundWithoutAbort name)).raise (orphanAbort name)

def withNewContext (m : Machine) : Machine :=
  { outputs := m.outputs, invoked := m.invoked, log := m.log, events := m.events }

def contextDetails (m : Machine) : String :=
  Text.fields "ExecContext"
    [("call_count", toString m.callCount), ("depth", toString m.depth),
      ("pending", Text.optional (m.pending.map Abort.details)), ("stats", m.stats.details)]

/-- What a host function does on the machine. A return slot that does not exist
is a panic. -/
def runHost (args : Arguments) (returns : List Descriptor) :
    Host → Machine → Except Abort Int32 × Machine
  | .finish n, m => (.ok n, m)
  | .abort a, m => (.error a, m)
  | .panic p, m => (.error p.abort, m)
  | .put slot b xs next, m =>
    match returns[slot]? with
    | some d => runHost args returns next (m.write (d.put b xs))
    | none =>
      (.error (Panic.abort (.text ("index out of bounds: the len is " ++ toString returns.length
        ++ " but the index is " ++ toString slot))), m)
  | .arg i next, m => runHost args returns (next (args.get? m.text i)) m
  | .load s next, m => runHost args returns (next (m.load s)) m
  | .store s x next, m => runHost args returns next (m.store s ⟨s.bank, x⟩)
  | .note e next, m => runHost args returns next { m with log := m.log ++ [e] }

end Machine

end CallProtocol
