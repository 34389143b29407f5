import CallProtocol.Machine
import CallProtocol.Program

/-!
# Running compiled code

An activation of compiled code keeps its int, float and pointer registers in
variables of its own. The slots of its frame are another copy, which other code
can reach: a slot is brought up to date when its address is an argument of a call
that is about to be made, and a variable is brought up to date from its slot
after the call if its address was an argument or if it receives a result. String
registers have no variable and are always in the frame.

A callee answers a result code: the number of values it returned, or a negative
code if an abort is pending. On a negative code an activation gives up its frame,
adds its name to the abort and hands the code on.

A body has no jumps, so it runs by recursion on its steps. What bounds a run is
the nesting of entries. `Program.enter` takes that bound and has no outcome when
it is reached. It also has none where the machine leaves the behaviour open: for
a call through a pointer that is neither null nor a function, for a call of a
function without an entry, and for a parameter that is staged past the end of the
outgoing array.
-/

namespace CallProtocol

def unwoundCode : Int32 := -1

/-- What a caller hands to a callee. The number of return values that the caller
wants is told apart from the descriptors, since a caller outside of compiled code
may want fewer of them than there are. -/
structure Handover where
  params : List Value
  returns : List Descriptor
  wanted : Int32

namespace Handover

def visibleReturns (h : Handover) : List Descriptor := h.returns.take h.wanted.toInt.toNat

end Handover

abbrev Invoke := FuncRef → Handover → Machine → Option (Int32 × Machine)

/-- An activation of compiled code. -/
structure Activation where
  proto : Prototype
  name : String
  /-- The serial number of its frame. -/
  frame : Nat
  /-- The registers that are held outside of the frame. -/
  locals : Banks
  /-- The outgoing parameter array. -/
  outgoing : List Value
  /-- What its own caller handed to it. -/
  handover : Handover

namespace Activation

def start (code : Code) (name : String) (h : Handover) (f : Frame) : Activation where
  proto := code.proto
  name
  frame := f.serial
  locals := f.registers
  outgoing := List.replicate code.plan.layout.params.toNat .nil
  handover := h

def slot (a : Activation) (b : Bank) (r : Nat) : Slot := ⟨.frame a.frame, b, r⟩

def read (a : Activation) (m : Machine) (b : Bank) (r : Nat) : b.Content :=
  if b.isCached then a.locals.get b r else m.load (a.slot b r)

def regCell (a : Activation) (m : Machine) (b : Bank) (r : Nat) : Cell := ⟨b, a.read m b r⟩

def cell? (a : Activation) (m : Machine) : Source → Option Cell
  | .nil => none
  | .reg b r => some (a.regCell m b r)
  | .const b k => some ⟨b, a.proto.constants.get b k⟩
  | .imm v => some (.int v)
  | .address b r => some (.pointer (.slot (a.slot b r)))

def assign (a : Activation) (m : Machine) (b : Bank) (r : Nat) (x : b.Content) :
    Activation × Machine :=
  if b.isCached then ({ a with locals := a.locals.set b r x }, m)
  else (a, m.store (a.slot b r) ⟨b, x⟩)

def plain (a : Activation) (m : Machine) : PlainOp → Activation × Machine
  | .nop => (a, m)
  | .assign b r source =>
    match (a.cell? m source).bind (·.as? b) with
    | some x => a.assign m b r x
    | none => (a, m)
  | .addInts r x y =>
    a.assign m .int r ((a.read m .int x : Int32) + (a.read m .int y : Int32) : Int32)
  | .addFloats r x y =>
    a.assign m .float r ((a.read m .float x : Double) + (a.read m .float y : Double) : Double)

/-- The value that is staged for a source. A string register is staged by
reference. -/
def stagedValue (a : Activation) (m : Machine) (s : Source) : Value :=
  match s with
  | .reg .string r => .string (.register a.frame r)
  | s =>
    match a.cell? m s with
    | some c => .ofCell c
    | none => .nil

def stage (a : Activation) (m : Machine) : Nat → List Staged → Activation
  | _, [] => a
  | slot, p :: ps =>
    { a with outgoing := a.outgoing.set slot (a.stagedValue m p.source) }.stage m (slot + 1) ps

def hasRoom (a : Activation) (slot : Nat) (params : List Staged) : Bool :=
  slot + params.length ≤ a.outgoing.length

/-- The registers that the address of a register covers. A callee may take the
address of a float for that of a vector, so up to two more floats go with it. -/
def covered (a : Activation) (b : Bank) (r : Nat) : List (Bank × Nat) :=
  match b with
  | .float =>
    ((List.range' r 3).filter (· < a.proto.registers.floats.toNat)).map fun i => (.float, i)
  | b => [(b, r)]

/-- The registers that a call passes by address. -/
def inOuts (a : Activation) (c : CallSite) : List (Bank × Nat) :=
  c.inOuts.flatMap fun p => a.covered p.1 p.2

def resultRegs (c : CallSite) : List (Bank × Nat) :=
  c.results.flatMap fun s => (List.range s.width).map fun k => (s.bank, s.reg + k)

def flush (a : Activation) (m : Machine) (regs : List (Bank × Nat)) : Machine :=
  regs.foldl (fun m p => m.store (a.slot p.1 p.2) ⟨p.1, a.locals.get p.1 p.2⟩) m

def refresh (a : Activation) (m : Machine) (regs : List (Bank × Nat)) : Activation :=
  regs.foldl
    (fun a p =>
      if p.1.isCached then
        { a with locals := a.locals.set p.1 p.2 (m.load (a.slot p.1 p.2)) }
      else a)
    a

def descriptor (a : Activation) (s : ResultSpec) : Descriptor where
  location := some (a.slot s.bank s.reg)
  type := s.type.bits

/-- What a call hands to its callee. A tail call passes on what the activation
was handed for its return values. -/
def handoverFor (a : Activation) (c : CallSite) : Handover :=
  let params := (a.outgoing.drop c.window.start).take c.window.params.length
  match c.kind with
  | .call => ⟨params, c.results.map a.descriptor, Int32.ofNat c.results.length⟩
  | .tail => { a.handover with params }

def returnCells (a : Activation) (m : Machine) (r : ReturnSite) : List Cell :=
  match r.source with
  | .reg b i => (List.range r.width).map fun k => a.regCell m b (i + k)
  | s => (a.cell? m s).toList

def wants (a : Activation) (slot : Nat) : Bool := (slot : Int) < a.handover.wanted.toInt

def giveBack (a : Activation) (m : Machine) (r : ReturnSite) : Machine :=
  if a.wants r.slot then
    match a.handover.returns[r.slot]? with
    | some d => m.write (d.give r.bank (a.returnCells m r))
    | none => m
  else m

/-- The result code of a return that leaves the body: the number of values up to
its slot, as far as they are wanted. -/
def finalCode (a : Activation) (r : ReturnSite) : Int32 :=
  Int32.ofInt (min ((r.slot : Int) + 1) a.handover.wanted.toInt)

end Activation

namespace Program

def invocation (p : Program) (i : Nat) (params : List Value) (returns : List Descriptor)
    (m : Machine) : Invocation where
  earlier := m.invoked.count i
  params := params.length
  defaults := (p.native i).defaults.length
  returns := returns.map (·.regType?)

def beforeNative (i : Nat) (m : Machine) : Machine :=
  { m with clock := m.clock.pause, invoked := m.invoked ++ [i] }

def runNative (p : Program) (i : Nat) (params : List Value) (returns : List Descriptor)
    (m : Machine) : Except Abort Int32 × Machine :=
  (beforeNative i m).runHost ⟨params, (p.native i).defaults⟩ returns
    ((p.native i).behaviour (p.invocation i params returns m))

/-- Call a native. It runs with the clock stopped. A count below zero counts as
none, and an abort is reported and gets the name of the native. A script is no
native and is refused. -/
def callNative (p : Program) (f : FuncRef) (params : List Value) (returns : List Descriptor)
    (m : Machine) : Except Abort Int32 × Machine :=
  match f with
  | .script i =>
    (.error
      { kind := .badArgument, message := (p.script i).name ++ " is not a native function" }, m)
  | .native i =>
    let (outcome, ended) := p.runNative i params returns m
    let resumed := { ended with clock := m.clock.restore ended.clock }
    match outcome with
    | .ok count => (.ok (max count 0), resumed)
    | .error a =>
      let (a, reported) := resumed.reportAbort a
      (.error (a.through (p.native i).name), reported)

def nativeCall (p : Program) (f : FuncRef) (h : Handover) (m : Machine) : Int32 × Machine :=
  match p.callNative f h.params h.visibleReturns m with
  | (.ok count, m) => (count, m)
  | (.error a, m) => (unwoundCode, m.raise a)

/-- A script called by compiled code is counted, whatever comes of it. -/
def scriptCall (invoke : Invoke) (f : FuncRef) (h : Handover) (m : Machine) :
    Option (Int32 × Machine) :=
  invoke f h { m with callCount := m.callCount + 1 }

def nullAbort : Abort :=
  { kind := .nullPointer, message := "call through a null function pointer" }

def nullCall (m : Machine) : Int32 × Machine := (unwoundCode, m.raise nullAbort)

/-- A call of a function through its address. Whether it is a native is seen when
the call is made. -/
def dynamicCall (p : Program) (invoke : Invoke) (callee : Pointer) (h : Handover) (m : Machine) :
    Option (Int32 × Machine) :=
  if callee.isNull then some (nullCall m)
  else
    match callee.function? with
    | some f => if f.isNative then some (p.nativeCall f h m) else scriptCall invoke f h m
    | none => none

/-- A call of a function of the constant pool. Whether it is a native is known
from the plan. -/
def staticCall (p : Program) (invoke : Invoke) (callee : Pointer) (native : Bool) (h : Handover)
    (m : Machine) : Option (Int32 × Machine) :=
  match callee.function? with
  | some f => if native then some (p.nativeCall f h m) else scriptCall invoke f h m
  | none => none

def dispatch (p : Program) (invoke : Invoke) (a : Activation) (c : CallSite) (m : Machine) :
    Option (Int32 × Machine) :=
  match c.callee with
  | .static k native =>
    p.staticCall invoke (a.proto.constants.get .pointer k) native (a.handoverFor c) m
  | .register r => p.dynamicCall invoke (a.read m .pointer r) (a.handoverFor c) m

/-- The remaining steps of a body. Falling off their end returns no values. -/
def runSteps (p : Program) (invoke : Invoke) :
    List Step → Activation → Machine → Option (Int32 × Machine)
  | [], _, m => some (0, m.pop)
  | .plain op :: rest, a, m => p.runSteps invoke rest (a.plain m op).1 (a.plain m op).2
  | .stage slot params :: rest, a, m =>
    if a.hasRoom slot params then p.runSteps invoke rest (a.stage m slot params) m else none
  | .result _ :: rest, a, m => p.runSteps invoke rest a m
  | .call c :: rest, a, m =>
    (p.dispatch invoke a c (a.flush m (a.inOuts c))).bind fun (code, m) =>
      if code < 0 then some (code, m.unwind a.name)
      else
        match c.kind with
        | .call => p.runSteps invoke rest (a.refresh m (a.inOuts c ++ Activation.resultRegs c)) m
        | .tail => some (code, m.pop)
  | .ret r :: rest, a, m =>
    if r.final then some (a.finalCode r, (a.giveBack m r).pop)
    else p.runSteps invoke rest a (a.giveBack m r)

/-- Run a compiled body for the function `name`. Without room for its parameters
there is no frame and nothing to unwind. -/
def runCode (p : Program) (invoke : Invoke) (code : Code) (name : String) (h : Handover)
    (m : Machine) : Option (Int32 × Machine) :=
  match m.push code.plan.layout h.params with
  | .error e => some (unwoundCode, m.raise (e.abort.through name))
  | .ok (f, m) => p.runSteps invoke code.plan.steps (.start code name h f) m

def stubAbort (name : String) : Abort :=
  Abort.through { kind := .notCompiled, message := name ++ " has not been compiled" } name

def runStub (name : String) (m : Machine) : Int32 × Machine :=
  (unwoundCode, m.raise (stubAbort name))

def noteEntry (f : FuncRef) (h : Handover) (m : Machine) : Machine :=
  { m with log := m.log ++ [.entry f (h.params.map (·.arg? m.text))] }

/-- An entry of the host notes its parameters before it does anything else. -/
def runHostEntry (e : HostEntry) (f : FuncRef) (h : Handover) (m : Machine) : Int32 × Machine :=
  let pushed := (noteEntry f h m).pushEmpties e.pushes
  let raised := match e.raises with
    | some a => pushed.raise a
    | none => pushed
  (e.result, raised)

def runEntry (p : Program) (invoke : Invoke) (e : Entry) (f : FuncRef) (name : String)
    (h : Handover) (m : Machine) : Option (Int32 × Machine) :=
  match e with
  | .stub => some (runStub name m)
  | .compiled code => p.runCode invoke code name h m
  | .host e => some (runHostEntry e f h m)

def enter (p : Program) : Nat → Invoke
  | 0 => fun _ _ _ => none
  | limit + 1 => fun f h m =>
    (p.head f).entry.bind fun e => p.runEntry (p.enter limit) e f (p.name f) h m

/-- The answer to a caller outside of compiled code, whose stack was `depth` deep.
The frames that an unwinding callee left behind are given up, and the pending
abort is the answer. -/
def settle (depth : Nat) (code : Int32) (ended : Machine) : Except Abort Int32 × Machine :=
  if code < 0 then
    let settled := ended.popTo depth
    (.error (settled.pending.getD
      { kind := .other, message := "call unwound without a pending abort" }),
      settled.clearPending)
  else (.ok code, ended)

def noEntryAbort (name : String) : Abort :=
  { kind := .notCompiled, message := name ++ " has no entry" }

def callScript (p : Program) (limit : Nat) (f : FuncRef) (params : List Value)
    (returns : List Descriptor) (m : Machine) : Option (Except Abort Int32 × Machine) :=
  match (p.head f).entry with
  | none => some (.error (noEntryAbort (p.name f)), m)
  | some _ =>
    (p.enter limit f ⟨params, returns, Int32.ofNat returns.length⟩ m).map fun (code, ended) =>
      settle m.depth code ended

/-- Call a function from outside of compiled code. The clock runs during the
call, and stops after it if it was not running before. -/
def call (p : Program) (limit : Nat) (f : FuncRef) (params : List Value)
    (returns : List Descriptor) (m : Machine) : Option (Except Abort Int32 × Machine) :=
  let started := { m with clock := m.clock.resume }
  let ended :=
    if f.isNative then some (p.callNative f params returns started)
    else p.callScript limit f params returns started
  ended.map fun (outcome, ended) =>
    (outcome, if m.clock.running then ended else { ended with clock := ended.clock.pause })

end Program

end CallProtocol
