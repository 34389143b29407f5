import CallProtocol.Engine
import CallProtocol.Run

/-!
# Sessions

One engine and one machine that live through a sequence of operations. The
operations are those of an embedding program: it compiles functions, calls them
in three ways, pushes and pops frames, and raises and takes aborts.

Each call has return storage of its own. The entry of a function can be called
with counts of parameters and return values that differ from what is there, and
with null in place of the function, the context or one of the arrays.
-/

namespace CallProtocol

structure Session where
  engine : Engine
  machine : Machine := {}

structure ReturnBuffer where
  outputs : List Banks
  descriptors : List Descriptor

namespace ReturnBuffer

def output : Banks := .blank ⟨1, 3, 1, 1⟩

def descriptor (i : Nat) (t : RegType) : Descriptor where
  location := t.kind.bank?.map fun b => ⟨.output i, b, 0⟩
  type := t.bits

def ofTypes (ts : List RegType) : ReturnBuffer where
  outputs := ts.map fun _ => output
  descriptors := ts.mapIdx descriptor

def write (b : ReturnBuffer) (ws : List Write) : ReturnBuffer :=
  { b with outputs := (Machine.write { outputs := b.outputs } ws).outputs }

end ReturnBuffer

structure EntryCall where
  paramCount : Option Int32 := none
  returnCount : Option Int32 := none
  nullFunction : Bool := false
  nullContext : Bool := false
  nullParams : Bool := false
  nullReturns : Bool := false

/-- What an entry is handed. A count is that of what is there unless it is given,
and nothing is seen through a null array or a count below one. -/
def EntryCall.handover (c : EntryCall) (params : List Value) (returns : List Descriptor) :
    Handover where
  params :=
    if c.nullParams then []
    else params.take (c.paramCount.getD (Int32.ofNat params.length)).toInt.toNat
  returns := if c.nullReturns then [] else returns
  wanted := c.returnCount.getD (Int32.ofNat returns.length)

namespace Session

/-- A bound on the nesting of entries that no program should reach. -/
def nestingLimit : Nat := 1000000

def quiet (s : Session) : Session where
  engine := { s.engine with events := [] }
  machine := { s.machine with log := [], events := [] }

def events (s : Session) : List Event := s.engine.events ++ s.machine.events

def withReturns (s : Session) (ts : List RegType) : Machine :=
  { s.machine with outputs := (ReturnBuffer.ofTypes ts).outputs }

def call (s : Session) (f : FuncRef) (params : List Value) (types : List RegType) :
    Option (Except Abort Int32 × Machine) :=
  s.engine.program.call nestingLimit f params (ReturnBuffer.ofTypes types).descriptors
    (s.withReturns types)

def callNative (s : Session) (f : FuncRef) (params : List Value) (types : List RegType) :
    Except Abort Int32 × Machine :=
  s.engine.program.callNative f params (ReturnBuffer.ofTypes types).descriptors
    (s.withReturns types)

def nullName : String := "<null>"

/-- Call the entry of a function directly. There is no outcome if it has none.
Without a context, a stub answers that it failed and does nothing else, an entry
of the host runs if it needs no context, and compiled code is left open. -/
def callEntry (s : Session) (f : FuncRef) (c : EntryCall) (params : List Value)
    (types : List RegType) : Option (Int32 × Machine) :=
  let program := s.engine.program
  let m := s.withReturns types
  let h := c.handover params (ReturnBuffer.ofTypes types).descriptors
  let name := if c.nullFunction then nullName else program.name f
  match (program.head f).entry, c.nullContext with
  | none, _ => none
  | some e, false => program.runEntry (program.enter nestingLimit) e f name h m
  | some .stub, true => some (unwoundCode, m)
  | some (.host e), true => if e.needsContext then none else some (Program.runHostEntry e f h m)
  | some (.compiled _), true => none

def pushFrame (s : Session) (layout : FrameLayout) (params : List Value) :
    Except Abort (Frame × Machine) :=
  (s.machine.push layout params).mapError (·.abort)

end Session

end CallProtocol
