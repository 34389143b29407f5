import CallProtocol.Host

/-!
# Scripted host functions

Host functions that are given as lists of actions. An action sets a return value,
writes through a pointer argument, sets the count of return values, ends the
invocation, or notes the call in the log. A list of actions can depend on how
often the function has been invoked before.

Expressions are typed by the bank of their value. They are evaluated from left to
right, before the place their value goes to is looked at, and an argument that is
missing or of another kind aborts the invocation.
-/

namespace CallProtocol

inductive HostExpr : Bank → Type where
  | const (b : Bank) (x : b.Content) : HostExpr b
  | arg (b : Bank) (i : Nat) : HostExpr b
  /-- The content `k` slots after the one that argument `i` points to. -/
  | deref (b : Bank) (i k : Nat) : HostExpr b
  | paramCount : HostExpr .int
  | earlier : HostExpr .int
  | addInt (x y : HostExpr .int) : HostExpr .int
  | mulInt (x y : HostExpr .int) : HostExpr .int
  | addFloat (x y : HostExpr .float) : HostExpr .float
  | mulFloat (x y : HostExpr .float) : HostExpr .float
  | append (x y : HostExpr .string) : HostExpr .string

inductive HostAction where
  | put (slot : Nat) (b : Bank) (values : List (HostExpr b))
  /-- Write `k` slots after the one that argument `i` points to. -/
  | poke (b : Bank) (i k : Nat) (value : HostExpr b)
  | count (n : Int32)
  | abort (kind : AbortKind) (message : String)
  | panic (p : Panic)
  /-- The list for this invocation. The last one is for all further ones too. -/
  | select (lists : List (List HostAction))
  | log

namespace Host

def wantSlot (i : Nat) (next : Slot → Host) : Host :=
  want i .pointer fun p =>
    match (p : Pointer) with
    | .slot s => next s
    | p =>
      if p.isNull then
        .abort { kind := .nullPointer, message := "argument " ++ toString i ++ ": null" }
      else .abort { kind := .badArgument, message := "argument " ++ toString i ++ ": not a slot" }

def loadAs (s : Slot) (b : Bank) (next : b.Content → Host) : Host :=
  if h : s.bank = b then .load s fun x => next (h ▸ x) else next b.blank

def storeAs (s : Slot) (b : Bank) (x : b.Content) (next : Host) : Host :=
  if h : s.bank = b then .store s (h ▸ x) next else next

end Host

namespace HostExpr

def run (inv : Invocation) : {b : Bank} → HostExpr b → (b.Content → Host) → Host
  | _, const _ x, next => next x
  | _, arg b i, next => Host.want i b next
  | _, deref b i k, next => Host.wantSlot i fun s => Host.loadAs (s.offset k) b next
  | _, paramCount, next => next (Int32.ofNat inv.params)
  | _, earlier, next => next (Int32.ofNat inv.earlier)
  | _, addInt x y, next => x.run inv fun u => y.run inv fun v => next ((u : Int32) + (v : Int32))
  | _, mulInt x y, next => x.run inv fun u => y.run inv fun v => next ((u : Int32) * (v : Int32))
  | _, addFloat x y, next =>
    x.run inv fun u => y.run inv fun v => next ((u : Double) + (v : Double))
  | _, mulFloat x y, next =>
    x.run inv fun u => y.run inv fun v => next ((u : Double) * (v : Double))
  | _, append x y, next =>
    x.run inv fun u => y.run inv fun v => next ((u : String) ++ (v : String))

def runAll (inv : Invocation) {b : Bank} : List (HostExpr b) → (List b.Content → Host) → Host
  | [], next => next []
  | e :: es, next => e.run inv fun x => runAll inv es fun xs => next (x :: xs)

end HostExpr

namespace HostAction

mutual

def run (index : Nat) (inv : Invocation) : HostAction → Int32 → (Int32 → Host) → Host
  | put slot b values, n, next =>
    HostExpr.runAll inv values fun xs => .put slot b xs (next n)
  | poke b i k value, n, next =>
    value.run inv fun x => Host.wantSlot i fun s => Host.storeAs (s.offset k) b x (next n)
  | count n, _, next => next n
  | abort kind message, _, _ => .abort { kind, message }
  | panic p, _, _ => .panic p
  | select lists, n, next => runNth index inv lists inv.earlier n next
  | log, n, next =>
    Host.args (List.range (max inv.params inv.defaults + 1)) fun args =>
      .note (.native index inv.params args inv.returns) (next n)

def runList (index : Nat) (inv : Invocation) : List HostAction → Int32 → (Int32 → Host) → Host
  | [], n, next => next n
  | a :: as, n, next => run index inv a n fun n => runList index inv as n next

def runNth (index : Nat) (inv : Invocation) :
    List (List HostAction) → Nat → Int32 → (Int32 → Host) → Host
  | [], _, n, next => next n
  | [as], _, n, next => runList index inv as n next
  | as :: _ :: _, 0, n, next => runList index inv as n next
  | _ :: bs :: rest, k + 1, n, next => runNth index inv (bs :: rest) k n next

end

/-- The behaviour of native `index` that performs the actions in order. It
returns no values unless an action sets the count. -/
def behaviour (index : Nat) (actions : List HostAction) (inv : Invocation) : Host :=
  runList index inv actions 0 .finish

end HostAction

end CallProtocol
