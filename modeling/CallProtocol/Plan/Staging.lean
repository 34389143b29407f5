import CallProtocol.Plan.Error
import CallProtocol.Plan.Source

/-!
# The staging buffer

Parameters that have been staged and wait for their call. The place of an entry
is also its slot in the outgoing parameter array. A call takes the entries that
were staged last, so the buffer is a stack and the entries of a call are
adjacent. The buffer remembers how long it has ever been.
-/

namespace CallProtocol

structure Staging where
  entries : List Staged := []
  highWater : Nat := 0
  deriving DecidableEq

structure Window where
  start : Nat
  params : List Staged
  deriving DecidableEq

namespace Staging

def push (s : Staging) (p : Staged) : Staging where
  entries := s.entries ++ [p]
  highWater := max s.highWater (s.entries.length + 1)

def pushAll (s : Staging) (ps : List Staged) : Staging := ps.foldl push s

/-- The last `count` entries and the buffer without them. The call at `pc` fails
if there are fewer. -/
def take (s : Staging) (pc count : Nat) : Except PlanError (Window × Staging) :=
  if count ≤ s.entries.length then
    let start := s.entries.length - count
    .ok (⟨start, s.entries.drop start⟩, { s with entries := s.entries.take start })
  else .error ⟨pc, .argCountMismatch s.entries.length count⟩

@[simp] theorem entries_push (s : Staging) (p : Staged) :
    (s.push p).entries = s.entries ++ [p] := rfl

@[simp] theorem highWater_push (s : Staging) (p : Staged) :
    (s.push p).highWater = max s.highWater (s.entries.length + 1) := rfl

@[simp] theorem pushAll_nil (s : Staging) : s.pushAll [] = s := rfl

theorem pushAll_cons (s : Staging) (p : Staged) (ps : List Staged) :
    s.pushAll (p :: ps) = (s.push p).pushAll ps := rfl

@[simp] theorem entries_pushAll (s : Staging) (ps : List Staged) :
    (s.pushAll ps).entries = s.entries ++ ps := by
  induction ps generalizing s with
  | nil => simp
  | cons p ps ih => simp [pushAll_cons, ih]

end Staging

end CallProtocol
