/-!
# Readers

A reader takes a value off the front of a list of characters, or refuses it. A
choice between two readers tries the second one where the first one began.
Repetition is bounded by the characters that are left, since each round takes at
least one of them wherever it is used.
-/

namespace CallProtocol.Toml

abbrev Reader (α : Type) := StateT (List Char) Option α

namespace Reader

def peek : Reader (Option Char) := fun cs => some (cs.head?, cs)

def satisfy (p : Char → Bool) : Reader Char
  | c :: cs => if p c then some (c, cs) else none
  | [] => none

def char (c : Char) : Reader Unit := do
  let _ ← satisfy (· == c)

def chars : List Char → Reader Unit
  | [] => pure ()
  | c :: cs => do
    char c
    chars cs

def takeWhile (p : Char → Bool) : Reader (List Char) := fun cs => some (cs.span p)

def eof : Reader Unit
  | [] => some ((), [])
  | _ :: _ => none

def optional {α : Type} (r : Reader α) : Reader (Option α) := fun cs =>
  match r cs with
  | some (x, rest) => some (some x, rest)
  | none => some (none, cs)

def manyUpTo {α : Type} (r : Reader α) : Nat → Reader (List α)
  | 0, cs => some ([], cs)
  | bound + 1, cs =>
    match r cs with
    | some (x, rest) => (manyUpTo r bound rest).map fun p => (x :: p.1, p.2)
    | none => some ([], cs)

def many {α : Type} (r : Reader α) : Reader (List α) := fun cs => manyUpTo r cs.length cs

def separated {α : Type} (sep : Reader Unit) (r : Reader α) : Reader (List α) := do
  let x ← r
  let xs ← many do
    sep
    r
  return x :: xs

def guarded {α : Type} (p : α → Bool) (r : Reader α) : Reader α := do
  let x ← r
  if p x then return x else failure

end Reader

end CallProtocol.Toml
