import CallProtocol.Toml.Reader

/-!
# TOML numbers and dates

Readers that recognise integers, floats and dates. An integer has to fit into 64
bits with a sign. A float that is too large for a double is refused if it is
positive. A date has to exist in the calendar.
-/

namespace CallProtocol.Toml

open Reader

def isDigit (c : Char) : Bool := '0' ≤ c && c ≤ '9'

def digitValue (c : Char) : Nat :=
  if isDigit c then c.toNat - '0'.toNat
  else if 'a' ≤ c && c ≤ 'f' then c.toNat - 'a'.toNat + 10
  else c.toNat - 'A'.toNat + 10

def isDigitOf (base : Nat) (c : Char) : Bool :=
  (isDigit c || ('a' ≤ c && c ≤ 'f') || ('A' ≤ c && c ≤ 'F')) && digitValue c < base

def numberOf (base : Nat) (ds : List Char) : Nat :=
  ds.foldl (fun n c => n * base + digitValue c) 0

def digits (base : Nat) : Reader (List Char) :=
  separated (do let _ ← Reader.optional (char '_')) (satisfy (isDigitOf base))

def sign : Reader Bool := do
  match ← Reader.optional (satisfy fun c => c == '+' || c == '-') with
  | some c => return c == '-'
  | none => return false

def decimal : Reader (Bool × List Char) := do
  let negative ← sign
  let ds ← digits 10
  if ds.length > 1 && ds.head? == some '0' then failure
  return (negative, ds)

def based (letter : Char) (base : Nat) : Reader Unit := do
  chars ['0', letter]
  let ds ← digits base
  if numberOf base ds < Nat.pow 2 63 then return () else failure

def integer : Reader Unit :=
  based 'x' 16 <|> based 'o' 8 <|> based 'b' 2 <|> do
    let (negative, ds) ← decimal
    let n := numberOf 10 ds
    if n < Nat.pow 2 63 || (negative && n == Nat.pow 2 63) then return () else failure

/-- The decimal `n * 10 ^ e` is rounded to infinity as a double. The first tests
keep the powers of ten small. -/
def overflowsDouble (n : Nat) (e : Int) : Bool :=
  let length := (Nat.toDigits 10 n).length
  if n = 0 || length + e < 300 then false
  else if length + e > 320 then true
  else n * Nat.pow 10 e.toNat ≥ (Nat.pow 2 1024 - Nat.pow 2 970) * Nat.pow 10 (-e).toNat

def exponent : Reader Int := do
  let _ ← satisfy fun c => c == 'e' || c == 'E'
  let negative ← sign
  let n := numberOf 10 (← digits 10)
  return if negative then -n else n

def ordinaryFloat : Reader Unit := do
  let (negative, whole) ← decimal
  let fraction ← Reader.optional do
    char '.'
    digits 10
  let power ← match fraction with
    | some _ => Reader.optional exponent
    | none => some <$> exponent
  let fraction := fraction.getD []
  let e := power.getD 0 - fraction.length
  if !negative && overflowsDouble (numberOf 10 (whole ++ fraction)) e then failure
  return ()

def specialFloat : Reader Unit := do
  let _ ← sign
  chars ['i', 'n', 'f'] <|> chars ['n', 'a', 'n']

def float : Reader Unit := ordinaryFloat <|> specialFloat

def fixed : Nat → Reader Nat
  | 0 => pure 0
  | count + 1 => do
    let c ← satisfy isDigit
    let rest ← fixed count
    return digitValue c * Nat.pow 10 count + rest

def daysIn (year month : Nat) : Nat :=
  if month = 2 then
    if year % 4 = 0 && (year % 100 ≠ 0 || year % 400 = 0) then 29 else 28
  else if month = 4 || month = 6 || month = 9 || month = 11 then 30
  else 31

def date : Reader Unit := do
  let year ← fixed 4
  char '-'
  let month ← guarded (fun m => 1 ≤ m && m ≤ 12) (fixed 2)
  char '-'
  let _ ← guarded (fun d => 1 ≤ d && d ≤ daysIn year month) (fixed 2)

def hourMinute : Reader Unit := do
  let _ ← guarded (· ≤ 23) (fixed 2)
  char ':'
  let _ ← guarded (· ≤ 59) (fixed 2)

def time : Reader Unit := do
  hourMinute
  char ':'
  let _ ← guarded (· ≤ 60) (fixed 2)
  let _ ← Reader.optional do
    char '.'
    let _ ← satisfy isDigit
    takeWhile isDigit

def offset : Reader Unit := do
  let c ← satisfy fun c => c == 'Z' || c == 'z' || c == '+' || c == '-'
  if c == '+' || c == '-' then hourMinute

def datetime : Reader Unit :=
  (do
    date
    let _ ← Reader.optional do
      let _ ← satisfy fun c => c == 'T' || c == 't' || c == ' '
      time
      Reader.optional offset) <|> time

end CallProtocol.Toml
