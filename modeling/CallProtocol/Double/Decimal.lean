import CallProtocol.Double

/-!
# The shortest decimal of a double

A finite double is `m * 2 ^ q`. Every real number closer to it than to its
neighbours rounds to it; the ends of this interval count when `m` is even. The
decimal chosen for the double has the fewest digits among those in the interval.

For each digit count the two decimals next to the double are tried, the first
count with a hit wins, and of two hits the nearer one is taken, the upper one if
both are equally near. All of this is exact arithmetic on natural numbers: the
double and the ends of its interval are fractions over one denominator.

`DecimalStyle` holds what is left to the format that uses the digits.
-/

namespace CallProtocol

namespace Double

def significand (x : Double) : Nat :=
  if x.exponentField = 0 then x.fractionField else x.fractionField + 0x10000000000000

def scale (x : Double) : Nat := x.exponentField - 1

structure Interval where
  low : Nat
  mid : Nat
  high : Nat
  den : Nat
  closed : Bool

/-- The interval of a finite double. Below a power of two the gap to the next
smaller double is half as wide as the gap above, unless the double is the
smallest normal one. -/
def interval (x : Double) : Interval :=
  let m := x.significand
  let unit := Nat.pow 2 x.scale
  let below := if x.fractionField = 0 ∧ 1 < x.exponentField then 1 else 2
  ⟨(4 * m - below) * unit, 4 * m * unit, (4 * m + 2) * unit, Nat.pow 2 1076, m % 2 == 0⟩

def Interval.contains (i : Interval) (k n : Nat) : Bool :=
  if i.closed then i.low * k ≤ n && n ≤ i.high * k else i.low * k < n && n < i.high * k

structure Decimal where
  digits : Nat
  exponent : Int
  deriving DecidableEq

def Interval.onGrid (i : Interval) (e : Int) : Option Decimal :=
  let k := Nat.pow 10 (-e).toNat
  let step := i.den * Nat.pow 10 e.toNat
  let target := i.mid * k
  let d := target / step
  let down := d * step
  let up := (d + 1) * step
  match i.contains k down, i.contains k up with
  | true, true => some ⟨if target - down < up - target then d else d + 1, e⟩
  | true, false => some ⟨d, e⟩
  | false, true => some ⟨d + 1, e⟩
  | false, false => none

def Interval.search (i : Interval) : Nat → Int → Decimal
  | 0, e => ⟨0, e⟩
  | fuel + 1, e =>
    match i.onGrid e with
    | some d => d
    | none => i.search fuel (e - 1)

/-- The shortest decimal of a positive double. The search begins at a power of
ten above every double and runs past the finest grid that can be needed. A hit
never ends in a zero, because it would lie on a coarser grid too. -/
def shortest (x : Double) : Decimal :=
  x.interval.search 700 309

end Double

structure DecimalStyle where
  /-- The exponents of the first digit that are written without a power of ten. -/
  positional : Int → Bool
  /-- What follows a number without fractional digits that is written without a
  power of ten. -/
  wholeEnding : String

namespace DecimalStyle

def layPositional (style : DecimalStyle) (digits : List Char) (point : Int) : String :=
  if point ≤ 0 then
    "0." ++ String.ofList (List.replicate (-point).toNat '0' ++ digits)
  else if digits.length ≤ point.toNat then
    String.ofList (digits ++ List.replicate (point.toNat - digits.length) '0') ++ style.wholeEnding
  else
    String.ofList (digits.take point.toNat) ++ "." ++ String.ofList (digits.drop point.toNat)

def layExponent (digits : List Char) (exponent : Int) : String :=
  let rest := digits.drop 1
  String.ofList (digits.take 1) ++ (if rest.isEmpty then "" else "." ++ String.ofList rest)
    ++ "e" ++ toString exponent

def magnitude (style : DecimalStyle) (x : Double) : String :=
  let d := x.shortest
  let digits := Nat.toDigits 10 d.digits
  let leading := d.exponent + digits.length - 1
  if style.positional leading then style.layPositional digits (leading + 1)
  else layExponent digits leading

def text (style : DecimalStyle) (x : Double) : String :=
  if x.isNaN then "NaN"
  else
    (if x.isNegative then "-" else "") ++
      (if x.isSpecial then "inf"
      else if x.significand = 0 then "0" ++ style.wholeEnding
      else style.magnitude x)

end DecimalStyle

end CallProtocol
