import CanonicalAccess.Double.Basic

/-!
# Shortest decimal text of a double

A finite number is written with the fewest significant digits that read back as the same number; of
several such numerals the nearest is taken, and of two equally near ones the one with the even last
digit. The digits are chosen by exact arithmetic on natural numbers, and a record of layout
decisions says how they are set: where positional notation ends, and how an exponent is written.
-/

set_option autoImplicit false

namespace CanonicalAccess.Double

def digitsOf (n : Nat) : List Char := Nat.toDigits 10 n

/-- Every real between two bounds, over a common denominator, the bounds included or not. -/
structure Interval where
  low : Nat
  high : Nat
  closed : Bool

def Interval.contains (i : Interval) (x : Nat) : Bool :=
  if i.closed then i.low ≤ x && x ≤ i.high else i.low < x && x < i.high

/-- The denominator over which a number of exponent `e` and its neighbours' midpoints are whole. -/
def denominator (e : Int) : Nat := 4 * Nat.pow 2 (-e).toNat

def numerator (m : Nat) (e : Int) : Nat := 4 * m * Nat.pow 2 e.toNat

/-- The reals that round to `m · 2 ^ e`: up to half the distance to each neighbour. Below a power
of two the neighbour is twice as near. The midpoints themselves round to the even mantissa. -/
def neighbourhood (m : Nat) (e : Int) : Interval :=
  let below := if m = Nat.pow 2 52 ∧ minExponent < e then 1 else 2
  ⟨(4 * m - below) * Nat.pow 2 e.toNat, (4 * m + 2) * Nat.pow 2 e.toNat, m % 2 == 0⟩

/-- The decimal exponent of the leading digit of `num / den`, which is not zero and not below
`10 ^ -350`. -/
def leadingExponent (num den : Nat) : Int :=
  (digitsOf (num * Nat.pow 10 350 / den)).length - 351

/-- The multiple of `10 ^ k` nearest to `num / den` among those in the interval, as a multiplier:
one of the two neighbours of `num / den` on that grid. -/
def onGrid (num den : Nat) (i : Interval) (k : Int) : Option Nat :=
  -- Everything is scaled by `10 ^ -k` where `k` is negative, and the grid step is a whole number.
  let up := Nat.pow 10 (-k).toNat
  let step := den * Nat.pow 10 k.toNat
  let x := num * up
  let wide : Interval := ⟨i.low * up, i.high * up, i.closed⟩
  let d := x / step
  let lower := wide.contains (d * step)
  let upper := wide.contains ((d + 1) * step)
  if lower && upper then
    let down := x - d * step
    let rise := (d + 1) * step - x
    some (if down < rise then d else if rise < down then d + 1 else if d % 2 = 0 then d else d + 1)
  else if lower then some d
  else if upper then some (d + 1)
  else none

/-- The first grid, from coarse to fine, on which some point reads back as the number: the
multiplier and the decimal exponent of that grid. Seventeen digits always suffice. -/
def shortestFrom (num den : Nat) (i : Interval) (lead : Int) : Nat → Option (Nat × Int)
  | 0 => none
  | fuel + 1 =>
    let k := lead - (16 - fuel)
    match onGrid num den i k with
    | some d => some (d, k)
    | none => shortestFrom num den i lead fuel

/-- The digits of a number without trailing zeros, and the power of ten its first digit stands
for. -/
structure Significand where
  digits : List Char
  exponent : Int
deriving DecidableEq, Repr

/-- The digits of `d`, without the zeros at their end. -/
def withoutTrailingZeros (d : Nat) : List Char :=
  ((digitsOf d).reverse.dropWhile (· == '0')).reverse

/-- The significand of `d · 10 ^ k`. -/
def Significand.ofScaled (d : Nat) (k : Int) : Significand :=
  ⟨withoutTrailingZeros d, (digitsOf d).length - 1 + k⟩

/-- The shortest significand of `m · 2 ^ e`; zero has the digit zero. -/
def significand (m : Nat) (e : Int) : Significand :=
  if m = 0 then ⟨['0'], 0⟩
  else
    let num := numerator m e
    let den := denominator e
    match shortestFrom num den (neighbourhood m e) (leadingExponent num den) 17 with
    | some (d, k) => .ofScaled d k
    | none => .ofScaled m 0

/-- How the digits of a number are set. -/
structure NumberLayout where
  /-- The smallest and the largest exponent of the leading digit that are written positionally. -/
  positionalFrom : Int
  positionalTo : Int
  /-- The least number of digits of a written exponent. -/
  exponentWidth : Nat
  infinity : String
  nan : String

/-- Numbers from `0.0001` up to below `10 ^ 16` are written positionally, with a fraction at all
times; others with a signed exponent of at least two digits. -/
def layout : NumberLayout := ⟨-4, 15, 2, "inf", "nan"⟩

/-- Digits with the point behind the one that stands for ones. -/
def positional (s : Significand) : List Char :=
  if s.exponent < 0 then
    '0' :: '.' :: (List.replicate (-s.exponent - 1).toNat '0' ++ s.digits)
  else
    let whole := (s.exponent + 1).toNat
    let front := s.digits.take whole
    let back := s.digits.drop whole
    let fraction := if back.isEmpty then ['0'] else back
    front ++ List.replicate (whole - front.length) '0' ++ '.' :: fraction

/-- Digits with the point behind the first one, where more follow, and an exponent. -/
def scientific (l : NumberLayout) (s : Significand) : List Char :=
  let mantissa :=
    match s.digits with
    | d :: rest@(_ :: _) => d :: '.' :: rest
    | ds => ds
  let power := digitsOf s.exponent.natAbs
  mantissa ++ 'e' :: (if s.exponent < 0 then '-' else '+') ::
    (List.replicate (l.exponentWidth - power.length) '0' ++ power)

def textIn (l : NumberLayout) : Double → String
  | nan _ => l.nan
  | infinity negative => (if negative then "-" else "") ++ l.infinity
  | finite negative m e =>
    let s := significand m e
    let body :=
      if l.positionalFrom ≤ s.exponent ∧ s.exponent ≤ l.positionalTo then positional s
      else scientific l s
    (if negative then "-" else "") ++ String.ofList body

def text (d : Double) : String := d.textIn layout

end CanonicalAccess.Double
