import Redeclare.Text.Numeral

/-!
# Double precision numbers

Numbers of the IEEE format binary64, as far as a data format needs them: the
double nearest to a ratio, products and quotients, and the shortest decimal
numeral that reads back as the same double.  All arithmetic is exact
arithmetic on natural numbers, rounded once at the end.
-/

namespace Redeclare.Text

/-- A double: `significand * 2 ^ exponent` with a sign, an infinity, or not a number. -/
inductive Binary64 where
  | finite (negative : Bool) (significand : Nat) (exponent : Int)
  | infinite (negative : Bool)
  | nan
  deriving DecidableEq

namespace Binary64

/-- Zero with a sign. -/
def zero (negative : Bool) : Binary64 :=
  .finite negative 0 0

/-- The quotient of two naturals rounded to the nearest integer, ties to even. -/
def roundDiv (num den : Nat) : Nat :=
  let q := num / den
  let r := num % den
  if 2 * r < den then q
  else if den < 2 * r then q + 1
  else if q % 2 = 0 then q else q + 1

/-- `num / (den * 2 ^ e)` as a ratio of naturals. -/
private def scaled (num den : Nat) (e : Int) : Nat × Nat :=
  if 0 ≤ e then (num, den * Nat.pow 2 e.toNat) else (num * Nat.pow 2 (-e).toNat, den)

/-- The double nearest to `num / den`, ties to even; infinite when that is out of range. -/
def ofRatio (negative : Bool) (num den : Nat) : Binary64 :=
  if num = 0 then zero negative
  else
    let guess : Int := (Nat.log2 num : Int) - (Nat.log2 den : Int) - 52
    let (n, d) := scaled num den guess
    -- the quotient of two numbers has the bits of its logarithms, or one less
    let e := max (if n < 0x10000000000000 * d then guess - 1 else guess) (-1074)
    let (n, d) := scaled num den e
    let m := roundDiv n d
    let (m, e) := if m = 0x20000000000000 then (0x10000000000000, e + 1) else (m, e)
    if 971 < e then .infinite negative
    else if m = 0 then zero negative
    else .finite negative m e

/-- The double nearest to `digits * 10 ^ exponent`.  `count` is the number of decimal digits of
`digits`; far outside the range of doubles the power is not computed. -/
def ofDecimal (negative : Bool) (digits count : Nat) (exponent : Int) : Binary64 :=
  if digits = 0 then zero negative
  else if 400 < exponent then .infinite negative
  else if exponent < -400 - (count : Int) then zero negative
  else if 0 ≤ exponent then ofRatio negative (digits * Nat.pow 10 exponent.toNat) 1
  else ofRatio negative digits (Nat.pow 10 (-exponent).toNat)

/-- A finite double times or divided by a positive power of ten that is itself rounded first. -/
def scaleByPower (x : Binary64) (power : Nat) (up : Bool) : Binary64 :=
  match x, ofRatio false (Nat.pow 10 power) 1 with
  | .finite s m e, .finite _ p q =>
    let shift := if up then e + q else e - q
    let num := if up then m * p else m
    let den := if up then 1 else p
    if 0 ≤ shift then ofRatio s (num * Nat.pow 2 shift.toNat) den
    else ofRatio s num (den * Nat.pow 2 (-shift).toNat)
  | x, _ => x

/-- The double of opposite sign. -/
def neg : Binary64 → Binary64
  | .finite s m e => .finite (!s) m e
  | .infinite s => .infinite (!s)
  | .nan => .nan

/-! ## The shortest numeral -/

/-- A ratio compared with another, both with positive denominators. -/
private def ratioLt (a b : Nat × Nat) : Bool :=
  a.1 * b.2 < b.1 * a.2

/-- `m * 2 ^ e` as a ratio. -/
private def ratio (m : Nat) (e : Int) : Nat × Nat :=
  if 0 ≤ e then (m * Nat.pow 2 e.toNat, 1) else (m, Nat.pow 2 (-e).toNat)

/-- `d * 10 ^ x` as a ratio. -/
private def decimalRatio (d : Nat) (x : Int) : Nat × Nat :=
  if 0 ≤ x then (d * Nat.pow 10 x.toNat, 1) else (d, Nat.pow 10 (-x).toNat)

/-- The grid point with exponent `x` that lies in the interval of reals rounding to
`m * 2 ^ e`, the nearer of two, an even one on a tie. -/
private def gridPoint? (m : Nat) (e : Int) (x : Int) : Option Nat :=
  let value := ratio m e
  let low := if m = 0x10000000000000 ∧ -1074 < e then ratio (4 * m - 1) (e - 2) else ratio (2 * m - 1) (e - 1)
  let high := ratio (2 * m + 1) (e - 1)
  let inside (d : Nat) : Bool :=
    let p := decimalRatio d x
    if m % 2 = 0 then !ratioLt p low && !ratioLt high p else ratioLt low p && ratioLt p high
  let unit := decimalRatio 1 x
  let d := value.1 * unit.2 / (value.2 * unit.1)
  match inside d && d != 0, inside (d + 1) with
  | true, false => some d
  | false, true => some (d + 1)
  | false, false => none
  | true, true =>
    -- the distances to `d` and to `d + 1`, over the common denominator
    let below := value.1 * unit.2 - d * (value.2 * unit.1)
    let above := (d + 1) * (value.2 * unit.1) - value.1 * unit.2
    if below < above then some d
    else if above < below then some (d + 1)
    else if d % 2 = 0 then some d else some (d + 1)

/-- The number of decimal digits before the point of a ratio of at least one, or minus the zeros
after the point of a smaller one: the `k` with `10 ^ (k - 1) ≤ value < 10 ^ k`. -/
private def decimalMagnitude (value : Nat × Nat) : Int :=
  if value.2 ≤ value.1 then
    ((Nat.toDigits 10 (value.1 / value.2)).length : Int)
  else
    -- the least power of ten that lifts the value to one or more
    let up := (Nat.toDigits 10 ((value.2 - 1) / value.1)).length
    1 - (up : Int)

/-- Tries the grids of one, two, ... digits below a magnitude. -/
private def firstGrid (m : Nat) (e magnitude : Int) : Nat → Nat → Nat × Int
  | 0, _ => (m, e)
  | fuel + 1, count =>
    let x := magnitude - (count : Int)
    match gridPoint? m e x with
    | some d => (d, x)
    | none => firstGrid m e magnitude fuel (count + 1)

/-- The decimal digits and exponent with the fewest digits that read back as `m * 2 ^ e`, the
nearest of those; trailing zeros are moved into the exponent. -/
def shortest (m : Nat) (e : Int) : List Char × Int :=
  let (d, x) := firstGrid m e (decimalMagnitude (ratio m e)) 18 1
  let digits := Nat.toDigits 10 d
  let kept := (digits.reverse.dropWhile (· = '0')).reverse
  (kept, x + ((digits.length - kept.length : Nat) : Int))

/-- The digits with a point: as many zeros as the place of the point asks for. -/
def positional (digits : List Char) (x : Int) : List Char :=
  if 0 ≤ x then digits ++ List.replicate x.toNat '0' ++ ['.', '0']
  else
    let places := (-x).toNat
    if places < digits.length then
      digits.take (digits.length - places) ++ '.' :: digits.drop (digits.length - places)
    else '0' :: '.' :: List.replicate (places - digits.length) '0' ++ digits

/-- The digits with an exponent behind them. -/
def scientific (digits : List Char) (x : Int) : List Char :=
  let point := (digits.length : Int) + x - 1
  let exponent := 'e' :: (toString point).toList
  match digits with
  | [] => ['0']
  | [d] => d :: exponent
  | d :: ds => d :: '.' :: ds ++ exponent

/-- How a format spells a number: when a finite one is written without an exponent (given the
place of the point counted from the first digit, and the exponent), and whether a whole number
shows a fraction. -/
structure Spelling where
  isPositional : Int → Int → Bool
  keepsFraction : Bool

/-- Without an exponent at any size, and `.0` behind whole numbers. -/
def Spelling.plain : Spelling := ⟨fun _ _ => true, true⟩

/-- Without an exponent at any size; whole numbers have no fraction. -/
def Spelling.bare : Spelling := ⟨fun _ _ => true, false⟩

/-- Without an exponent from five zeros behind the point to sixteen digits before it. -/
def Spelling.compact : Spelling := ⟨fun point _ => -5 < point && point ≤ 16, true⟩

/-- The text of a double. -/
def write (spelling : Spelling) : Binary64 → String
  | .nan => "NaN"
  | .infinite negative => if negative then "-inf" else "inf"
  | .finite negative m e =>
    let (digits, x) := if m = 0 then (['0'], 0) else shortest m e
    let body :=
      if spelling.isPositional ((digits.length : Int) + x) x then
        if 0 ≤ x && !spelling.keepsFraction then digits ++ List.replicate x.toNat '0'
        else positional digits x
      else scientific digits x
    String.ofList (if negative then '-' :: body else body)

end Binary64

end Redeclare.Text
