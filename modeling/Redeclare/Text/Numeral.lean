/-!
# Numerals

Digits of the bases 2 to 16 as characters: reading a whole text as a numeral,
and writing the four hexadecimal digits of a 16-bit word.
-/

namespace Redeclare.Text

/-- The value of a digit of base 16; letters of either case. -/
def digitValue? (c : Char) : Option Nat :=
  let n := c.toNat
  if 48 ≤ n ∧ n ≤ 57 then some (n - 48)
  else if 97 ≤ n ∧ n ≤ 102 then some (n - 87)
  else if 65 ≤ n ∧ n ≤ 70 then some (n - 55)
  else none

/-- Reads the digits of a numeral after a value read so far. -/
def readDigits (base : Nat) : Nat → List Char → Option Nat
  | value, [] => some value
  | value, c :: cs =>
    match digitValue? c with
    | some digit => if digit < base then readDigits base (value * base + digit) cs else none
    | none => none

/-- The value of a text that consists of at least one digit of the base and nothing else. -/
def readNumeral (base : Nat) : List Char → Option Nat
  | [] => none
  | cs => readDigits base 0 cs

/-- One decimal digit. -/
def isDecimalDigit (c : Char) : Bool :=
  '0' ≤ c && c ≤ '9'

/-- The lower-case digit of a value below 16. -/
def hexDigit (n : Nat) : Char :=
  if n < 10 then Char.ofNat (48 + n) else Char.ofNat (87 + n)

/-- The upper-case digit of a value below 16. -/
def hexDigitUpper (n : Nat) : Char :=
  if n < 10 then Char.ofNat (48 + n) else Char.ofNat (55 + n)

/-- The lowest `width` digits of a number in base 16, most significant first. -/
def hexFixed (digit : Nat → Char) : Nat → Nat → List Char
  | 0, _ => []
  | width + 1, n => digit (n / Nat.pow 16 width % 16) :: hexFixed digit width n

/-- A numeral has as many digits as were asked for. -/
@[simp] theorem length_hexFixed (digit : Nat → Char) (width n : Nat) :
    (hexFixed digit width n).length = width := by
  induction width with
  | zero => rfl
  | succ width ih => simp [hexFixed, ih]

/-- The digit of a value below 16 reads back as that value. -/
theorem digitValue?_hexDigit {n : Nat} (h : n < 16) : digitValue? (hexDigit n) = some n := by
  decide +revert

end Redeclare.Text
