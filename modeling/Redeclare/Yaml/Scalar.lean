import Redeclare.Value
import Redeclare.Text.Numeral

/-!
# Plain scalars

What a plain scalar of a YAML document is by its text: nothing, a truth value,
an integer, a number with a fraction or an exponent, or a text.  The same rules
tell the writer which texts need quotes.
-/

namespace Redeclare.Yaml

open Text

/-- The texts of nothing. -/
def isNull (s : String) : Bool :=
  s == "null" || s == "Null" || s == "NULL" || s == "~"

/-- The texts of truth values. -/
def bool? (s : String) : Option Bool :=
  if s == "true" || s == "True" || s == "TRUE" then some true
  else if s == "false" || s == "False" || s == "FALSE" then some false
  else none

/-- A text without one leading sign of a kind. -/
def dropSign (signs : List Char) : List Char → List Char
  | c :: cs => if signs.contains c then cs else c :: cs
  | [] => []

/-- Digits behind a leading zero, after an optional sign: a text, not a number. -/
def isZeroPadded (cs : List Char) : Bool :=
  match dropSign ['-', '+'] cs with
  | '0' :: rest => !rest.isEmpty && rest.all isDecimalDigit
  | _ => false

/-- The absolute value of an integer numeral without a sign: decimal, or in base 16, 8 or 2 behind
`0x`, `0o` or `0b`. -/
def magnitude? : List Char → Option Nat
  | '0' :: 'x' :: digits => readNumeral 16 digits
  | '0' :: 'o' :: digits => readNumeral 8 digits
  | '0' :: 'b' :: digits => readNumeral 2 digits
  | digits => if isZeroPadded digits then none else readNumeral 10 digits

/-- An integer of up to 128 bits, with an optional sign. -/
def int? (cs : List Char) : Option Int :=
  match cs with
  | '-' :: rest =>
    match magnitude? rest with
    | some n => if n ≤ 0x80000000000000000000000000000000 then some (-(n : Int)) else none
    | none => none
  | _ =>
    match magnitude? (dropSign ['+'] cs) with
    | some n => if n < 0x100000000000000000000000000000000 then some n else none
    | none => none

/-- The exponent of a decimal numeral: none at the end of the text, else a letter and digits. -/
def exponent? : List Char → Option Int
  | [] => some 0
  | e :: cs =>
    if e == 'e' || e == 'E' then
      match cs with
      | '-' :: digits => (readNumeral 10 digits).map fun n => -(n : Int)
      | '+' :: digits => (readNumeral 10 digits).map fun n => (n : Int)
      | digits => (readNumeral 10 digits).map fun n => (n : Int)
    else none

/-- The double of a decimal numeral: digits with at most one point among them, and an optional
exponent. -/
def decimal? (negative : Bool) (cs : List Char) : Option Binary64 :=
  let whole := cs.takeWhile isDecimalDigit
  let (fraction, rest) := match cs.dropWhile isDecimalDigit with
    | '.' :: behind => (behind.takeWhile isDecimalDigit, behind.dropWhile isDecimalDigit)
    | behind => ([], behind)
  match readNumeral 10 (whole ++ fraction), exponent? rest with
  | some digits, some e =>
    some (.ofDecimal negative digits (whole ++ fraction).length (e - fraction.length))
  | _, _ => none

/-- A number with a fraction or an exponent, one of the infinities, or not a number.  A numeral out
of range is none. -/
def float? (cs : List Char) : Option Binary64 :=
  let (signed, body) := match cs with
    | '+' :: rest => (true, rest)
    | _ => (false, cs)
  let text := String.ofList body
  let whole := String.ofList cs
  if text == ".inf" || text == ".Inf" || text == ".INF" then some (.infinite false)
  else if whole == "-.inf" || whole == "-.Inf" || whole == "-.INF" then some (.infinite true)
  else if whole == ".nan" || whole == ".NaN" || whole == ".NAN" then some .nan
  else
    let parsed := match body with
      | '-' :: rest => if signed then none else decimal? true rest
      | rest => decimal? false rest
    match parsed with
    | some (.finite s m e) => some (.finite s m e)
    | _ => none

/-- The value of a plain scalar. -/
def plainValue (s : String) : Value :=
  let cs := s.toList
  if cs.isEmpty || isNull s then .null
  else
    match bool? s with
    | some b => .bool b
    | none =>
      match int? cs with
      | some n => .int n
      | none =>
        if isZeroPadded cs then .str s
        else
          match float? cs with
          | some x => .float x
          | none => .str s

/-- The prefix of the tags that the format itself defines. -/
def coreTag (name : String) : String :=
  "tag:yaml.org,2002:" ++ name

/-- The name of a tag that belongs to the document's own vocabulary. -/
def localTag? (tag : Option String) : Option String :=
  match tag with
  | some t =>
    match t.toList with
    | '!' :: c :: cs => some (String.ofList (c :: cs))
    | _ => none
  | none => none

end Redeclare.Yaml
