import Redeclare.Json.Basic

/-!
# Reading JSON

A text is read into a value if it is exactly one JSON value with white space
around it.  Arrays and objects may nest 127 deep.  Integers have 64 bits, with
or without sign; a longer one, and a negative zero, is a double.
-/

namespace Redeclare.Json

open Text

/-- The text behind its leading JSON white space. -/
def skipSpace : List Char → List Char
  | ' ' :: cs | '\t' :: cs | '\n' :: cs | '\r' :: cs => skipSpace cs
  | cs => cs

/-! ## Strings -/

/-- The value of four hexadecimal digits. -/
def hex4? (a b c d : Char) : Option Nat :=
  readNumeral 16 [a, b, c, d]

/-- The character of a letter behind a backslash. -/
def simpleEscape? : Char → Option Char
  | '"' => some '"'
  | '\\' => some '\\'
  | '/' => some '/'
  | 'b' => some '\x08'
  | 'f' => some '\x0c'
  | 'n' => some '\n'
  | 'r' => some '\r'
  | 't' => some '\t'
  | _ => none

/-- The characters of a string behind its opening quote, and the text behind its closing quote.
A code unit of a surrogate pair that stands alone is refused. -/
def readString (acc : List Char) : List Char → Option (String × List Char)
  | [] => none
  | '"' :: cs => some (String.ofList acc.reverse, cs)
  | '\\' :: 'u' :: a :: b :: c :: d :: '\\' :: 'u' :: a' :: b' :: c' :: d' :: cs =>
    match hex4? a b c d with
    | none => none
    | some high =>
      if 0xd800 ≤ high ∧ high < 0xdc00 then
        match hex4? a' b' c' d' with
        | some low =>
          if 0xdc00 ≤ low ∧ low < 0xe000 then
            readString (Char.ofNat (0x10000 + (high - 0xd800) * 0x400 + (low - 0xdc00)) :: acc) cs
          else none
        | none => none
      else if 0xdc00 ≤ high ∧ high < 0xe000 then none
      else readString (Char.ofNat high :: acc) ('\\' :: 'u' :: a' :: b' :: c' :: d' :: cs)
  | '\\' :: 'u' :: a :: b :: c :: d :: cs =>
    match hex4? a b c d with
    | none => none
    | some code =>
      if 0xd800 ≤ code ∧ code < 0xe000 then none else readString (Char.ofNat code :: acc) cs
  | '\\' :: e :: cs =>
    match simpleEscape? e with
    | some c => readString (c :: acc) cs
    | none => none
  | c :: cs => if c.toNat < 0x20 ∨ c = '\\' then none else readString (c :: acc) cs

/-! ## Numbers -/

/-- The largest integer without sign. -/
def maxUnsigned : Nat := 0x10000000000000000 - 1

/-- A significand times a power of ten as a double, one rounded step at a time: the significand is
rounded, then multiplied or divided by the rounded power, in steps of at most `10 ^ 308`.  Refused
when it is out of range. -/
def scale? : Nat → Binary64 → Int → Option Binary64
  | 0, x, _ => some x
  | fuel + 1, x, exponent =>
    if exponent.natAbs ≤ 308 then
      match x.scaleByPower exponent.natAbs (0 ≤ exponent) with
      | .infinite _ => none
      | y => some y
    else
      match x with
      | .finite _ 0 _ => some x
      | _ => if 0 ≤ exponent then none else scale? fuel (x.scaleByPower 308 false) (exponent + 308)

/-- The double of a significand and an exponent. -/
def float? (negative : Bool) (significand : Nat) (exponent : Int) : Option Json :=
  match scale? 5 (Binary64.ofRatio false significand 1) exponent with
  | some x => some (.float (if negative then x.neg else x))
  | none => none

/-- Takes digits into a significand as long as it fits in 64 bits: the significand, how many digits
were taken, and the text behind. -/
def takeDigits (significand count : Nat) : List Char → Nat × Nat × List Char
  | [] => (significand, count, [])
  | c :: cs =>
    if isDecimalDigit c then
      let next := significand * 10 + (c.toNat - 48)
      if maxUnsigned < next then (significand, count, c :: cs)
      else takeDigits next (count + 1) cs
    else (significand, count, c :: cs)

/-- The number of leading digits, and the text behind them. -/
def countDigits (cs : List Char) : Nat × List Char :=
  ((cs.takeWhile isDecimalDigit).length, cs.dropWhile isDecimalDigit)

/-- The largest exponent of ten that is counted. -/
def maxExponent : Nat := 0x80000000 - 1

/-- A number from its exponent on, the letter already read. -/
def readExponent (negative : Bool) (significand : Nat) (exponent : Int) (cs : List Char) :
    Option (Json × List Char) :=
  let (up, cs) := match cs with
    | '+' :: cs => (true, cs)
    | '-' :: cs => (false, cs)
    | cs => (true, cs)
  let digits := cs.takeWhile isDecimalDigit
  let rest := cs.dropWhile isDecimalDigit
  match readNumeral 10 digits with
  | none => none
  | some e =>
    if maxExponent < e then
      if significand ≠ 0 ∧ up then none
      else some (.float (.zero negative), rest)
    else
      (float? negative significand (if up then exponent + e else exponent - e)).map (·, rest)

/-- A number whose digits before the exponent are read. -/
def readScaled (negative : Bool) (significand : Nat) (exponent : Int) (cs : List Char) :
    Option (Json × List Char) :=
  match cs with
  | 'e' :: rest | 'E' :: rest => readExponent negative significand exponent rest
  | _ => (float? negative significand exponent).map (·, cs)

/-- A number from its fraction on, the point already read: at least one digit, and those that no
longer fit in the significand do not count. -/
def readFraction (negative : Bool) (significand : Nat) (exponent : Int) (cs : List Char) :
    Option (Json × List Char) :=
  if (countDigits cs).1 = 0 then none
  else
    let (significand, taken, rest) := takeDigits significand 0 cs
    readScaled negative significand (exponent - taken) (countDigits rest).2

/-- A number behind its sign. -/
def readNumber (negative : Bool) (cs : List Char) : Option (Json × List Char) :=
  match cs with
  | [] => none
  | c :: _ =>
    let (places, behind) := countDigits cs
    if places = 0 ∨ (c = '0' ∧ 1 < places) then none
    else
      let (significand, taken, _) := takeDigits 0 0 cs
      let dropped := places - taken
      match behind with
      | '.' :: rest => readFraction negative significand dropped rest
      | 'e' :: rest | 'E' :: rest => readExponent negative significand dropped rest
      | _ =>
        if dropped = 0 ∧ !negative then some (.int significand, behind)
        else if dropped = 0 ∧ 0 < significand ∧ significand ≤ 0x8000000000000000 then
          some (.int (-(significand : Int)), behind)
        else (float? negative significand dropped).map (·, behind)

/-! ## Values -/

/-- The text behind a word that it has to start with. -/
def expect? : List Char → List Char → Option (List Char)
  | [], cs => some cs
  | w :: ws, c :: cs => if w = c then expect? ws cs else none
  | _ :: _, [] => none

/-- A member's key and the text of its value: a string, then a colon. -/
def readKey (cs : List Char) : Option (String × List Char) :=
  match cs with
  | '"' :: cs =>
    match readString [] cs with
    | some (key, cs) =>
      match skipSpace cs with
      | ':' :: cs => some (key, cs)
      | _ => none
    | none => none
  | _ => none

mutual

/-- The value at the start of a text, and the text behind it.  `depth` is how deep arrays and
objects may still nest; `fuel` bounds the steps. -/
def parseValue (depth : Nat) : Nat → List Char → Option (Json × List Char)
  | 0, _ => none
  | fuel + 1, cs =>
    match skipSpace cs with
    | 'n' :: cs => (expect? "ull".toList cs).map (.null, ·)
    | 't' :: cs => (expect? "rue".toList cs).map (.bool true, ·)
    | 'f' :: cs => (expect? "alse".toList cs).map (.bool false, ·)
    | '"' :: cs => (readString [] cs).map fun (s, rest) => (.str s, rest)
    | '-' :: cs => readNumber true cs
    | '[' :: cs =>
      match depth with
      | 0 => none
      | depth + 1 =>
        match skipSpace cs with
        | ']' :: cs => some (.arr [], cs)
        | cs => (parseItems depth fuel cs).map fun (items, rest) => (.arr items, rest)
    | '{' :: cs =>
      match depth with
      | 0 => none
      | depth + 1 =>
        match skipSpace cs with
        | '}' :: cs => some (.obj [], cs)
        | cs => (parseMembers depth fuel cs).map fun (members, rest) => (.obj members, rest)
    | cs => readNumber false cs

/-- The items of an array up to its closing bracket. -/
def parseItems (depth : Nat) : Nat → List Char → Option (List Json × List Char)
  | 0, _ => none
  | fuel + 1, cs =>
    match parseValue depth fuel cs with
    | none => none
    | some (item, cs) =>
      match skipSpace cs with
      | ']' :: cs => some ([item], cs)
      | ',' :: cs => (parseItems depth fuel cs).map fun (items, rest) => (item :: items, rest)
      | _ => none

/-- The members of an object up to its closing brace. -/
def parseMembers (depth : Nat) : Nat → List Char → Option (List (String × Json) × List Char)
  | 0, _ => none
  | fuel + 1, cs =>
    match readKey (skipSpace cs) with
    | none => none
    | some (key, cs) =>
      match parseValue depth fuel cs with
      | none => none
      | some (value, cs) =>
        match skipSpace cs with
        | '}' :: cs => some ([(key, value)], cs)
        | ',' :: cs =>
          (parseMembers depth fuel cs).map fun (members, rest) => ((key, value) :: members, rest)
        | _ => none

end

/-- How deep arrays and objects may nest. -/
def maxDepth : Nat := 127

/-- Steps that are enough for a text: two for each character. -/
def fuelFor (cs : List Char) : Nat := 2 * cs.length + 2

/-- The value that a text consists of. -/
def read (text : String) : Option Json :=
  let cs := text.toList
  match parseValue maxDepth (fuelFor cs) cs with
  | some (value, rest) => if skipSpace rest = [] then some value else none
  | none => none

end Redeclare.Json
