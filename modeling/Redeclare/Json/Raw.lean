import Redeclare.Json.Reader

/-!
# Raw JSON values

What a text holds before anything is asked of its parts.  A part that nobody
looks at is passed over, and for that it only has to be well-formed: it may nest
to any depth, and it need not have a value.  A number has none if it is out of
the range of doubles, a string if one half of a surrogate pair stands alone in
it, and an object if that happens in one of its keys.
-/

namespace Redeclare.Json

open Text

/-- A JSON value as it stands in a text. -/
inductive Raw where
  | null
  | bool (value : Bool)
  | int (value : Int)
  | float (value : Text.Binary64)
  | str (value : String)
  | arr (items : List Raw)
  | obj (members : List (String × Raw))
  /-- Well-formed, but without a value. -/
  | valueless

/-! ## Passing over scalars -/

/-- The text behind the closing quote of a string. -/
def passString : List Char → Option (List Char)
  | [] => none
  | '"' :: cs => some cs
  | '\\' :: 'u' :: a :: b :: c :: d :: cs =>
    match hex4? a b c d with
    | none => none
    | some _ => passString cs
  | '\\' :: e :: cs =>
    match simpleEscape? e with
    | none => none
    | some _ => passString cs
  | c :: cs => if c.toNat < 0x20 ∨ c = '\\' then none else passString cs

/-- The text behind digits, of which there is at least one. -/
def passDigits (cs : List Char) : Option (List Char) :=
  let (places, rest) := countDigits cs
  if places = 0 then none else some rest

/-- The text behind an exponent, if there is one. -/
def passExponent : List Char → Option (List Char)
  | 'e' :: cs | 'E' :: cs =>
    match cs with
    | '+' :: cs | '-' :: cs => passDigits cs
    | cs => passDigits cs
  | cs => some cs

/-- The text behind a number whose sign is passed. -/
def passNumber (cs : List Char) : Option (List Char) :=
  let (places, behind) := countDigits cs
  if places = 0 ∨ (cs.head? = some '0' ∧ 1 < places) then none
  else
    match behind with
    | '.' :: cs =>
      match passDigits cs with
      | none => none
      | some rest => passExponent rest
    | cs => passExponent cs

/-- The text behind a string or a number. -/
def passScalar : List Char → Option (List Char)
  | '"' :: cs => passString cs
  | '-' :: cs => passNumber cs
  | cs => passNumber cs

/-- A member's key, if it has a value, and the text of the member's value. -/
def passKey (cs : List Char) : Option (Option String × List Char) :=
  match readKey cs with
  | some (key, rest) => some (some key, rest)
  | none =>
    match cs with
    | '"' :: cs =>
      match passString cs with
      | none => none
      | some cs =>
        match skipSpace cs with
        | ':' :: cs => some (none, cs)
        | _ => none
    | _ => none

namespace Raw

/-- A scalar as it stands in a text. -/
def ofScalar : Json → Raw
  | .null => .null
  | .bool b => .bool b
  | .int n => .int n
  | .float x => .float x
  | .str s => .str s
  | .arr _ | .obj _ => .valueless

/-- An object whose members have these keys, as far as keys have a value. -/
def ofMembers : Option (List (String × Raw)) → Raw
  | some members => .obj members
  | none => .valueless

/-- The scalar at the start of a text, and the text behind it. -/
def parseScalar (cs : List Char) : Option (Raw × List Char) :=
  match Json.parseValue 0 1 cs with
  | some (v, rest) => some (ofScalar v, rest)
  | none => (passScalar (skipSpace cs)).map (.valueless, ·)

mutual

/-- The value at the start of a text, and the text behind it; `fuel` bounds the steps. -/
def parseValue : Nat → List Char → Option (Raw × List Char)
  | 0, _ => none
  | fuel + 1, cs =>
    match skipSpace cs with
    | '[' :: cs =>
      match skipSpace cs with
      | ']' :: cs => some (.arr [], cs)
      | cs => (parseItems fuel cs).map fun (items, rest) => (.arr items, rest)
    | '{' :: cs =>
      match skipSpace cs with
      | '}' :: cs => some (.obj [], cs)
      | cs => (parseMembers fuel cs).map fun (members, rest) => (ofMembers members, rest)
    | cs => parseScalar cs

/-- The items of an array up to its closing bracket. -/
def parseItems : Nat → List Char → Option (List Raw × List Char)
  | 0, _ => none
  | fuel + 1, cs =>
    match parseValue fuel cs with
    | none => none
    | some (item, cs) =>
      match skipSpace cs with
      | ']' :: cs => some ([item], cs)
      | ',' :: cs => (parseItems fuel cs).map fun (items, rest) => (item :: items, rest)
      | _ => none

/-- The members of an object up to its closing brace, if all keys have a value. -/
def parseMembers : Nat → List Char → Option (Option (List (String × Raw)) × List Char)
  | 0, _ => none
  | fuel + 1, cs =>
    match passKey (skipSpace cs) with
    | none => none
    | some (key, cs) =>
      match parseValue fuel cs with
      | none => none
      | some (value, cs) =>
        match skipSpace cs with
        | '}' :: cs => some (key.map fun key => [(key, value)], cs)
        | ',' :: cs =>
          (parseMembers fuel cs).map fun (members, rest) =>
            (key.bind fun key => members.map ((key, value) :: ·), rest)
        | _ => none

end

/-- The raw value that a text consists of. -/
def read (text : String) : Option Raw :=
  let cs := text.toList
  match parseValue (fuelFor cs) cs with
  | some (value, rest) => if skipSpace rest = [] then some value else none
  | none => none

/-! ## Values of raw values -/

mutual

/-- The value of a raw value, if all its parts have one and its arrays and objects nest no deeper
than `depth`. -/
def settle? : Nat → Raw → Option Json
  | _, .null => some .null
  | _, .bool b => some (.bool b)
  | _, .int n => some (.int n)
  | _, .float x => some (.float x)
  | _, .str s => some (.str s)
  | depth + 1, .arr items => (settleItems? depth items).map .arr
  | depth + 1, .obj members => (settleMembers? depth members).map .obj
  | 0, .arr _ | 0, .obj _ | _, .valueless => none

/-- The values of items. -/
def settleItems? (depth : Nat) : List Raw → Option (List Json)
  | [] => some []
  | item :: items =>
    (settle? depth item).bind fun v => (settleItems? depth items).map (v :: ·)

/-- The values of members. -/
def settleMembers? (depth : Nat) : List (String × Raw) → Option (List (String × Json))
  | [] => some []
  | (key, value) :: members =>
    (settle? depth value).bind fun v => (settleMembers? depth members).map ((key, v) :: ·)

end

end Raw

end Redeclare.Json
