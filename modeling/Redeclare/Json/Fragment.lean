import Redeclare.Json.Reader

/-!
# Beginnings of JSON texts

What a reader has seen of a text before the text turns out not to be JSON: the
members of an object that are there as a whole, and how the text goes on
behind them.
-/

namespace Redeclare.Json

/-- The value that a text begins with.  An array or an object that has begun stands for itself
without its contents. -/
def beginning? (cs : List Char) : Option Json :=
  match skipSpace cs with
  | '[' :: _ => some (.arr [])
  | '{' :: _ => some (.obj [])
  | cs => (parseValue 0 1 cs).map (·.1)

/-- How a text goes on behind the members of an object that are there as a whole. -/
inductive Ending where
  /-- With the closing brace of the object. -/
  | closed
  /-- With a key, and with the beginning of its value if that can be seen. -/
  | member (key : String) (beginning : Option Json)
  /-- With something else. -/
  | broken

/-- The members at the start of a text that are there as a whole, and how the text goes on.  The
values may nest to a depth; `fuel` bounds the number of members. -/
def readFragment (depth : Nat) : Nat → List Char → List (String × Json) × Ending
  | 0, _ => ([], .broken)
  | fuel + 1, cs =>
    match skipSpace cs with
    | '"' :: cs =>
      match readString [] cs with
      | none => ([], .broken)
      | some (key, cs) =>
        match skipSpace cs with
        | ':' :: cs =>
          match parseValue depth (fuelFor cs) cs with
          | none => ([], .member key (beginning? cs))
          | some (value, cs) =>
            match skipSpace cs with
            | '}' :: _ => ([(key, value)], .closed)
            | ',' :: cs =>
              let (members, ending) := readFragment depth fuel cs
              ((key, value) :: members, ending)
            | _ => ([(key, value)], .broken)
        | _ => ([], .member key none)
    | _ => ([], .broken)

/-- What can be seen of the object that a text begins with, its opening brace already read. -/
def fragment (cs : List Char) : List (String × Json) × Ending :=
  match skipSpace cs with
  | '}' :: _ => ([], .closed)
  | cs => readFragment (maxDepth - 1) (cs.length + 1) cs

end Redeclare.Json
