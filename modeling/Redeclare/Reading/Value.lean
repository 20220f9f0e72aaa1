import Redeclare.Reading.Method

/-!
# Reading buffered values

Values of a document that have been given their kind before they are read:
every JSON value, and the parts of a method in either format.  A record may
also be given as the list of its fields.
-/

namespace Redeclare

namespace Value

/-- Reads a text and what it means. -/
def readText {α : Type} (expected : Expected) (parse : String → Except Fault α) :
    Value → Except Fault α
  | .str s => parse s
  | v => .error (.invalidType (.ofValue v) expected)

/-- Reads items in order; the first fault ends the reading. -/
def readItems {α : Type} (read : Value → Except Fault α) : List Value → Except Fault (List α)
  | [] => .ok []
  | v :: vs => do
    let a ← read v
    let as ← readItems read vs
    .ok (a :: as)

/-- Reads the pairs of a map from texts in order. -/
def readEntries {α : Type} (read : Value → Except Fault α) :
    List (Value × Value) → Except Fault (List (String × α))
  | [] => .ok []
  | (key, v) :: pairs => do
    let key ← readText .string anyText key
    let a ← read v
    let rest ← readEntries read pairs
    .ok ((key, a) :: rest)

/-- The field of a key: its name, or its number in the order of declaration. -/
def fieldOf (kind : RecordKind) : Value → Except Fault (Option String)
  | .str s => .ok (if s ∈ kind.fields then some s else none)
  | .int n =>
    if 0 ≤ n then .ok kind.fields[n.toNat]? else .error (.invalidType (.int n) .fieldName)
  | v => .error (.invalidType (.ofValue v) .fieldName)

/-- Reads a record in either form. -/
def readRecord {δ α : Type} (r : RecordReader (Except Fault) Value δ α) :
    Value → Except Fault α
  | .map pairs => r.readPairs (fieldOf r.kind) pairs
  | .seq items => r.readFields items
  | v => .error (.invalidType (.ofValue v) (.record r.kind))

end Value

instance : Source Value (Except Fault) where
  text := Value.readText
  option read
    | .null => .ok none
    | v => (read v).map some
  list read
    | .seq items => Value.readItems read items
    | v => .error (.invalidType (.ofValue v) .sequence)
  entries read
    | .map pairs => Value.readEntries read pairs
    | v => .error (.invalidType (.ofValue v) .map)
  record := Value.readRecord
  buffer := .ok

/-! ## Methods -/

/-- Reads a method token. -/
def MethodToken.ofValue : Value → Except Fault MethodToken :=
  Value.readRecord MethodToken.reader

namespace Method

/-- The declaring type among the pairs of a method, and the other pairs as they are.  A second
declaring type and one that is no text are refused where they stand. -/
def splitPairs (owner : Option TypeName) :
    List (Value × Value) → Except Fault (Option TypeName × List (Value × Value))
  | [] => .ok (owner, [])
  | (key, v) :: pairs =>
    match key with
    | .str "declaring_type" =>
      if owner.isSome then .error (.duplicateField "declaring_type")
      else do
        let owner ← TypeName.read v
        splitPairs (some owner) pairs
    | key => do
      let (owner, rest) ← splitPairs owner pairs
      .ok (owner, (key, v) :: rest)

/-- Reads a method from a declaring type and the pairs of its token. -/
def ofPairs (owner : Option TypeName) (pairs : List (Value × Value)) : Except Fault Method := do
  match owner with
  | none => .error (.missingField "declaring_type")
  | some owner =>
    let token ← MethodToken.reader.readPairs (Value.fieldOf .token) pairs
    .ok ⟨owner, token⟩

/-- Reads a method: the fields of its token and the declaring type in one map. -/
def ofValue : Value → Except Fault Method
  | .map pairs => do
    let (owner, rest) ← splitPairs none pairs
    ofPairs owner rest
  | v => .error (.invalidType (.ofValue v) (.record .method))

end Method

end Redeclare
