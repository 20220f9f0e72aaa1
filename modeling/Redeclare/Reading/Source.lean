import Redeclare.Reading.Fault

/-!
# Sources of documents

A document can be read in two ways.  A buffered value has been given its kind
before it is known what it is for; a place in a YAML document is given the kind
that the reader asks for, so that a plain `12` is a text where a text is
expected.  `Source` is what readers need of either, and every reader of a
domain type is written once over it.
-/

namespace Redeclare

/-- Monads in which a reading can end with a fault. -/
class FaultMonad (m : Type → Type) extends Monad m where
  /-- Ends the reading. -/
  refuse : {α : Type} → Fault → m α

export FaultMonad (refuse)

instance : FaultMonad (Except Fault) where
  refuse := .error

/-- How a record is assembled: a draft that is filled field by field in the order of the document.
`finish` names the first field that has no default and was not given. -/
structure RecordReader (m : Type → Type) (σ δ α : Type) where
  kind : RecordKind
  draft : δ
  put : String → σ → δ → m δ
  finish : δ → Except String α

/-- Documents of which a value of type `σ` is a part, read in the monad `m`. -/
class Source (σ : Type) (m : outParam (Type → Type)) where
  /-- Reads a text and what it means. -/
  text : {α : Type} → Expected → (String → Except Fault α) → σ → m α
  /-- Reads a part unless it is null. -/
  option : {α : Type} → (σ → m α) → σ → m (Option α)
  /-- Reads the items of a sequence, in order. -/
  list : {α : Type} → (σ → m α) → σ → m (List α)
  /-- Reads the values of a map from texts, in order. -/
  entries : {α : Type} → (σ → m α) → σ → m (List (String × α))
  /-- Reads a record. -/
  record : {δ α : Type} → RecordReader m σ δ α → σ → m α
  /-- The part as a value of the kind it has on its own. -/
  buffer : σ → m Value

/-- A text that means itself. -/
def anyText (s : String) : Except Fault String := .ok s

namespace RecordReader

variable {σ δ α κ : Type} {m : Type → Type} [FaultMonad m]

/-- Fills a draft from the pairs of a map, in order.  `fieldOf` tells which field a key is; pairs
with other keys are passed over, and a field may occur once.  `seen` are the fields so far. -/
def fill (r : RecordReader m σ δ α) (fieldOf : κ → m (Option String))
    (seen : List String) : List (κ × σ) → δ → m δ
  | [], d => pure d
  | (key, x) :: pairs, d => do
    match ← fieldOf key with
    | none => r.fill fieldOf seen pairs d
    | some field =>
      if field ∈ seen then refuse (.duplicateField field)
      else
        let d ← r.put field x d
        r.fill fieldOf (field :: seen) pairs d

/-- Fills a draft from the items of a list: the fields in the order of their declaration. -/
def fillInOrder (r : RecordReader m σ δ α) : List String → List σ → δ → m δ
  | field :: fields, x :: xs, d => do
    let d ← r.put field x d
    r.fillInOrder fields xs d
  | _, _, d => pure d

/-- Reads a record from the pairs of a map. -/
def readPairs (r : RecordReader m σ δ α) (fieldOf : κ → m (Option String))
    (pairs : List (κ × σ)) : m α := do
  let d ← r.fill fieldOf [] pairs r.draft
  match r.finish d with
  | .ok a => pure a
  | .error field => refuse (.missingField field)

/-- Reads a record from the list of its fields.  Fields at the end may be left out if they have a
default. -/
def readFields (r : RecordReader m σ δ α) (items : List σ) : m α := do
  let d ← r.fillInOrder r.kind.fields items r.draft
  match r.finish d with
  | .error field => refuse (.tooShort (r.kind.fields.idxOf field) r.kind)
  | .ok a =>
    if r.kind.fields.length < items.length then refuse (.tooLong items.length r.kind) else pure a

/-- The field that a key names, if it names one. -/
def field? (r : RecordReader m σ δ α) (key : String) : Option String :=
  if key ∈ r.kind.fields then some key else none

end RecordReader

end Redeclare
