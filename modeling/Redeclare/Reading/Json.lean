import Redeclare.Reading.Value
import Redeclare.Settings.Basic

/-!
# Reading JSON values

JSON values as a source, and the plans, settings and methods read from them.  A
variant is written as its name, or as an object with its name as the only key.
A variant without content may carry null.
-/

namespace Redeclare

namespace Json

/-- The name of a variant, and its content if it has any. -/
def variant : Json → Except Fault (String × Option Json)
  | .str name => .ok (name, none)
  | .obj [(name, content)] => .ok (name, some content)
  | .obj _ => .error (.invalidValue .map .singleKey)
  | v => .error (.invalidType (.ofValue v.toValue) .variantForm)

/-- What a variant without content may carry: nothing, or null. -/
def noContent : Option Json → Except Fault Unit
  | none | some .null => .ok ()
  | some v => .error (.invalidType (.ofValue v.toValue) .unit)

/-- Reads one of several variants without content. -/
def unitVariant {α : Type} (known : List α) (text : α → String) (v : Json) : Except Fault α := do
  let (name, content) ← v.variant
  match known.find? (text · == name) with
  | none => .error (.unknownVariant name (known.map text))
  | some a =>
    noContent content
    .ok a

/-- Reads items in order; the first fault ends the reading. -/
def readItems {α : Type} (read : Json → Except Fault α) : List Json → Except Fault (List α)
  | [] => .ok []
  | v :: vs => do
    let a ← read v
    let as ← readItems read vs
    .ok (a :: as)

/-- Reads the items of an array. -/
def readArray {α : Type} (read : Json → Except Fault α) : Json → Except Fault (List α)
  | .arr items => readItems read items
  | v => .error (.invalidType (.ofValue v.toValue) .sequence)

/-- Reads a text and what it means. -/
def readText {α : Type} (expected : Expected) (parse : String → Except Fault α) :
    Json → Except Fault α
  | .str s => parse s
  | v => .error (.invalidType (.ofValue v.toValue) expected)

/-- Reads a value unless it is null. -/
def readOption {α : Type} (read : Json → Except Fault α) : Json → Except Fault (Option α)
  | .null => .ok none
  | v => (read v).map some

/-- Reads the values of members in order. -/
def readMembers {α : Type} (read : Json → Except Fault α) :
    List (String × Json) → Except Fault (List (String × α))
  | [] => .ok []
  | (key, v) :: members => do
    let a ← read v
    let rest ← readMembers read members
    .ok ((key, a) :: rest)

/-- Reads the members of an object. -/
def readObject {α : Type} (read : Json → Except Fault α) :
    Json → Except Fault (List (String × α))
  | .obj members => readMembers read members
  | v => .error (.invalidType (.ofValue v.toValue) .map)

/-- Reads a record from an object, or from the list of its fields. -/
def readRecord {δ α : Type} (r : RecordReader (Except Fault) Json δ α) : Json → Except Fault α
  | .obj members => r.readPairs (fun key => .ok (r.field? key)) members
  | .arr items => r.readFields items
  | v => .error (.invalidType (.ofValue v.toValue) (.record r.kind))

end Json

instance : Source Json (Except Fault) where
  text := Json.readText
  option := Json.readOption
  list := Json.readArray
  entries := Json.readObject
  record := Json.readRecord
  buffer v := .ok v.toValue

/-! ## Choices and plans -/

/-- Reads a named choice. -/
def ModifierName.ofJson : Json → Except Fault ModifierName :=
  Json.unitVariant all text

/-- Reads a format. -/
def OutputFormat.ofJson : Json → Except Fault OutputFormat :=
  Json.unitVariant all text

namespace Plan

mutual

/-- Reads a plan. -/
def ofJson : Json → Except Fault Plan
  | .str name =>
    if name == "noop" then .ok .noop
    else if name == "override" || name == "chain" then
      .error (.invalidType .unitVariant .newtypeVariant)
    else .error (.unknownVariant name variants)
  | .obj [(name, content)] =>
    if name == "noop" then (Json.noContent (some content)).map fun _ => .noop
    else if name == "override" then (Json.readArray ModifierName.ofJson content).map .override
    else if name == "chain" then
      match content with
      | .arr items => (ofJsons items).map .chain
      | v => .error (.invalidType (.ofValue v.toValue) .sequence)
    else .error (.unknownVariant name variants)
  | .obj _ => .error (.invalidValue .map .singleKey)
  | v => .error (.invalidType (.ofValue v.toValue) .variantForm)

/-- Reads several plans in order. -/
def ofJsons : List Json → Except Fault (List Plan)
  | [] => .ok []
  | v :: vs =>
    match ofJson v with
    | .error fault => .error fault
    | .ok plan => (ofJsons vs).map (plan :: ·)

end

end Plan

/-! ## Settings -/

/-- How output settings are read; what is left out has its default. -/
def OutputSettings.reader : RecordReader (Except Fault) Json OutputSettings OutputSettings where
  kind := .output
  draft := {}
  put field v o :=
    match field with
    | "format" => do return { o with format := ← OutputFormat.ofJson v }
    | "pretty" =>
      match v with
      | .bool pretty => .ok { o with pretty }
      | v => .error (.invalidType (.ofValue v.toValue) .boolean)
    | _ => .ok o
  finish := .ok

/-- How settings are read; what is left out has its default. -/
def Settings.reader : RecordReader (Except Fault) Json Settings Settings where
  kind := .settings
  draft := {}
  put field v s :=
    match field with
    | "transformer" => do return { s with plan := ← Plan.ofJson v }
    | "output" => do return { s with output := ← Json.readRecord OutputSettings.reader v }
    | _ => .ok s
  finish := .ok

/-- Reads settings. -/
def Settings.ofJson : Json → Except Fault Settings :=
  Json.readRecord Settings.reader

/-! ## Methods -/

/-- Reads a method token off a value in memory, field by field.  `MethodToken.readJson` reads one off a
text, where a part may have no value. -/
def MethodToken.ofJson : Json → Except Fault MethodToken :=
  Json.readRecord MethodToken.reader

/-- Reads a method off a value in memory.  All its members but the declaring type are buffered before
they are read; `Method.readJson` reads a method off a text, where a part may be too deep for that. -/
def Method.ofJson (v : Json) : Except Fault Method :=
  Method.ofValue v.toValue

end Redeclare
