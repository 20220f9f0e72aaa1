import Redeclare.Json.Fragment
import Redeclare.Json.Raw
import Redeclare.Reading.Value

/-!
# Reading methods from JSON texts

A method is read by way of buffered values, so all members of its object must
have a value that can be buffered.  The text is read from its start, and a fault
of the declaring type is found before a later place where the text is not JSON.

A method token is read off the text itself.  A member that is no field of a
record is passed over there, whatever its value is; `Json.Spot` is a place in a
text as a source.
-/

namespace Redeclare

namespace Json

/-- Why a text is not read. -/
inductive TextFault where
  /-- It is not a JSON value, or something in it that has to be read has no value or nests too
  deep. -/
  | malformed
  /-- The value does not describe what is read. -/
  | unfit (fault : Fault)

/-- The message of a fault; a text that is not JSON has none. -/
def TextFault.message : TextFault → Option String
  | malformed => none
  | unfit fault => some (fault.message .bufferedJson)

/-- The fault of a text that is read directly.  A list with more items than fields goes on where its
closing bracket has to be. -/
def TextFault.direct : Fault → TextFault
  | .tooLong _ _ => malformed
  | fault => unfit fault

end Json

namespace Method

/-- The fault of a declaring type that has begun, behind the fields of a method. -/
def ownerFault? (owner : Option TypeName) (key : String) (beginning : Option Json) : Option Fault :=
  if key == "declaring_type" then
    if owner.isSome then some (.duplicateField key)
    else
      match beginning with
      | some v =>
        match TypeName.read v.toValue with
        | .ok _ => none
        | .error fault => some fault
      | none => none
  else none

/-- The fault of a method that is found before its text turns out not to be JSON. -/
def earlyFault? (text : String) : Option Fault :=
  match Json.skipSpace text.toList with
  | '{' :: cs =>
    let (members, ending) := Json.fragment cs
    match splitPairs none (Json.toPairs members) with
    | .error fault => some fault
    | .ok (owner, pairs) =>
      match ending with
      | .closed =>
        match ofPairs owner pairs with
        | .error fault => some fault
        | .ok _ => none
      | .member key beginning => ownerFault? owner key beginning
      | .broken => none
  | cs => (Json.beginning? cs).map fun v => .invalidType (.ofValue v.toValue) (.record .method)

/-- Reads a method from a text in JSON. -/
def readJson (text : String) : Except Json.TextFault Method :=
  match Json.read text with
  | some v => (ofValue v.toValue).mapError .unfit
  | none =>
    match earlyFault? text with
    | some fault => .error (.unfit fault)
    | none => .error .malformed

end Method

/-! ## Places in a text -/

instance : FaultMonad (Except Json.TextFault) where
  refuse fault := .error (.direct fault)

namespace Json

/-- A value in a text, and how deep arrays and objects may still nest there. -/
structure Spot where
  depth : Nat
  raw : Raw

namespace Spot

/-- Refuses a value of another kind than the expected one. -/
def refuseKind {α : Type} (expected : Expected) (x : Spot) : Except TextFault α :=
  let refuseFound (found : Found) : Except TextFault α := refuse (.invalidType found expected)
  match x.raw with
  | .null => refuseFound .null
  | .bool b => refuseFound (.bool b)
  | .int n => refuseFound (.int n)
  | .float y => refuseFound (.float y)
  | .str s => refuseFound (.str s)
  | .arr _ => refuseFound .seq
  | .obj _ => refuseFound .map
  | .valueless => .error .malformed

/-- Reads the parts of an array or an object, which stand one level deeper. -/
def enter {α : Type} (read : Nat → Except TextFault α) : Nat → Except TextFault α
  | 0 => .error .malformed
  | depth + 1 => read depth

/-- Reads a text and what it means. -/
def readText {α : Type} (expected : Expected) (parse : String → Except Fault α) :
    Spot → Except TextFault α
  | ⟨_, .str s⟩ => (parse s).mapError .direct
  | x => x.refuseKind expected

/-- Reads a value unless it is null. -/
def readOption {α : Type} (read : Spot → Except TextFault α) : Spot → Except TextFault (Option α)
  | ⟨_, .null⟩ => .ok none
  | x => (read x).map some

/-- Reads items in order; the first fault ends the reading. -/
def readItems {α : Type} (read : Spot → Except TextFault α) (depth : Nat) :
    List Raw → Except TextFault (List α)
  | [] => .ok []
  | v :: vs => do
    let a ← read ⟨depth, v⟩
    let as ← readItems read depth vs
    .ok (a :: as)

/-- Reads the items of an array. -/
def readArray {α : Type} (read : Spot → Except TextFault α) : Spot → Except TextFault (List α)
  | ⟨depth, .arr items⟩ => enter (readItems read · items) depth
  | x => x.refuseKind .sequence

/-- Reads the values of members in order. -/
def readMembers {α : Type} (read : Spot → Except TextFault α) (depth : Nat) :
    List (String × Raw) → Except TextFault (List (String × α))
  | [] => .ok []
  | (key, v) :: members => do
    let a ← read ⟨depth, v⟩
    let rest ← readMembers read depth members
    .ok ((key, a) :: rest)

/-- Reads the members of an object. -/
def readObject {α : Type} (read : Spot → Except TextFault α) :
    Spot → Except TextFault (List (String × α))
  | ⟨depth, .obj members⟩ => enter (readMembers read · members) depth
  | x => x.refuseKind .map

/-- The members of an object with the places of their values. -/
def spots (depth : Nat) (members : List (String × Raw)) : List (String × Spot) :=
  members.map fun e => (e.1, ⟨depth, e.2⟩)

/-- Reads a record from an object, or from the list of its fields. -/
def readRecord {δ α : Type} (r : RecordReader (Except TextFault) Spot δ α) :
    Spot → Except TextFault α
  | ⟨depth, .obj members⟩ =>
    enter (fun depth => r.readPairs (fun key => .ok (r.field? key)) (spots depth members)) depth
  | ⟨depth, .arr items⟩ => enter (fun depth => r.readFields (items.map (⟨depth, ·⟩))) depth
  | x => x.refuseKind (.record r.kind)

/-- The value at a place, if it can be buffered. -/
def buffer (x : Spot) : Except TextFault Value :=
  match x.raw.settle? x.depth with
  | some v => .ok v.toValue
  | none => .error .malformed

end Spot

end Json

instance : Source Json.Spot (Except Json.TextFault) where
  text := Json.Spot.readText
  option := Json.Spot.readOption
  list := Json.Spot.readArray
  entries := Json.Spot.readObject
  record := Json.Spot.readRecord
  buffer := Json.Spot.buffer

namespace MethodToken

/-- Reads a method token at a place in a text. -/
def ofSpot : Json.Spot → Except Json.TextFault MethodToken :=
  Json.Spot.readRecord reader

/-- Reads a method token from a text in JSON. -/
def readJson (text : String) : Except Json.TextFault MethodToken :=
  match Json.Raw.read text with
  | some raw => ofSpot ⟨Json.maxDepth, raw⟩
  | none => .error .malformed

end MethodToken

end Redeclare
