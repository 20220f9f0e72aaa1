import Redeclare.Reading.Value
import Redeclare.Yaml.Document
import Redeclare.Yaml.Scalar

/-!
# Reading YAML documents

The places of a YAML document as a source.  A plain scalar is taken by the kind
that is asked for; only where any kind will do does its text decide.  Faults
carry the path of the place, collections may nest 128 deep, and aliases may be
followed a hundred times for each mark in the text.
-/

namespace Redeclare.Yaml

/-! ## Paths -/

/-- The way from the root of a document to a place. -/
inductive Path where
  | root
  | item (parent : Path) (index : Nat)
  | field (parent : Path) (key : String)
  /-- The value of a key that is no scalar. -/
  | other (parent : Path)

/-- The text of a path in messages; the root is left out in front of a key. -/
def Path.text : Path → String
  | root => "."
  | item parent index => parent.text ++ "[" ++ toString index ++ "]"
  | field parent key =>
    (match parent with
      | root => ""
      | _ => parent.text ++ ".") ++ key
  | other parent =>
    (match parent with
      | root => ""
      | _ => parent.text ++ ".") ++ "?"

/-- A fault with the path of the place that it was found at, where there is one. -/
structure Located where
  fault : Fault
  path : Option Path

/-- Whether a fault belongs to a place; limits of the document as a whole do not. -/
def hasPlace : Fault → Bool
  | .tooDeep | .tooManyAliases | .endOfDocument => false
  | _ => true

/-- The message of a fault: the path in front, but not that of the root. -/
def Located.message (l : Located) : String :=
  match l.path with
  | some .root | none => l.fault.message .yaml
  | some path => path.text ++ ": " ++ l.fault.message .yaml

/-! ## Places -/

/-- Reading a document: counts how often aliases were followed. -/
abbrev ReadM := StateT Nat (Except Located)

instance : FaultMonad ReadM where
  refuse fault := fun _ => .error ⟨fault, none⟩

/-- Gives the faults of a reading that have no path yet the path of a place. -/
def locate {α : Type} (path : Path) (read : ReadM α) : ReadM α := fun jumps =>
  match read jumps with
  | .error ⟨fault, none⟩ => .error ⟨fault, if hasPlace fault then some path else none⟩
  | result => result

/-- What is found or refused, as a reading. -/
def ofExcept {α : Type} : Except Fault α → ReadM α
  | .ok a => pure a
  | .error fault => refuse fault

/-- A place in a document: a node, the way to it, and how deep collections may nest from there. -/
structure Place where
  document : Document
  path : Path
  depth : Nat
  node : Node Nat

/-- How deep collections may nest. -/
def maxDepth : Nat := 128

/-- The root of a document; one without any node is read as an empty one. -/
def Document.rootPlace (d : Document) : Place :=
  ⟨d, .root, maxDepth, d.root.getD (.missing none none)⟩

/-- Follows an alias to its node. -/
def Document.follow (d : Document) (node : Node Nat) : ReadM (Node Nat) :=
  match node with
  | .alias number => fun jumps =>
    if d.size * 100 < jumps + 1 then .error ⟨.tooManyAliases, none⟩
    else
      match d.target? number with
      | some node => .ok (node, jumps + 1)
      | none => .error ⟨.tooManyAliases, none⟩
  | node => pure node

/-- The value of a scalar by its tag, its style and its text. -/
def scalarValue (tag : Option String) (text : String) (style : Style) : Except Fault Value :=
  let wrong (expected : Expected) : Except Fault Value := .error (.invalidValue (.str text) expected)
  let untagged := if style = .plain then plainValue text else .str text
  match tag with
  | none => .ok untagged
  | some tag =>
    if tag == coreTag "bool" then
      match bool? text with
      | some b => .ok (.bool b)
      | none => wrong .booleanText
    else if tag == coreTag "int" then
      match int? text.toList with
      | some n => .ok (.int n)
      | none => wrong .integerText
    else if tag == coreTag "float" then
      match float? text.toList with
      | some x => .ok (.float x)
      | none => wrong .floatText
    else if tag == coreTag "null" then
      if isNull text then .ok .null else wrong .nullText
    else if tag.startsWith "!" then .ok untagged
    else .ok (.str text)

/-- The fault of a node that is not what is expected. -/
def wrongKind (node : Node Nat) (expected : Expected) : Fault :=
  match node with
  | .scalar _ tag text style =>
    match scalarValue tag text style with
    | .ok value => .invalidType (.ofValue value) expected
    | .error fault => fault
  | .mapping .. => .invalidType .map expected
  | .sequence .. | .alias _ => .invalidType .seq expected

/-- Whether a node is a plain scalar without characters, which may stand for an empty collection. -/
def isMissing : Node Nat → Bool
  | .scalar _ _ text .plain => text.isEmpty
  | _ => false

/-- Whether an integer has at most 64 bits. -/
def isWord (n : Int) : Bool :=
  -0x8000000000000000 ≤ n && n < 0x10000000000000000

namespace Place

/-- The place with its alias followed. -/
def follow (p : Place) : ReadM Place := do
  let node ← p.document.follow p.node
  return { p with node }

/-- The places of items, from an index on. -/
def itemPlaces (p : Place) (depth : Nat) : Nat → List (Node Nat) → List Place
  | _, [] => []
  | i, node :: nodes => ⟨p.document, .item p.path i, depth, node⟩ :: p.itemPlaces depth (i + 1) nodes

/-- The way to the value of a key. -/
def valuePath (p : Place) : Node Nat → Path
  | .scalar _ _ text _ => .field p.path text
  | _ => .other p.path

/-- The places of the keys and values of a mapping. -/
def pairPlaces (p : Place) (depth : Nat) (pairs : List (Node Nat × Node Nat)) : List (Place × Place) :=
  pairs.map fun (key, value) =>
    (⟨p.document, p.path, depth, key⟩, ⟨p.document, p.valuePath key, depth, value⟩)

/-- The items of a sequence, as places one level deeper. -/
def items (p : Place) : ReadM (List Place) :=
  match p.node with
  | .sequence _ _ nodes =>
    match p.depth with
    | 0 => refuse .tooDeep
    | depth + 1 => pure (p.itemPlaces depth 0 nodes)
  | node => if isMissing node then pure [] else refuse (wrongKind node .sequence)

/-- The pairs of a mapping, as places one level deeper. -/
def pairs (p : Place) (expected : Expected) : ReadM (List (Place × Place)) :=
  match p.node with
  | .mapping _ _ nodes =>
    match p.depth with
    | 0 => refuse .tooDeep
    | depth + 1 => pure (p.pairPlaces depth nodes)
  | node => if isMissing node then pure [] else refuse (wrongKind node expected)

/-- Reads a scalar as a text, whatever its text would be on its own. -/
def readText {α : Type} (expected : Expected) (parse : String → Except Fault α) (p : Place) :
    ReadM α :=
  locate p.path do
    let p ← p.follow
    match p.node with
    | .scalar _ _ text _ => ofExcept (parse text)
    | node => refuse (wrongKind node expected)

/-- Reads a place unless it is null: an empty plain scalar, or one of the texts of nothing. -/
def readOption {α : Type} (read : Place → ReadM α) (p : Place) : ReadM (Option α) := do
  let p ← p.follow
  match p.node with
  | .scalar _ none text .plain =>
    if text.isEmpty || isNull text then return none else some <$> read p
  | .scalar _ (some tag) text .plain =>
    if tag == coreTag "null" then
      if isNull text then return none else refuse (.invalidValue (.str text) .nullText)
    else some <$> read p
  | _ => some <$> read p

/-- Reads the items of a sequence. -/
def readList {α : Type} (read : Place → ReadM α) (p : Place) : ReadM (List α) :=
  locate p.path do
    let p ← p.follow
    (← p.items).mapM read

/-- Reads a key and its value. -/
def readEntry {α : Type} (read : Place → ReadM α) (pair : Place × Place) : ReadM (String × α) := do
  let key ← pair.1.readText .string anyText
  let value ← read pair.2
  return (key, value)

/-- Reads the pairs of a mapping from texts. -/
def readEntries {α : Type} (read : Place → ReadM α) (p : Place) : ReadM (List (String × α)) :=
  locate p.path do
    let p ← p.follow
    (← p.pairs .map).mapM (readEntry read)

/-- Reads a record from a mapping. -/
def readRecord {δ α : Type} (r : RecordReader ReadM Place δ α) (p : Place) : ReadM α :=
  locate p.path do
    let p ← p.follow
    let pairs ← p.pairs (.record r.kind)
    let fieldOf (key : Place) := key.readText .fieldName fun s => .ok (r.field? s)
    r.readPairs fieldOf pairs

/-- A scalar as a value; tags of the document's own are refused, and so are longer integers than
there are values for. -/
def bufferScalar (tag : Option String) (text : String) (style : Style) : ReadM Value :=
  if (localTag? tag).isSome then refuse .taggedAnnotationValue
  else
    match scalarValue tag text style with
    | .ok (.int n) => if isWord n then pure (.int n) else refuse (.invalidType (.int n) .anyValue)
    | .ok value => pure value
    | .error fault => refuse fault

/-- A node as a value of the kind it has on its own. -/
def bufferNode (d : Document) : Nat → Path → Node Nat → ReadM Value
  | depth, path, node => locate path do
    let node ← d.follow node
    let place : Place := ⟨d, path, depth, node⟩
    match node with
    | .scalar _ tag text style => bufferScalar tag text style
    | .sequence _ tag nodes =>
      if (localTag? tag).isSome then refuse .taggedAnnotationValue
      else
        match depth with
        | 0 => refuse .tooDeep
        | depth + 1 =>
          .seq <$> (place.itemPlaces depth 0 nodes).mapM fun p => bufferNode d depth p.path p.node
    | .mapping _ tag nodes =>
      if (localTag? tag).isSome then refuse .taggedAnnotationValue
      else
        match depth with
        | 0 => refuse .tooDeep
        | depth + 1 =>
          .map <$> (place.pairPlaces depth nodes).mapM fun (key, value) => do
            let k ← bufferNode d depth key.path key.node
            let v ← bufferNode d depth value.path value.node
            return (k, v)
    | .alias _ => refuse .tooManyAliases

/-- A place as a value of the kind it has on its own. -/
def buffer (p : Place) : ReadM Value :=
  bufferNode p.document p.depth p.path p.node

end Place

instance : Source Place ReadM where
  text := Place.readText
  option := Place.readOption
  list := Place.readList
  entries := Place.readEntries
  record := Place.readRecord
  buffer := Place.buffer

/-! ## Documents -/

/-- Why a text is not read. -/
inductive TextFault where
  /-- It is not one well-formed document. -/
  | malformed (fault : SyntaxFault)
  /-- The document does not describe what is read. -/
  | unfit (fault : Located)

/-- The message of a fault; a text that is not a document has none. -/
def TextFault.message : TextFault → Option String
  | malformed _ => none
  | unfit fault => some fault.message

/-- Reads the document that a text consists of. -/
def readDocument {α : Type} (read : Document → ReadM α) (text : String) : Except TextFault α :=
  match Document.read text with
  | .error fault => .error (.malformed fault)
  | .ok d =>
    match (read d).run 0 with
    | .ok (a, _) => .ok a
    | .error fault => .error (.unfit fault)

end Redeclare.Yaml

namespace Redeclare

open Yaml

/-- Reads a list of method tokens from a text in YAML, and so in JSON. -/
def MethodToken.readAll (text : String) : Except TextFault (List MethodToken) :=
  readDocument (fun d => d.rootPlace.readList (Source.record MethodToken.reader)) text

namespace Method

/-- The declaring type among the pairs of a method, and the other pairs buffered. -/
def splitPlaces (owner : Option TypeName) :
    List (Place × Place) → ReadM (Option TypeName × List (Value × Value))
  | [] => return (owner, [])
  | (key, x) :: pairs => do
    let field ← key.readText .fieldName anyText
    if field == "declaring_type" then
      if owner.isSome then refuse (.duplicateField field)
      else
        let owner ← TypeName.read x
        splitPlaces (some owner) pairs
    else
      let value ← x.buffer
      let (owner, rest) ← splitPlaces owner pairs
      return (owner, (.str field, value) :: rest)

/-- Reads a method.  Its declaring type is read where it stands; the fields of the token are
buffered first. -/
def readPlace (p : Place) : ReadM Method :=
  locate p.path do
    let p ← p.follow
    let (owner, rest) ← splitPlaces none (← p.pairs (.record .method))
    ofExcept (ofPairs owner rest)

/-- Reads a method from a text in YAML. -/
def readYaml (text : String) : Except TextFault Method :=
  readDocument (fun d => readPlace d.rootPlace) text

end Method

end Redeclare
