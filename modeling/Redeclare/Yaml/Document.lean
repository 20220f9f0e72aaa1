import Redeclare.Yaml.Node

/-!
# YAML documents

A stream holds one document: its root node, and the nodes that its aliases
stand for.  An anchor gets the number of different anchor names before it, and
an alias the number that its name has at that place; when a number is given
twice, the later anchor holds it.
-/

namespace Redeclare.Yaml

/-- A document.  A text without any node has no root. -/
structure Document where
  root : Option (Node Nat)
  /-- The nodes with an anchor, in the order in which they start. -/
  anchors : List (Nat × Node Nat) := []
  /-- The number of marks in the text: one for a scalar or an alias, two for a collection. -/
  size : Nat := 1

namespace Node

/-- The anchor names met so far, with their numbers. -/
abbrev Names := List (String × Nat)

/-- Gives an anchor its number. -/
def declare (names : Names) : Option String → Option Nat × Names
  | none => (none, names)
  | some name =>
    let number := (names.map (·.1)).eraseDups.length
    (some number, (name, number) :: names)

mutual

/-- Replaces the names of anchors and aliases by numbers. -/
def number (names : Names) : Node String → Scan (Node Nat × Names)
  | .alias name =>
    match names.find? (·.1 == name) with
    | some (_, number) => .ok (.alias number, names)
    | none => .error (.unknownAnchor name)
  | .scalar anchor tag text style =>
    let (anchor, names) := declare names anchor
    .ok (.scalar anchor tag text style, names)
  | .sequence anchor tag items =>
    let (anchor, names) := declare names anchor
    (numberItems names items).map fun (items, names) => (.sequence anchor tag items, names)
  | .mapping anchor tag pairs =>
    let (anchor, names) := declare names anchor
    (numberPairs names pairs).map fun (pairs, names) => (.mapping anchor tag pairs, names)

/-- Numbers the items of a sequence, in order. -/
def numberItems (names : Names) : List (Node String) → Scan (List (Node Nat) × Names)
  | [] => .ok ([], names)
  | item :: items =>
    match number names item with
    | .error fault => .error fault
    | .ok (item, names) =>
      (numberItems names items).map fun (items, names) => (item :: items, names)

/-- Numbers the keys and values of a mapping, in order. -/
def numberPairs (names : Names) :
    List (Node String × Node String) → Scan (List (Node Nat × Node Nat) × Names)
  | [] => .ok ([], names)
  | (key, value) :: pairs =>
    match number names key with
    | .error fault => .error fault
    | .ok (key, names) =>
      match number names value with
      | .error fault => .error fault
      | .ok (value, names) =>
        (numberPairs names pairs).map fun (pairs, names) => ((key, value) :: pairs, names)

end

mutual

/-- The nodes with an anchor, in the order in which they start. -/
def anchored : Node Nat → List (Nat × Node Nat)
  | .alias _ => []
  | .scalar anchor tag text style =>
    (anchor.map fun n => (n, .scalar anchor tag text style)).toList
  | .sequence anchor tag items =>
    (anchor.map fun n => (n, .sequence anchor tag items)).toList ++ anchoredItems items
  | .mapping anchor tag pairs =>
    (anchor.map fun n => (n, .mapping anchor tag pairs)).toList ++ anchoredPairs pairs

/-- The nodes with an anchor among the items of a sequence. -/
def anchoredItems : List (Node Nat) → List (Nat × Node Nat)
  | [] => []
  | item :: items => anchored item ++ anchoredItems items

/-- The nodes with an anchor among the keys and values of a mapping. -/
def anchoredPairs : List (Node Nat × Node Nat) → List (Nat × Node Nat)
  | [] => []
  | (key, value) :: pairs => anchored key ++ anchored value ++ anchoredPairs pairs

end

mutual

/-- The number of marks of a node in a text. -/
def size : Node Nat → Nat
  | .alias _ => 1
  | .scalar .. => 1
  | .sequence _ _ items => 2 + sizeItems items
  | .mapping _ _ pairs => 2 + sizePairs pairs

/-- The number of marks of the items of a sequence. -/
def sizeItems : List (Node Nat) → Nat
  | [] => 0
  | item :: items => size item + sizeItems items

/-- The number of marks of the pairs of a mapping. -/
def sizePairs : List (Node Nat × Node Nat) → Nat
  | [] => 0
  | (key, value) :: pairs => size key + size value + sizePairs pairs

end

end Node

namespace Document

/-- The document of a tree whose anchors have names. -/
def ofNode (node : Node String) : Scan Document :=
  match node.number [] with
  | .error fault => .error fault
  | .ok (root, _) => .ok { root := some root, anchors := root.anchored, size := root.size }

/-- The node of an anchor number. -/
def target? (d : Document) (number : Nat) : Option (Node Nat) :=
  (d.anchors.reverse.find? (·.1 == number)).map (·.2)

/-- The directives in front of a document: the handles they declare, and the tokens behind.  The
version may be stated once, and a handle declared once. -/
def directives (hasVersion : Bool) (handles : Node.Handles) :
    List Token → Scan (Node.Handles × List Token)
  | .version major minor :: rest =>
    if hasVersion || major != 1 || (minor != 1 && minor != 2) then .error .badDirective
    else directives true handles rest
  | .tagHandle handle expansion :: rest =>
    if handles.any (·.1 == handle) then .error .badDirective
    else directives hasVersion ((handle, expansion) :: handles) rest
  | rest => .ok (handles, rest)

/-- Whether the content of a document is empty before these tokens. -/
def endsContent : List Token → Bool
  | [] | .version .. :: _ | .tagHandle .. :: _ | .documentStart :: _ | .documentEnd :: _ => true
  | _ => false

/-- The document that the tokens of a stream consist of. -/
def ofTokens (ts : List Token) : Scan Document :=
  if ts.isEmpty then .ok { root := none }
  else
    match directives false [] ts with
    | .error fault => .error fault
    | .ok (handles, behind) =>
      let handles := handles ++ Node.defaultHandles
      let content : Scan (Node String × List Token) :=
        match behind with
        | .documentStart :: rest =>
          if endsContent rest then .ok (Node.missing none none, rest) else Node.ofTokens handles rest
        | _ => if behind.length = ts.length then Node.ofTokens handles ts else .error .badDirective
      match content with
      | .error fault => .error fault
      | .ok (node, rest) =>
        if rest.all (· == .documentEnd) then ofNode node else .error .moreDocuments

/-- The document that a text consists of. -/
def read (text : String) : Scan Document :=
  match Token.scan text.toList with
  | .error fault => .error fault
  | .ok ts => ofTokens ts

end Document

end Redeclare.Yaml
