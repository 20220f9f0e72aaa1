import Redeclare.Yaml.Token.Scan

/-!
# YAML nodes

The tree of a document: scalars, sequences, mappings and aliases, with their
anchors and tags.  `Node.ofTokens` reads the tree off the tokens of a document.
-/

namespace Redeclare.Yaml

/-- A node; anchors and aliases are of type `ν`. -/
inductive Node (ν : Type) where
  | alias (target : ν)
  | scalar (anchor : Option ν) (tag : Option String) (text : String) (style : Style)
  | sequence (anchor : Option ν) (tag : Option String) (items : List (Node ν))
  | mapping (anchor : Option ν) (tag : Option String) (pairs : List (Node ν × Node ν))

namespace Node

section Equality

variable {ν : Type} [DecidableEq ν]

mutual

/-- Whether two nodes are the same. -/
def decEq : (m n : Node ν) → Decidable (m = n)
  | .alias target, .alias target' => decidable_of_iff (target = target') (by rw [Node.alias.injEq])
  | .scalar anchor tag text style, .scalar anchor' tag' text' style' =>
    decidable_of_iff (anchor = anchor' ∧ tag = tag' ∧ text = text' ∧ style = style')
      (by rw [scalar.injEq])
  | .sequence anchor tag items, .sequence anchor' tag' items' =>
    match decEqItems items items' with
    | isTrue h => decidable_of_iff (anchor = anchor' ∧ tag = tag') (by rw [sequence.injEq, h]; simp)
    | isFalse h => isFalse fun heq => h (sequence.inj heq).2.2
  | .mapping anchor tag pairs, .mapping anchor' tag' pairs' =>
    match decEqPairs pairs pairs' with
    | isTrue h => decidable_of_iff (anchor = anchor' ∧ tag = tag') (by rw [mapping.injEq, h]; simp)
    | isFalse h => isFalse fun heq => h (mapping.inj heq).2.2
  | .alias _, .scalar .. | .alias _, .sequence .. | .alias _, .mapping ..
  | .scalar .., .alias _ | .scalar .., .sequence .. | .scalar .., .mapping ..
  | .sequence .., .alias _ | .sequence .., .scalar .. | .sequence .., .mapping ..
  | .mapping .., .alias _ | .mapping .., .scalar .. | .mapping .., .sequence .. => isFalse nofun

/-- Whether two lists of nodes are the same. -/
def decEqItems : (items items' : List (Node ν)) → Decidable (items = items')
  | [], [] => isTrue rfl
  | m :: items, n :: items' =>
    match decEq m n, decEqItems items items' with
    | isTrue h, isTrue h' => isTrue (by rw [h, h'])
    | isFalse h, _ => isFalse fun heq => h (List.cons.inj heq).1
    | _, isFalse h' => isFalse fun heq => h' (List.cons.inj heq).2
  | [], _ :: _ | _ :: _, [] => isFalse nofun

/-- Whether two lists of pairs of nodes are the same. -/
def decEqPairs : (pairs pairs' : List (Node ν × Node ν)) → Decidable (pairs = pairs')
  | [], [] => isTrue rfl
  | (k, m) :: pairs, (l, n) :: pairs' =>
    match decEq k l, decEq m n, decEqPairs pairs pairs' with
    | isTrue hkey, isTrue h, isTrue h' => isTrue (by rw [hkey, h, h'])
    | isFalse hkey, _, _ => isFalse fun heq => hkey (Prod.mk.inj (List.cons.inj heq).1).1
    | _, isFalse h, _ => isFalse fun heq => h (Prod.mk.inj (List.cons.inj heq).1).2
    | _, _, isFalse h' => isFalse fun heq => h' (List.cons.inj heq).2
  | [], _ :: _ | _ :: _, [] => isFalse nofun

end

instance : DecidableEq (Node ν) := decEq

end Equality

/-- The node of nothing at all: a plain scalar without characters. -/
def missing {ν : Type} (anchor : Option ν) (tag : Option String) : Node ν :=
  .scalar anchor tag "" .plain

/-- The declared tag handles, with what they stand for. -/
abbrev Handles := List (List Char × List Char)

/-- The handles that need no declaration. -/
def defaultHandles : Handles :=
  [(['!'], ['!']), (['!', '!'], "tag:yaml.org,2002:".toList)]

/-- The tag of a handle and a suffix. -/
def resolveTag (handles : Handles) (handle suffix : List Char) : Scan String :=
  if handle.isEmpty then .ok (String.ofList suffix)
  else
    match handles.find? (·.1 == handle) with
    | some (_, expansion) => .ok (String.ofList (expansion ++ suffix))
    | none => .error (.unknownHandle (String.ofList handle))

/-- The anchor and the tag in front of a node, in either order, and the tokens behind. -/
def properties (handles : Handles) :
    List Token → Scan (Option String × Option String × List Token)
  | .anchor name :: .tag handle suffix :: rest | .tag handle suffix :: .anchor name :: rest =>
    (resolveTag handles handle suffix).map fun tag => (some (String.ofList name), some tag, rest)
  | .anchor name :: rest => .ok (some (String.ofList name), none, rest)
  | .tag handle suffix :: rest =>
    (resolveTag handles handle suffix).map fun tag => (none, some tag, rest)
  | rest => .ok (none, none, rest)

/-- Whether an entry of a block sequence is empty before these tokens. -/
def endsEntry : List Token → Bool
  | .entry :: _ | .blockEnd :: _ => true
  | _ => false

/-- Whether a key, a value, or an entry without indentation of its own is empty before these
tokens. -/
def endsPair : List Token → Bool
  | .key :: _ | .value :: _ | .blockEnd :: _ => true
  | _ => false

/-- Whether a key or a value in braces is empty before these tokens. -/
def endsFlowPair (close : Token) : List Token → Bool
  | t :: _ => t == .flowEntry || t == close
  | [] => false

mutual

/-- The node at the start of the tokens.  `block` admits block collections, and `indentless` a
block sequence that is not indented deeper than its mapping. -/
def parse (handles : Handles) :
    Nat → Bool → Bool → List Token → Scan (Node String × List Token)
  | 0, _, _, _ => .error .misplaced
  | fuel + 1, block, indentless, ts =>
    match ts with
    | .alias name :: rest => .ok (.alias (String.ofList name), rest)
    | _ =>
      match properties handles ts with
      | .error fault => .error fault
      | .ok (anchor, tag, ts) =>
        match ts with
        | .scalar text style :: rest =>
          .ok (.scalar anchor (tag.filter (· != "!")) (String.ofList text) style, rest)
        | .flowSequence :: rest =>
          (flowItems handles fuel true rest).map fun (items, rest) => (.sequence anchor tag items, rest)
        | .flowMapping :: rest =>
          (flowPairs handles fuel true rest).map fun (pairs, rest) => (.mapping anchor tag pairs, rest)
        | _ =>
          let empty : Scan (Node String × List Token) :=
            if anchor.isSome || tag.isSome then .ok (missing anchor tag, ts) else .error .misplaced
          match ts with
          | .entry :: _ =>
            if indentless then
              (indentlessItems handles fuel ts).map fun (items, rest) =>
                (.sequence anchor tag items, rest)
            else empty
          | .blockSequence :: rest =>
            if block then
              (blockItems handles fuel rest).map fun (items, rest) => (.sequence anchor tag items, rest)
            else empty
          | .blockMapping :: rest =>
            if block then
              (blockPairs handles fuel rest).map fun (pairs, rest) => (.mapping anchor tag pairs, rest)
            else empty
          | _ => empty

/-- The entries of a block sequence, up to its end. -/
def blockItems (handles : Handles) : Nat → List Token → Scan (List (Node String) × List Token)
  | 0, _ => .error .misplaced
  | fuel + 1, ts =>
    match ts with
    | .entry :: rest =>
      match if endsEntry rest then .ok (missing none none, rest)
        else parse handles fuel true false rest with
      | .error fault => .error fault
      | .ok (item, rest) =>
        (blockItems handles fuel rest).map fun (items, rest) => (item :: items, rest)
    | .blockEnd :: rest => .ok ([], rest)
    | _ => .error .misplaced

/-- The entries of a block sequence that has no end token of its own. -/
def indentlessItems (handles : Handles) : Nat → List Token → Scan (List (Node String) × List Token)
  | 0, _ => .error .misplaced
  | fuel + 1, ts =>
    match ts with
    | .entry :: rest =>
      match if endsEntry rest || endsPair rest then .ok (missing none none, rest)
        else parse handles fuel true false rest with
      | .error fault => .error fault
      | .ok (item, rest) =>
        (indentlessItems handles fuel rest).map fun (items, rest) => (item :: items, rest)
    | _ => .ok ([], ts)

/-- The pairs of a block mapping, up to its end. -/
def blockPairs (handles : Handles) :
    Nat → List Token → Scan (List (Node String × Node String) × List Token)
  | 0, _ => .error .misplaced
  | fuel + 1, ts =>
    match ts with
    | .key :: rest =>
      match if endsPair rest then .ok (missing none none, rest)
        else parse handles fuel true true rest with
      | .error fault => .error fault
      | .ok (key, rest) =>
        let value : Scan (Node String × List Token) :=
          match rest with
          | .value :: rest =>
            if endsPair rest then .ok (missing none none, rest)
            else parse handles fuel true true rest
          | _ => .ok (missing none none, rest)
        match value with
        | .error fault => .error fault
        | .ok (value, rest) =>
          (blockPairs handles fuel rest).map fun (pairs, rest) => ((key, value) :: pairs, rest)
    | .blockEnd :: rest => .ok ([], rest)
    | _ => .error .misplaced

/-- The entries of a sequence in brackets, up to the closing one.  An entry that is a key is a
mapping of one pair. -/
def flowItems (handles : Handles) :
    Nat → Bool → List Token → Scan (List (Node String) × List Token)
  | 0, _, _ => .error .misplaced
  | fuel + 1, isFirst, ts =>
    match ts with
    | .flowSequenceEnd :: rest => .ok ([], rest)
    | _ =>
      match (if isFirst then some ts else match ts with
        | .flowEntry :: rest => some rest
        | _ => none) with
      | none => .error .misplaced
      | some ts =>
        match ts with
        | .flowSequenceEnd :: rest => .ok ([], rest)
        | .key :: rest =>
          match flowPair handles fuel rest with
          | .error fault => .error fault
          | .ok (item, rest) =>
            (flowItems handles fuel false rest).map fun (items, rest) => (item :: items, rest)
        | _ =>
          match parse handles fuel false false ts with
          | .error fault => .error fault
          | .ok (item, rest) =>
            (flowItems handles fuel false rest).map fun (items, rest) => (item :: items, rest)

/-- The pair behind a key token in a sequence in brackets.  An empty key takes the token behind it
with it. -/
def flowPair (handles : Handles) : Nat → List Token → Scan (Node String × List Token)
  | 0, _ => .error .misplaced
  | fuel + 1, ts =>
    let isEmpty := ts.head? == some .value || endsFlowPair .flowSequenceEnd ts
    match if isEmpty then .ok (missing none none, ts.drop 1)
      else parse handles fuel false false ts with
    | .error fault => .error fault
    | .ok (key, rest) =>
      let value : Scan (Node String × List Token) :=
        match rest with
        | .value :: rest =>
          if endsFlowPair .flowSequenceEnd rest then .ok (missing none none, rest)
          else parse handles fuel false false rest
        | _ => .ok (missing none none, rest)
      value.map fun (value, rest) => (.mapping none none [(key, value)], rest)

/-- The pairs of a mapping in braces, up to the closing one.  A node without a key token is a key
without a value. -/
def flowPairs (handles : Handles) :
    Nat → Bool → List Token → Scan (List (Node String × Node String) × List Token)
  | 0, _, _ => .error .misplaced
  | fuel + 1, isFirst, ts =>
    match ts with
    | .flowMappingEnd :: rest => .ok ([], rest)
    | _ =>
      match (if isFirst then some ts else match ts with
        | .flowEntry :: rest => some rest
        | _ => none) with
      | none => .error .misplaced
      | some ts =>
        match ts with
        | .flowMappingEnd :: rest => .ok ([], rest)
        | .key :: rest =>
          match if rest.head? == some .value || endsFlowPair .flowMappingEnd rest then
              .ok (missing none none, rest)
            else parse handles fuel false false rest with
          | .error fault => .error fault
          | .ok (key, rest) =>
            let value : Scan (Node String × List Token) :=
              match rest with
              | .value :: rest =>
                if endsFlowPair .flowMappingEnd rest then .ok (missing none none, rest)
                else parse handles fuel false false rest
              | _ => .ok (missing none none, rest)
            match value with
            | .error fault => .error fault
            | .ok (value, rest) =>
              (flowPairs handles fuel false rest).map fun (pairs, rest) => ((key, value) :: pairs, rest)
        | _ =>
          match parse handles fuel false false ts with
          | .error fault => .error fault
          | .ok (key, rest) =>
            (flowPairs handles fuel false rest).map fun (pairs, rest) =>
              ((key, missing none none) :: pairs, rest)

end

/-- The node at the start of the tokens, and the tokens behind it. -/
def ofTokens (handles : Handles) (ts : List Token) : Scan (Node String × List Token) :=
  parse handles (4 * ts.length + 4) true false ts

end Node

end Redeclare.Yaml
