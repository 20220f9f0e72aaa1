import Redeclare.Proofs.Yaml.JsonTokens
import Redeclare.Yaml.Document

/-!
# JSON texts as YAML documents

A JSON text is a YAML document of flow collections, whose strings and keys are
in double quotes and whose other scalars are plain.

* `Json.node` is the node that a JSON value is in a document.
* `parse_tokens` reads the node off the tokens of a value; `number_node` says
  that there is nothing to number in it.
* `presents_write` is the whole way from a value to its document.
-/

namespace Redeclare

open Yaml

namespace Json

section

variable {ν : Type}

mutual

/-- The node of a value in a YAML document: strings in double quotes, all other scalars as they are
written in JSON, and neither an anchor nor a tag. -/
def node : Json → Node ν
  | .null => .scalar none none "null" .plain
  | .bool b => .scalar none none (toString b) .plain
  | .int n => .scalar none none (toString n) .plain
  | .float x => .scalar none none (String.ofList (writeFloat x)) .plain
  | .str s => .scalar none none s .double
  | .arr items => .sequence none none (nodes items)
  | .obj members => .mapping none none (nodePairs members)

/-- The nodes of the items of an array. -/
def nodes : List Json → List (Node ν)
  | [] => []
  | item :: items => item.node :: nodes items

/-- The nodes of the keys and values of an object. -/
def nodePairs : List (String × Json) → List (Node ν × Node ν)
  | [] => []
  | (key, value) :: members => (.scalar none none key .double, value.node) :: nodePairs members

end

end

end Json

namespace Yaml

open Json

/-- A text is a document that holds a JSON value: its strings are in double quotes, its other scalars
plain. -/
def Presents (text : String) (v : Json) : Prop :=
  ∃ d, Document.read text = .ok d ∧ d.root = some v.node

/-! ## From tokens to nodes -/

/-- A token that a node starts with. -/
def startsNode : Token → Bool
  | .scalar .. | .flowSequence | .flowMapping => true
  | _ => false

theorem exists_tokens_eq_cons (v : Json) : ∃ t ts, v.tokens = t :: ts ∧ startsNode t = true := by
  cases v with
  | arr items => cases items <;> exact ⟨_, _, rfl, rfl⟩
  | obj members => cases members <;> exact ⟨_, _, rfl, rfl⟩
  | _ => exact ⟨_, _, rfl, rfl⟩

theorem length_tokens_pos (v : Json) : 0 < v.tokens.length := by
  obtain ⟨t, ts, htokens, -⟩ := exists_tokens_eq_cons v
  rw [htokens]
  exact Nat.succ_pos _

/-- What stands in front of an item or a member. -/
def separator : Bool → List Token
  | true => []
  | false => [.flowEntry]

namespace Node

variable {handles : Handles} {fuel : Nat} {ts rest : List Token} {node : Node String}

theorem parse_scalar (block indentless : Bool) (text : List Char) (style : Style)
    (rest : List Token) :
    parse handles (fuel + 1) block indentless (.scalar text style :: rest) =
      .ok (.scalar none none (String.ofList text) style, rest) :=
  rfl

/-- One item of a sequence in brackets. -/
theorem flowItems_item (isFirst : Bool) {t : Token} (ht : startsNode t = true)
    (hparse : parse handles fuel false false (t :: ts) = .ok (node, rest)) :
    flowItems handles (fuel + 1) isFirst (separator isFirst ++ t :: ts) =
      (flowItems handles fuel false rest).map fun (items, rest) => (node :: items, rest) := by
  cases isFirst <;> cases t <;>
    first | exact Bool.noConfusion ht | simp [flowItems, separator, hparse]

/-- One pair of a mapping in braces whose key is in double quotes. -/
theorem flowPairs_pair (isFirst : Bool) (name : List Char) {t : Token} (ht : startsNode t = true)
    (hparse : parse handles (fuel + 1) false false (t :: ts) = .ok (node, rest)) :
    flowPairs handles (fuel + 2) isFirst
        (separator isFirst ++ .key :: .scalar name .double :: .value :: t :: ts) =
      (flowPairs handles (fuel + 1) false rest).map fun (pairs, rest) =>
        ((.scalar none none (String.ofList name) .double, node) :: pairs, rest) := by
  have hend : endsFlowPair .flowMappingEnd (t :: ts) = false := by
    cases t <;> first | exact Bool.noConfusion ht | rfl
  have hkey : endsFlowPair .flowMappingEnd (.scalar name .double :: .value :: t :: ts) = false := rfl
  cases isFirst <;> simp [flowPairs, separator, hparse, parse_scalar, hkey, hend]

mutual

/-- The tokens of a value are parsed as its node. -/
theorem parse_tokens : ∀ (v : Json) (fuel : Nat) (block indentless : Bool) (rest : List Token),
    v.tokens.length ≤ fuel →
    parse handles fuel block indentless (v.tokens ++ rest) = .ok (v.node, rest)
  | v, 0, _, _, _, hfuel => absurd hfuel (Nat.not_le_of_lt (length_tokens_pos v))
  | .null, _ + 1, _, _, _, _ => rfl
  | .bool b, _ + 1, _, _, _, _ => by
    rw [tokens, node, List.singleton_append, parse_scalar, String.ofList_toList]
  | .int n, _ + 1, _, _, _, _ => by
    rw [tokens, node, List.singleton_append, parse_scalar, String.ofList_toList]
  | .float x, _ + 1, _, _, _, _ => rfl
  | .str s, _ + 1, _, _, _, _ => by
    rw [tokens, node, List.singleton_append, parse_scalar, String.ofList_toList]
  | .arr [], fuel + 1, _, _, _, hfuel => by
    obtain ⟨fuel, rfl⟩ : ∃ k, fuel = k + 1 := ⟨fuel - 1, by simp [tokens] at hfuel; omega⟩
    rfl
  | .arr (item :: items), fuel + 1, block, indentless, rest, hfuel => by
    have htext : (Json.arr (item :: items)).tokens ++ rest = .flowSequence ::
        (item.tokens ++ (itemTokens items ++ .flowSequenceEnd :: rest)) := by
      simp [tokens]
    have hlength : item.tokens.length + (itemTokens items).length + 1 ≤ fuel := by
      simp [tokens] at hfuel
      omega
    have hpos := length_tokens_pos item
    obtain ⟨fuel, rfl⟩ : ∃ k, fuel = k + 1 := ⟨fuel - 1, by omega⟩
    obtain ⟨t, ts, htokens, ht⟩ := exists_tokens_eq_cons item
    have hitem := parse_tokens item fuel false false
      (itemTokens items ++ .flowSequenceEnd :: rest) (by omega)
    have hitems := flowItems_tokens items fuel rest (by omega)
    rw [htokens, List.cons_append] at hitem
    have hfirst := flowItems_item true ht hitem
    rw [separator, List.nil_append, hitems] at hfirst
    rw [htext, htokens, List.cons_append]
    change (flowItems handles (fuel + 1) true _).map _ = _
    rw [hfirst]
    rfl
  | .obj [], fuel + 1, _, _, _, hfuel => by
    obtain ⟨fuel, rfl⟩ : ∃ k, fuel = k + 1 := ⟨fuel - 1, by simp [tokens] at hfuel; omega⟩
    rfl
  | .obj ((name, value) :: members), fuel + 1, _, _, rest, hfuel => by
    have htext : (Json.obj ((name, value) :: members)).tokens ++ rest = .flowMapping ::
        .key :: .scalar name.toList .double :: .value ::
          (value.tokens ++ (memberTokens members ++ .flowMappingEnd :: rest)) := by
      simp [tokens]
    have hlength : value.tokens.length + (memberTokens members).length + 4 ≤ fuel := by
      simp [tokens] at hfuel
      omega
    obtain ⟨fuel, rfl⟩ : ∃ k, fuel = k + 2 := ⟨fuel - 2, by omega⟩
    obtain ⟨t, ts, htokens, ht⟩ := exists_tokens_eq_cons value
    have hvalue := parse_tokens value (fuel + 1) false false
      (memberTokens members ++ .flowMappingEnd :: rest) (by omega)
    have hmembers := flowPairs_tokens members (fuel + 1) rest (by omega)
    rw [htokens, List.cons_append] at hvalue
    have hfirst := flowPairs_pair true name.toList ht hvalue
    rw [separator, List.nil_append, hmembers, String.ofList_toList] at hfirst
    rw [htext, htokens, List.cons_append]
    change (flowPairs handles (fuel + 2) true _).map _ = _
    rw [hfirst]
    rfl

theorem flowItems_tokens : ∀ (items : List Json) (fuel : Nat) (rest : List Token),
    (itemTokens items).length < fuel →
    flowItems handles fuel false (itemTokens items ++ .flowSequenceEnd :: rest) =
      .ok (nodes items, rest)
  | [], _ + 1, _, _ => rfl
  | item :: items, fuel + 1, rest, hfuel => by
    have hlength : item.tokens.length + (itemTokens items).length + 1 ≤ fuel := by
      simp [itemTokens] at hfuel
      omega
    have hpos := length_tokens_pos item
    obtain ⟨t, ts, htokens, ht⟩ := exists_tokens_eq_cons item
    have hitem := parse_tokens item fuel false false
      (itemTokens items ++ .flowSequenceEnd :: rest) (by omega)
    have hitems := flowItems_tokens items fuel rest (by omega)
    rw [htokens, List.cons_append] at hitem
    have hnext := flowItems_item false ht hitem
    rw [hitems] at hnext
    rw [itemTokens, List.cons_append, List.cons_append, List.append_assoc, htokens, List.cons_append]
    exact hnext

theorem flowPairs_tokens : ∀ (members : List (String × Json)) (fuel : Nat) (rest : List Token),
    (memberTokens members).length < fuel →
    flowPairs handles fuel false (memberTokens members ++ .flowMappingEnd :: rest) =
      .ok (nodePairs members, rest)
  | [], _ + 1, _, _ => rfl
  | (name, value) :: members, fuel + 1, rest, hfuel => by
    have hlength : value.tokens.length + (memberTokens members).length + 4 ≤ fuel := by
      simp [memberTokens] at hfuel
      omega
    obtain ⟨fuel, rfl⟩ : ∃ k, fuel = k + 1 := ⟨fuel - 1, by omega⟩
    obtain ⟨t, ts, htokens, ht⟩ := exists_tokens_eq_cons value
    have hvalue := parse_tokens value (fuel + 1) false false
      (memberTokens members ++ .flowMappingEnd :: rest) (by omega)
    have hmembers := flowPairs_tokens members (fuel + 1) rest (by omega)
    rw [htokens, List.cons_append] at hvalue
    have hnext := flowPairs_pair false name.toList ht hvalue
    rw [hmembers, String.ofList_toList] at hnext
    have htext : memberTokens ((name, value) :: members) ++ .flowMappingEnd :: rest =
        separator false ++ .key :: .scalar name.toList .double :: .value :: t ::
          (ts ++ (memberTokens members ++ .flowMappingEnd :: rest)) := by
      simp [memberTokens, separator, htokens]
    rw [htext]
    exact hnext

end

mutual

/-- The node of a value has no anchor and no alias to number. -/
theorem number_node (names : Names) : ∀ v : Json, number names v.node = .ok (v.node, names)
  | .null | .bool _ | .int _ | .float _ | .str _ => rfl
  | .arr items => by
    change (numberItems names (nodes items)).map _ = _
    rw [numberItems_nodes names items]
    rfl
  | .obj members => by
    change (numberPairs names (nodePairs members)).map _ = _
    rw [numberPairs_nodePairs names members]
    rfl

theorem numberItems_nodes (names : Names) :
    ∀ items : List Json, numberItems names (nodes items) = .ok (nodes items, names)
  | [] => rfl
  | item :: items => by
    rw [nodes, numberItems, number_node names item]
    dsimp only
    rw [numberItems_nodes names items]
    rfl

theorem numberPairs_nodePairs (names : Names) : ∀ members : List (String × Json),
    numberPairs names (nodePairs members) = .ok (nodePairs members, names)
  | [] => rfl
  | (name, value) :: members => by
    rw [nodePairs, numberPairs, number, declare]
    dsimp only
    rw [number_node names value]
    dsimp only
    rw [numberPairs_nodePairs names members]
    rfl

end

end Node

/-! ## Whole texts -/

theorem Document.ofNode_node (v : Json) :
    ofNode v.node = .ok { root := some v.node, anchors := v.node.anchored, size := v.node.size } := by
  rw [ofNode, Node.number_node]

/-- The tokens of a value are a document of their own. -/
theorem Document.ofTokens_tokens (v : Json) : ofTokens v.tokens = ofNode v.node := by
  obtain ⟨t, ts, htokens, ht⟩ := exists_tokens_eq_cons v
  have hparse : Node.ofTokens Node.defaultHandles (t :: ts) = .ok (v.node, []) := by
    have hroot : Node.ofTokens Node.defaultHandles (v.tokens ++ []) = .ok (v.node, []) := by
      rw [Node.ofTokens, Node.parse_tokens v _ true false [] (by simp; omega)]
    rwa [List.append_nil, htokens] at hroot
  rw [htokens]
  cases t <;> first | exact Bool.noConfusion ht | simp [ofTokens, directives, hparse]

/-- The text of a legible value is a document that holds the value. -/
theorem presents_write (layout : Layout) {v : Json} (hlegible : v.isLegible = true) :
    Presents (v.write layout) v := by
  have hread : Document.read (v.write layout) = Document.ofNode v.node := by
    rw [Document.read, Token.scan_write layout hlegible]
    exact Document.ofTokens_tokens v
  exact ⟨_, hread.trans (Document.ofNode_node v), rfl⟩

end Yaml

end Redeclare
