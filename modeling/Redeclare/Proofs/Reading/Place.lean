import Redeclare.Proofs.Reading.Form
import Redeclare.Proofs.Reading.Run
import Redeclare.Proofs.Yaml.JsonDocument
import Redeclare.Proofs.Yaml.Scalar

/-!
# Reading JSON in a YAML document

Written forms read back from the document of their JSON text as they do from
buffered values.

* `Place.ShowsJson` says that a place holds the node of a value and is deep
  enough for it.
* `Place.exists_items` and `Place.exists_pairs` go from a place to the places of
  the parts, which show the parts of the value.
* `Place.yields_buffer_json` is the induction over the value: a place is
  buffered as the value that it shows.
-/

namespace Redeclare

open Yaml

/-- No node of a value is an alias. -/
theorem Json.follow_node (d : Document) (v : Json) : d.follow v.node = pure v.node := by
  cases v <;> rfl

/-! ## Readings that follow no alias -/

instance : YieldMonad ReadM where
  Yields read a := ∀ jumps, read.run jumps = .ok (a, jumps)
  yields_pure _ _ := rfl
  yields_bind hread hnext jumps := run_bind_eq_ok_iff.mpr ⟨_, jumps, hread jumps, hnext jumps⟩

section Readings

variable {α β : Type}

theorem yields_locate {path : Path} {read : ReadM α} {a : α} (h : Yields read a) :
    Yields (locate path read) a :=
  fun jumps => run_locate_eq_ok_iff.mpr (h jumps)

theorem yields_fmap {read : ReadM α} {a : α} (f : α → β) (h : Yields read a) :
    Yields (f <$> read) (f a) :=
  fun jumps => run_map_eq_ok_iff.mpr ⟨a, h jumps, rfl⟩

theorem yields_mapM {read : α → ReadM β} {xs : List α} {ys : List β}
    (h : List.Forall₂ (fun x y => Yields (read x) y) xs ys) : Yields (xs.mapM read) ys :=
  fun jumps => run_mapM_of_forall₂ (h.imp fun _ _ hread => hread jumps)

end Readings

/-! ## Places that show a value -/

namespace Yaml.Place

/-- The place holds the node of a value, and the value nests no deeper than collections may from
there; its numbers are integers of 64 bits. -/
structure ShowsJson (p : Place) (v : Json) : Prop where
  node : p.node = v.node
  depth : v.nesting ≤ p.depth
  numbers : v.Exact

variable {p : Place} {v : Json}

theorem yields_follow (h : p.ShowsJson v) : Yields p.follow p := by
  obtain ⟨d, path, depth, node⟩ := p
  obtain rfl : node = v.node := h.node
  have hfollow : Yields (d.follow v.node) v.node := by
    rw [Json.follow_node]
    exact yields_pure _
  exact yields_bind hfollow (yields_pure _)

theorem showsJson_itemPlaces {depth : Nat} {items : List Json} (hdepth : Json.nestingItems items ≤ depth)
    (hnumbers : Json.ExactItems items) (p : Place) (i : Nat) :
    List.Forall₂ ShowsJson (p.itemPlaces depth i (Json.nodes items)) items := by
  induction items generalizing i with
  | nil => exact .nil
  | cons item items ih =>
    rw [Json.nestingItems] at hdepth
    have hitem : item.nesting ≤ depth := by omega
    exact .cons ⟨rfl, hitem, hnumbers.1⟩ (ih (by omega) hnumbers.2 (i + 1))

theorem showsJson_pairPlaces {depth : Nat} {members : List (String × Json)}
    (hdepth : Json.nestingMembers members ≤ depth) (hnumbers : Json.ExactMembers members) (p : Place) :
    List.Forall₂ (fun pair e => pair.1.ShowsJson (.str e.1) ∧ pair.2.ShowsJson e.2)
      (p.pairPlaces depth (Json.nodePairs members)) members := by
  induction members with
  | nil => exact .nil
  | cons e members ih =>
    rw [Json.nestingMembers] at hdepth
    have hkey : Json.nesting (.str e.1) ≤ depth := Nat.zero_le depth
    have hvalue : e.2.nesting ≤ depth := by omega
    exact .cons ⟨⟨rfl, hkey, trivial⟩, rfl, hvalue, hnumbers.1⟩ (ih (by omega) hnumbers.2)

/-- The items of a place that shows an array are places that show its items. -/
theorem exists_items {items : List Json} (h : p.ShowsJson (.arr items)) :
    ∃ places, Yields p.items places ∧ List.Forall₂ ShowsJson places items := by
  obtain ⟨d, path, depth, node⟩ := p
  obtain ⟨rfl, hdepth, hnumbers⟩ := h
  cases depth with
  | zero => exact absurd hdepth (Nat.not_succ_le_zero _)
  | succ depth =>
    exact ⟨_, yields_pure _, showsJson_itemPlaces (Nat.le_of_succ_le_succ hdepth) hnumbers _ 0⟩

/-- The pairs of a place that shows an object are places that show its keys and values. -/
theorem exists_pairs {members : List (String × Json)} (expected : Expected)
    (h : p.ShowsJson (.obj members)) :
    ∃ places, Yields (p.pairs expected) places ∧
      List.Forall₂ (fun pair e => pair.1.ShowsJson (.str e.1) ∧ pair.2.ShowsJson e.2)
        places members := by
  obtain ⟨d, path, depth, node⟩ := p
  obtain ⟨rfl, hdepth, hnumbers⟩ := h
  cases depth with
  | zero => exact absurd hdepth (Nat.not_succ_le_zero _)
  | succ depth =>
    exact ⟨_, yields_pure _, showsJson_pairPlaces (Nat.le_of_succ_le_succ hdepth) hnumbers _⟩

theorem yields_readText {α : Type} {expected : Expected} {parse : String → Except Fault α} {s : String}
    {a : α} (h : p.ShowsJson (.str s)) (hparse : parse s = .ok a) :
    Yields (p.readText expected parse) a := by
  refine yields_locate (yields_bind (yields_follow h) ?_)
  rw [h.node]
  change Yields (ofExcept (parse s)) a
  rw [hparse]
  exact yields_pure a

theorem yields_readList {α : Type} {read : Place → ReadM α} {items : List Json} {as : List α}
    (h : p.ShowsJson (.arr items))
    (hread : List.Forall₂ (fun item a => ∀ q : Place, q.ShowsJson item → Yields (read q) a) items as) :
    Yields (p.readList read) as := by
  obtain ⟨places, hplaces, hshow⟩ := exists_items h
  refine yields_locate (yields_bind (yields_follow h) (yields_bind hplaces (yields_mapM ?_)))
  exact (forall₂_comp hshow hread).imp fun q _ ⟨_, hq, ha⟩ => ha q hq

theorem yields_readEntries {α : Type} {read : Place → ReadM α} {members : List (String × Json)}
    {entries : List (String × α)} (h : p.ShowsJson (.obj members))
    (hread : List.Forall₂ (fun e e' => e.1 = e'.1 ∧
      ∀ q : Place, q.ShowsJson e.2 → Yields (read q) e'.2) members entries) :
    Yields (p.readEntries read) entries := by
  obtain ⟨places, hplaces, hshow⟩ := exists_pairs .map h
  refine yields_locate (yields_bind (yields_follow h) (yields_bind hplaces (yields_mapM ?_)))
  refine (forall₂_comp hshow hread).imp ?_
  intro pair entry ⟨e, ⟨hkey, hvalue⟩, hname, ha⟩
  have htext : Yields (pair.1.readText .string anyText) e.1 := yields_readText hkey rfl
  rw [hname] at htext
  exact yields_bind htext (yields_bind (ha _ hvalue) (yields_pure _))

theorem yields_readRecord {δ α : Type} {r : RecordReader ReadM Place δ α}
    {members : List (String × Json)} {a : α} (h : p.ShowsJson (.obj members))
    (hread : ∀ {κ : Type} (fieldOf : κ → ReadM (Option String)) (pairs : List (κ × Place)),
      List.Forall₂ (fun pair e => Yields (fieldOf pair.1) (r.field? e.1) ∧ pair.2.ShowsJson e.2)
        pairs members → Yields (r.readPairs fieldOf pairs) a) :
    Yields (p.readRecord r) a := by
  obtain ⟨places, hplaces, hshow⟩ := exists_pairs (.record r.kind) h
  refine yields_locate (yields_bind (yields_follow h) (yields_bind hplaces (hread _ _ ?_)))
  exact hshow.imp fun pair e ⟨hkey, hvalue⟩ => ⟨yields_readText hkey rfl, hvalue⟩

/-- A scalar of a written form is never null: an empty text is in quotes, and no other scalar of a
form is written as nothing. -/
theorem yields_readOption {α : Type} {read : Place → ReadM α} {form : Form} {a : α}
    (h : p.ShowsJson form.toJson) (hread : Yields (read p) a) :
    Yields (p.readOption read) (some a) := by
  refine yields_bind (yields_follow h) ?_
  have hsome : Yields (some <$> read p) (some a) := yields_fmap some hread
  have hnode := h.node
  cases form with
  | bool b =>
    rw [hnode]
    have htext : ((toString b).isEmpty || isNull (toString b)) = false := by cases b <;> decide
    change Yields (if (toString b).isEmpty || isNull (toString b) then pure none else _) _
    rw [htext]
    exact hsome
  | int n =>
    rw [hnode]
    obtain ⟨c, cs, htext, hc⟩ := exists_toList_toString_eq_cons n
    have hempty : (toString n).isEmpty = false := by
      cases hs : (toString n).isEmpty with
      | false => rfl
      | true => simp [String.isEmpty_iff.mp hs] at htext
    have hnull := (not_word_of_head (s := toString n) (by rw [htext]; rfl) hc).1
    change Yields (if (toString n).isEmpty || isNull (toString n) then pure none else _) _
    rw [hempty, hnull]
    exact hsome
  | _ =>
    rw [hnode]
    exact hsome

/-! ## Buffered places -/

theorem yields_bufferScalar_plain {text : String} {value : Value} (htext : plainValue text = value)
    (hword : ∀ n, value = .int n → isWord n = true) :
    Yields (bufferScalar none text .plain) value := by
  have hscalar : scalarValue none text .plain = .ok value := by
    rw [← htext]
    rfl
  rw [bufferScalar, hscalar]
  cases value with
  | int n =>
    change Yields (if isWord n then pure _ else _) _
    rw [hword n rfl]
    exact yields_pure _
  | _ => exact yields_pure _

/-- A node that is no collection is buffered as a scalar. -/
theorem yields_bufferNode_scalar {d : Document} {depth : Nat} {path : Path} {text : String}
    {style : Style} {value : Value} (h : Yields (bufferScalar none text style) value) :
    Yields (bufferNode d depth path (.scalar none none text style)) value := by
  rw [bufferNode.eq_def]
  exact yields_locate (yields_bind (yields_pure _) h)

mutual

/-- A value is buffered as itself, wherever it stands. -/
theorem yields_bufferNode (d : Document) : ∀ (v : Json) {depth : Nat} (path : Path),
    v.nesting ≤ depth → v.Exact → Yields (bufferNode d depth path v.node) v.toValue
  | .null, _, _, _, _ => yields_bufferNode_scalar (yields_bufferScalar_plain rfl nofun)
  | .bool true, _, _, _, _ => yields_bufferNode_scalar (yields_bufferScalar_plain rfl nofun)
  | .bool false, _, _, _, _ => yields_bufferNode_scalar (yields_bufferScalar_plain rfl nofun)
  | .int n, _, _, _, ⟨hlow, hhigh⟩ => by
    refine yields_bufferNode_scalar (yields_bufferScalar_plain (plainValue_toString hlow hhigh) ?_)
    intro k hk
    obtain rfl := Value.int.inj hk
    simp [isWord, hlow, hhigh]
  | .float _, _, _, _, hnumbers => hnumbers.elim
  | .str s, _, _, _, _ => yields_bufferNode_scalar (yields_pure (Value.str s))
  | .arr items, 0, _, hdepth, _ => absurd hdepth (Nat.not_succ_le_zero _)
  | .arr items, depth + 1, path, hdepth, hnumbers => by
    have hitems := yields_bufferNodes d items (Nat.le_of_succ_le_succ hdepth) hnumbers
    rw [Json.node, bufferNode.eq_def]
    refine yields_locate (yields_bind (yields_pure _) (yields_fmap Value.seq fun jumps => ?_))
    exact run_mapM_itemPlaces_of_forall₂ (hitems.imp fun _ _ hitem path => hitem path jumps)
  | .obj members, 0, _, hdepth, _ => absurd hdepth (Nat.not_succ_le_zero _)
  | .obj members, depth + 1, path, hdepth, hnumbers => by
    have hmembers := yields_bufferNodePairs d members (Nat.le_of_succ_le_succ hdepth) hnumbers
    rw [Json.node, bufferNode.eq_def]
    refine yields_locate (yields_bind (yields_pure _) (yields_fmap Value.map (yields_mapM ?_)))
    refine List.forall₂_map_left_iff.mpr (hmembers.imp ?_)
    exact fun _ _ ⟨hkey, hvalue⟩ =>
      yields_bind (hkey _) (yields_bind (hvalue _) (yields_pure _))

theorem yields_bufferNodes (d : Document) : ∀ (items : List Json) {depth : Nat},
    Json.nestingItems items ≤ depth → Json.ExactItems items →
    List.Forall₂ (fun node value => ∀ path, Yields (bufferNode d depth path node) value)
      (Json.nodes items) (Json.toValues items)
  | [], _, _, _ => .nil
  | item :: items, depth, hdepth, hnumbers => by
    rw [Json.nestingItems] at hdepth
    have hitem : item.nesting ≤ depth := by omega
    have hitems : Json.nestingItems items ≤ depth := by omega
    exact .cons (fun path => yields_bufferNode d item path hitem hnumbers.1)
      (yields_bufferNodes d items hitems hnumbers.2)

theorem yields_bufferNodePairs (d : Document) : ∀ (members : List (String × Json)) {depth : Nat},
    Json.nestingMembers members ≤ depth → Json.ExactMembers members →
    List.Forall₂ (fun nodes values =>
      (∀ path, Yields (bufferNode d depth path nodes.1) values.1) ∧
        ∀ path, Yields (bufferNode d depth path nodes.2) values.2)
      (Json.nodePairs members) (Json.toPairs members)
  | [], _, _, _ => .nil
  | (key, value) :: members, depth, hdepth, hnumbers => by
    rw [Json.nestingMembers] at hdepth
    have hvalue : value.nesting ≤ depth := by omega
    have hmembers : Json.nestingMembers members ≤ depth := by omega
    refine .cons ⟨fun path => ?_, fun path => yields_bufferNode d value path hvalue hnumbers.1⟩
      (yields_bufferNodePairs d members hmembers hnumbers.2)
    exact yields_bufferNode_scalar (yields_pure (Value.str key))

end

/-- A place is buffered as the value that it shows. -/
theorem yields_buffer_json (h : p.ShowsJson v) : Yields p.buffer v.toValue := by
  rw [buffer, h.node]
  exact yields_bufferNode p.document v p.path h.depth h.numbers

end Yaml.Place

/-! ## Written forms in a document -/

theorem Form.showsJson_items {p : Place} {forms : List Form} (h : p.ShowsJson (Form.list forms).toJson) :
    p.ShowsJson (.arr (forms.map Form.toJson)) := by
  rwa [Form.toJson, Form.toJsons_eq_map] at h

theorem Form.showsJson_members {p : Place} {fields : List (String × Form)}
    (h : p.ShowsJson (Form.record fields).toJson) :
    p.ShowsJson (.obj (fields.map fun e => (e.1, e.2.toJson))) := by
  rwa [Form.toJson, Form.toMembers_eq_map] at h

/-- A place of a YAML document shows a form if it holds the node that the form is in JSON. -/
instance : FormSource Place ReadM where
  Shows p form := p.ShowsJson form.toJson
  yields_text := Place.yields_readText
  yields_option := Place.yields_readOption
  yields_list h hread :=
    Place.yields_readList (Form.showsJson_items h) (List.forall₂_map_left_iff.mpr hread)
  yields_entries h hread :=
    Place.yields_readEntries (Form.showsJson_members h) (List.forall₂_map_left_iff.mpr hread)
  yields_record h hread :=
    Place.yields_readRecord (Form.showsJson_members h) fun fieldOf pairs hpairs =>
      hread fieldOf pairs (List.forall₂_map_right_iff.mp hpairs)
  yields_buffer := Place.yields_buffer_json

end Redeclare
