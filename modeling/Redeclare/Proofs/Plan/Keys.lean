import Redeclare.Proofs.Settings.File
import Redeclare.Proofs.Settings.OfTree
import Redeclare.Reading.Json
import Redeclare.Reading.YamlPlan

/-!
# Plans with several keys

A plan with content is a mapping whose key is the name of the variant.  What
becomes of a mapping that has other keys besides depends on the reader: JSON
values and keyed YAML texts are refused, but of a mapping in the file of the
settings the least key is taken (`Document.Governs`) and the others are passed
over.

* `Document.Reaches` are the nodes in the places of transformers, at the top or
  in chains; `Document.Overrides` are the lists of overrides written there.
* `length_eq_one_of_reaches_json` and `length_eq_one_of_reaches_keyed` are about
  the readers that refuse.
* `exists_occurs_of_overrides` and `exists_overrides_of_occurs` relate the
  overrides of a loaded plan to those of the keys that are taken.
* `several_keys` puts them together.
-/

namespace Redeclare

open Yaml

/-! ## Places of transformers -/

/-- The plan overrides by these names, itself or in one of its chains. -/
inductive Plan.Occurs (names : List ModifierName) : Plan → Prop where
  | override : Occurs names (.override names)
  | chain {p : Plan} {plans : List Plan} (hmem : p ∈ plans) (h : Occurs names p) :
      Occurs names (.chain plans)

/-- A value in the place of a transformer: the value itself, or an item of a chain in such a
place. -/
inductive Json.Reaches : Json → Json → Prop where
  | here {v : Json} : Reaches v v
  | chain {members : List (String × Json)} {items : List Json} {item target : Json}
      (hchain : ("chain", .arr items) ∈ members) (hitem : item ∈ items)
      (h : Reaches item target) : Reaches (.obj members) target

namespace Yaml.Document

/-- A choice among the pairs of a mapping: the values that count for a key. -/
abbrev Selection := List (Node Nat × Node Nat) → String → Node Nat → Prop

/-- The pairs have this value for a key, among others. -/
def HasValue (d : Document) : Selection := fun pairs key content =>
  ∃ k, (k, content) ∈ pairs ∧ d.IsKey k key

/-- The key is the least one of the pairs, and this is its value. -/
def Governs (d : Document) : Selection := fun pairs key content =>
  d.LastValue pairs key content ∧ ∀ key' content', d.HasValue pairs key' content' → key ≤ key'

/-- A node in the place of a transformer: the one that stands there, or one in the place of an item
of a chain that counts. -/
inductive Reaches (d : Document) (select : Selection) : Node Nat → Node Nat → Prop where
  | here {node target : Node Nat} (h : d.Resolves node target) : Reaches d select node target
  | chain {node content item target : Node Nat} {anchor anchor' : Option Nat}
      {tag tag' : Option String} {pairs : List (Node Nat × Node Nat)} {items : List (Node Nat)}
      (hnode : d.Resolves node (.mapping anchor tag pairs)) (hchain : select pairs "chain" content)
      (hcontent : d.Resolves content (.sequence anchor' tag' items)) (hitem : item ∈ items)
      (h : Reaches d select item target) : Reaches d select node target

/-- The content of an override in the place of a transformer. -/
def Overrides (d : Document) (select : Selection) (node content : Node Nat) : Prop :=
  ∃ anchor tag pairs, d.Reaches select node (.mapping anchor tag pairs) ∧
    select pairs "override" content

/-- The node is a named choice: its name, or a mapping whose least key is its name. -/
def Names (d : Document) (node : Node Nat) (n : ModifierName) : Prop :=
  d.IsKey node n.text ∨ ∃ anchor tag pairs content,
    d.Resolves node (.mapping anchor tag pairs) ∧ d.Governs pairs n.text content

/-- The node is a list of these named choices. -/
def Lists (d : Document) (node : Node Nat) (names : List ModifierName) : Prop :=
  ∃ anchor tag items, d.Resolves node (.sequence anchor tag items) ∧
    List.Forall₂ d.Names items names

end Yaml.Document

/-! ## Readers that refuse -/

namespace Plan

theorem ofJsons_eq_ok_iff {vs : List Json} {plans : List Plan} :
    ofJsons vs = .ok plans ↔ List.Forall₂ (fun v p => ofJson v = .ok p) vs plans := by
  induction vs generalizing plans with
  | nil =>
    rw [ofJsons, List.forall₂_nil_left_iff]
    exact ⟨fun h => (Except.ok.inj h).symm, fun h => congrArg _ h.symm⟩
  | cons v vs ih =>
    rw [ofJsons, List.forall₂_cons_left_iff]
    cases ofJson v with
    | error fault =>
      refine ⟨fun h => (nomatch h), ?_⟩
      rintro ⟨_, _, h, -⟩
      exact nomatch h
    | ok p =>
      rw [map_eq_ok_iff]
      constructor
      · rintro ⟨rest, hrest, rfl⟩
        exact ⟨p, rest, rfl, ih.mp hrest, rfl⟩
      · rintro ⟨p', rest, hp, hrest, rfl⟩
        obtain rfl := Except.ok.inj hp
        exact ⟨rest, ih.mpr hrest, rfl⟩

/-- An object that is read as a plan has one member; the items of a chain are read as plans. -/
theorem exists_eq_singleton_of_ofJson {members : List (String × Json)} {p : Plan}
    (h : ofJson (.obj members) = .ok p) : ∃ name content, members = [(name, content)] ∧
      ∀ items, name = "chain" → content = .arr items →
        ∃ plans, List.Forall₂ (fun v p => ofJson v = .ok p) items plans := by
  match members with
  | [] => exact nomatch h
  | _ :: _ :: _ => exact nomatch h
  | [(name, content)] =>
    refine ⟨name, content, rfl, ?_⟩
    rintro items rfl rfl
    obtain ⟨plans, hplans, -⟩ := map_eq_ok_iff.mp (h : (ofJsons items).map Plan.chain = .ok p)
    exact ⟨plans, ofJsons_eq_ok_iff.mp hplans⟩

/-- A JSON value that is read as a plan has one member in every place of a transformer. -/
theorem length_eq_one_of_reaches_json {v : Json} {members : List (String × Json)} {p : Plan}
    (h : v.Reaches (.obj members)) (hp : ofJson v = .ok p) : members.length = 1 := by
  generalize htarget : Json.obj members = target at h
  induction h generalizing p with
  | here =>
    subst htarget
    obtain ⟨name, content, rfl, -⟩ := exists_eq_singleton_of_ofJson hp
    rfl
  | chain hchain hitem _ ih =>
    obtain ⟨name, content, rfl, hitems⟩ := exists_eq_singleton_of_ofJson hp
    obtain ⟨rfl, rfl⟩ := Prod.mk.inj (List.mem_singleton.mp hchain)
    obtain ⟨plans, hplans⟩ := hitems _ rfl rfl
    obtain ⟨q, -, hq⟩ := exists_mem_of_forall₂ hplans hitem
    exact ih hq htarget

/-- The variant of a mapping is its first pair, and the rest of the pairs is left over. -/
theorem of_run_keyedVariant {kind : VariantKind} {place : Place} {jumps jumps' : Nat}
    {variant : Place.Variant} {rest : List (Place × Place)} {anchor : Option Nat}
    {tag : Option String} {pairs : List (Node Nat × Node Nat)}
    (hnode : place.node = .mapping anchor tag pairs)
    (h : (place.keyedVariant kind).run jumps = .ok ((variant, rest), jumps')) :
    ∃ path depth k content tail name, pairs = (k, content) :: tail ∧ place.document.IsKey k name ∧
      variant = (name, some ⟨place.document, path, depth, content⟩) ∧
      rest = place.pairPlaces depth tail := by
  obtain ⟨d, path, depth, node⟩ := place
  subst hnode
  unfold Place.keyedVariant at h
  dsimp only at h
  split_ifs at h
  · exact absurd h run_refuse_ne_ok
  · exact absurd h run_refuse_ne_ok
  · obtain ⟨places, between, hplaces, h⟩ := run_bind_eq_ok_iff.mp h
    rcases (Place.run_pairs_eq_ok_iff.mp hplaces).2 with
      ⟨depth', anchor', tag', pairs', -, heq, rfl⟩ | ⟨hmissing, -⟩
    · obtain ⟨-, -, rfl⟩ := Node.mapping.inj heq
      cases pairs with
      | nil => exact absurd h run_refuse_ne_ok
      | cons pair tail =>
        obtain ⟨name, after, hname, h⟩ := run_bind_eq_ok_iff.mp h
        obtain ⟨heq, -⟩ := run_pure_eq_ok_iff.mp h
        obtain ⟨rfl, rfl⟩ := Prod.mk.inj heq
        exact ⟨_, depth', pair.1, pair.2, tail, name, rfl, Place.isKey_of_run_readText hname, rfl,
          rfl⟩
    · exact absurd hmissing Bool.false_ne_true

/-- The content of a variant is read only if there is nothing besides. -/
theorem run_readOnly_eq_ok_iff {α : Type} {read : Place → ReadM α} {content : Place}
    {rest : List (Place × Place)} {jumps jumps' : Nat} {a : α} :
    (Place.readOnly read content rest).run jumps = .ok (a, jumps') ↔
      (read content).run jumps = .ok (a, jumps') ∧ rest = [] := by
  rw [Place.readOnly, run_bind_eq_ok_iff]
  cases rest with
  | nil =>
    constructor
    · rintro ⟨a', between, hread, h⟩
      obtain ⟨rfl, rfl⟩ := run_pure_eq_ok_iff.mp h
      exact ⟨hread, rfl⟩
    · rintro ⟨hread, -⟩
      exact ⟨a, jumps', hread, rfl⟩
  | cons pair rest =>
    constructor
    · rintro ⟨a', between, hread, h⟩
      exact absurd h run_refuse_ne_ok
    · rintro ⟨-, h⟩
      exact nomatch h

/-- A mapping that is read as a plan with keys has one pair; the items of a chain are read as
plans. -/
theorem exists_eq_singleton_of_run_readKeyedPlace {fuel jumps jumps' : Nat} {place : Place}
    {p : Plan} {anchor : Option Nat} {tag : Option String} {pairs : List (Node Nat × Node Nat)}
    (h : (readKeyedPlace (fuel + 1) place).run jumps = .ok (p, jumps'))
    (hnode : place.document.Resolves place.node (.mapping anchor tag pairs)) :
    ∃ k content name, pairs = [(k, content)] ∧ place.document.IsKey k name ∧
      (name = "chain" → ∃ path depth before after plans,
        (Place.readList (readKeyedPlace fuel) ⟨place.document, path, depth, content⟩).run before =
          .ok (plans, after)) := by
  rw [readKeyedPlace, run_locate_eq_ok_iff, run_bind_eq_ok_iff] at h
  obtain ⟨q, between, hfollow, h⟩ := h
  obtain ⟨node, hresolves, rfl⟩ := Place.run_follow_eq_ok_iff.mp hfollow
  obtain rfl := (Document.resolves_of_run_follow hresolves).unique hnode
  obtain ⟨⟨variant, rest⟩, between', hvariant, h⟩ := run_bind_eq_ok_iff.mp h
  obtain ⟨path, depth, k, content, tail, name, rfl, hk, rfl, rfl⟩ := of_run_keyedVariant rfl hvariant
  have htail : ∀ {β : Type} {read : Place → ReadM β} {q : Place} {pairs : Place} {before after b},
      (Place.readOnly read q (pairs.pairPlaces depth tail)).run before = .ok (b, after) →
        tail = [] ∧ (read q).run before = .ok (b, after) := by
    intro β read q pairs before after b h
    obtain ⟨hread, hrest⟩ := run_readOnly_eq_ok_iff.mp h
    exact ⟨List.map_eq_nil_iff.mp hrest, hread⟩
  dsimp only at h
  split at h
  · rename_i heq
    exact nomatch heq
  · exact absurd h run_refuse_ne_ok
  · rename_i content' heq
    obtain ⟨rfl, -⟩ := Prod.mk.inj heq
    obtain ⟨names, hnames, -⟩ := run_map_eq_ok_iff.mp h
    obtain ⟨rfl, -⟩ := htail hnames
    exact ⟨k, content, _, rfl, hk, fun h => absurd h (by decide)⟩
  · rename_i content' heq
    obtain ⟨rfl, hcontent⟩ := Prod.mk.inj heq
    obtain rfl := Option.some.inj hcontent
    obtain ⟨plans, hplans, -⟩ := run_map_eq_ok_iff.mp h
    obtain ⟨rfl, hread⟩ := htail hplans
    exact ⟨k, content, _, rfl, hk, fun _ => ⟨path, depth, _, _, plans, hread⟩⟩
  · exact absurd h run_refuse_ne_ok
  · exact absurd h run_refuse_ne_ok
  · exact absurd h run_refuse_ne_ok

/-- A node that is read as a plan with keys has one key in every place of a transformer. -/
theorem length_eq_one_of_reaches_keyed {fuel jumps jumps' depth : Nat} {d : Document} {path : Path}
    {node : Node Nat} {p : Plan} {anchor : Option Nat} {tag : Option String}
    {pairs : List (Node Nat × Node Nat)}
    (h : d.Reaches d.HasValue node (.mapping anchor tag pairs))
    (hp : (readKeyedPlace fuel ⟨d, path, depth, node⟩).run jumps = .ok (p, jumps')) :
    pairs.length = 1 := by
  generalize htarget : Node.mapping anchor tag pairs = target at h
  induction h generalizing fuel jumps jumps' depth path p with
  | here hnode =>
    subst htarget
    cases fuel with
    | zero => exact absurd hp run_refuse_ne_ok
    | succ fuel =>
      obtain ⟨k, content, name, rfl, -⟩ := exists_eq_singleton_of_run_readKeyedPlace hp hnode
      rfl
  | chain hnode hchain hcontent hitem _ ih =>
    cases fuel with
    | zero => exact absurd hp run_refuse_ne_ok
    | succ fuel =>
      obtain ⟨k, content, name, rfl, hk, hitems⟩ :=
        exists_eq_singleton_of_run_readKeyedPlace hp hnode
      obtain ⟨k', hmem, hk'⟩ := hchain
      obtain ⟨rfl, rfl⟩ := Prod.mk.inj (List.mem_singleton.mp hmem)
      obtain ⟨path', depth', before, after, plans, hplans⟩ := hitems (hk.unique hk')
      obtain ⟨q, -, path'', depth'', before', after', hq⟩ :=
        exists_mem_of_forall₂ (Place.forall₂_of_run_readList hplans hcontent) hitem
      exact ih hq htarget

end Plan

/-! ## Least keys -/

namespace Yaml.Document

variable {d : Document} {pairs : List (Node Nat × Node Nat)} {entries : List (String × SettingTree)}
  {key : String} {content : Node Nat} {tree : SettingTree}

theorem HasValue.lookup_ne_none (h : d.HasValue pairs key content)
    (hpairs : List.Forall₂ d.YieldsEntry pairs entries) :
    (KeyMap.ofList entries).entries.lookup key ≠ none := by
  obtain ⟨k, hmem, hk⟩ := h
  rw [lookup_ofList, ne_eq, lookup_reverse_eq_none_iff hpairs]
  intro hnone
  exact hnone _ hmem hk

/-- The first entry of a mapping is made by the least of its keys. -/
theorem exists_governs_of_cons {rest : List (String × SettingTree)}
    (hpairs : List.Forall₂ d.YieldsEntry pairs entries)
    (hcons : (KeyMap.ofList entries).entries = (key, tree) :: rest) :
    ∃ content, d.Governs pairs key content ∧ d.Yields content tree := by
  have horder : InOrder (KeyMap.ofList entries).entries := KeyMap.sorted _
  obtain ⟨hkey, hleast⟩ := horder.exists_eq_cons_iff.mp ⟨rest, hcons⟩
  obtain ⟨content, hcontent, hyields⟩ := exists_lastValue hpairs hkey
  refine ⟨content, ⟨hcontent, fun key' content' hvalue => ?_⟩, hyields⟩
  obtain ⟨tree', htree'⟩ := Option.ne_none_iff_exists'.mp (hvalue.lookup_ne_none hpairs)
  exact hleast key' tree' htree'

theorem Governs.exists_cons (h : d.Governs pairs key content)
    (hpairs : List.Forall₂ d.YieldsEntry pairs entries) :
    ∃ tree rest, (KeyMap.ofList entries).entries = (key, tree) :: rest ∧ d.Yields content tree := by
  have horder : InOrder (KeyMap.ofList entries).entries := KeyMap.sorted _
  obtain ⟨tree, htree, hyields⟩ := h.1.exists_yields hpairs
  have hleast : ∀ key' other, (KeyMap.ofList entries).entries.lookup key' = some other →
      key ≤ key' := by
    intro key' other hother
    obtain ⟨content', hcontent', -⟩ := exists_lastValue hpairs hother
    obtain ⟨k, hmem, hk⟩ := hcontent'.mem
    exact h.2 key' content' ⟨k, hmem, hk⟩
  obtain ⟨rest, hrest⟩ := horder.exists_eq_cons_iff.mpr ⟨htree, hleast⟩
  exact ⟨tree, rest, hrest, hyields⟩

/-- A mapping with one pair has one key, and that is the least one. -/
theorem HasValue.governs (h : d.HasValue pairs key content) (hlength : pairs.length = 1) :
    d.Governs pairs key content := by
  obtain ⟨pair, rfl⟩ := List.length_eq_one_iff.mp hlength
  obtain ⟨k, hmem, hk⟩ := h
  obtain rfl := List.mem_singleton.mp hmem
  refine ⟨.here hk nofun, fun key' content' ⟨k', hmem', hk'⟩ => ?_⟩
  obtain ⟨rfl, -⟩ := Prod.mk.inj (List.mem_singleton.mp hmem')
  exact hk.unique hk' ▸ Std.le_refl key

/-! ## Overrides that are taken -/

theorem names_of_nameOfTree {node : Node Nat} {n : ModifierName} (h : d.Yields node tree)
    (hname : Plan.nameOfTree tree = .ok n) : d.Names node n := by
  obtain ⟨name, hfind, hform⟩ := SettingTree.readChoice_eq_ok_iff.mp hname
  have htext : n.text = name := by simpa using List.find?_some hfind
  subst htext
  rcases hform with ⟨origin, rfl⟩ | ⟨origin, origin', rest, rfl⟩
  · cases h with
    | @scalar _ anchor tag text style leaf h hleaf =>
      obtain rfl := text_of_scalarLeaf hleaf
      exact .inl ⟨anchor, tag, style, h⟩
  · obtain ⟨anchor, tag, pairs, entries, hresolves, hpairs, hcons⟩ := h.exists_mapping
    obtain ⟨content, hgoverns, -⟩ := exists_governs_of_cons hpairs hcons.symm
    exact .inr ⟨anchor, tag, pairs, content, hresolves, hgoverns⟩

theorem lists_of_names {origin : Origin} {trees : List SettingTree} {names : List ModifierName}
    (h : d.Yields content (.list origin trees))
    (hnames : List.Forall₂ (fun t n => Plan.nameOfTree t = .ok n) trees names) :
    d.Lists content names := by
  obtain ⟨anchor, tag, items, hcontent, hitems⟩ := h.exists_sequence
  refine ⟨anchor, tag, items, hcontent, (forall₂_comp hitems hnames).imp ?_⟩
  rintro item n ⟨t, hyields, hname⟩
  exact names_of_nameOfTree hyields hname

/-- A list of overrides under keys that are taken occurs in the plan. -/
theorem exists_occurs_of_overrides {node : Node Nat} {p : Plan}
    (h : d.Overrides d.Governs node content) (hnode : d.Yields node tree)
    (hp : Plan.ofTree tree = .ok p) : ∃ names, p.Occurs names ∧ d.Lists content names := by
  obtain ⟨anchor, tag, pairs, hreaches, hgoverns⟩ := h
  -- Along the way to the mapping of the override, each tree is read as a plan.
  generalize htarget : Node.mapping anchor tag pairs = target at hreaches
  induction hreaches generalizing tree p with
  | here hresolves =>
    subst htarget
    obtain ⟨entries, hpairs, rfl⟩ := hnode.exists_entries hresolves
    obtain ⟨t, rest, hcons, hyields⟩ := hgoverns.exists_cons hpairs
    rw [hcons, Plan.ofTree_group_eq_ok_iff, Plan.contentOf_override_iff] at hp
    obtain ⟨origin, items, names, rfl, hnames, rfl⟩ := hp
    exact ⟨names, .override, lists_of_names hyields hnames⟩
  | chain hresolves hchain hcontent hitem _ ih =>
    obtain ⟨entries, hpairs, rfl⟩ := hnode.exists_entries hresolves
    obtain ⟨t, rest, hcons, hyields⟩ := hchain.exists_cons hpairs
    rw [hcons, Plan.ofTree_group_eq_ok_iff, Plan.contentOf_chain_iff] at hp
    obtain ⟨origin, trees, plans, rfl, hplans, rfl⟩ := hp
    obtain ⟨trees', htrees, heq⟩ := hyields.exists_items hcontent
    obtain ⟨-, rfl⟩ := SettingTree.list.inj heq
    obtain ⟨t, ht, hyields'⟩ := exists_mem_of_forall₂ htrees hitem
    obtain ⟨q, hq, hread⟩ := exists_mem_of_forall₂ hplans ht
    obtain ⟨names, hoccurs, hlists⟩ := ih hyields' hread htarget
    exact ⟨names, .chain hq hoccurs, hlists⟩

/-- A plan with content stands under the least key of a mapping. -/
theorem exists_governs_of_ofTree {node : Node Nat} {p : Plan} (hnode : d.Yields node tree)
    (hp : Plan.ofTree tree = .ok p) (hcontent : p ≠ .noop) :
    ∃ anchor tag pairs key content t, d.Resolves node (.mapping anchor tag pairs) ∧
      d.Governs pairs key content ∧ d.Yields content t ∧ Plan.ContentOf key t p := by
  rcases Plan.ofTree_eq_ok_iff.mp hp with ⟨origin, -, rfl⟩ | ⟨origin, key, t, rest, rfl, hof⟩
  · exact absurd rfl hcontent
  · obtain ⟨anchor, tag, pairs, entries, hresolves, hpairs, hcons⟩ := hnode.exists_mapping
    obtain ⟨content, hgoverns, hyields⟩ := exists_governs_of_cons hpairs hcons.symm
    exact ⟨anchor, tag, pairs, key, content, t, hresolves, hgoverns, hyields, hof⟩

/-- The overrides that occur in the plan are under keys that are taken. -/
theorem exists_overrides_of_occurs {node : Node Nat} {p : Plan} {names : List ModifierName}
    (h : p.Occurs names) (hnode : d.Yields node tree) (hp : Plan.ofTree tree = .ok p) :
    ∃ content, d.Overrides d.Governs node content ∧ d.Lists content names := by
  induction h generalizing node tree with
  | override =>
    obtain ⟨anchor, tag, pairs, key, content, t, hresolves, hgoverns, hyields, hof⟩ :=
      exists_governs_of_ofTree hnode hp Plan.noConfusion
    cases hof with
    | override hnames =>
      exact ⟨content, ⟨anchor, tag, pairs, .here hresolves, hgoverns⟩, lists_of_names hyields hnames⟩
  | chain hmem _ ih =>
    obtain ⟨anchor, tag, pairs, key, content, t, hresolves, hgoverns, hyields, hof⟩ :=
      exists_governs_of_ofTree hnode hp Plan.noConfusion
    cases hof with
    | @chain origin trees _ hplans =>
      obtain ⟨t, ht, hread⟩ := exists_mem_of_forall₂_right hplans hmem
      obtain ⟨anchor', tag', items, hcontent, hitems⟩ := hyields.exists_sequence
      obtain ⟨item, hitem, hyields'⟩ := exists_mem_of_forall₂_right hitems ht
      obtain ⟨content', ⟨anchor'', tag'', pairs', hreaches, hgoverns'⟩, hlists⟩ := ih hyields' hread
      have hchain : d.Reaches d.Governs node (.mapping anchor'' tag'' pairs') :=
        .chain hresolves hgoverns hcontent hitem hreaches
      exact ⟨content', ⟨anchor'', tag'', pairs', hchain, hgoverns'⟩, hlists⟩

/-- Where no mapping has a second key, all the overrides that are written are taken. -/
theorem Overrides.governs {node : Node Nat} (h : d.Overrides d.HasValue node content)
    (hsingle : ∀ anchor tag pairs, d.Reaches d.HasValue node (.mapping anchor tag pairs) →
      pairs.length = 1) : d.Overrides d.Governs node content := by
  obtain ⟨anchor, tag, pairs, hreaches, hvalue⟩ := h
  refine ⟨anchor, tag, pairs, ?_, hvalue.governs (hsingle _ _ _ hreaches)⟩
  generalize Node.mapping anchor tag pairs = target at hreaches
  induction hreaches with
  | here hresolves => exact .here hresolves
  | chain hresolves hchain hcontent hitem _ ih =>
    have hlength := hsingle _ _ _ (.here hresolves)
    refine .chain hresolves (hchain.governs hlength) hcontent hitem (ih ?_)
    intro anchor' tag' pairs' hreaches'
    exact hsingle _ _ _ (.chain hresolves hchain hcontent hitem hreaches')

end Yaml.Document

/-! ## Files -/

section Files

variable {text : String} {s : Settings}

/-- A loaded plan is that of the last value of its key, and nothing without one. -/
theorem plan_of_load (h : Settings.load (.text text) [] = .ok s) :
    ∃ d pairs, Document.read text = .ok d ∧ d.RootPairs pairs ∧
      (∀ node, d.LastValue pairs "transformer" node →
        ∃ tree, d.Yields node tree ∧ Plan.ofTree tree = .ok s.plan) ∧
      (s.plan ≠ .noop → ∃ node tree, d.LastValue pairs "transformer" node ∧ d.Yields node tree ∧
        Plan.ofTree tree = .ok s.plan) := by
  obtain ⟨lower, hlower, hplan, -⟩ := Settings.stated_of_load h
  obtain ⟨d, pairs, entries, hd, hroot, hpairs, rfl⟩ :=
    forall₂_of_readSettings (mapError_eq_ok_iff.mp hlower)
  refine ⟨d, pairs, hd, hroot, fun node hnode => ?_, fun hne => ?_⟩
  · obtain ⟨tree, htree, hyields⟩ := hnode.exists_yields hpairs
    rw [htree] at hplan
    exact ⟨tree, hyields, hplan⟩
  · cases htree : (KeyMap.ofList entries).entries.lookup "transformer" with
    | none =>
      rw [htree] at hplan
      exact absurd hplan hne
    | some tree =>
      rw [htree] at hplan
      obtain ⟨node, hnode, hyields⟩ := Document.exists_lastValue hpairs htree
      exact ⟨node, tree, hnode, hyields, hplan⟩

end Files

/-- What becomes of the places of transformers with several keys.  JSON values and keyed YAML texts
are refused.  A file is loaded: its overrides under keys that are taken occur in the plan, and no
others do; they are all of them where no mapping has a second key. -/
theorem several_keys (v : Json) (text : String) :
    (∀ members p, v.Reaches (.obj members) → Plan.ofJson v = .ok p → members.length = 1) ∧
    (∀ d anchor tag pairs p, Document.read text = .ok d →
      d.Reaches d.HasValue d.rootPlace.node (.mapping anchor tag pairs) →
        Plan.readKeyed text = .ok p → pairs.length = 1) ∧
    ∀ s, Settings.load (.text text) [] = .ok s →
      ∃ d pairs, Document.read text = .ok d ∧ d.RootPairs pairs ∧
        (∀ node content, d.LastValue pairs "transformer" node →
          d.Overrides d.Governs node content →
            ∃ names, s.plan.Occurs names ∧ d.Lists content names) ∧
        (∀ names, s.plan.Occurs names → ∃ node content, d.LastValue pairs "transformer" node ∧
          d.Overrides d.Governs node content ∧ d.Lists content names) ∧
        ∀ node, d.LastValue pairs "transformer" node →
          (∀ anchor tag pairs', d.Reaches d.HasValue node (.mapping anchor tag pairs') →
            pairs'.length = 1) →
          ∀ content, d.Overrides d.HasValue node content →
            ∃ names, s.plan.Occurs names ∧ d.Lists content names := by
  refine ⟨fun members p => Plan.length_eq_one_of_reaches_json, ?_, ?_⟩
  · intro d anchor tag pairs p hd hreaches hp
    obtain ⟨d', jumps, hd', hread⟩ := readDocument_eq_ok_iff.mp hp
    obtain rfl := Except.ok.inj (hd.symm.trans hd')
    exact Plan.length_eq_one_of_reaches_keyed hreaches hread
  · intro s hload
    obtain ⟨d, pairs, hd, hroot, hlast, hplan⟩ := plan_of_load hload
    have htaken : ∀ node content, d.LastValue pairs "transformer" node →
        d.Overrides d.Governs node content →
          ∃ names, s.plan.Occurs names ∧ d.Lists content names := by
      intro node content hnode hoverrides
      obtain ⟨tree, hyields, hread⟩ := hlast node hnode
      exact Document.exists_occurs_of_overrides hoverrides hyields hread
    refine ⟨d, pairs, hd, hroot, htaken, ?_, ?_⟩
    · intro names hoccurs
      have hne : s.plan ≠ .noop := by
        rintro heq
        rw [heq] at hoccurs
        exact nomatch hoccurs
      obtain ⟨node, tree, hnode, hyields, hread⟩ := hplan hne
      obtain ⟨content, hoverrides, hlists⟩ :=
        Document.exists_overrides_of_occurs hoccurs hyields hread
      exact ⟨node, content, hnode, hoverrides, hlists⟩
    · intro node hnode hsingle content hwritten
      exact htaken node content hnode (hwritten.governs hsingle)

/-- One override, as a JSON value, a keyed YAML text and a file. -/
theorem several_keys_of_override :
    let members : List (String × Json) := [("override", .arr [.str "final"])]
    Plan.ofJson (.obj members) = .ok (.override [.final]) ∧ members.length = 1 ∧
    Plan.readKeyed "override: [final]" = .ok (.override [.final]) ∧
    (∃ d anchor tag pairs, Document.read "override: [final]" = .ok d ∧
      d.root = some (.mapping anchor tag pairs) ∧ pairs.length = 1) ∧
    ∃ d pairs node content, Document.read "transformer: \x7boverride: [final]\x7d" = .ok d ∧
      d.RootPairs pairs ∧ d.LastValue pairs "transformer" node ∧
      d.Overrides d.Governs node content ∧ d.Lists content [.final] := by
  intro members
  obtain ⟨hmembers, hpairs, -⟩ := several_keys (.obj members) "override: [final]"
  have hjson : Plan.ofJson (.obj members) = .ok (.override [.final]) := rfl
  have hkeyed : Plan.readKeyed "override: [final]" = .ok (.override [.final]) :=
    eq_ok_of_toOption (by decide +kernel)
  refine ⟨hjson, hmembers members _ .here hjson, hkeyed, ?_, ?_⟩
  · have hread : (Document.read "override: [final]").toOption.map (·.root) = some (some (.mapping none
        none [(.scalar none none "override" .plain,
          .sequence none none [.scalar none none "final" .plain])])) := by decide +kernel
    obtain ⟨d, hd, hroot⟩ := exists_eq_ok_of_toOption_map hread
    have hreaches : d.Reaches d.HasValue d.rootPlace.node (.mapping none none
        [(.scalar none none "override" .plain,
          .sequence none none [.scalar none none "final" .plain])]) := by
      refine .here ?_
      rw [Document.rootPlace, hroot]
      rfl
    exact ⟨d, none, none, _, hd, hroot, hpairs _ _ _ _ _ hd hreaches hkeyed⟩
  · obtain ⟨-, -, hfile⟩ := several_keys .null "transformer: \x7boverride: [final]\x7d"
    have hload : Settings.load (.text "transformer: \x7boverride: [final]\x7d") [] =
        .ok { plan := .override [.final] } := eq_ok_of_toOption (by decide +kernel)
    obtain ⟨d, pairs, hd, hroot, -, hoccurs, -⟩ := hfile _ hload
    obtain ⟨node, content, hnode, hoverrides, hlists⟩ := hoccurs [.final] .override
    exact ⟨d, pairs, node, content, hd, hroot, hnode, hoverrides, hlists⟩

/-- A mapping with two keys that other readers refuse is loaded from a file, without its
override. -/
theorem load_of_two_keys :
    (Plan.ofJson (.obj [("override", .arr [.str "public"]), ("chain", .arr [])])).toOption = none ∧
    (Plan.readKeyed "override: [public]\nchain: []").toOption = none ∧
    Settings.load (.text "transformer:\n  override: [public]\n  chain: []\n") [] =
      .ok { plan := .chain [] } ∧ ∀ names, ¬(Plan.chain []).Occurs names := by
  refine ⟨rfl, by decide +kernel, eq_ok_of_toOption (by decide +kernel), ?_⟩
  rintro names (_ | ⟨hmem, -⟩)
  exact nomatch hmem

end Redeclare
