import Redeclare.Proofs.Settings.OfTree
import Redeclare.Settings.Load

/-!
# What a file sets

The settings of a file by the nodes of its document.  `Document.Yields` is the
tree of settings that a node stands for; the keys of a mapping are put in order,
and of several values of a key the last one counts (`Document.LastValue`).

* `yields_of_run_settingOfNode` takes a reading of a node apart.
* `LastValue.exists_yields` and `exists_lastValue` relate the entry of a key to
  the pairs of a mapping.
* `forall₂_of_readSettings` puts the text, its document and the pairs of the root
  together.
-/

namespace Redeclare.Yaml

namespace Document

/-- The tree of settings that a node stands for. -/
inductive Yields (d : Document) : Node Nat → SettingTree → Prop where
  | scalar {node : Node Nat} {anchor : Option Nat} {tag : Option String} {text : String}
      {style : Style} {leaf : Leaf} (h : d.Resolves node (.scalar anchor tag text style))
      (hleaf : scalarLeaf tag text style = .ok leaf) : Yields d node (.leaf .file leaf)
  | sequence {node : Node Nat} {anchor : Option Nat} {tag : Option String}
      {items : List (Node Nat)} {trees : List SettingTree}
      (h : d.Resolves node (.sequence anchor tag items))
      (hitems : List.Forall₂ (Yields d) items trees) : Yields d node (.list .file trees)
  | mapping {node : Node Nat} {anchor : Option Nat} {tag : Option String}
      {pairs : List (Node Nat × Node Nat)} {entries : List (String × SettingTree)}
      (h : d.Resolves node (.mapping anchor tag pairs))
      (hkeys : List.Forall₂ d.IsKey (pairs.map Prod.fst) (entries.map Prod.fst))
      (hvalues : List.Forall₂ (Yields d) (pairs.map Prod.snd) (entries.map Prod.snd)) :
      Yields d node (.group .file (KeyMap.ofList entries).entries)

/-- A pair of a mapping stands for an entry. -/
def YieldsEntry (d : Document) (pair : Node Nat × Node Nat) (entry : String × SettingTree) : Prop :=
  d.IsKey pair.1 entry.1 ∧ d.Yields pair.2 entry.2

/-- The pairs have this value for a key; later values of the key count, not earlier ones. -/
inductive LastValue (d : Document) : List (Node Nat × Node Nat) → String → Node Nat → Prop where
  | here {pairs : List (Node Nat × Node Nat)} {k content : Node Nat} {key : String}
      (h : d.IsKey k key) (hlast : ∀ p ∈ pairs, ¬d.IsKey p.1 key) :
      LastValue d ((k, content) :: pairs) key content
  | there {pairs : List (Node Nat × Node Nat)} {p : Node Nat × Node Nat} {content : Node Nat}
      {key : String} (h : LastValue d pairs key content) : LastValue d (p :: pairs) key content

variable {d : Document} {jumps jumps' : Nat}

/-! ## Readings of nodes -/

theorem forall₂_yieldsEntry_iff {pairs : List (Node Nat × Node Nat)}
    {entries : List (String × SettingTree)} : List.Forall₂ d.YieldsEntry pairs entries ↔
      List.Forall₂ d.IsKey (pairs.map Prod.fst) (entries.map Prod.fst) ∧
        List.Forall₂ d.Yields (pairs.map Prod.snd) (entries.map Prod.snd) := by
  simp only [List.forall₂_map_left_iff, List.forall₂_map_right_iff]
  constructor
  · intro h
    exact ⟨h.imp fun _ _ => And.left, h.imp fun _ _ => And.right⟩
  · rintro ⟨hkeys, hvalues⟩
    exact hkeys.mp (fun _ _ => And.intro) hvalues

/-- A pair is read as the entry that it stands for, if its value is read as a tree that this
stands for. -/
theorem yieldsEntry_of_run {depth : Nat} {p : Place} {pair : Node Nat × Node Nat}
    {entry : String × SettingTree}
    (hvalue : ∀ {jumps jumps' path tree},
      (settingOfNode d depth path pair.2).run jumps = .ok (tree, jumps') → d.Yields pair.2 tree)
    (h : (do
      let key ← Place.readText .string anyText ⟨d, p.path, depth, pair.1⟩
      let tree ← settingOfNode d depth (p.valuePath pair.1) pair.2
      return (key, tree) : ReadM (String × SettingTree)).run jumps = .ok (entry, jumps')) :
    d.YieldsEntry pair entry := by
  obtain ⟨key, between, hkey, h⟩ := run_bind_eq_ok_iff.mp h
  obtain ⟨tree, after, htree, h⟩ := run_bind_eq_ok_iff.mp h
  obtain ⟨rfl, rfl⟩ := run_pure_eq_ok_iff.mp h
  exact ⟨Place.isKey_of_run_readText hkey, hvalue htree⟩

theorem yields_of_run_settingOfNode {depth jumps jumps' : Nat} {path : Path} {node : Node Nat}
    {tree : SettingTree} (h : (settingOfNode d depth path node).run jumps = .ok (tree, jumps')) :
    d.Yields node tree := by
  unfold settingOfNode at h
  rw [run_locate_eq_ok_iff, run_bind_eq_ok_iff] at h
  obtain ⟨target, between, hfollow, h⟩ := h
  have hnode : d.Resolves node target := resolves_of_run_follow hfollow
  match target with
  | .alias number => exact absurd h run_refuse_ne_ok
  | .scalar anchor tag text style =>
    dsimp only at h
    split_ifs at h
    · exact absurd h run_refuse_ne_ok
    · obtain ⟨leaf, hleaf, rfl⟩ := run_map_eq_ok_iff.mp h
      exact .scalar hnode (run_ofExcept_eq_ok_iff.mp hleaf).1
  | .sequence anchor tag items =>
    dsimp only at h
    split_ifs at h
    · exact absurd h run_refuse_ne_ok
    · cases depth with
      | zero => exact absurd h run_refuse_ne_ok
      | succ depth =>
        obtain ⟨trees, htrees, rfl⟩ := run_map_eq_ok_iff.mp h
        refine .sequence hnode ((Place.forall₂_of_run_mapM_itemPlaces htrees).imp ?_)
        rintro item tree ⟨path, before, after, hitem⟩
        exact yields_of_run_settingOfNode hitem
  | .mapping anchor tag pairs =>
    dsimp only at h
    split_ifs at h
    · exact absurd h run_refuse_ne_ok
    · cases depth with
      | zero => exact absurd h run_refuse_ne_ok
      | succ depth =>
        obtain ⟨entries, after, hentries, h⟩ := run_bind_eq_ok_iff.mp h
        obtain ⟨rfl, rfl⟩ := run_pure_eq_ok_iff.mp h
        have hpairs : List.Forall₂ d.YieldsEntry pairs entries := by
          refine (List.forall₂_map_left_iff.mp (forall₂_of_run_mapM hentries)).imp ?_
          rintro pair entry ⟨before, after, hpair⟩
          exact yieldsEntry_of_run yields_of_run_settingOfNode hpair
        obtain ⟨hkeys, hvalues⟩ := forall₂_yieldsEntry_iff.mp hpairs
        exact .mapping hnode hkeys hvalues

theorem Yields.exists_entries {node : Node Nat} {tree : SettingTree} {anchor : Option Nat}
    {tag : Option String} {pairs : List (Node Nat × Node Nat)}
    (h : d.Yields node tree) (hnode : d.Resolves node (.mapping anchor tag pairs)) :
    ∃ entries, List.Forall₂ d.YieldsEntry pairs entries ∧
      tree = .group .file (KeyMap.ofList entries).entries := by
  cases h with
  | scalar h _ => exact nomatch h.unique hnode
  | sequence h _ => exact nomatch h.unique hnode
  | @mapping _ anchor' tag' pairs' entries h hkeys hvalues =>
    obtain ⟨-, -, rfl⟩ := Node.mapping.inj (h.unique hnode)
    exact ⟨entries, forall₂_yieldsEntry_iff.mpr ⟨hkeys, hvalues⟩, rfl⟩

theorem Yields.exists_items {node : Node Nat} {tree : SettingTree} {anchor : Option Nat}
    {tag : Option String} {items : List (Node Nat)} (h : d.Yields node tree)
    (hnode : d.Resolves node (.sequence anchor tag items)) :
    ∃ trees, List.Forall₂ d.Yields items trees ∧ tree = .list .file trees := by
  cases h with
  | scalar h _ => exact nomatch h.unique hnode
  | @sequence _ anchor' tag' items' trees h hitems =>
    obtain ⟨-, -, rfl⟩ := Node.sequence.inj (h.unique hnode)
    exact ⟨trees, hitems, rfl⟩
  | mapping h _ _ => exact nomatch h.unique hnode

theorem Yields.exists_mapping {node : Node Nat} {origin : Origin}
    {settings : List (String × SettingTree)} (h : d.Yields node (.group origin settings)) :
    ∃ anchor tag pairs entries, d.Resolves node (.mapping anchor tag pairs) ∧
      List.Forall₂ d.YieldsEntry pairs entries ∧ settings = (KeyMap.ofList entries).entries := by
  cases h with
  | mapping h hkeys hvalues =>
    exact ⟨_, _, _, _, h, forall₂_yieldsEntry_iff.mpr ⟨hkeys, hvalues⟩, rfl⟩

theorem Yields.exists_sequence {node : Node Nat} {origin : Origin} {trees : List SettingTree}
    (h : d.Yields node (.list origin trees)) :
    ∃ anchor tag items, d.Resolves node (.sequence anchor tag items) ∧
      List.Forall₂ d.Yields items trees := by
  cases h with
  | sequence h hitems => exact ⟨_, _, _, h, hitems⟩

/-- A scalar that is a text keeps its text. -/
theorem text_of_scalarLeaf {tag : Option String} {text s : String} {style : Style}
    (h : scalarLeaf tag text style = .ok (.text s)) : s = text := by
  unfold scalarLeaf at h
  split at h
  case h_4 =>
    split_ifs at h
    · exact nomatch h
    · exact nomatch h
  case h_6 => exact (Leaf.text.inj (Except.ok.inj h)).symm
  all_goals exact nomatch h

/-! ## Values of keys -/

theorem LastValue.mem {pairs : List (Node Nat × Node Nat)} {key : String} {content : Node Nat}
    (h : d.LastValue pairs key content) : ∃ k, (k, content) ∈ pairs ∧ d.IsKey k key := by
  induction h with
  | here h _ => exact ⟨_, List.mem_cons_self, h⟩
  | there _ ih =>
    obtain ⟨k, hmem, hk⟩ := ih
    exact ⟨k, List.mem_cons_of_mem _ hmem, hk⟩

section Entries

variable {pairs : List (Node Nat × Node Nat)} {entries : List (String × SettingTree)} {key : String}

theorem lookup_reverse_eq_none_iff (h : List.Forall₂ d.YieldsEntry pairs entries) :
    entries.reverse.lookup key = none ↔ ∀ p ∈ pairs, ¬d.IsKey p.1 key := by
  induction h with
  | nil => simp
  | @cons p e pairs entries hhead htail ih =>
    have hkey : ¬d.IsKey p.1 key ↔ key ≠ e.1 := by
      refine not_congr ⟨fun h => h.unique hhead.1, ?_⟩
      rintro rfl
      exact hhead.1
    rw [List.reverse_cons, List.lookup_append, Option.or_eq_none_iff, ih, lookup_cons_eq_ite,
      List.forall_mem_cons, hkey, and_comm]
    simp

/-- The last pair with a key makes the entry of the key. -/
theorem LastValue.exists_yields {content : Node Nat} (hcontent : d.LastValue pairs key content)
    (h : List.Forall₂ d.YieldsEntry pairs entries) :
    ∃ tree, (KeyMap.ofList entries).entries.lookup key = some tree ∧ d.Yields content tree := by
  simp only [lookup_ofList]
  induction h with
  | nil => nomatch hcontent
  | @cons p e pairs entries hhead htail ih =>
    rw [List.reverse_cons, List.lookup_append]
    cases hcontent with
    | here hkey hlast =>
      rw [(lookup_reverse_eq_none_iff htail).mpr hlast, Option.none_or, lookup_cons_eq_ite,
        if_pos (hkey.unique hhead.1)]
      exact ⟨e.2, rfl, hhead.2⟩
    | there hlater =>
      obtain ⟨tree, htree, hyields⟩ := ih hlater
      exact ⟨tree, by rw [htree, Option.some_or], hyields⟩

/-- The entry of a key is made by the last pair with the key. -/
theorem exists_lastValue {tree : SettingTree} (h : List.Forall₂ d.YieldsEntry pairs entries)
    (htree : (KeyMap.ofList entries).entries.lookup key = some tree) :
    ∃ content, d.LastValue pairs key content ∧ d.Yields content tree := by
  rw [lookup_ofList] at htree
  induction h with
  | nil => exact nomatch htree
  | @cons p e pairs entries hhead htail ih =>
    rw [List.reverse_cons, List.lookup_append] at htree
    cases hlater : entries.reverse.lookup key with
    | some tree' =>
      rw [hlater, Option.some_or] at htree
      obtain ⟨content, hcontent, hyields⟩ := ih (hlater.trans htree)
      exact ⟨content, .there hcontent, hyields⟩
    | none =>
      rw [hlater, Option.none_or, lookup_cons_eq_ite] at htree
      split_ifs at htree with hkey
      · obtain rfl := Option.some.inj htree
        exact ⟨p.2, .here (hkey ▸ hhead.1) ((lookup_reverse_eq_none_iff htail).mp hlater), hhead.2⟩
      · exact nomatch htree

end Entries

end Document

/-! ## Files -/

/-- The pairs of the root of a document; a document without content has none. -/
def Document.RootPairs (d : Document) (pairs : List (Node Nat × Node Nat)) : Prop :=
  (∃ anchor tag, d.Resolves d.rootPlace.node (.mapping anchor tag pairs)) ∨
    ∃ node, d.Resolves d.rootPlace.node node ∧ isMissing node = true ∧ pairs = []

theorem Document.RootPairs.unique {d : Document} {pairs pairs' : List (Node Nat × Node Nat)}
    (h : d.RootPairs pairs) (h' : d.RootPairs pairs') : pairs = pairs' := by
  rcases h with ⟨anchor, tag, hroot⟩ | ⟨node, hroot, hmissing, rfl⟩
  · rcases h' with ⟨anchor', tag', hroot'⟩ | ⟨node', hroot', hmissing', -⟩
    · exact (Node.mapping.inj (hroot.unique hroot')).2.2
    · obtain rfl := hroot.unique hroot'
      exact absurd hmissing' Bool.false_ne_true
  · rcases h' with ⟨anchor', tag', hroot'⟩ | ⟨node', -, -, rfl⟩
    · obtain rfl := hroot.unique hroot'
      exact absurd hmissing Bool.false_ne_true
    · rfl

/-- The settings of a text are those of the pairs of its root. -/
theorem forall₂_of_readSettings {text : String} {settings : List (String × SettingTree)}
    (h : readSettings text = .ok settings) :
    ∃ d pairs entries, Document.read text = .ok d ∧ d.RootPairs pairs ∧
      List.Forall₂ d.YieldsEntry pairs entries ∧ settings = (KeyMap.ofList entries).entries := by
  obtain ⟨d, jumps, hd, h⟩ := readDocument_eq_ok_iff.mp h
  obtain ⟨entries, after, hentries, h⟩ := run_bind_eq_ok_iff.mp h
  obtain ⟨rfl, rfl⟩ := run_pure_eq_ok_iff.mp h
  rw [Place.readEntries, run_locate_eq_ok_iff, run_bind_eq_ok_iff] at hentries
  obtain ⟨q, between, hfollow, h⟩ := hentries
  obtain ⟨node, hnode, rfl⟩ := Place.run_follow_eq_ok_iff.mp hfollow
  obtain ⟨places, between', hpairs, hread⟩ := run_bind_eq_ok_iff.mp h
  obtain ⟨rfl, hplaces⟩ := Place.run_pairs_eq_ok_iff.mp hpairs
  have hresolves : d.Resolves d.rootPlace.node node := Document.resolves_of_run_follow hnode
  rcases hplaces with ⟨depth, anchor, tag, pairs, -, rfl, rfl⟩ | ⟨hmissing, rfl⟩
  · refine ⟨d, pairs, entries, hd, .inl ⟨anchor, tag, hresolves⟩, ?_, rfl⟩
    refine (List.forall₂_map_left_iff.mp (forall₂_of_run_mapM hread)).imp ?_
    rintro pair entry ⟨before, after, hpair⟩
    exact Document.yieldsEntry_of_run Document.yields_of_run_settingOfNode hpair
  · refine ⟨d, [], entries, hd, .inr ⟨node, hresolves, hmissing, rfl⟩, ?_, rfl⟩
    rw [List.mapM_nil] at hread
    rw [← (run_pure_eq_ok_iff.mp hread).1]
    exact .nil

end Redeclare.Yaml

namespace Redeclare.SettingsFile

open Yaml (readSettings)

variable {file : SettingsFile} {settings : List (String × SettingTree)}

/-- A file without a text has no settings. -/
theorem entries_eq_ok_iff : file.entries = .ok settings ↔
    (∃ text, file = .text text ∧ readSettings text = .ok settings) ∨
      (file = .unnamed ∨ file = .empty) ∧ settings = [] := by
  cases file with
  | text content => simp [entries, mapError_eq_ok_iff]
  | missing path => simp [entries]
  | _ => simp [entries, eq_comm]

/-- The settings of a file are in order, and so are the entries of each of its groups. -/
theorem inOrder_of_entries (h : file.entries = .ok settings) : InOrder settings ∧
    ∀ {key origin entries}, settings.lookup key = some (.group origin entries) → InOrder entries := by
  rcases entries_eq_ok_iff.mp h with ⟨text, -, htext⟩ | ⟨-, rfl⟩
  · obtain ⟨d, pairs, entries, -, -, hpairs, rfl⟩ := Yaml.forall₂_of_readSettings htext
    refine ⟨(KeyMap.ofList entries).sorted, fun hgroup => ?_⟩
    obtain ⟨content, -, hyields⟩ := Yaml.Document.exists_lastValue hpairs hgroup
    cases hyields with
    | mapping _ _ _ => exact KeyMap.sorted _
  · exact ⟨.nil, nofun⟩

end Redeclare.SettingsFile

namespace Redeclare.Settings

open SettingTree (layerEntries)

theorem load_eq_ok_iff {file : SettingsFile} {env : List (String × String)} {s : Settings} :
    load file env = .ok s ↔ ∃ lower, file.entries = .ok lower ∧
      ofEntries (layerEntries lower (Environment.settings env)) = .ok s := by
  rw [load, bind_eq_ok_iff]
  simp only [mapError_eq_ok_iff]

/-- Without variables the settings of a file count. -/
theorem stated_of_load {file : SettingsFile} {s : Settings} (h : load file [] = .ok s) :
    ∃ lower, file.entries = .ok lower ∧
      Stated Plan.ofTree .noop (lower.lookup "transformer") s.plan ∧
      Stated OutputSettings.ofTree {} (lower.lookup "output") s.output := by
  obtain ⟨lower, hlower, hsettings⟩ := load_eq_ok_iff.mp h
  have hempty : layerEntries lower (Environment.settings []) = lower := by
    rw [Environment.settings, List.foldl_nil, layerEntries]
  rw [hempty, ofEntries_eq_ok_iff (SettingsFile.inOrder_of_entries hlower).1] at hsettings
  exact ⟨lower, hlower, hsettings⟩

end Redeclare.Settings
