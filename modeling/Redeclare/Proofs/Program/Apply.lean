import Mathlib.Tactic.SplitIfs
import Redeclare.Program
import Redeclare.Proofs.Plan.Effect
import Redeclare.Proofs.Reading.Run

/-!
# What a run of `apply` does

A run succeeds exactly if the file holds one list of method tokens, or a
document without any content.  It then prints one method for each token, in the
order of the file; each is bound to the type, and its access flags are those of
the token under the choices of the plan.  Every other run fails and prints
nothing.

* `HoldsTokens` and `HoldsNothing` say what a file holds, by the nodes of its
  document.
* `run_mapM_eq_ok_iff` reads the items of a list one after the other, each with
  the count of aliases that the items before it leave.
* `load_eq_ok_iff` puts the file, the document and its items together.
* `transformed_compile` follows the tokens through the transformer, and
  `run_apply` the whole run.
-/

namespace Redeclare

open Yaml

/-! ## Lists of tokens -/

/-- Places that are read as tokens one after the other.  The number counts the aliases that were
followed before. -/
inductive ReadAs : List Place → Nat → List MethodToken → Prop where
  | nil {jumps : Nat} : ReadAs [] jumps []
  | cons {place : Place} {places : List Place} {token : MethodToken} {tokens : List MethodToken}
      {jumps jumps' : Nat}
      (head : (Source.record MethodToken.reader place : ReadM MethodToken).run jumps =
        .ok (token, jumps'))
      (tail : ReadAs places jumps' tokens) : ReadAs (place :: places) jumps (token :: tokens)

/-- A file that is one YAML document in UTF-8 with this root; an alias is followed. -/
def HasRoot (file : FileState) (d : Document) (node : Node Nat) (jumps : Nat) : Prop :=
  ∃ content text, file = .bytes content ∧ String.fromUTF8? content = some text ∧
    Document.read text = .ok d ∧ (d.follow d.rootPlace.node).run 0 = .ok (node, jumps)

/-- The file is one list whose items are these tokens, in order. -/
def HoldsTokens (file : FileState) (tokens : List MethodToken) : Prop :=
  ∃ d jumps anchor tag items, HasRoot file d (.sequence anchor tag items) jumps ∧
    ReadAs (d.rootPlace.itemPlaces (maxDepth - 1) 0 items) jumps tokens

/-- The file is a document without any content. -/
def HoldsNothing (file : FileState) : Prop :=
  ∃ d jumps node, HasRoot file d node jumps ∧ isMissing node = true

/-! ## Readings that go through -/

/-- Reading the places of a list is reading them one after the other. -/
theorem run_mapM_eq_ok_iff {places : List Place} {jumps : Nat} {tokens : List MethodToken} :
    (∃ jumps', (places.mapM (Source.record MethodToken.reader) : ReadM (List MethodToken)).run jumps =
      .ok (tokens, jumps')) ↔ ReadAs places jumps tokens := by
  induction places generalizing jumps tokens with
  | nil =>
    rw [List.mapM_nil]
    constructor
    · rintro ⟨jumps', h⟩
      cases h
      exact .nil
    · rintro ⟨⟩
      exact ⟨jumps, rfl⟩
  | cons place places ih =>
    rw [List.mapM_cons]
    simp only [run_bind_eq_ok_iff]
    constructor
    · rintro ⟨jumps', token, between, hhead, rest, after, htail, h⟩
      cases h
      exact .cons hhead (ih.mp ⟨_, htail⟩)
    · rintro (_ | ⟨hhead, htail⟩)
      obtain ⟨jumps', htail⟩ := ih.mpr htail
      exact ⟨jumps', _, _, hhead, _, _, htail, rfl⟩

/-! ## Files -/

theorem readAll_eq_ok_iff {text : String} {tokens : List MethodToken} :
    MethodToken.readAll text = .ok tokens ↔
      ∃ d node jumps, Document.read text = .ok d ∧
        (d.follow d.rootPlace.node).run 0 = .ok (node, jumps) ∧
        ((∃ anchor tag items, node = .sequence anchor tag items ∧
          ReadAs (d.rootPlace.itemPlaces (maxDepth - 1) 0 items) jumps tokens) ∨
          isMissing node = true ∧ tokens = []) := by
  rw [MethodToken.readAll, readDocument_eq_ok_iff]
  simp only [Place.readList, run_locate_eq_ok_iff, run_bind_eq_ok_iff, Place.follow]
  constructor
  · rintro ⟨d, after, hd, p, jumps, ⟨node, jumps', hfollow, hp⟩, places, between, hitems, hread⟩
    obtain ⟨rfl, rfl⟩ := Prod.mk.inj (Except.ok.inj hp)
    rw [Place.run_items_eq_ok_iff] at hitems
    obtain ⟨rfl, hitems⟩ := hitems
    refine ⟨d, node, jumps', hd, hfollow, ?_⟩
    rcases hitems with ⟨depth, anchor, tag, items, hdepth, rfl, rfl⟩ | ⟨hmissing, rfl⟩
    · obtain rfl := Nat.succ.inj hdepth
      rw [Place.itemPlaces_follow] at hread
      exact .inl ⟨anchor, tag, items, rfl, run_mapM_eq_ok_iff.mp ⟨after, hread⟩⟩
    · cases run_mapM_eq_ok_iff.mp ⟨after, hread⟩
      exact .inr ⟨hmissing, rfl⟩
  · rintro ⟨d, node, jumps, hd, hfollow, ⟨anchor, tag, items, rfl, hread⟩ | ⟨hmissing, rfl⟩⟩
    · obtain ⟨after, hread⟩ := run_mapM_eq_ok_iff.mpr hread
      refine ⟨d, after, hd, _, jumps, ⟨_, _, hfollow, rfl⟩, _, jumps,
        Place.run_items_eq_ok_iff.mpr ⟨rfl, .inl ⟨maxDepth - 1, anchor, tag, items, rfl, rfl, rfl⟩⟩, ?_⟩
      rw [Place.itemPlaces_follow]
      exact hread
    · exact ⟨d, jumps, hd, _, jumps, ⟨_, _, hfollow, rfl⟩, _, jumps,
        Place.run_items_eq_ok_iff.mpr ⟨rfl, .inr ⟨hmissing, rfl⟩⟩, rfl⟩

theorem text_eq_ok_iff {file : FileState} {text : String} :
    file.text = .ok text ↔ ∃ content, file = .bytes content ∧ String.fromUTF8? content = some text := by
  cases file with
  | missing => exact ⟨fun h => (nomatch h), fun ⟨_, h, _⟩ => (nomatch h)⟩
  | directory => exact ⟨fun h => (nomatch h), fun ⟨_, h, _⟩ => (nomatch h)⟩
  | bytes content =>
    rw [FileState.text]
    cases htext : String.fromUTF8? content <;> simp [htext]

/-- A text file is loaded as what its text is read as. -/
theorem load_eq_ok_iff_readAll {file : FileState} {tokens : List MethodToken} :
    MethodToken.load file = .ok tokens ↔
      ∃ text, file.text = .ok text ∧ MethodToken.readAll text = .ok tokens := by
  rw [MethodToken.load]
  cases file.text with
  | error fault => exact ⟨fun h => (nomatch h), fun ⟨_, h, _⟩ => (nomatch h)⟩
  | ok text =>
    dsimp only
    rw [MethodToken.parseAll]
    cases hread : MethodToken.readAll text <;> simp [hread, Except.mapError]

/-- A file is loaded as tokens exactly if it is one list of them; a document without any content is
loaded as none. -/
theorem load_eq_ok_iff {file : FileState} {tokens : List MethodToken} :
    MethodToken.load file = .ok tokens ↔
      HoldsTokens file tokens ∨ HoldsNothing file ∧ tokens = [] := by
  simp only [load_eq_ok_iff_readAll, text_eq_ok_iff, readAll_eq_ok_iff, HoldsTokens, HoldsNothing,
    HasRoot]
  constructor
  · rintro ⟨text, ⟨content, rfl, htext⟩, d, node, jumps, hd, hfollow,
      ⟨anchor, tag, items, rfl, hread⟩ | ⟨hmissing, rfl⟩⟩
    · exact .inl ⟨d, jumps, anchor, tag, items, ⟨content, text, rfl, htext, hd, hfollow⟩, hread⟩
    · exact .inr ⟨⟨d, jumps, node, ⟨content, text, rfl, htext, hd, hfollow⟩, hmissing⟩, rfl⟩
  · rintro (⟨d, jumps, anchor, tag, items, ⟨content, text, rfl, htext, hd, hfollow⟩, hread⟩ |
      ⟨⟨d, jumps, node, ⟨content, text, rfl, htext, hd, hfollow⟩, hmissing⟩, rfl⟩)
    · exact ⟨text, ⟨content, rfl, htext⟩, d, _, jumps, hd, hfollow,
        .inl ⟨anchor, tag, items, rfl, hread⟩⟩
    · exact ⟨text, ⟨content, rfl, htext⟩, d, node, jumps, hd, hfollow, .inr ⟨hmissing, rfl⟩⟩

/-! ## Methods -/

/-- What a plan makes of a token on a type: the access flags under its choices, nothing else. -/
def Plan.applied (p : Plan) (owner : String) (token : MethodToken) : Method :=
  ⟨⟨owner⟩, token.withModifiers
    (p.names.foldl (fun flags n => n.rule.apply flags) token.modifiers)⟩

/-- Methods that a transformer does not refuse are transformed one by one, in order. -/
theorem Transformer.transformAll_of_forall {t : Transformer} {owner : TypeName}
    {f : Method → Method} {methods : List Method}
    (h : ∀ m ∈ methods, t.transform owner m = .ok (f m)) :
    t.transformAll owner methods = .ok (methods.map f) := by
  induction methods with
  | nil => rfl
  | cons m methods ih =>
    rw [Transformer.transformAll, h m List.mem_cons_self,
      ih fun n hn => h n (List.mem_cons_of_mem _ hn)]
    rfl

/-- A method that is already bound to the type is what the plan makes of its token, whether the
transformer binds it again or leaves it alone. -/
theorem Plan.transform_compile_latent (p : Plan) (owner : String) (token : MethodToken) :
    p.compile.transform ⟨owner⟩ ⟨⟨owner⟩, token⟩ = .ok (p.applied owner token) := by
  rw [Plan.transform_compile, Plan.applied, resolve, List.foldl_map]
  split_ifs with hp
  · rw [Plan.names_eq_nil hp]
    rfl
  · rfl

namespace Program

theorem transformed_compile (p : Plan) (owner : String) (tokens : List MethodToken) :
    transformed p.compile owner tokens = .ok (tokens.map (p.applied owner)) := by
  have htransform : ∀ m ∈ tokens.map fun token => ⟨⟨owner⟩, token⟩,
      p.compile.transform ⟨owner⟩ m = .ok (p.applied owner m.token) := by
    intro m hm
    obtain ⟨token, -, rfl⟩ := List.mem_map.mp hm
    exact p.transform_compile_latent owner token
  rw [transformed, Transformer.transformAll_of_forall htransform, List.map_map]
  rfl

/-- What a run of `apply` leaves behind, by what its file is loaded as. -/
theorem apply_of_load_eq_ok {s : Surroundings} {filter : Log.Filter} {settings : Settings}
    {owner input : String} {format : Option OutputFormat} {tokens : List MethodToken}
    (h : MethodToken.load (s.file input) = .ok tokens) :
    (apply s filter settings owner input format).status = 0 ∧
      (apply s filter settings owner input format).output =
        printed settings format (tokens.map (settings.plan.applied owner)) := by
  simp only [apply, Plan.compileChecked_eq, h, transformed_compile, and_self]

theorem apply_of_load_ne_ok {s : Surroundings} {filter : Log.Filter} {settings : Settings}
    {owner input : String} {format : Option OutputFormat}
    (h : ∀ tokens, MethodToken.load (s.file input) ≠ .ok tokens) :
    (apply s filter settings owner input format).status = 1 ∧
      (apply s filter settings owner input format).output = "" := by
  cases hload : MethodToken.load (s.file input) with
  | error e => simp only [apply, Plan.compileChecked_eq, hload, and_self]
  | ok tokens => exact absurd hload (h tokens)

theorem run_eq_apply {s : Surroundings} {args : List String} {i : Invocation} {settings : Settings}
    {owner input : String} {format : Option OutputFormat}
    (hargs : CommandLine.read s.environment args = .ok i)
    (hcommand : i.command = .apply owner input format)
    (hsettings : loadSettings s i.config = .ok settings) :
    run s args = apply s (filter s.environment i.logLevel) settings owner input format := by
  simp only [run, hargs, runInvocation, hsettings, hcommand, perform]

/-- A run of `apply` prints one method for each token of the file and succeeds; without one list of
tokens it fails and prints nothing.  A document without content stands for the empty list. -/
theorem run_apply {s : Surroundings} {args : List String} {i : Invocation} {settings : Settings}
    {owner input : String} {format : Option OutputFormat}
    (hargs : CommandLine.read s.environment args = .ok i)
    (hcommand : i.command = .apply owner input format)
    (hsettings : loadSettings s i.config = .ok settings) :
    (∀ tokens, HoldsTokens (s.file input) tokens → (run s args).status = 0 ∧
      (run s args).output = printed settings format (tokens.map (settings.plan.applied owner))) ∧
    (HoldsNothing (s.file input) →
      (run s args).status = 0 ∧ (run s args).output = printed settings format []) ∧
    ((∀ tokens, ¬HoldsTokens (s.file input) tokens) → ¬HoldsNothing (s.file input) →
      (run s args).status = 1 ∧ (run s args).output = "") := by
  rw [run_eq_apply hargs hcommand hsettings]
  refine ⟨fun tokens h => ?_, fun h => ?_, fun htokens hnothing => ?_⟩
  · exact apply_of_load_eq_ok (load_eq_ok_iff.mpr (.inl h))
  · have hload : MethodToken.load (s.file input) = .ok [] := load_eq_ok_iff.mpr (.inr ⟨h, rfl⟩)
    rw [← List.map_nil (f := settings.plan.applied owner)]
    exact apply_of_load_eq_ok hload
  · refine apply_of_load_ne_ok fun tokens hload => ?_
    rcases load_eq_ok_iff.mp hload with h | ⟨h, -⟩
    · exact htokens tokens h
    · exact hnothing h

/-- Surroundings whose environment sets a plan, with a list of two tokens in every file. -/
def twoTokens : Surroundings where
  environment := [("METHOD_TRANSFORM_TRANSFORMER", "\x7boverride=[static]\x7d")]
  file _ := .bytes ("- name: m\n  return_type: int\n" ++
    "- name: n\n  return_type: int\n  modifiers: FINAL").toUTF8

theorem run_apply_of_two_tokens :
    (run twoTokens ["apply", "--owner", "A", "m.yaml"]).status = 0 ∧
      ∃ settings : Settings, (run twoTokens ["apply", "--owner", "A", "m.yaml"]).output =
        printed settings none
          [⟨⟨"A"⟩, { name := "m", modifiers := Flag.accStatic.mask, returnType := ⟨"int"⟩ }⟩,
            ⟨⟨"A"⟩, { name := "n", modifiers := .ofNat 0x18, returnType := ⟨"int"⟩ }⟩] := by
  let tokens : List MethodToken := [{ name := "m", returnType := ⟨"int"⟩ },
    { name := "n", modifiers := Flag.accFinal.mask, returnType := ⟨"int"⟩ }]
  have hargs : CommandLine.read twoTokens.environment ["apply", "--owner", "A", "m.yaml"] =
      .ok ⟨none, "info", none, .apply "A" "m.yaml" none⟩ := rfl
  have hload : (MethodToken.load (twoTokens.file "m.yaml")).toOption = some tokens := by
    decide +kernel
  have hnames : (loadSettings twoTokens none).toOption.map (·.plan.names) = some [.static] := by
    decide +kernel
  obtain ⟨settings, hsettings, hstatic⟩ := Option.map_eq_some_iff.mp hnames
  have hholds : HoldsTokens (twoTokens.file "m.yaml") tokens := by
    rcases load_eq_ok_iff.mp (eq_ok_of_toOption hload) with h | ⟨-, h⟩
    · exact h
    · exact absurd h (by simp [tokens])
  obtain ⟨hstatus, houtput⟩ :=
    (run_apply hargs rfl (eq_ok_of_toOption hsettings)).1 tokens hholds
  refine ⟨hstatus, settings, houtput.trans ?_⟩
  simp only [tokens, List.map_cons, List.map_nil, Plan.applied, hstatic]
  rfl

/-- An empty file is no list of tokens, and yet the run succeeds. -/
theorem run_apply_of_empty_file :
    let s : Surroundings := ⟨[], fun _ => .bytes .empty⟩
    (∀ tokens, ¬HoldsTokens (s.file "m.yaml") tokens) ∧
      (run s ["apply", "--owner", "A", "m.yaml"]).status = 0 ∧
      (run s ["apply", "--owner", "A", "m.yaml"]).output = "[]\n" := by
  refine ⟨?_, by decide +kernel, by decide +kernel⟩
  rintro tokens ⟨d, jumps, anchor, tag, items, ⟨content, text, hbytes, htext, hd, hroot⟩, -⟩
  obtain rfl := FileState.bytes.inj hbytes
  have hempty : String.fromUTF8? .empty = some "" := by decide +kernel
  have hnone : Document.read "" = .ok ⟨none, [], 1⟩ := rfl
  obtain rfl := Option.some.inj (hempty.symm.trans htext)
  obtain rfl := Except.ok.inj (hnone.symm.trans hd)
  exact nomatch hroot

end Program

end Redeclare
