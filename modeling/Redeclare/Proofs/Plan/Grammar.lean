import Redeclare.Proofs.Json.Parts
import Redeclare.Proofs.Plan.Forms

/-!
# The grammar of plans in JSON

Which JSON values are plans, and of which plan each of them is a form.  A reader
accepts these values and no others.

* `ModifierName.WrittenAs` and `Plan.WrittenAs` are the forms of a choice and of a
  plan.
* `Json.Misfit` are the values that are wrong in the place of a plan on their own.
  The plans of a chain are places of their own, which `Json.Reaches` goes
  through.
* `ofJson_accepts_exactly` says that forms are read, and that a misfit anywhere,
  and nothing else, makes the reading fail.
-/

namespace Redeclare

/-- The forms of a choice: its exact name, alone or as the key of null. -/
inductive ModifierName.WrittenAs (n : ModifierName) : Json → Prop where
  | name : WrittenAs n (.str n.text)
  | keyed : WrittenAs n (.obj [(n.text, .null)])

/-- The forms of a plan. -/
inductive Plan.WrittenAs : Plan → Json → Prop where
  | noop : WrittenAs .noop (.str "noop")
  | keyedNoop : WrittenAs .noop (.obj [("noop", .null)])
  | override {names : List ModifierName} {items : List Json}
      (hitems : List.Forall₂ ModifierName.WrittenAs names items) :
      WrittenAs (.override names) (.obj [("override", .arr items)])
  | chain {plans : List Plan} {items : List Json} (hitems : List.Forall₂ WrittenAs plans items) :
      WrittenAs (.chain plans) (.obj [("chain", .arr items)])

/-- A value that is the form of no plan, whatever stands in the places of a chain. -/
inductive Json.Misfit : Json → Prop where
  /-- A text that is no variant without content: another name, or the same in another case. -/
  | name {name : String} (h : name ≠ "noop") : Misfit (.str name)
  /-- A variant that is not known. -/
  | variant {name : String} {content : Json} (h : name ∉ Plan.variants) : Misfit (.obj [(name, content)])
  /-- A variant without content that has some. -/
  | content {content : Json} (h : content ≠ .null) : Misfit (.obj [("noop", content)])
  /-- A variant whose content is no list. -/
  | noList {name : String} {content : Json} (hname : name = "override" ∨ name = "chain")
      (h : ∀ items, content ≠ .arr items) : Misfit (.obj [(name, content)])
  /-- An override by something that is no choice. -/
  | choice {items : List Json} {item : Json} (hitem : item ∈ items)
      (h : ∀ n, ¬ ModifierName.WrittenAs n item) : Misfit (.obj [("override", .arr items)])
  /-- No key, or several. -/
  | keys {members : List (String × Json)} (h : members.length ≠ 1) : Misfit (.obj members)
  /-- Neither a text nor an object. -/
  | kind {v : Json} (hstr : ∀ name, v ≠ .str name) (hobj : ∀ members, v ≠ .obj members) : Misfit v

/-! ## Choices -/

namespace Json

/-- The items of an array are read one by one. -/
theorem readItems_eq_ok_iff {α : Type} {read : Json → Except Fault α} {items : List Json} {as : List α} :
    readItems read items = .ok as ↔ List.Forall₂ (fun v a => read v = .ok a) items as := by
  induction items generalizing as with
  | nil =>
    rw [readItems, List.forall₂_nil_left_iff]
    exact ⟨fun h => (Except.ok.inj h).symm, fun h => congrArg _ h.symm⟩
  | cons v items ih =>
    rw [readItems, List.forall₂_cons_left_iff]
    simp only [bind_eq_ok_iff, ih]
    constructor
    · rintro ⟨a, ha, rest, hrest, h⟩
      exact ⟨a, rest, ha, hrest, (Except.ok.inj h).symm⟩
    · rintro ⟨a, rest, ha, hrest, rfl⟩
      exact ⟨a, ha, rest, hrest, rfl⟩

theorem variant_eq_ok_iff {v : Json} {name : String} {content : Option Json} :
    v.variant = .ok (name, content) ↔
      (v = .str name ∧ content = none) ∨ ∃ c, v = .obj [(name, c)] ∧ content = some c := by
  unfold variant
  split <;> grind

theorem noContent_eq_ok_iff {content : Option Json} {u : Unit} :
    noContent content = .ok u ↔ content = none ∨ content = some .null := by
  unfold noContent
  split <;> grind

end Json

theorem ModifierName.ofJson_eq_ok_iff {v : Json} {n : ModifierName} :
    ofJson v = .ok n ↔ n.WrittenAs v := by
  constructor
  · intro h
    obtain ⟨⟨name, content⟩, hvariant, h⟩ := bind_eq_ok_iff.mp h
    dsimp only at h
    split at h
    · exact nomatch h
    · rename_i a hfind
      obtain ⟨u, hcontent, h⟩ := bind_eq_ok_iff.mp h
      obtain rfl := Except.ok.inj h
      obtain rfl : a.text = name := by simpa using List.find?_some hfind
      rcases Json.variant_eq_ok_iff.mp hvariant with ⟨rfl, -⟩ | ⟨c, rfl, rfl⟩
      · exact .name
      · rcases Json.noContent_eq_ok_iff.mp hcontent with hc | hc
        · exact nomatch hc
        · rw [Option.some.inj hc]
          exact .keyed
  · rintro (_ | _)
    · exact Plan.ofJson_text n
    · cases n <;> rfl

/-! ## Plans -/

namespace Plan

theorem ofJson_of_writtenAs {p : Plan} {v : Json} (h : p.WrittenAs v) : ofJson v = .ok p := by
  induction p using induct generalizing v with
  | noop => cases h <;> rfl
  | override names =>
    cases h with
    | @override _ items hitems =>
      have hnames : Json.readItems ModifierName.ofJson items = .ok names :=
        Json.readItems_eq_ok_iff.mpr (hitems.flip.imp fun _ _ => ModifierName.ofJson_eq_ok_iff.mpr)
      exact map_eq_ok_iff.mpr ⟨names, hnames, rfl⟩
  | chain plans ih =>
    cases h with
    | @chain _ items hitems =>
      have hplans : List.Forall₂ (fun v p => ofJson v = .ok p) items plans :=
        (forall₂_of_mem hitems fun p hp v => ih p hp).flip
      exact map_eq_ok_iff.mpr ⟨plans, ofJsons_eq_ok_iff.mpr hplans, rfl⟩

/-- What is read as a plan, variant by variant. -/
theorem ofJson_cases {v : Json} {p : Plan} (h : ofJson v = .ok p) :
    p = .noop ∧ (v = .str "noop" ∨ v = .obj [("noop", .null)]) ∨
    (∃ names items, p = .override names ∧ v = .obj [("override", .arr items)] ∧
      List.Forall₂ ModifierName.WrittenAs names items) ∨
    ∃ plans items, p = .chain plans ∧ v = .obj [("chain", .arr items)] ∧
      List.Forall₂ (fun p v => ofJson v = .ok p) plans items := by
  match v with
  | .str name =>
    rw [ofJson] at h
    split_ifs at h with hnoop hlist
    obtain rfl : name = "noop" := by simpa using hnoop
    exact .inl ⟨(Except.ok.inj h).symm, .inl rfl⟩
  | .obj [(name, content)] =>
    unfold ofJson at h
    split_ifs at h with hnoop hoverride hchain
    · obtain rfl : name = "noop" := by simpa using hnoop
      obtain ⟨u, hcontent, rfl⟩ := map_eq_ok_iff.mp h
      rcases Json.noContent_eq_ok_iff.mp hcontent with hnull | hnull
      · exact nomatch hnull
      · rw [Option.some.inj hnull]
        exact .inl ⟨rfl, .inr rfl⟩
    · obtain rfl : name = "override" := by simpa using hoverride
      obtain ⟨names, hnames, rfl⟩ := map_eq_ok_iff.mp h
      cases content with
      | arr items =>
        have hitems := Json.readItems_eq_ok_iff.mp hnames
        exact .inr (.inl ⟨names, items, rfl, rfl,
          hitems.flip.imp fun _ _ => ModifierName.ofJson_eq_ok_iff.mp⟩)
      | _ => exact nomatch hnames
    · obtain rfl : name = "chain" := by simpa using hchain
      cases content with
      | arr items =>
        obtain ⟨plans, hplans, rfl⟩ := map_eq_ok_iff.mp h
        exact .inr (.inr ⟨plans, items, rfl, rfl, (ofJsons_eq_ok_iff.mp hplans).flip⟩)
      | _ => exact nomatch h
  | .obj [] | .obj (_ :: _ :: _) | .null | .bool _ | .int _ | .float _ | .arr _ => exact nomatch h

theorem writtenAs_of_ofJson {v : Json} {p : Plan} (h : ofJson v = .ok p) : p.WrittenAs v := by
  induction p using induct generalizing v with
  | noop =>
    rcases ofJson_cases h with ⟨-, rfl | rfl⟩ | ⟨_, _, hp, -⟩ | ⟨_, _, hp, -⟩
    · exact .noop
    · exact .keyedNoop
    · cases hp
    · cases hp
  | override names =>
    rcases ofJson_cases h with ⟨hp, -⟩ | ⟨_, _, hp, rfl, hitems⟩ | ⟨_, _, hp, -⟩
    · cases hp
    · exact Plan.override.inj hp ▸ .override hitems
    · cases hp
  | chain plans ih =>
    rcases ofJson_cases h with ⟨hp, -⟩ | ⟨_, _, hp, -⟩ | ⟨_, _, hp, rfl, hitems⟩
    · cases hp
    · cases hp
    · obtain rfl := Plan.chain.inj hp
      exact .chain (forall₂_of_mem hitems fun p hmem v => ih p hmem)

theorem ofJson_eq_ok_iff {v : Json} {p : Plan} : ofJson v = .ok p ↔ p.WrittenAs v :=
  ⟨writtenAs_of_ofJson, ofJson_of_writtenAs⟩

/-! ## Misfits -/

/-- What every form of a plan looks like. -/
theorem WrittenAs.shape {v : Json} {p : Plan} (h : p.WrittenAs v) :
    v = .str "noop" ∨ v = .obj [("noop", .null)] ∨
    (∃ items, v = .obj [("override", .arr items)] ∧ ∀ item ∈ items, ∃ n, ModifierName.WrittenAs n item) ∨
    ∃ items, v = .obj [("chain", .arr items)] ∧ ∀ item ∈ items, ∃ p : Plan, p.WrittenAs item := by
  cases h with
  | noop => exact .inl rfl
  | keyedNoop => exact .inr (.inl rfl)
  | @override names items hitems =>
    refine .inr (.inr (.inl ⟨items, rfl, fun item hitem => ?_⟩))
    obtain ⟨n, -, hn⟩ := exists_mem_of_forall₂_right hitems hitem
    exact ⟨n, hn⟩
  | @chain plans items hitems =>
    refine .inr (.inr (.inr ⟨items, rfl, fun item hitem => ?_⟩))
    obtain ⟨p, -, hp⟩ := exists_mem_of_forall₂_right hitems hitem
    exact ⟨p, hp⟩

theorem not_writtenAs_of_misfit {v : Json} (h : v.Misfit) (p : Plan) : ¬ p.WrittenAs v := by
  intro hp
  have hshape := hp.shape
  cases h with
  | name hname => simp [hname] at hshape
  | variant hname =>
    rw [variants] at hname
    simp only [List.mem_cons, not_or] at hname
    simp [hname] at hshape
  | content hcontent => simp [hcontent] at hshape
  | noList hname hlist => rcases hname with rfl | rfl <;> simp [hlist] at hshape
  | @choice items item hitem hchoice =>
    have hwritten : ∀ item ∈ items, ∃ n, ModifierName.WrittenAs n item := by simpa using hshape
    obtain ⟨n, hn⟩ := hwritten item hitem
    exact hchoice n hn
  | keys hlength =>
    rcases hshape with hv | hv | ⟨_, hv, -⟩ | ⟨_, hv, -⟩ <;> simp_all
  | kind hstr hobj => simp [hstr, hobj] at hshape

/-- A value is a plan if no misfit stands in the place of one. -/
theorem exists_writtenAs {v : Json} (h : ∀ w, v.Reaches w → ¬ w.Misfit) : ∃ p : Plan, p.WrittenAs v := by
  match v with
  | .str name =>
    obtain rfl : name = "noop" := by_contra fun hname => h _ .here (.name hname)
    exact ⟨.noop, .noop⟩
  | .obj [(name, content)] =>
    have hname : name ∈ variants := by_contra fun hname => h _ .here (.variant hname)
    simp only [variants, List.mem_cons, List.not_mem_nil, or_false] at hname
    rcases hname with rfl | hname
    · obtain rfl : content = .null := by_contra fun hcontent => h _ .here (.content hcontent)
      exact ⟨.noop, .keyedNoop⟩
    · obtain ⟨items, hcontent⟩ : ∃ items, content = .arr items :=
        by_contra fun hlist => h _ .here (.noList hname (not_exists.mp hlist))
      rcases hname with rfl | rfl
      · subst hcontent
        have hitems : ∀ item ∈ items, ∃ n, ModifierName.WrittenAs n item := fun item hitem =>
          by_contra fun hchoice => h _ .here (.choice hitem (not_exists.mp hchoice))
        obtain ⟨names, hnames⟩ := exists_forall₂_of_forall_exists hitems
        exact ⟨.override names, .override hnames.flip⟩
      · have hchain : ("chain", Json.arr items) ∈ [("chain", content)] :=
          hcontent ▸ List.mem_cons_self
        have hitems : ∀ item ∈ items, ∃ p : Plan, p.WrittenAs item := fun item hitem =>
          have : sizeOf item < sizeOf content := hcontent ▸ Json.sizeOf_item_lt hitem
          exists_writtenAs fun w hw => h w (.chain hchain hitem hw)
        obtain ⟨plans, hplans⟩ := exists_forall₂_of_forall_exists hitems
        exact ⟨.chain plans, hcontent ▸ .chain hplans.flip⟩
  | .obj [] | .obj (_ :: _ :: _) => exact absurd (.keys (by simp)) (h _ .here)
  | .null | .bool _ | .int _ | .float _ | .arr _ => exact absurd (.kind nofun nofun) (h _ .here)
termination_by v
decreasing_by
  simp only [Json.obj.sizeOf_spec, List.cons.sizeOf_spec, Prod.mk.sizeOf_spec]
  omega

/-- A misfit anywhere in the chains of a value keeps it from being a plan. -/
theorem not_writtenAs_of_reaches {v w : Json} (h : v.Reaches w) (hw : w.Misfit) (p : Plan) :
    ¬ p.WrittenAs v := by
  induction h generalizing p with
  | here => exact not_writtenAs_of_misfit hw p
  | @chain members items item target hchain hitem _ ih =>
    intro hp
    have hread := ofJson_of_writtenAs hp
    obtain ⟨name, content, rfl, hitems⟩ := exists_eq_singleton_of_ofJson hread
    obtain ⟨rfl, rfl⟩ := Prod.mk.inj (List.mem_singleton.mp hchain)
    obtain ⟨plans, hplans⟩ := hitems _ rfl rfl
    obtain ⟨q, -, hq⟩ := exists_mem_of_forall₂ hplans hitem
    exact ih hw q (writtenAs_of_ofJson hq)

/-- A value is read as the plan it is a form of.  The reading fails exactly if a misfit stands in the
place of a plan, at the top or anywhere in its chains. -/
theorem ofJson_accepts_exactly (v : Json) :
    (∀ p, ofJson v = .ok p ↔ p.WrittenAs v) ∧
      ((∃ fault, ofJson v = .error fault) ↔ ∃ w, v.Reaches w ∧ w.Misfit) := by
  refine ⟨fun p => ofJson_eq_ok_iff, ?_⟩
  constructor
  · rintro ⟨fault, hfault⟩
    by_contra hfits
    obtain ⟨p, hp⟩ := exists_writtenAs fun w hw hmisfit => hfits ⟨w, hw, hmisfit⟩
    exact nomatch hfault.symm.trans (ofJson_of_writtenAs hp)
  · rintro ⟨w, hreaches, hmisfit⟩
    cases hread : ofJson v with
    | error fault => exact ⟨fault, rfl⟩
    | ok p => exact absurd (writtenAs_of_ofJson hread) (not_writtenAs_of_reaches hreaches hmisfit p)

end Plan

end Redeclare
