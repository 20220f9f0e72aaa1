import Redeclare.Error
import Redeclare.Proofs.Plan.Grammar

/-!
# Names of choices

A choice is read from a configuration by its exact name, and from what a user
types whatever the case of its letters and the white space around it.  The exact
names follow from the titles of the choices by one rule.

* `text_eq_hyphenatedTitle` compares the names with the titles.
* `read_eq_ok_iff` and `read_eq_error_iff` say what is read from a typed text;
  `eq_of_matches` says that no text matches two names.
* `parse_iff_name_is_read` compares the two readers.
-/

namespace Redeclare

/-- A title as a name: its capitals made small, with a hyphen in front of all but the first
character. -/
def Text.hyphenated : List Char → List Char
  | [] => []
  | c :: cs => c.toLower :: cs.flatMap fun c => if c.isUpper then ['-', c.toLower] else [c.toLower]

namespace ModifierName

/-- The title of a choice: its words with capitals, without anything between them. -/
def title : ModifierName → String
  | publicAccess => "Public"
  | protectedAccess => "Protected"
  | packageAccess => "PackagePrivate"
  | privateAccess => "Private"
  | member => "Member"
  | static => "Static"
  | concrete => "Concrete"
  | abstract => "Abstract"
  | final => "Final"
  | native => "Native"
  | finalNative => "FinalNative"
  | bridge => "Bridge"
  | finalBridge => "FinalBridge"
  | synchronized => "Synchronized"
  | notSynchronized => "NotSynchronized"
  | synthetic => "Synthetic"
  | notSynthetic => "NotSynthetic"
  | strict => "Strict"
  | notStrict => "NotStrict"
  | varargs => "Varargs"
  | fixedArity => "FixedArity"

/-- The name that follows from the title. -/
def hyphenatedTitle (n : ModifierName) : String :=
  String.ofList (Text.hyphenated n.title.toList)

/-- A typed text without the white space around it. -/
def trimmed (typed : String) : String :=
  String.ofList (Text.trim typed.toList)

/-- A text with its ASCII letters made small. -/
def lowered (text : String) : String :=
  String.ofList (text.toList.map Char.toLower)

/-- What is typed is the name of the choice, but for white space around it and the case of ASCII
letters. -/
def Matches (n : ModifierName) (typed : String) : Prop :=
  lowered n.text = lowered (trimmed typed)

/-! ## The names -/

theorem text_eq_hyphenatedTitle (n : ModifierName) : n.text = n.hyphenatedTitle := by
  cases n <;> decide

theorem lowered_text (n : ModifierName) : lowered n.text = n.text := by
  cases n <;> decide

theorem trimmed_text (n : ModifierName) : trimmed n.text = n.text := by
  cases n <;> decide +kernel

theorem ofText?_eq_some_iff {n : ModifierName} {name : String} : ofText? name = some n ↔ n.text = name := by
  constructor
  · intro h
    simpa using List.find?_some h
  · rintro rfl
    exact Plan.ofText?_text n

theorem text_injective : Function.Injective text := by
  intro n n' h
  have hname : ofText? n'.text = some n := ofText?_eq_some_iff.mpr h
  exact Option.some.inj (hname.symm.trans (Plan.ofText?_text n'))

theorem matches_iff {n : ModifierName} {typed : String} :
    n.Matches typed ↔ n.text = lowered (trimmed typed) := by
  rw [Matches, lowered_text]

/-- No text matches two names. -/
theorem eq_of_matches {n n' : ModifierName} {typed : String} (h : n.Matches typed)
    (h' : n'.Matches typed) : n = n' :=
  text_injective ((matches_iff.mp h).trans (matches_iff.mp h').symm)

/-! ## The readers -/

theorem ofJson_str_eq_ok_iff {n : ModifierName} {name : String} :
    ofJson (.str name) = .ok n ↔ n.text = name := by
  rw [ofJson_eq_ok_iff]
  constructor
  · rintro ⟨⟩
    rfl
  · rintro rfl
    exact .name

/-- A typed text is looked up without the white space around it and in small letters; what is no name
is returned as it was typed but for that white space. -/
theorem read_eq_elim (typed : String) :
    read typed = (ofText? (lowered (trimmed typed))).elim (.error (trimmed typed)) .ok := by
  have hnames : (fun n : ModifierName => n.text.toList == (Text.trim typed.toList).map Char.toLower) =
      fun n => n.text == lowered (trimmed typed) := by
    funext n
    rw [lowered, trimmed, String.toList_ofList, Bool.eq_iff_iff, beq_iff_eq, beq_iff_eq,
      ← String.toList_inj, String.toList_ofList]
  rw [read, hnames, ofText?]
  cases all.find? fun n => n.text == lowered (trimmed typed) <;> rfl

theorem read_eq_ok_iff {n : ModifierName} {typed : String} :
    read typed = .ok n ↔ n.Matches typed := by
  rw [read_eq_elim, matches_iff, ← ofText?_eq_some_iff]
  cases ofText? (lowered (trimmed typed)) <;> simp

theorem read_eq_error_iff {typed rejected : String} :
    read typed = .error rejected ↔ (∀ n, ¬ Matches n typed) ∧ rejected = trimmed typed := by
  have hnone : (∀ n, ¬ Matches n typed) ↔ ofText? (lowered (trimmed typed)) = none := by
    simp only [matches_iff, ← ofText?_eq_some_iff, Option.eq_none_iff_forall_ne_some, ne_eq]
  rw [read_eq_elim, hnone]
  cases ofText? (lowered (trimmed typed)) <;> simp [eq_comm]

/-- A typed text is a name exactly if a configuration has that name for what is left of it without the
white space around it and in small letters, so the exact names are among the typed ones.  No text is
two names; one that is none is refused in a message that quotes it without the white space around it.
The names are those that follow from the titles. -/
theorem parse_iff_name_is_read (typed : String) :
    (∀ n, parse typed = .ok n ↔ ofJson (.str (lowered (trimmed typed))) = .ok n) ∧
    (∀ n, ofJson (.str typed) = .ok n → parse typed = .ok n) ∧
    (∀ n n', Matches n typed → Matches n' typed → n = n') ∧
    (∀ e, parse typed = .error e ↔ (∀ n, ¬ Matches n typed) ∧
      e = .invalidArgument ("unknown modifier: " ++ trimmed typed)) ∧
    ofJson = Json.unitVariant all hyphenatedTitle := by
  refine ⟨fun n => ?_, fun n h => ?_, fun _ _ => eq_of_matches, fun e => ?_, ?_⟩
  · rw [parse, mapError_eq_ok_iff, read_eq_ok_iff, matches_iff, ofJson_str_eq_ok_iff]
  · obtain rfl := ofJson_str_eq_ok_iff.mp h
    have hexact : n.text = lowered (trimmed n.text) := by rw [trimmed_text, lowered_text]
    exact mapError_eq_ok_iff.mpr (read_eq_ok_iff.mpr (matches_iff.mpr hexact))
  · simp only [parse, mapError_eq_error_iff, read_eq_error_iff]
    constructor
    · rintro ⟨rejected, ⟨hnone, rfl⟩, rfl⟩
      exact ⟨hnone, rfl⟩
    · rintro ⟨hnone, rfl⟩
      exact ⟨_, ⟨hnone, rfl⟩, rfl⟩
  · have hnames : text = hyphenatedTitle := funext text_eq_hyphenatedTitle
    rw [← hnames]
    rfl

/-- A name between white space of two kinds, in capitals. -/
example : (parse " Package-PRIVATE	").toOption = some .packageAccess := by decide

end ModifierName

end Redeclare
