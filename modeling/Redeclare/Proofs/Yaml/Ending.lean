import Mathlib.Tactic.SplitIfs
import Redeclare.Proofs.Text.Blank
import Redeclare.Yaml.Writer

/-!
# How a written YAML document ends

White space at the end of a written document is the line end behind its last
scalar, unless the scalar itself ends in white space: a block keeps its own line
ends, and a plain scalar may end in white space that is no space of the grammar.
Then cutting the white space off cuts into the scalar.

* `Form.lastLeaf` is the form that is written last, and `form_eq_lastLeaf` says
  that the pen ends as if it had written nothing else.
* `blockBody_concat` and `spaced_blockBody` follow the pen through a block.
* `closed_indentTo_leaf` is the case analysis over the leaf and its style.
* `trimEnd_write_iff` says it of a whole document.
-/

namespace Redeclare

open Text

namespace Form

mutual

/-- The form whose text comes last in the text of a form; collections without content are written
by themselves. -/
def lastLeaf : Form → Form
  | .list items => lastItem (.list []) items
  | .record fields => lastField (.record []) fields
  | .variant _ content => content.lastLeaf
  | leaf => leaf

/-- The last leaf of items, behind a leaf that is written before them. -/
def lastItem (leaf : Form) : List Form → Form
  | [] => leaf
  | item :: items => lastItem item.lastLeaf items

/-- The last leaf of fields, behind a leaf that is written before them. -/
def lastField (leaf : Form) : List (String × Form) → Form
  | [] => leaf
  | (_, value) :: fields => lastField value.lastLeaf fields

end

/-- A form that is written as one scalar or one pair of brackets. -/
def IsLeaf : Form → Prop
  | .list items => items = []
  | .record fields => fields = []
  | .variant _ _ => False
  | _ => True

mutual

theorem isLeaf_lastLeaf : ∀ f : Form, f.lastLeaf.IsLeaf
  | .bool _ | .int _ | .text _ => trivial
  | .list items => isLeaf_lastItem items rfl
  | .record fields => isLeaf_lastField fields rfl
  | .variant _ content => isLeaf_lastLeaf content

theorem isLeaf_lastItem : ∀ (items : List Form) {leaf : Form}, leaf.IsLeaf →
    (lastItem leaf items).IsLeaf
  | [], _, h => h
  | item :: items, _, _ => isLeaf_lastItem items (isLeaf_lastLeaf item)

theorem isLeaf_lastField : ∀ (fields : List (String × Form)) {leaf : Form}, leaf.IsLeaf →
    (lastField leaf fields).IsLeaf
  | [], _, h => h
  | (_, value) :: fields, _, _ => isLeaf_lastField fields (isLeaf_lastLeaf value)

end

/-! ## Solid texts -/

/-- The text without one line feed that it ends with. -/
def dropLineFeed (cs : List Char) : List Char :=
  if cs.getLast? = some '\n' then cs.dropLast else cs

/-- A text that has something other than white space at its end, or in front of one line feed there. -/
def IsSolid (cs : List Char) : Prop :=
  ∃ c, (dropLineFeed cs).getLast? = some c ∧ isBlank c = false

theorem isSolid_concat {cs : List Char} {c : Char} (h : c ≠ '\n') :
    IsSolid (cs ++ [c]) ↔ isBlank c = false := by
  simp [IsSolid, dropLineFeed, h]

theorem isSolid_concat_lineFeed {cs : List Char} :
    IsSolid (cs ++ ['\n']) ↔ ∃ c, cs.getLast? = some c ∧ isBlank c = false := by
  simp [IsSolid, dropLineFeed]

/-- The last scalar does not end in white space of its own: it stands in quotes or is no text, or
its text is solid. -/
def EndsSolid (f : Form) : Prop :=
  ∀ s, f.lastLeaf = .text s →
    Yaml.styleOf s false = .plain ∨ Yaml.styleOf s false = .block → IsSolid s.toList

end Form

namespace Yaml

open Form

/-! ## Texts that end a line -/

/-- A text, the latest character first, that ends with one line feed and no other white space. -/
def Closed (text : List Char) : Prop :=
  ∃ before, text = '\n' :: before ∧ ∀ c ∈ before.head?, isBlank c = false

/-- Exactly the closed texts stay as they are when the white space at their end is replaced by a
line feed. -/
theorem trimEnd_append_lineFeed_iff (cs : List Char) :
    trimEnd cs ++ ['\n'] = cs ↔ Closed cs.reverse := by
  have hreverse : trimEnd cs ++ ['\n'] = cs ↔
      '\n' :: cs.reverse.dropWhile isBlank = cs.reverse := by
    rw [← List.reverse_inj, trimEnd, List.reverse_append, List.reverse_reverse,
      List.reverse_singleton, List.singleton_append]
  rw [hreverse]
  constructor
  · intro h
    refine ⟨cs.reverse.dropWhile isBlank, h.symm, fun c hc => ?_⟩
    have hnot := List.head?_dropWhile_not isBlank cs.reverse
    rw [Option.mem_def.mp hc] at hnot
    simpa using hnot
  · rintro ⟨before, htext, hbefore⟩
    rw [htext, List.dropWhile_cons_of_pos rfl, dropWhile_eq_self hbefore]

theorem closed_cons_iff {c : Char} {cs : List Char} :
    Closed ('\n' :: c :: cs) ↔ isBlank c = false := by
  constructor
  · rintro ⟨before, htext, h⟩
    obtain ⟨-, rfl⟩ := List.cons.inj htext
    exact h c rfl
  · intro h
    exact ⟨c :: cs, rfl, fun d hd => Option.some.inj hd ▸ h⟩

theorem not_closed_cons {c : Char} {cs : List Char} (h : c ≠ '\n') : ¬Closed (c :: cs) := by
  rintro ⟨before, htext, -⟩
  exact h (List.cons.inj htext).1

/-! ## The last leaf -/

namespace Pen

mutual

/-- The pen ends as if it had written the last leaf only, from where it stood before that. -/
theorem form_eq_lastLeaf : ∀ (f : Form) (p : Pen) (indent : Option Nat) (inMapping : Bool),
    ∃ p' indent' inMapping', form p indent inMapping f = form p' indent' inMapping' f.lastLeaf
  | .bool _, p, indent, inMapping => ⟨p, indent, inMapping, rfl⟩
  | .int _, p, indent, inMapping => ⟨p, indent, inMapping, rfl⟩
  | .text _, p, indent, inMapping => ⟨p, indent, inMapping, rfl⟩
  | .list [], p, indent, inMapping => ⟨p, indent, inMapping, rfl⟩
  | .list (item :: items), _, _, _ =>
    listItems_eq_lastItem items _ (form_eq_lastLeaf item _ _ _)
  | .record [], p, indent, inMapping => ⟨p, indent, inMapping, rfl⟩
  | .record ((_, value) :: fields), _, _, _ =>
    recordFields_eq_lastField fields _ (form_eq_lastLeaf value _ _ _)
  | .variant name content, p, indent, inMapping =>
    form_eq_lastLeaf content (p.tag name) indent inMapping

theorem listItems_eq_lastItem : ∀ (items : List Form) (indent : Nat) {leaf : Form} {p : Pen},
    (∃ p' indent' inMapping', p = form p' indent' inMapping' leaf) →
      ∃ p' indent' inMapping', listItems p indent items =
        form p' indent' inMapping' (lastItem leaf items)
  | [], _, _, _, h => h
  | item :: items, indent, _, _, _ =>
    listItems_eq_lastItem items indent (form_eq_lastLeaf item _ _ _)

theorem recordFields_eq_lastField : ∀ (fields : List (String × Form)) (indent : Nat) {leaf : Form}
    {p : Pen}, (∃ p' indent' inMapping', p = form p' indent' inMapping' leaf) →
      ∃ p' indent' inMapping', recordFields p indent fields =
        form p' indent' inMapping' (lastField leaf fields)
  | [], _, _, _, h => h
  | (_, value) :: fields, indent, _, _, _ =>
    recordFields_eq_lastField fields indent (form_eq_lastLeaf value _ _ _)

end

/-! ## Leaves within a line -/

theorem text_puts (p : Pen) (cs : List Char) : (p.puts cs).text = cs.reverse ++ p.text := by
  induction cs generalizing p with
  | nil => rfl
  | cons c cs ih => rw [puts, List.foldl_cons, ← puts, ih, put, List.reverse_cons]; simp

/-- Behind the middle of a line the pen goes to the start of the next one. -/
theorem text_indentTo_of_inLine {p : Pen} (h : p.atIndent = false) :
    (p.indentTo 0).text = '\n' :: p.text := by
  simp only [indentTo, h, Bool.not_false, Bool.true_or, if_true, lineEnd, Nat.sub_zero]
  rfl

/-- At the start of a line behind white space the pen stays. -/
theorem text_indentTo_of_lineStart {p : Pen} (hindent : p.atIndent = true) (hspaced : p.spaced = true)
    (hcolumn : p.column = 0) : (p.indentTo 0).text = p.text := by
  simp [indentTo, hindent, hspaced, hcolumn, puts]

/-- A quote or a bracket is no white space. -/
theorem closed_indentTo_indicator {c : Char} (hc : isBlank c = false) (p : Pen) (cs : List Char) :
    Closed ((p.indicator (cs ++ [c])).indentTo 0).text := by
  rw [text_indentTo_of_inLine rfl]
  have htext : (p.indicator (cs ++ [c])).text = c :: (cs.reverse ++ p.text) := by
    simp [indicator, text_puts]
  rw [htext]
  exact closed_cons_iff.mpr hc

theorem closed_indentTo_plain {p : Pen} (cs : List Char) (c : Char) :
    Closed ((p.plain (cs ++ [c])).indentTo 0).text ↔ isBlank c = false := by
  rw [text_indentTo_of_inLine rfl]
  have htext : (p.plain (cs ++ [c])).text = c :: (cs.reverse ++ p.space.text) := by
    simp [plain, text_puts]
  rw [htext]
  exact closed_cons_iff

/-! ## Blocks -/

/-- One character of a block. -/
def blockStep (p : Pen) (indent : Nat) (broken : Bool) (c : Char) : Pen :=
  if isLineEnd c then { p.lineEnd c with atIndent := true }
  else { (if broken then p.indentTo indent else p).put c with atIndent := false }

theorem blockBody_cons (indent : Nat) (p : Pen) (broken : Bool) (c : Char) (cs : List Char) :
    blockBody indent p broken (c :: cs) =
      blockBody indent (p.blockStep indent broken c) (isLineEnd c) cs := by
  rw [blockBody, blockStep]
  cases isLineEnd c <;> rfl

/-- A block is written character by character; whether a line was ended last is known from the
text. -/
theorem blockBody_concat (indent : Nat) (p : Pen) (broken : Bool) (cs : List Char) (c : Char) :
    blockBody indent p broken (cs ++ [c]) =
      (blockBody indent p broken cs).blockStep indent (cs.getLast?.elim broken isLineEnd) c := by
  induction cs generalizing p broken with
  | nil => exact blockBody_cons indent p broken c []
  | cons d cs ih =>
    have hlast : (d :: cs).getLast?.elim broken isLineEnd =
        cs.getLast?.elim (isLineEnd d) isLineEnd := by
      rw [List.getLast?_cons]
      cases cs.getLast? <;> rfl
    rw [List.cons_append, blockBody_cons, ih, blockBody_cons, hlast]

theorem spaced_blockStep {p : Pen} (h : p.spaced = true) (indent : Nat) (broken : Bool) (c : Char) :
    (p.blockStep indent broken c).spaced = true := by
  rw [blockStep]
  split_ifs
  · exact h
  · rfl
  · exact h

/-- Within a block the pen stands behind white space as far as it knows. -/
theorem spaced_blockBody (indent : Nat) {p : Pen} (h : p.spaced = true) (broken : Bool)
    (cs : List Char) : (blockBody indent p broken cs).spaced = true := by
  induction cs generalizing p broken with
  | nil => exact h
  | cons c cs ih =>
    rw [blockBody_cons]
    exact ih (spaced_blockStep h indent broken c) _

theorem exists_text_blockStep (p : Pen) (indent : Nat) (broken : Bool) (c : Char) :
    ∃ before, (p.blockStep indent broken c).text = c :: before := by
  rw [blockStep]
  split_ifs <;> exact ⟨_, rfl⟩

theorem isBlank_of_isLineEnd {c : Char} (h : isLineEnd c = true) : isBlank c = true := by
  simp only [isLineEnd, isBreak, Bool.or_eq_true, beq_iff_eq] at h
  rcases h with (rfl | rfl) | (rfl | rfl) | rfl <;> decide

/-- A line end of a block is the end of the document as well. -/
theorem text_indentTo_blockStep_of_isLineEnd {p : Pen} (hspaced : p.spaced = true) {c : Char}
    (hc : isLineEnd c = true) (indent : Nat) (broken : Bool) :
    ((p.blockStep indent broken c).indentTo 0).text = c :: p.text := by
  rw [blockStep, if_pos hc]
  exact text_indentTo_of_lineStart rfl hspaced rfl

theorem closed_indentTo_blockStep_of_not_isLineEnd {c : Char} (hc : ¬isLineEnd c = true) (p : Pen)
    (indent : Nat) (broken : Bool) :
    Closed ((p.blockStep indent broken c).indentTo 0).text ↔ isBlank c = false := by
  rw [blockStep, if_neg hc, text_indentTo_of_inLine rfl]
  exact closed_cons_iff

/-- A block that begins on a line of its own ends closed exactly if its text is solid: the line feed
that ends its last line may be the only white space there. -/
theorem closed_indentTo_blockBody {p : Pen} {before : List Char} (hspaced : p.spaced = true)
    (htext : p.text = '\n' :: before) (indent : Nat) (cs : List Char) (c : Char) :
    Closed ((blockBody indent p true (cs ++ [c])).indentTo 0).text ↔ IsSolid (cs ++ [c]) := by
  have hq := spaced_blockBody indent hspaced true cs
  rw [blockBody_concat]
  by_cases hc : isLineEnd c = true
  · rw [text_indentTo_blockStep_of_isLineEnd hq hc]
    -- only a line feed closes; what stands before it is the last character of `cs`, or the line
    -- end behind the header if there is none
    by_cases hfeed : c = '\n'
    · subst hfeed
      rw [isSolid_concat_lineFeed]
      rcases List.eq_nil_or_concat cs with rfl | ⟨init, d, rfl⟩
      · rw [blockBody, htext, closed_cons_iff]
        simp [isBlank]
      · obtain ⟨rest, hrest⟩ := exists_text_blockStep (blockBody indent p true init) indent
          (init.getLast?.elim true isLineEnd) d
        rw [List.concat_eq_append, blockBody_concat, hrest, closed_cons_iff]
        simp
    · rw [isSolid_concat hfeed, isBlank_of_isLineEnd hc]
      exact iff_of_false (not_closed_cons hfeed) Bool.noConfusion
  · have hfeed : c ≠ '\n' := by
      rintro rfl
      exact hc rfl
    rw [closed_indentTo_blockStep_of_not_isLineEnd hc, isSolid_concat hfeed]

/-! ## Leaves -/

theorem exists_concat {cs : List Char} (h : cs ≠ []) : ∃ init c, cs = init ++ [c] :=
  ⟨cs.dropLast, cs.getLast h, (List.dropLast_concat_getLast h).symm⟩

/-- The empty text reads as nothing, so it is not written plain. -/
theorem readsAsOther_of_isEmpty {s : String} (h : s.toList = []) : readsAsOther s = true := by
  rw [readsAsOther, plainValue, h]
  rfl

/-- A plain text is not empty and stays on its line. -/
theorem concat_of_styleOf_eq_plain {s : String} (h : styleOf s false = .plain) :
    ∃ cs c, s.toList = cs ++ [c] ∧ c ≠ '\n' := by
  simp only [styleOf, Bool.false_and, Bool.false_eq_true, if_false] at h
  split_ifs at h with hfeed hblock hother hplain
  · have hne : s.toList ≠ [] := fun hempty => hother (readsAsOther_of_isEmpty hempty)
    obtain ⟨cs, c, hs⟩ := exists_concat hne
    refine ⟨cs, c, hs, ?_⟩
    rintro rfl
    exact hfeed (by simp [hs])

/-- A block is not empty. -/
theorem concat_of_styleOf_eq_block {s : String} (h : styleOf s false = .block) :
    ∃ cs c, s.toList = cs ++ [c] := by
  refine exists_concat fun hempty => ?_
  simp only [styleOf, Bool.false_and, Bool.false_eq_true, if_false] at h
  split_ifs at h with hfeed hblock
  rw [hempty] at hfeed
  exact absurd hfeed (by decide)

/-- A scalar ends closed unless it is plain or a block and its text is not solid. -/
theorem closed_indentTo_scalar (p : Pen) (indent : Nat) (s : String) :
    Closed ((p.scalar indent (styleOf s false) s.toList).indentTo 0).text ↔
      (styleOf s false = .plain ∨ styleOf s false = .block → IsSolid s.toList) := by
  cases hstyle : styleOf s false with
  | plain =>
    obtain ⟨cs, c, hs, hc⟩ := concat_of_styleOf_eq_plain hstyle
    rw [hs, scalar, closed_indentTo_plain, isSolid_concat hc]
    simp
  | single =>
    refine iff_of_true ?_ (by simp)
    exact closed_indentTo_indicator (by decide) _ []
  | double =>
    refine iff_of_true ?_ (by simp)
    exact closed_indentTo_indicator (by decide) _ []
  | block =>
    obtain ⟨cs, c, hs⟩ := concat_of_styleOf_eq_block hstyle
    rw [hs, scalar, closed_indentTo_blockBody rfl rfl]
    simp

theorem isBlank_of_isDigit {c : Char} (h : c.isDigit = true) : isBlank c = false := by
  have hrange : 48 ≤ c.toNat ∧ c.toNat ≤ 57 := by
    simpa [Char.isDigit, UInt32.le_iff_toNat_le] using h
  simp only [isBlank, Bool.or_eq_false_iff, Bool.and_eq_false_iff, decide_eq_false_iff_not,
    beq_eq_false_iff_ne]
  omega

/-- An integer ends in a digit. -/
theorem concat_toString_int (n : Int) :
    ∃ cs c, (toString n).toList = cs ++ [c] ∧ isBlank c = false := by
  have hdigits : ∀ m : Nat, ∃ cs c, Nat.toDigits 10 m = cs ++ [c] ∧ isBlank c = false := by
    intro m
    obtain ⟨cs, c, hm⟩ := exists_concat (Nat.toDigits_ne_nil (b := 10) (n := m))
    have hc : c ∈ Nat.toDigits 10 m := by rw [hm]; simp
    exact ⟨cs, c, hm, isBlank_of_isDigit (Nat.isDigit_of_mem_toDigits (by decide) (by decide) hc)⟩
  cases n with
  | ofNat m =>
    have htext : (toString (Int.ofNat m)).toList = Nat.toDigits 10 m := Nat.toList_repr
    rw [htext]
    exact hdigits m
  | negSucc m =>
    obtain ⟨cs, c, hm, hc⟩ := hdigits (m + 1)
    have htext : toString (Int.negSucc m) = "-" ++ (m + 1).repr := rfl
    rw [htext, String.toList_append, Nat.toList_repr, hm]
    exact ⟨'-' :: cs, c, rfl, hc⟩

theorem closed_indentTo_leaf {leaf : Form} (h : leaf.IsLeaf) (p : Pen) (indent : Option Nat)
    (inMapping : Bool) :
    Closed ((form p indent inMapping leaf).indentTo 0).text ↔
      ∀ s, leaf = .text s → styleOf s false = .plain ∨ styleOf s false = .block →
        IsSolid s.toList := by
  cases leaf with
  | bool b =>
    refine iff_of_true ?_ fun _ heq => (nomatch heq)
    cases b with
    | false => exact (closed_indentTo_plain "fals".toList 'e').mpr (by decide)
    | true => exact (closed_indentTo_plain "tru".toList 'e').mpr (by decide)
  | int n =>
    refine iff_of_true ?_ fun _ heq => (nomatch heq)
    obtain ⟨cs, c, htext, hc⟩ := concat_toString_int n
    rw [form, htext]
    exact (closed_indentTo_plain cs c).mpr hc
  | text s =>
    rw [form, closed_indentTo_scalar]
    exact ⟨fun h _ heq => Form.text.inj heq ▸ h, fun h => h s rfl⟩
  | list items =>
    obtain rfl : items = [] := h
    refine iff_of_true ?_ fun _ heq => (nomatch heq)
    exact closed_indentTo_indicator (by decide) _ ['[']
  | record fields =>
    obtain rfl : fields = [] := h
    refine iff_of_true ?_ fun _ heq => (nomatch heq)
    exact closed_indentTo_indicator (by decide) _ ['\x7b']
  | variant name content => exact absurd h id

end Pen

/-- The white space at the end of a document is one line feed exactly if its last scalar does not
end in white space of its own. -/
theorem trimEnd_write_iff (f : Form) :
    String.ofList (trimEnd (write f).toList) ++ "\n" = write f ↔ f.EndsSolid := by
  obtain ⟨p, indent, inMapping, hlast⟩ := Pen.form_eq_lastLeaf f {} none false
  have htext : (write f).toList.reverse =
      ((Pen.form p indent inMapping f.lastLeaf).indentTo 0).text := by
    rw [write, String.toList_ofList, List.reverse_reverse, hlast]
  have hlists : String.ofList (trimEnd (write f).toList) ++ "\n" = write f ↔
      trimEnd (write f).toList ++ ['\n'] = (write f).toList := by
    rw [← String.toList_inj, String.toList_append, String.toList_ofList]
    rfl
  rw [hlists, trimEnd_append_lineFeed_iff, htext]
  exact Pen.closed_indentTo_leaf (isLeaf_lastLeaf f) p indent inMapping

end Yaml

end Redeclare
