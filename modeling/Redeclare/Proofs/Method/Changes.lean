import Redeclare.Method.Basic

/-!
# Changes of a token

A token is built up from another one change by change.  Each change is about
one field alone: the access flags are replaced, and parameters, declared
exceptions and annotations are added at the end of their lists.

* `change_eq` says what one change does to each field, and `changeAll_eq` what a
  list of changes does.
* `Change.contents_eq_of_filter_eq` says that what the changes of one kind bring
  does not depend on the changes of other kinds between them.
* `changeAll_eq_changeAll_iff` says when two lists of changes lead to the same
  token, and `changes_act_independently` puts fields and order together.
-/

namespace Redeclare.MethodToken

/-- Other access flags, or one more part of a token. -/
inductive Change where
  | setModifiers (m : Modifiers)
  | addParameter (p : Parameter)
  | addException (e : TypeName)
  | annotate (a : Annotation)

namespace Change

/-- The fields that changes are about. -/
inductive Kind where
  | modifiers
  | parameters
  | exceptionTypes
  | annotations
  deriving DecidableEq

/-- What one change brings to a field. -/
abbrev Kind.Content : Kind → Type
  | modifiers => Modifiers
  | parameters => Parameter
  | exceptionTypes => TypeName
  | annotations => Annotation

/-- The field that a change is about. -/
def kind : Change → Kind
  | setModifiers _ => .modifiers
  | addParameter _ => .parameters
  | addException _ => .exceptionTypes
  | annotate _ => .annotations

/-- What a change brings to a field, if it is about that field. -/
def content? : (k : Kind) → Change → Option k.Content
  | .modifiers, setModifiers m => some m
  | .parameters, addParameter p => some p
  | .exceptionTypes, addException e => some e
  | .annotations, annotate a => some a
  | _, _ => none

theorem content?_eq_none {k : Kind} {c : Change} (h : c.kind ≠ k) : c.content? k = none := by
  unfold content?
  -- In all cases but the last one the change is about the field.
  split
  case h_5 => rfl
  all_goals exact absurd rfl h

/-- What the changes of a list bring to a field, in their order. -/
def contents (k : Kind) (cs : List Change) : List k.Content :=
  cs.filterMap (content? k)

theorem contents_cons (k : Kind) (c : Change) (cs : List Change) :
    contents k (c :: cs) = (c.content? k).toList ++ contents k cs := by
  cases h : c.content? k <;> simp [contents, h]

/-- What the changes of a list bring to a field stays if those of other fields are left out. -/
theorem contents_filter (k : Kind) (cs : List Change) :
    contents k (cs.filter fun c => c.kind = k) = contents k cs := by
  induction cs with
  | nil => rfl
  | cons c cs ih =>
    by_cases hk : c.kind = k
    · rw [List.filter_cons_of_pos (by simpa using hk), contents_cons, contents_cons, ih]
    · rw [List.filter_cons_of_neg (by simpa using hk), contents_cons, content?_eq_none hk, ih]
      rfl

theorem contents_eq_of_filter_eq {k : Kind} {cs cs' : List Change}
    (h : cs'.filter (fun c => c.kind = k) = cs.filter fun c => c.kind = k) :
    contents k cs' = contents k cs := by
  rw [← contents_filter k cs', h, contents_filter]

end Change

/-- The token behind one change. -/
def change (t : MethodToken) : Change → MethodToken
  | .setModifiers m => t.withModifiers m
  | .addParameter p => t.withParameter p
  | .addException e => t.withException e
  | .annotate a => t.withAnnotation a

/-- The token behind all changes of a list, made one after the other. -/
def changeAll (t : MethodToken) (cs : List Change) : MethodToken :=
  cs.foldl change t

theorem changeAll_cons (t : MethodToken) (c : Change) (cs : List Change) :
    t.changeAll (c :: cs) = (t.change c).changeAll cs := rfl

/-- One change, field by field. -/
theorem change_eq (t : MethodToken) (c : Change) : t.change c =
    { t with
      modifiers := (c.content? .modifiers).getD t.modifiers
      parameters := t.parameters ++ (c.content? .parameters).toList
      exceptionTypes := t.exceptionTypes ++ (c.content? .exceptionTypes).toList
      annotations := t.annotations ++ (c.content? .annotations).toList } := by
  cases c with
  | setModifiers m => simp [change, withModifiers, Change.content?]
  | addParameter p => simp [change, withParameter, Change.content?]
  | addException e => simp [change, withException, Change.content?]
  | annotate a => simp [change, withAnnotation, Change.content?]

/-- Of the values that are set one after the other the last one stays. -/
theorem getD_getLast?_toList_append {α : Type} (first : Option α) (later : List α) (start : α) :
    (first.toList ++ later).getLast?.getD start = later.getLast?.getD (first.getD start) := by
  cases first with
  | none => rfl
  | some a => simp [List.getLast?_cons]

/-- A list of changes, field by field. -/
theorem changeAll_eq (t : MethodToken) (cs : List Change) : t.changeAll cs =
    { t with
      modifiers := (Change.contents .modifiers cs).getLast?.getD t.modifiers
      parameters := t.parameters ++ Change.contents .parameters cs
      exceptionTypes := t.exceptionTypes ++ Change.contents .exceptionTypes cs
      annotations := t.annotations ++ Change.contents .annotations cs } := by
  -- The rest of the list starts from the token behind the first change.
  induction cs generalizing t with
  | nil => simp [changeAll, Change.contents]
  | cons c cs ih =>
    rw [changeAll_cons, ih, change_eq]
    simp only [Change.contents_cons, getD_getLast?_toList_append, List.append_assoc]

/-- Two lists of changes lead to the same token exactly if they bring the same parts in the same
order and leave the same access flags.  Flags that are replaced later do not count. -/
theorem changeAll_eq_changeAll_iff (t : MethodToken) (cs cs' : List Change) :
    t.changeAll cs' = t.changeAll cs ↔
      (Change.contents .modifiers cs').getLast?.getD t.modifiers =
        (Change.contents .modifiers cs).getLast?.getD t.modifiers ∧
      Change.contents .parameters cs' = Change.contents .parameters cs ∧
      Change.contents .exceptionTypes cs' = Change.contents .exceptionTypes cs ∧
      Change.contents .annotations cs' = Change.contents .annotations cs := by
  rw [changeAll_eq, changeAll_eq]
  simp

/-- Lists with the same changes of every kind in the same order lead to the same token. -/
theorem changeAll_eq_of_filter_kind_eq (t : MethodToken) {cs cs' : List Change}
    (h : ∀ k, cs'.filter (fun c => c.kind = k) = cs.filter fun c => c.kind = k) :
    t.changeAll cs' = t.changeAll cs := by
  have hcontents : ∀ k, Change.contents k cs' = Change.contents k cs :=
    fun k => Change.contents_eq_of_filter_eq (h k)
  rw [changeAll_eq_changeAll_iff, hcontents, hcontents, hcontents, hcontents]
  exact ⟨rfl, rfl, rfl, rfl⟩

/-- Changes act independently of each other.  Name, type variables, return type and default value
are those of the token at the start.  Its access flags are those of the last change of access flags,
if there is one, and its parameters, declared exceptions and annotations are followed by those that
the changes bring, in their order.  So two lists with the same changes of every kind in the same
order lead to the same token, however the kinds are interleaved. -/
theorem changes_act_independently (t : MethodToken) (cs : List Change) :
    (t.changeAll cs).name = t.name ∧
    (t.changeAll cs).typeVariables = t.typeVariables ∧
    (t.changeAll cs).returnType = t.returnType ∧
    (t.changeAll cs).defaultValue = t.defaultValue ∧
    (t.changeAll cs).modifiers = (Change.contents .modifiers cs).getLast?.getD t.modifiers ∧
    (t.changeAll cs).parameters = t.parameters ++ Change.contents .parameters cs ∧
    (t.changeAll cs).exceptionTypes = t.exceptionTypes ++ Change.contents .exceptionTypes cs ∧
    (t.changeAll cs).annotations = t.annotations ++ Change.contents .annotations cs ∧
    ∀ cs' : List Change,
      (∀ k, cs'.filter (fun c => c.kind = k) = cs.filter fun c => c.kind = k) →
        t.changeAll cs' = t.changeAll cs := by
  rw [changeAll_eq t cs]
  refine ⟨rfl, rfl, rfl, rfl, rfl, rfl, rfl, rfl, ?_⟩
  intro cs' hkinds
  rw [changeAll_eq_of_filter_kind_eq t hkinds, changeAll_eq]

/-- Access flags set twice, parameters and exceptions added between, and the same changes sorted by
kind.  The first of the new access flags are gone, and all that is added stands behind what was
there. -/
theorem changes_act_independently_of_interleaved :
    let token : MethodToken :=
      { name := "lookup", modifiers := .ofNat 0x8001, typeVariables := [{ symbol := "T" }],
        returnType := ⟨"T"⟩, parameters := [{ type := ⟨"int"⟩, name := some "index" }],
        exceptionTypes := [⟨"E"⟩], defaultValue := some (.boolean true) }
    let p : Parameter := { type := ⟨"java.util.Map"⟩ }
    let p' : Parameter := { type := ⟨"int"⟩, modifiers := .ofNat 0x0010 }
    let a : Annotation := { type := ⟨"Marked"⟩ }
    let m : Modifiers := .ofNat 0x0009
    let m' : Modifiers := .ofNat 0x0012
    let cs : List Change := [.addParameter p, .setModifiers m, .addException ⟨"F"⟩,
      .addParameter p', .setModifiers m', .annotate a, .addException ⟨"E"⟩]
    let cs' : List Change := [.annotate a, .addException ⟨"F"⟩, .addException ⟨"E"⟩,
      .setModifiers m, .setModifiers m', .addParameter p, .addParameter p']
    (token.changeAll cs).modifiers = m' ∧
      (token.changeAll cs).parameters = token.parameters ++ [p, p'] ∧
      (token.changeAll cs).exceptionTypes = [⟨"E"⟩, ⟨"F"⟩, ⟨"E"⟩] ∧
      (token.changeAll cs).annotations = [a] ∧
      (∀ k, cs'.filter (fun c => c.kind = k) = cs.filter fun c => c.kind = k) ∧
      token.changeAll cs' = token.changeAll cs := by
  intro token p p' a m m' cs cs'
  have hkinds : ∀ k, cs'.filter (fun c => c.kind = k) = cs.filter fun c => c.kind = k := by
    intro k
    cases k <;> rfl
  obtain ⟨-, -, -, -, hmodifiers, hparameters, hexceptions, hannotations, horder⟩ :=
    changes_act_independently token cs
  exact ⟨hmodifiers, hparameters, hexceptions, hannotations, hkinds, horder cs' hkinds⟩

end Redeclare.MethodToken
