import Redeclare.Program
import Redeclare.Proofs.Plan.Effect
import Redeclare.Proofs.Text.Numeral

/-!
# Display texts tell transformers apart

The display text of a transformer nests five kinds of text that share commas,
brackets and braces.  Where custom policies are left out, it still says which
transformer it belongs to.

There are three groups.

* Texts that can be split off.  `SplitsOff` says of one thing that its text,
  standing in front of any other text, tells what it is and where it ends.
  `splitsOff_closed` carries that from the items of a list to the whole list.
* The layers of a transformer.  A rule has a text of fixed width, a rule list
  and a compound are closed lists, and `Transformer.splitsOff_display` is the
  induction over the tree.
* Plans.  `Plan.compile_injective` takes the result back to configurations.
-/

namespace Redeclare

/-! ## Texts that can be split off -/

section SplitsOff

variable {α : Type} {write : α → List Char} {P : α → Prop}

/-- The text of `a` can be split off the front of any text: if what stands there can also be read as
the text of a `b` with `P`, then `b` is `a` and the same text follows. -/
def SplitsOff (write : α → List Char) (P : α → Prop) (a : α) : Prop :=
  ∀ b, P b → ∀ rest rest', write a ++ rest = write b ++ rest' → a = b ∧ rest = rest'

/-- Different texts of one length can be split off. -/
theorem splitsOff_of_length {n : Nat} (hlength : ∀ a, (write a).length = n)
    (hinj : ∀ a b, write a = write b → a = b) (a : α) : SplitsOff write P a := by
  intro b _ rest rest' h
  have hlen : (write a).length = (write b).length := by rw [hlength, hlength]
  obtain ⟨htext, hrest⟩ := List.append_inj h hlen
  exact ⟨hinj a b htext, hrest⟩

/-- The texts of items behind another item, each with its comma, and a closing bracket. -/
def closedRest (write : α → List Char) : List α → List Char
  | [] => [']']
  | a :: as => ',' :: ' ' :: write a ++ closedRest write as

/-- The texts of items with a comma between every two, and a closing bracket. -/
def closed (write : α → List Char) : List α → List Char
  | [] => [']']
  | a :: as => write a ++ closedRest write as

/-- A closed list is its items joined by commas. -/
theorem toList_join_closed (write : α → String) (as : List α) :
    (Text.join ", " (as.map write)).toList ++ [']'] = closed (fun a => (write a).toList) as := by
  have hrest : ∀ (a : α) (as : List α),
      (Text.join ", " (write a :: as.map write)).toList ++ [']'] =
        (write a).toList ++ closedRest (fun a => (write a).toList) as := by
    intro a as
    induction as generalizing a with
    | nil => rfl
    | cons b as ih =>
      rw [List.map_cons, Text.join, String.toList_append, String.toList_append, List.append_assoc,
        ih b, closedRest]
      · simp
      · exact List.cons_ne_nil _ _
  cases as with
  | nil => rfl
  | cons a as => exact hrest a as

theorem splitsOff_closedRest {as : List α} (h : ∀ a ∈ as, SplitsOff write P a) :
    SplitsOff (closedRest write) (fun bs => ∀ b ∈ bs, P b) as := by
  induction as with
  | nil =>
    intro bs _ rest rest' heq
    cases bs with
    | nil => exact ⟨rfl, (List.cons.inj heq).2⟩
    | cons b bs => exact absurd (List.cons.inj heq).1 (by decide)
  | cons a as ih =>
    intro bs hbs rest rest' heq
    cases bs with
    | nil => exact absurd (List.cons.inj heq).1 (by decide)
    | cons b bs =>
      simp only [closedRest, List.cons_append, List.append_assoc, List.cons.injEq,
        true_and] at heq
      obtain ⟨rfl, hrest⟩ := h a List.mem_cons_self b (hbs b List.mem_cons_self) _ _ heq
      obtain ⟨rfl, htail⟩ := ih (fun c hc => h c (List.mem_cons_of_mem _ hc)) bs
        (fun c hc => hbs c (List.mem_cons_of_mem _ hc)) _ _ hrest
      exact ⟨rfl, htail⟩

/-- A closed list can be split off if its items can: no item starts like the end of the list. -/
theorem splitsOff_closed (hhead : ∀ a, (write a).head? = some 'M') {as : List α}
    (h : ∀ a ∈ as, SplitsOff write P a) :
    SplitsOff (closed write) (fun bs => ∀ b ∈ bs, P b) as := by
  have hne : ∀ (a : α) (as : List α) (rest rest' : List Char),
      ']' :: rest ≠ closed write (a :: as) ++ rest' := by
    intro a as rest rest' heq
    obtain ⟨cs, hcs⟩ := List.head?_eq_some_iff.mp (hhead a)
    rw [closed, hcs] at heq
    exact absurd (List.cons.inj heq).1 (by decide)
  intro bs hbs rest rest' heq
  cases as with
  | nil =>
    cases bs with
    | nil => exact ⟨rfl, (List.cons.inj heq).2⟩
    | cons b bs => exact absurd heq (hne b bs rest rest')
  | cons a as =>
    cases bs with
    | nil => exact absurd heq.symm (hne a as rest' rest)
    | cons b bs =>
      rw [closed, closed, List.append_assoc, List.append_assoc] at heq
      obtain ⟨rfl, hrest⟩ := h a List.mem_cons_self b (hbs b List.mem_cons_self) _ _ heq
      obtain ⟨rfl, htail⟩ := splitsOff_closedRest
        (fun c hc => h c (List.mem_cons_of_mem _ hc)) bs
        (fun c hc => hbs c (List.mem_cons_of_mem _ hc)) _ _ hrest
      exact ⟨rfl, htail⟩

end SplitsOff

/-! ## Rules -/

/-- The four digits of a set are the set. -/
theorem Modifiers.eq_of_hexFixed_eq {m n : Modifiers}
    (h : Text.hexFixed Text.hexDigit 4 m.toNat = Text.hexFixed Text.hexDigit 4 n.toNat) : m = n := by
  have hbits := Text.eq_of_hexFixed_eq m.bits.isLt n.bits.isLt h
  cases m
  cases n
  congr 1
  exact BitVec.eq_of_toNat_eq hbits

namespace Rule

/-- The characters of the display text. -/
def chars (r : Rule) : List Char := r.display.toList

theorem chars_eq (r : Rule) :
    r.chars = "ModifierRule\x7brange=0x".toList ++ (Text.hexFixed Text.hexDigit 4 r.range.toNat
      ++ (", mask=0x".toList ++ (Text.hexFixed Text.hexDigit 4 r.mask.toNat ++ "\x7d".toList))) := by
  unfold chars display
  simp only [String.toList_append, String.toList_ofList, List.append_assoc]

theorem length_chars (r : Rule) : r.chars.length = 39 := by
  rw [chars_eq]
  simp only [List.length_append, Text.length_hexFixed]
  rfl

theorem head?_chars (r : Rule) : r.chars.head? = some 'M' := by
  rw [chars_eq, List.head?_append]
  rfl

theorem eq_of_chars_eq {r s : Rule} (h : r.chars = s.chars) : r = s := by
  rw [chars_eq, chars_eq] at h
  obtain ⟨hrange, htail⟩ := List.append_inj (List.append_cancel_left h) (by simp)
  obtain ⟨hmask, _⟩ := List.append_inj (List.append_cancel_left htail) (by simp)
  cases r with | mk range mask =>
  cases s with | mk range' mask' =>
  exact congr (congrArg mk (Modifiers.eq_of_hexFixed_eq hrange))
    (Modifiers.eq_of_hexFixed_eq hmask)

end Rule

theorem toList_displayRules (rules : List Rule) :
    (displayRules rules).toList =
      "ForModifierTransformation[".toList ++ closed Rule.chars rules := by
  unfold displayRules
  rw [String.toList_append, String.toList_append, List.append_assoc]
  exact congrArg _ (toList_join_closed Rule.display rules)

/-- The text of a rule list ends at its bracket. -/
theorem splitsOff_displayRules (rules : List Rule) :
    SplitsOff (fun rules => (displayRules rules).toList) (fun _ => True) rules := by
  intro rules' _ rest rest' heq
  simp only [toList_displayRules, List.append_assoc] at heq
  exact splitsOff_closed (P := fun _ => True) Rule.head?_chars
    (fun r _ => splitsOff_of_length Rule.length_chars (fun _ _ => Rule.eq_of_chars_eq) r)
    rules' (fun _ _ => trivial) rest rest' (List.append_cancel_left heq)

namespace Transformer

/-! ## Transformers -/

/-- The characters of the display text. -/
def chars (t : Transformer) : List Char := t.display.toList

theorem displaySteps_eq_join (steps : List Transformer) :
    displaySteps steps = Text.join ", " (steps.map display) := by
  have hrest : ∀ (t : Transformer) (steps : List Transformer),
      display t ++ displayRest steps = Text.join ", " (display t :: steps.map display) := by
    intro t steps
    induction steps generalizing t with
    | nil => rw [displayRest, String.append_empty, List.map_nil, Text.join]
    | cons u steps ih =>
      rw [displayRest, List.map_cons, Text.join, ← ih u]
      · simp only [String.append_assoc]
      · exact List.cons_ne_nil _ _
  cases steps with
  | nil => rfl
  | cons t steps => exact hrest t steps

/-- The letter that tells the three kinds of transformer apart. -/
def initial : Transformer → Char
  | noOp => 'N'
  | simple _ => 'S'
  | compound _ => 'C'

theorem chars_simple_override (rules : List Rule) :
    (simple (.override rules)).chars = "MethodTransformer::".toList
      ++ ("Simple\x7btransformer=".toList ++ ((displayRules rules).toList ++ "\x7d".toList)) := by
  unfold chars display displaySimple Policy.display
  simp only [String.toList_append, List.append_assoc]

theorem chars_compound (steps : List Transformer) :
    (compound steps).chars =
      "MethodTransformer::".toList ++ ("Compound[".toList ++ closed chars steps) := by
  have hdisplay : (compound steps).display =
      "MethodTransformer::Compound[" ++ displaySteps steps ++ "]" := rfl
  have hprefix : "MethodTransformer::Compound[".toList =
      "MethodTransformer::".toList ++ "Compound[".toList := rfl
  have hclosed : (displaySteps steps).toList ++ "]".toList = closed chars steps := by
    rw [displaySteps_eq_join]
    exact toList_join_closed display steps
  unfold chars at hclosed ⊢
  rw [hdisplay, ← hclosed]
  simp only [String.toList_append, hprefix, List.append_assoc]

/-- The letter stands behind the prefix that all transformers have. -/
theorem exists_chars_eq (t : Transformer) :
    ∃ body, t.chars = "MethodTransformer::".toList ++ t.initial :: body := by
  cases t with
  | noOp =>
    have hword : "MethodTransformer::NoOp".toList =
        "MethodTransformer::".toList ++ 'N' :: "oOp".toList := rfl
    exact ⟨"oOp".toList, hword⟩
  | simple policy =>
    have hword : "Simple\x7btransformer=".toList = 'S' :: "imple\x7btransformer=".toList := rfl
    refine ⟨"imple\x7btransformer=".toList ++ (policy.display.toList ++ "\x7d".toList), ?_⟩
    unfold chars display displaySimple
    simp only [String.toList_append, List.append_assoc, hword, List.cons_append, initial]
  | compound steps =>
    have hword : "Compound[".toList = 'C' :: "ompound[".toList := rfl
    refine ⟨"ompound[".toList ++ closed chars steps, ?_⟩
    rw [chars_compound, hword, List.cons_append, initial]

theorem head?_chars (t : Transformer) : t.chars.head? = some 'M' := by
  obtain ⟨body, hbody⟩ := exists_chars_eq t
  rw [hbody, List.head?_append]
  rfl

theorem initial_eq_of_chars_append_eq {t u : Transformer} {rest rest' : List Char}
    (h : t.chars ++ rest = u.chars ++ rest') : t.initial = u.initial := by
  obtain ⟨body, hbody⟩ := exists_chars_eq t
  obtain ⟨body', hbody'⟩ := exists_chars_eq u
  rw [hbody, hbody', List.append_assoc, List.append_assoc] at h
  exact (List.cons.inj (List.append_cancel_left h)).1

mutual

/-- The text of a transformer says which one it is, and where it ends. -/
theorem splitsOff_display : ∀ t : Transformer, t.RulesOnly → SplitsOff chars RulesOnly t
  | noOp, _ => by
    intro u _ rest rest' heq
    have hinitial := initial_eq_of_chars_append_eq heq
    cases u with
    | noOp => exact ⟨rfl, List.append_cancel_left heq⟩
    | simple _ | compound _ => exact absurd hinitial (by simp [initial])
  | simple policy, ht => by
    intro u hu rest rest' heq
    have hinitial := initial_eq_of_chars_append_eq heq
    cases u with
    | simple policy' =>
      obtain ⟨rules, rfl⟩ := ht policy List.mem_cons_self
      obtain ⟨rules', rfl⟩ := hu policy' List.mem_cons_self
      simp only [chars_simple_override, List.append_assoc] at heq
      obtain ⟨rfl, hrest⟩ := splitsOff_displayRules rules rules' trivial _ _
        (List.append_cancel_left (List.append_cancel_left heq))
      exact ⟨rfl, List.append_cancel_left hrest⟩
    | noOp | compound _ => exact absurd hinitial (by simp [initial])
  | compound steps, ht => by
    intro u hu rest rest' heq
    have hinitial := initial_eq_of_chars_append_eq heq
    cases u with
    | compound steps' =>
      simp only [chars_compound, List.append_assoc] at heq
      obtain ⟨rfl, hrest⟩ := splitsOff_closed head?_chars
        (splitsOff_displayAll steps (rulesOnly_compound.mp ht)) steps'
        (rulesOnly_compound.mp hu) _ _ (List.append_cancel_left (List.append_cancel_left heq))
      exact ⟨rfl, hrest⟩
    | noOp | simple _ => exact absurd hinitial (by simp [initial])

theorem splitsOff_displayAll : ∀ steps : List Transformer, (∀ t ∈ steps, t.RulesOnly) →
    ∀ t ∈ steps, SplitsOff chars RulesOnly t
  | [], _ => fun _ ht => absurd ht List.not_mem_nil
  | step :: steps, h => by
    intro t ht
    rcases List.mem_cons.mp ht with heq | ht
    · rw [heq]
      exact splitsOff_display step (h step List.mem_cons_self)
    · exact splitsOff_displayAll steps (fun u hu => h u (List.mem_cons_of_mem _ hu)) t ht

end

theorem eq_of_display_eq {t u : Transformer} (ht : t.RulesOnly) (hu : u.RulesOnly)
    (h : t.display = u.display) : t = u := by
  have hchars : t.chars ++ [] = u.chars ++ [] := by rw [chars, chars, h]
  exact (splitsOff_display t ht u hu [] [] hchars).1

mutual

/-- Without custom policies, only one transformer is the same as a transformer. -/
theorem same_iff_eq : ∀ t : Transformer, t.RulesOnly → ∀ u, t.same u = true ↔ t = u
  | noOp, _, u => by cases u <;> simp [same]
  | simple policy, ht, u => by
    obtain ⟨rules, rfl⟩ := ht policy List.mem_cons_self
    cases u with
    | simple policy' => cases policy' <;> simp [same, Policy.same]
    | noOp | compound _ => simp [same]
  | compound steps, ht, u => by
    cases u with
    | compound steps' => simp [same, sameSteps_iff_eq steps (rulesOnly_compound.mp ht) steps']
    | noOp | simple _ => simp [same]

theorem sameSteps_iff_eq : ∀ steps : List Transformer, (∀ t ∈ steps, t.RulesOnly) →
    ∀ steps', sameSteps steps steps' = true ↔ steps = steps'
  | [], _, steps' => by cases steps' <;> simp [sameSteps]
  | t :: steps, h, steps' => by
    cases steps' with
    | nil => simp [sameSteps]
    | cons u steps' =>
      simp [sameSteps, same_iff_eq t (h t List.mem_cons_self) u,
        sameSteps_iff_eq steps (fun v hv => h v (List.mem_cons_of_mem _ hv)) steps']

end

end Transformer

/-! ## Plans -/

/-- No two choices make the same rule. -/
theorem ModifierName.rule_injective {m n : ModifierName} (h : m.rule = n.rule) : m = n := by
  cases m <;> cases n <;> first | rfl | exact absurd h (by decide)

namespace Plan

theorem rulesOnly_compile (p : Plan) : p.compile.RulesOnly := by
  intro policy hpolicy
  rw [policies_compile] at hpolicy
  obtain ⟨rules, _, rfl⟩ := List.mem_map.mp hpolicy
  exact ⟨rules, rfl⟩

mutual

/-- A plan can be read off its transformer. -/
theorem compile_injective : ∀ p q : Plan, p.compile = q.compile → p = q
  | noop, q, h => by cases q <;> simp_all [compile, Transformer.overrideWith]
  | override names, q, h => by
    cases q with
    | override names' =>
      have hrules : names.map ModifierName.rule = names'.map ModifierName.rule := by
        simpa [compile, Transformer.overrideWith] using h
      exact congrArg _ ((List.map_inj_right fun _ _ => ModifierName.rule_injective).mp hrules)
    | noop | chain _ => simp [compile, Transformer.overrideWith] at h
  | chain plans, q, h => by
    cases q with
    | chain plans' => exact congrArg _ (compileAll_injective plans plans' (by simpa [compile] using h))
    | noop | override _ => simp [compile, Transformer.overrideWith] at h

theorem compileAll_injective : ∀ ps qs : List Plan, compileAll ps = compileAll qs → ps = qs
  | [], qs, h => by cases qs <;> simp_all [compileAll]
  | p :: ps, qs, h => by
    cases qs with
    | nil => simp [compileAll] at h
    | cons q qs =>
      obtain ⟨hhead, htail⟩ := List.cons.inj (by simpa only [compileAll] using h)
      rw [compile_injective p q hhead, compileAll_injective ps qs htail]

end

end Plan

namespace Program

theorem describe_eq (settings : Settings) :
    describe settings = { status := 0, output := settings.plan.compile.display ++ "\n" } := by
  rw [describe, Plan.compileChecked_eq]

end Program

/-- Transformers without custom policies have the same display text exactly if they are the same.
The text that describes settings is therefore the same exactly if their plans are equal: no two plans
compile to one transformer, as no two choices make one rule. -/
theorem display_eq_iff_same :
    (∀ t u : Transformer, t.RulesOnly → u.RulesOnly →
      (t.display = u.display ↔ t.same u = true)) ∧
    (∀ s s' : Settings, (Program.describe s).output = (Program.describe s').output ↔
      s.plan = s'.plan) ∧
    (∀ p q : Plan, p.compile = q.compile → p = q) ∧
    ∀ m n : ModifierName, m.rule = n.rule → m = n := by
  refine ⟨fun t u ht hu => ?_, fun s s' => ?_, Plan.compile_injective,
    fun _ _ => ModifierName.rule_injective⟩
  · rw [Transformer.same_iff_eq t ht]
    exact ⟨Transformer.eq_of_display_eq ht hu, congrArg Transformer.display⟩
  · rw [Program.describe_eq, Program.describe_eq]
    constructor
    · intro h
      have hdisplay := (String.append_left_inj "\n").mp h
      exact Plan.compile_injective _ _ (Transformer.eq_of_display_eq
        (Plan.rulesOnly_compile _) (Plan.rulesOnly_compile _) hdisplay)
    · intro h
      rw [h]

/-- Two empty lists of different kinds, each as the only step of a compound, have different texts. -/
theorem display_eq_iff_same_of_empty_steps :
    let t := Transformer.compound [.overrideWith []]
    let u := Transformer.compound [.compound []]
    t.RulesOnly ∧ u.RulesOnly ∧ t.same u = false ∧ t.display ≠ u.display := by
  intro t u
  have ht : t.RulesOnly := Transformer.rulesOnly_compound.mpr fun v hv => by
    rw [List.mem_singleton.mp hv]
    exact fun p hp => ⟨[], List.mem_singleton.mp hp⟩
  have hu : u.RulesOnly := fun p hp => absurd hp List.not_mem_nil
  have hsame : t.same u = false := rfl
  refine ⟨ht, hu, hsame, fun h => ?_⟩
  rw [(display_eq_iff_same.1 t u ht hu).mp h] at hsame
  exact absurd hsame (by decide)

end Redeclare
