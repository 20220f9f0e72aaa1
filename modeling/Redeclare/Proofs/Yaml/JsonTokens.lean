import Redeclare.Proofs.Yaml.JsonSteps

/-!
# The tokens of a JSON text

A JSON text is scanned into one token for each bracket, comma, colon and scalar,
and one more in front of each key.

* `Json.tokens` are the tokens of a value, and `Json.isLegible` is the condition
  on the value.
* `Scanner.reaches_value` and the lemmas beside it are the induction over the value,
  with one step of the scanner for each token.
* `Token.scan_write` is the scan of a whole text.
-/

namespace Redeclare

open Yaml

namespace Json

mutual

/-- Whether the scalars of a value are seen in YAML as they are: strings hold legible characters only,
no key is longer than a key may be, and no number has a fraction. -/
def isLegible : Json → Bool
  | .null | .bool _ | .int _ => true
  | .float _ => false
  | .str s => s.toList.all Yaml.isLegible
  | .arr items => isLegibleItems items
  | .obj members => isLegibleMembers members

/-- Whether all items are legible. -/
def isLegibleItems : List Json → Bool
  | [] => true
  | item :: items => item.isLegible && isLegibleItems items

/-- Whether all keys and values are legible. -/
def isLegibleMembers : List (String × Json) → Bool
  | [] => true
  | (key, value) :: members =>
    key.toList.all Yaml.isLegible && decide ((writeString key).length ≤ Scanner.maxKeyLength)
      && value.isLegible && isLegibleMembers members

end

mutual

/-- The tokens of a value in YAML. -/
def tokens : Json → List Token
  | .null => [.scalar "null".toList .plain]
  | .bool b => [.scalar (toString b).toList .plain]
  | .int n => [.scalar (toString n).toList .plain]
  | .float x => [.scalar (writeFloat x) .plain]
  | .str s => [.scalar s.toList .double]
  | .arr [] => [.flowSequence, .flowSequenceEnd]
  | .arr (item :: items) =>
    .flowSequence :: item.tokens ++ itemTokens items ++ [.flowSequenceEnd]
  | .obj [] => [.flowMapping, .flowMappingEnd]
  | .obj ((key, value) :: members) =>
    .flowMapping :: .key :: .scalar key.toList .double :: .value :: value.tokens
      ++ memberTokens members ++ [.flowMappingEnd]

/-- The tokens of the items behind the first. -/
def itemTokens : List Json → List Token
  | [] => []
  | item :: items => .flowEntry :: item.tokens ++ itemTokens items

/-- The tokens of the members behind the first. -/
def memberTokens : List (String × Json) → List Token
  | [] => []
  | (key, value) :: members =>
    .flowEntry :: .key :: .scalar key.toList .double :: .value :: value.tokens ++ memberTokens members

end

end Json

namespace Yaml

open Json

namespace Scanner

variable {s : Scanner} {c : Char} {text : List Char} {done : List Token} {key : Option PossibleKey}
  {outer : List (Option PossibleKey)}

/-! ## Values -/

theorem all_isJsonBlank_lineBreak (layout : Layout) (level : Nat) :
    (layout.lineBreak level).all isJsonBlank = true := by
  cases layout with
  | compact => rfl
  | pretty => simp [Layout.lineBreak, isJsonBlank]

/-- A text that may follow a value. -/
def EndsValue (text : List Char) : Prop :=
  ∃ space c rest, Delimited text space c rest

theorem endsValue_writeItems {layout : Layout} {level : Nat} (items : List Json)
    (htext : EndsValue text) : EndsValue (writeItems layout level items ++ text) := by
  cases items with
  | nil => exact htext
  | cons item items =>
    refine ⟨[], ',', layout.lineBreak level ++ writeAt layout level item ++
      writeItems layout level items ++ text, ?_, rfl, .inl rfl⟩
    simp [writeItems]

theorem endsValue_writeMembers {layout : Layout} {level : Nat} (members : List (String × Json))
    (htext : EndsValue text) : EndsValue (writeMembers layout level members ++ text) := by
  cases members with
  | nil => exact htext
  | cons e members =>
    refine ⟨[], ',', layout.lineBreak level ++ writeString e.1 ++ layout.colon ++
      writeAt layout level e.2 ++ writeMembers layout level members ++ text, ?_, rfl, .inl rfl⟩
    simp [writeMembers]

theorem endsValue_lineBreak {layout : Layout} {level : Nat} (hc : c = ']' ∨ c = '\x7d') :
    EndsValue (layout.lineBreak level ++ c :: text) :=
  ⟨layout.lineBreak level, c, text, rfl, all_isJsonBlank_lineBreak layout level, .inr hc⟩

/-- By reading tokens the scanner comes to stand before a text, within the same brackets. -/
def Reaches (s : Scanner) (done : List Token) (outer : List (Option PossibleKey)) (text : List Char) :
    Prop :=
  ∃ s' key, Steps s s' ∧ s'.At done (key :: outer) text

mutual

/-- A value within brackets. -/
theorem reaches_value (layout : Layout) : ∀ (v : Json) {level : Nat} {s : Scanner} {done : List Token}
    {key : Option PossibleKey} {outer : List (Option PossibleKey)} {text : List Char},
    v.isLegible = true → outer ≠ [] → EndsValue text →
    s.At done (key :: outer) (writeAt layout level v ++ text) → s.Reaches (done ++ v.tokens) outer text
  | .null, _, _, _, _, _, _, _, houter, ⟨_, _, _, htext⟩, h => by
    obtain ⟨s', key', hstep, h'⟩ := h.step_plain houter isBare_null htext
    exact ⟨s', key', .single hstep, h'⟩
  | .bool true, _, _, _, _, _, _, _, houter, ⟨_, _, _, htext⟩, h => by
    obtain ⟨s', key', hstep, h'⟩ := h.step_plain houter isBare_true htext
    exact ⟨s', key', .single hstep, h'⟩
  | .bool false, _, _, _, _, _, _, _, houter, ⟨_, _, _, htext⟩, h => by
    obtain ⟨s', key', hstep, h'⟩ := h.step_plain houter isBare_false htext
    exact ⟨s', key', .single hstep, h'⟩
  | .int n, _, _, _, _, _, _, _, houter, ⟨_, _, _, htext⟩, h => by
    obtain ⟨s', key', hstep, h'⟩ := h.step_plain houter (isBare_toString n) htext
    exact ⟨s', key', .single hstep, h'⟩
  | .float _, _, _, _, _, _, _, hlegible, _, _, _ => Bool.noConfusion hlegible
  | .str _, _, _, _, _, _, _, hlegible, houter, _, h => by
    obtain ⟨s', key', hstep, h', -⟩ := h.step_string (.inl houter) hlegible
    exact ⟨s', key', .single hstep, h'⟩
  | .arr items, _, _, _, _, _, _, hlegible, houter, _, h => by
    obtain ⟨s', key', hsteps, h', -⟩ := reaches_array layout items hlegible (.inl houter) h
    exact ⟨s', key', hsteps, h'⟩
  | .obj members, _, _, _, _, _, _, hlegible, houter, _, h => by
    obtain ⟨s', key', hsteps, h', -⟩ := reaches_object layout members hlegible (.inl houter) h
    exact ⟨s', key', hsteps, h'⟩

/-- An array, within brackets or at the start of the text. -/
theorem reaches_array (layout : Layout) : ∀ (items : List Json) {level : Nat} {s : Scanner}
    {done : List Token} {key : Option PossibleKey} {outer : List (Option PossibleKey)}
    {text : List Char}, isLegibleItems items = true →
    outer ≠ [] ∨ s.cursor.rest = writeAt layout level (.arr items) ++ text →
    s.At done (key :: outer) (writeAt layout level (.arr items) ++ text) →
    ∃ s' key', Steps s s' ∧ s'.At (done ++ (Json.arr items).tokens) (key' :: outer) text ∧
      s'.cursor.rest = text
  | [], _, _, _, _, _, _, _, hplace, h => by
    obtain ⟨s₁, key', hopen, h, -⟩ := h.step_open hplace rfl (by decide)
    obtain ⟨s₂, hclose, h, hrest⟩ := h.step_close rfl (by decide)
    rw [List.append_assoc] at h
    exact ⟨s₂, key', .tail (.single hopen) hclose, h, hrest⟩
  | item :: items, level, _, _, _, _, text, hlegible, hplace, h => by
    rw [isLegibleItems, Bool.and_eq_true] at hlegible
    have htext : writeAt layout level (.arr (item :: items)) ++ text =
        '[' :: (layout.lineBreak (level + 1) ++ (writeAt layout (level + 1) item ++
          (writeItems layout (level + 1) items ++ (layout.lineBreak level ++ ']' :: text)))) := by
      simp [writeAt]
    have hend : EndsValue (layout.lineBreak level ++ ']' :: text) := endsValue_lineBreak (.inl rfl)
    rw [htext] at h hplace
    obtain ⟨s₁, key', hopen, h, -⟩ := h.step_open hplace rfl (by decide)
    obtain ⟨s₂, _, hitem, h⟩ := reaches_value layout item hlegible.1 (List.cons_ne_nil _ _)
      (endsValue_writeItems items hend) (h.skip_space (all_isJsonBlank_lineBreak layout _))
    obtain ⟨s₃, _, hitems, h⟩ :=
      reaches_items layout items hlegible.2 (List.cons_ne_nil _ _) hend h
    obtain ⟨s₄, hclose, h, hrest⟩ :=
      (h.skip_space (all_isJsonBlank_lineBreak layout _)).step_close rfl (by decide)
    refine ⟨s₄, key', .tail (.trans (.head hopen hitem) hitems) hclose, ?_, hrest⟩
    simpa [Json.tokens] using h

/-- The items behind the first. -/
theorem reaches_items (layout : Layout) : ∀ (items : List Json) {level : Nat} {s : Scanner}
    {done : List Token} {key : Option PossibleKey} {outer : List (Option PossibleKey)}
    {text : List Char}, isLegibleItems items = true → outer ≠ [] → EndsValue text →
    s.At done (key :: outer) (writeItems layout level items ++ text) →
    s.Reaches (done ++ itemTokens items) outer text
  | [], _, s, _, key, _, _, _, _, _, h => ⟨s, key, .refl, by simpa [itemTokens, writeItems] using h⟩
  | item :: items, level, _, _, _, _, text, hlegible, houter, hend, h => by
    rw [isLegibleItems, Bool.and_eq_true] at hlegible
    have htext : writeItems layout level (item :: items) ++ text =
        ',' :: (layout.lineBreak level ++ (writeAt layout level item ++
          (writeItems layout level items ++ text))) := by
      simp [writeItems]
    rw [htext] at h
    obtain ⟨s₁, _, hcomma, h, -⟩ := h.step_comma houter
    obtain ⟨s₂, _, hitem, h⟩ := reaches_value layout item hlegible.1 houter
      (endsValue_writeItems items hend) (h.skip_space (all_isJsonBlank_lineBreak layout _))
    obtain ⟨s₃, key', hitems, h⟩ := reaches_items layout items hlegible.2 houter hend h
    refine ⟨s₃, key', .trans (.head hcomma hitem) hitems, ?_⟩
    simpa [itemTokens] using h

/-- An object, within brackets or at the start of the text. -/
theorem reaches_object (layout : Layout) : ∀ (members : List (String × Json)) {level : Nat}
    {s : Scanner} {done : List Token} {key : Option PossibleKey}
    {outer : List (Option PossibleKey)} {text : List Char}, isLegibleMembers members = true →
    outer ≠ [] ∨ s.cursor.rest = writeAt layout level (.obj members) ++ text →
    s.At done (key :: outer) (writeAt layout level (.obj members) ++ text) →
    ∃ s' key', Steps s s' ∧ s'.At (done ++ (Json.obj members).tokens) (key' :: outer) text ∧
      s'.cursor.rest = text
  | [], _, _, _, _, _, _, _, hplace, h => by
    obtain ⟨s₁, key', hopen, h, -⟩ := h.step_open hplace rfl (by decide)
    obtain ⟨s₂, hclose, h, hrest⟩ := h.step_close rfl (by decide)
    rw [List.append_assoc] at h
    exact ⟨s₂, key', .tail (.single hopen) hclose, h, hrest⟩
  | (name, value) :: members, level, _, _, _, _, text, hlegible, hplace, h => by
    rw [isLegibleMembers, Bool.and_eq_true, Bool.and_eq_true, Bool.and_eq_true,
      decide_eq_true_iff] at hlegible
    obtain ⟨⟨⟨hname, hlength⟩, hvalue⟩, hmembers⟩ := hlegible
    have htext : writeAt layout level (.obj ((name, value) :: members)) ++ text =
        '\x7b' :: (layout.lineBreak (level + 1) ++ (writeString name ++ (layout.colon ++
          (writeAt layout (level + 1) value ++ (writeMembers layout (level + 1) members ++
            (layout.lineBreak level ++ '\x7d' :: text)))))) := by
      simp [writeAt]
    have hend : EndsValue (layout.lineBreak level ++ '\x7d' :: text) := endsValue_lineBreak (.inr rfl)
    rw [htext] at h hplace
    obtain ⟨s₁, key', hopen, h, hallowed⟩ := h.step_open hplace rfl (by decide)
    obtain ⟨s₂, _, hkey, h⟩ := (h.skip_space (all_isJsonBlank_lineBreak layout _)).steps_key
      (List.cons_ne_nil _ _) hallowed hname hlength
    obtain ⟨s₃, _, hfirst, h⟩ := reaches_value layout value hvalue (List.cons_ne_nil _ _)
      (endsValue_writeMembers members hend) h
    obtain ⟨s₄, _, hrest, h⟩ :=
      reaches_members layout members hmembers (List.cons_ne_nil _ _) hend h
    obtain ⟨s₅, hclose, h, hbehind⟩ :=
      (h.skip_space (all_isJsonBlank_lineBreak layout _)).step_close rfl (by decide)
    refine ⟨s₅, key', .tail (.trans (.trans (.head hopen hkey) hfirst) hrest) hclose, ?_, hbehind⟩
    simpa [Json.tokens] using h

/-- The members behind the first. -/
theorem reaches_members (layout : Layout) : ∀ (members : List (String × Json)) {level : Nat}
    {s : Scanner} {done : List Token} {key : Option PossibleKey}
    {outer : List (Option PossibleKey)} {text : List Char}, isLegibleMembers members = true →
    outer ≠ [] → EndsValue text →
    s.At done (key :: outer) (writeMembers layout level members ++ text) →
    s.Reaches (done ++ memberTokens members) outer text
  | [], _, s, _, key, _, _, _, _, _, h => ⟨s, key, .refl, by simpa [memberTokens, writeMembers] using h⟩
  | (name, value) :: members, level, _, _, _, _, text, hlegible, houter, hend, h => by
    rw [isLegibleMembers, Bool.and_eq_true, Bool.and_eq_true, Bool.and_eq_true,
      decide_eq_true_iff] at hlegible
    obtain ⟨⟨⟨hname, hlength⟩, hvalue⟩, hmembers⟩ := hlegible
    have htext : writeMembers layout level ((name, value) :: members) ++ text =
        ',' :: (layout.lineBreak level ++ (writeString name ++ (layout.colon ++
          (writeAt layout level value ++ (writeMembers layout level members ++ text))))) := by
      simp [writeMembers]
    rw [htext] at h
    obtain ⟨s₁, _, hcomma, h, hallowed⟩ := h.step_comma houter
    obtain ⟨s₂, _, hkey, h⟩ := (h.skip_space (all_isJsonBlank_lineBreak layout _)).steps_key houter
      hallowed hname hlength
    obtain ⟨s₃, _, hfirst, h⟩ := reaches_value layout value hvalue houter
      (endsValue_writeMembers members hend) h
    obtain ⟨s₄, key', hrest, h⟩ := reaches_members layout members hmembers houter hend h
    refine ⟨s₄, key', .trans (.trans (.head hcomma hkey) hfirst) hrest, ?_⟩
    simpa [memberTokens] using h

end

/-- A scalar without quotes that is the whole text. -/
theorem steps_word {word : List Char} (h : s.At done [key] word) (hword : IsBare word)
    (hrest : s.cursor.rest = word) :
    ∃ s' key', Steps s s' ∧ s'.At (done ++ [.scalar word .plain]) [key'] [] ∧ s'.cursor.rest = [] := by
  have htext : word = word ++ [] := (List.append_nil word).symm
  have hnext : s.next = some <$> s.plainScalar :=
    (htext ▸ h : s.At done [key] (word ++ [])).next_eq_plainScalar hword (hrest.trans htext)
  obtain ⟨key', hkey', -, hsave⟩ := h.saveKey
  have hplain : s.plainScalar = .ok { s.emit (.scalar word .plain) with
      cursor := s.cursor.pass word.length [], keys := [key'], keyAllowed := false } := by
    rw [plainScalar, hsave]
    change Except.bind (scanPlain _ _ s.cursor) _ = _
    rw [scanPlain_of_isBare_end _ _ hword hrest]
    rfl
  have hlength : 0 < s.cursor.rest.length := by
    rw [hrest]
    exact List.length_pos_iff.mpr hword.ne_nil
  have hoptional := List.forall_mem_cons.mpr ⟨hkey', h.optional_tail⟩
  exact ⟨_, key', .single (step_of_eq hnext hplain hlength),
    h.advance rfl rfl hoptional rfl rfl rfl, rfl⟩

/-- A value that is the whole text. -/
theorem steps_write (layout : Layout) {v : Json} {level : Nat} (hlegible : v.isLegible = true)
    (h : s.At done [key] (writeAt layout level v)) (hrest : s.cursor.rest = writeAt layout level v) :
    ∃ s' key', Steps s s' ∧ s'.At (done ++ v.tokens) [key'] [] ∧ s'.cursor.rest = [] := by
  have htext : writeAt layout level v = writeAt layout level v ++ [] := (List.append_nil _).symm
  cases v with
  | null => exact steps_word h isBare_null hrest
  | bool b => cases b with
    | true => exact steps_word h isBare_true hrest
    | false => exact steps_word h isBare_false hrest
  | int n => exact steps_word h (isBare_toString n) hrest
  | float x => exact Bool.noConfusion hlegible
  | str str =>
    rw [htext] at h hrest
    obtain ⟨s', key', hstep, h, hend, -⟩ := h.step_string (.inr hrest) hlegible
    exact ⟨s', key', .single hstep, h, hend⟩
  | arr items =>
    rw [htext] at h hrest
    exact reaches_array layout items hlegible (.inr hrest) h
  | obj members =>
    rw [htext] at h hrest
    exact reaches_object layout members hlegible (.inr hrest) h

end Scanner

/-! ## Whole texts -/

theorem all_isSettled_lineBreak (layout : Layout) (level : Nat) :
    (layout.lineBreak level).all isSettled = true := by
  cases layout with
  | compact => rfl
  | pretty =>
    rw [Layout.lineBreak, List.all_cons, List.all_replicate]
    split <;> rfl

theorem all_isSettled_colon (layout : Layout) : layout.colon.all isSettled = true := by
  cases layout <;> rfl

mutual

theorem all_isSettled_writeAt (layout : Layout) : ∀ (v : Json) (level : Nat), v.isLegible = true →
    (writeAt layout level v).all isSettled = true
  | .null, _, _ | .bool true, _, _ | .bool false, _, _ => rfl
  | .int n, _, _ => (isBare_toString n).all_isSettled
  | .float _, _, hlegible => Bool.noConfusion hlegible
  | .str _, _, hlegible => all_isSettled_writeString hlegible
  | .arr [], _, _ | .obj [], _, _ => rfl
  | .arr (item :: items), level, hlegible => by
    rw [Json.isLegible, isLegibleItems, Bool.and_eq_true] at hlegible
    have hitem := all_isSettled_writeAt layout item (level + 1) hlegible.1
    have hitems := all_isSettled_writeItems layout items (level + 1) hlegible.2
    have hopen : isSettled '[' = true := rfl
    have hclose : isSettled ']' = true := rfl
    simp only [writeAt, List.cons_append, List.all_cons, List.all_append, List.all_nil, hopen, hclose,
      all_isSettled_lineBreak, hitem, hitems, Bool.and_self]
  | .obj ((name, value) :: members), level, hlegible => by
    rw [Json.isLegible, isLegibleMembers, Bool.and_eq_true, Bool.and_eq_true,
      Bool.and_eq_true] at hlegible
    have hname := all_isSettled_writeString hlegible.1.1.1
    have hvalue := all_isSettled_writeAt layout value (level + 1) hlegible.1.2
    have hmembers := all_isSettled_writeMembers layout members (level + 1) hlegible.2
    have hopen : isSettled '\x7b' = true := rfl
    have hclose : isSettled '\x7d' = true := rfl
    simp only [writeAt, List.cons_append, List.all_cons, List.all_append, List.all_nil, hopen, hclose,
      all_isSettled_lineBreak, all_isSettled_colon, hname, hvalue, hmembers, Bool.and_self]

theorem all_isSettled_writeItems (layout : Layout) : ∀ (items : List Json) (level : Nat),
    isLegibleItems items = true → (writeItems layout level items).all isSettled = true
  | [], _, _ => rfl
  | item :: items, level, hlegible => by
    rw [isLegibleItems, Bool.and_eq_true] at hlegible
    have hitem := all_isSettled_writeAt layout item level hlegible.1
    have hitems := all_isSettled_writeItems layout items level hlegible.2
    have hcomma : isSettled ',' = true := rfl
    simp only [writeItems, List.cons_append, List.all_cons, List.all_append, hcomma,
      all_isSettled_lineBreak, hitem, hitems, Bool.and_self]

theorem all_isSettled_writeMembers (layout : Layout) : ∀ (members : List (String × Json)) (level : Nat),
    isLegibleMembers members = true → (writeMembers layout level members).all isSettled = true
  | [], _, _ => rfl
  | (name, value) :: members, level, hlegible => by
    rw [isLegibleMembers, Bool.and_eq_true, Bool.and_eq_true, Bool.and_eq_true] at hlegible
    have hname := all_isSettled_writeString hlegible.1.1.1
    have hvalue := all_isSettled_writeAt layout value level hlegible.1.2
    have hmembers := all_isSettled_writeMembers layout members level hlegible.2
    have hcomma : isSettled ',' = true := rfl
    simp only [writeMembers, List.cons_append, List.all_cons, List.all_append, hcomma,
      all_isSettled_lineBreak, all_isSettled_colon, hname, hvalue, hmembers, Bool.and_self]

end

theorem head?_writeAt (layout : Layout) {v : Json} (level : Nat) (hlegible : v.isLegible = true) :
    (writeAt layout level v).head?.any startsToken = true := by
  cases v with
  | null => rfl
  | bool b => cases b <;> rfl
  | int n =>
    have hhead := (isBare_toString n).head?_any_startsToken []
    rwa [List.append_nil] at hhead
  | float x => exact Bool.noConfusion hlegible
  | str s => rfl
  | arr items => cases items <;> rfl
  | obj members => cases members <;> rfl

/-- The text of a legible value is read as it stands. -/
theorem sourceChars_writeAt (layout : Layout) {v : Json} (level : Nat) (hlegible : v.isLegible = true) :
    sourceChars (writeAt layout level v) = .ok (writeAt layout level v) := by
  have hhead := head?_writeAt layout level hlegible
  have hsettled := all_isSettled_writeAt layout v level hlegible
  cases htext : writeAt layout level v with
  | nil => rfl
  | cons c cs =>
    rw [htext] at hhead hsettled
    have hstart : startsToken c = true := hhead
    exact sourceChars_of_isSettled (ne_of_class hstart (by decide)) hsettled

/-- At the end of the text no token is left. -/
theorem Scanner.At.run_eq {s : Scanner} {done : List Token} {key : Option PossibleKey}
    (h : s.At done [key] []) (hrest : s.cursor.rest = []) (fuel : Nat) :
    s.run (fuel + 1) = .ok done := by
  have hstay : ∀ fuel, toNextToken fuel s = s := by
    rintro (_ | fuel)
    · rfl
    · rw [toNextToken, hrest]
  have hnext : s.next = .ok none := by
    rw [next, hstay, h.unroll, hrest]
  have hfinish : s.finish = .ok { s with keys := [none] } := by
    rw [finish, h.unroll, h.dropKey]
  rw [run, hnext]
  dsimp only
  rw [hstay, hfinish, ← h.tokens_eq]

/-- The text of a legible value is scanned into the tokens of the value. -/
theorem Token.scan_write (layout : Layout) {v : Json} (hlegible : v.isLegible = true) :
    Token.scan (v.write layout).toList = .ok v.tokens := by
  have hinitial : Scanner.At { cursor := { rest := writeAt layout 0 v } } [] [none]
      (writeAt layout 0 v) :=
    ⟨rfl, rfl, rfl, by simp [Scanner.IsOptional], rfl, rfl⟩
  obtain ⟨s', key', hsteps, h, hend⟩ := Scanner.steps_write layout hlegible hinitial rfl
  obtain ⟨fuel, hfuel, hrun⟩ := Scanner.exists_run_of_steps hsteps
    (show (writeAt layout 0 v).length < (writeAt layout 0 v).length + 2 by omega)
  obtain ⟨fuel, rfl⟩ : ∃ k, fuel = k + 1 := ⟨fuel - 1, by omega⟩
  rw [Json.write, String.toList_ofList, Token.scan, sourceChars_writeAt layout 0 hlegible]
  change Scanner.run _ _ = _
  rw [hrun, h.run_eq hend]
  rfl

end Yaml

end Redeclare
