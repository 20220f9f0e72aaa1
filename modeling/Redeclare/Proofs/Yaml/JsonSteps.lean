import Mathlib.Logic.Relation
import Redeclare.Proofs.Yaml.JsonScalars
import Redeclare.Yaml.Token.Scan

/-!
# Scanning a JSON text, token by token

Within brackets the scanner meets one token after the other, and white space
between them only changes its place.

* `Scanner.At` is the state of the scanner before a text, where the white space
  in front of the text may have been passed already.
* The lemmas `Scanner.At.step_…` say, one for each kind of token, what is added
  to the state.  A key is two tokens in the text and three in the scan: the key
  token is put in front of a string once the colon is met.
* `Scanner.exists_run_of_steps` puts steps together to a run.
-/

namespace Redeclare

namespace Yaml

open Json

/-! ## White space in front of a token -/

/-- The text from its next token on. -/
def ahead (text : List Char) : List Char :=
  text.dropWhile isJsonBlank

/-- A character that a token of JSON starts with. -/
def startsToken (c : Char) : Bool :=
  isWordChar c || "[]\x7b\x7d,:\"".toList.contains c

theorem ahead_append {space : List Char} (h : space.all isJsonBlank = true) (text : List Char) :
    ahead (space ++ text) = ahead text :=
  List.dropWhile_append_of_pos (List.all_eq_true.mp h)

theorem ahead_cons {c : Char} (h : startsToken c = true) (text : List Char) :
    ahead (c :: text) = c :: text := by
  have hblank : isJsonBlank c = false := by
    simp [isJsonBlank, ne_of_class h (d := ' ') (by decide), ne_of_class h (d := '\n') (by decide)]
  rw [ahead, List.dropWhile_cons, hblank]
  rfl

theorem length_ahead_le (text : List Char) : (ahead text).length ≤ text.length :=
  (List.dropWhile_suffix isJsonBlank).length_le

theorem IsBare.head?_any_startsToken {word : List Char} (h : IsBare word) (text : List Char) :
    (word ++ text).head?.any startsToken = true := by
  obtain ⟨a, tail, rfl, -⟩ := h.head
  change (isWordChar a || _) = true
  rw [List.all_eq_true.mp h.chars a List.mem_cons_self]
  rfl

namespace Scanner

variable {s : Scanner} {c : Char} {text : List Char}

theorem toNextToken_of_startsToken (h : s.cursor.rest = c :: text) (hc : startsToken c = true)
    (fuel : Nat) : toNextToken fuel s = s := by
  cases fuel with
  | zero => rfl
  | succ fuel =>
    have hne : ∀ d, startsToken d = false → (c == d) = false := fun d hd => by
      simpa using ne_of_class hc hd
    rw [toNextToken, h]
    simp [hne byteOrderMark (by decide), hne ' ' (by decide), hne '\t' (by decide),
      hne '#' (by decide), isBreak, hne '\n' (by decide), hne '\u2028' (by decide),
      hne '\u2029' (by decide)]

/-- Within brackets the white space in front of a token changes nothing but the place. -/
theorem exists_toNextToken (hflow : s.inFlow = true) (h : ahead s.cursor.rest = c :: text)
    (hc : startsToken c = true) {fuel : Nat} (hfuel : s.cursor.rest.length < fuel) :
    ∃ cursor, toNextToken fuel s = { s with cursor } ∧ cursor.rest = c :: text := by
  induction hrest : s.cursor.rest generalizing s fuel with
  | nil =>
    rw [hrest] at h
    exact absurd h.symm (List.cons_ne_nil _ _)
  | cons d rest ih =>
    rw [hrest, List.length_cons] at hfuel
    obtain ⟨fuel, rfl⟩ : ∃ k, fuel = k + 1 := ⟨fuel - 1, by omega⟩
    rw [hrest, ahead, List.dropWhile_cons] at h
    by_cases hblank : isJsonBlank d = true
    · rw [if_pos hblank] at h
      have hskip : s.skip.cursor.rest = rest := by
        rw [skip, Cursor.skip, hrest]
        dsimp only
        split <;> rfl
      have hshort : s.skip.cursor.rest.length < fuel := by
        rw [hskip]
        omega
      obtain ⟨cursor, hnext, hcursor⟩ := ih (s := s.skip) hflow (by rwa [hskip]) hshort hskip
      refine ⟨cursor, ?_, hcursor⟩
      have hround : toNextToken (fuel + 1) s = toNextToken fuel s.skip := by
        rw [isJsonBlank, Bool.or_eq_true, beq_iff_eq, beq_iff_eq] at hblank
        rw [toNextToken, hrest]
        rcases hblank with rfl | rfl
        · rfl
        · simp [isBreak, byteOrderMark, hflow, skip]
      rw [hround, hnext]
      rfl
    · rw [if_neg hblank] at h
      obtain ⟨rfl, rfl⟩ := List.cons.inj h
      exact ⟨s.cursor, toNextToken_of_startsToken hrest hc _, hrest⟩

/-! ## The state before a text -/

/-- The key that may start where the scanner stands, and need not. -/
def keyHere (s : Scanner) : PossibleKey :=
  ⟨s.count, false, s.cursor.index, s.cursor.line, s.cursor.column⟩

/-- A possible key that need not be one. -/
def IsOptional (key : Option PossibleKey) : Prop :=
  ∀ k, key = some k → k.required = false

/-- The scanner stands before a text, behind some tokens and outside all block collections.  The first
of `keys` belongs to the innermost brackets, and no one of them has to become a key. -/
structure At (s : Scanner) (done : List Token) (keys : List (Option PossibleKey)) (text : List Char) :
    Prop where
  ahead_eq : ahead s.cursor.rest = ahead text
  tokens_eq : s.tokens.reverse = done
  keys_eq : s.keys = keys
  optional : ∀ key ∈ keys, IsOptional key
  indent : s.indent = -1
  indents : s.indents = []

variable {done : List Token} {key : Option PossibleKey} {outer keys : List (Option PossibleKey)}

namespace At

theorem inFlow (h : s.At done (key :: outer) text) (houter : outer ≠ []) : s.inFlow = true := by
  rw [Scanner.inFlow, h.keys_eq, List.length_cons, decide_eq_true_iff]
  exact Nat.succ_lt_succ (List.length_pos_iff.mpr houter)

theorem unroll (h : s.At done keys text) (column : Int) : s.unroll column = s := by
  rw [Scanner.unroll, h.indents]
  split <;> rfl

theorem setKeys_eq (h : s.At done keys text) : { s with keys } = s := by
  rw [← h.keys_eq]

theorem dropKey (h : s.At done (key :: outer) text) :
    s.dropKey = .ok { s with keys := none :: outer } := by
  rw [Scanner.dropKey, h.keys_eq]
  cases key with
  | none => rw [h.setKeys_eq]
  | some k => simp [h.optional _ List.mem_cons_self k rfl]

theorem saveKey (h : s.At done (key :: outer) text) : ∃ key', IsOptional key' ∧
    (s.keyAllowed = true → key' = some s.keyHere) ∧
    s.saveKey = .ok { s with keys := key' :: outer } := by
  rw [Scanner.saveKey]
  cases hallowed : s.keyAllowed with
  | true =>
    refine ⟨_, ?_, fun _ => rfl, ?_⟩
    · rintro _ ⟨⟩
      rfl
    · have hcolumn : (-1 == (s.cursor.column : Int)) = false := by
        rw [beq_eq_false_iff_ne]
        omega
      simp [h.dropKey, h.indent, hcolumn, hallowed, keyHere]
  | false =>
    refine ⟨key, h.optional _ List.mem_cons_self, nofun, ?_⟩
    rw [← hallowed, h.setKeys_eq, hallowed]
    rfl

end At

/-! ## The next token -/

/-- What the scanner does at a character that is a token of JSON by itself or opens a string. -/
def action? : Char → Option (Scanner → Scan Scanner)
  | '[' => some fun s => s.openFlow .flowSequence
  | '\x7b' => some fun s => s.openFlow .flowMapping
  | ']' => some fun s => s.closeFlow .flowSequenceEnd
  | '\x7d' => some fun s => s.closeFlow .flowMappingEnd
  | ',' => some fun s => s.flowEntry
  | ':' => some fun s => s.mappingValue
  | '"' => some fun s => s.quotedScalar false
  | _ => none

theorem startsToken_of_action? {act : Scanner → Scan Scanner} (h : action? c = some act) :
    startsToken c = true := by
  rw [action?.eq_def] at h
  split at h
  case h_8 => exact absurd h nofun
  all_goals rfl

/-- The next token is read from a character that starts one; a colon counts within brackets only. -/
theorem At.next_eq_action (h : s.At done keys (c :: text)) (hrest : s.cursor.rest = c :: text)
    (act : Scanner → Scan Scanner) (hact : action? c = some act) (hflow : c = ':' → s.inFlow = true) :
    s.next = some <$> act s := by
  have hstay :=
    toNextToken_of_startsToken hrest (startsToken_of_action? hact) (s.cursor.rest.length + 1)
  have hmark : ∀ mark, c ≠ mark → s.cursor.atMarker mark = false := fun mark hne =>
    Cursor.atMarker_of_head_ne hrest hne
  rw [next, hstay, h.unroll, hrest]
  rw [action?.eq_def] at hact
  split at hact
  case h_8 => exact absurd hact nofun
  case h_6 =>
    obtain rfl := Option.some.inj hact
    simp [hmark '-' (by decide), hmark '.' (by decide), hflow rfl]
  all_goals
    obtain rfl := Option.some.inj hact
    simp [hmark '-' (by decide), hmark '.' (by decide)]

theorem startsPlain_of_isBare (flow : Bool) (hword : IsBare (c :: text)) (rest : List Char) :
    startsPlain flow c (text ++ rest) = true ∧ (c == '-' && atGap (text ++ rest)) = false := by
  have hchar : isWordChar c = true := List.all_eq_true.mp hword.chars c List.mem_cons_self
  by_cases hdash : c = '-'
  · obtain ⟨_, _, heq, hdigits⟩ := hword.head
    obtain ⟨rfl, rfl⟩ := List.cons.inj heq
    obtain ⟨d, ds, rfl, -⟩ := hdigits hdash
    have hd : isWordChar d = true := List.all_eq_true.mp hword.chars d (by simp)
    have hgap : (isSpaceTab d || isBreak d) = false := (isWordChar_spec hd (ds ++ rest)).1
    rw [Bool.or_eq_false_iff] at hgap
    subst hdash
    simp [startsPlain, atGap, hgap]
  · have hgap : (isSpaceTab c || isBreak c) = false := (isWordChar_spec hchar text).1
    have hflow : "?:,[]\x7b\x7d#&*!|>'\"%@\x60".toList.contains c = false :=
      contains_eq_false_of_isWordChar hchar (by decide)
    have hplain : "-?:,[]\x7b\x7d#&*!|>'\"%@\x60".toList.contains c = false := by
      change ('-' :: "?:,[]\x7b\x7d#&*!|>'\"%@\x60".toList).contains c = false
      rw [List.contains_cons, hflow, Bool.or_false]
      simpa using hdash
    refine ⟨?_, by simp [hdash]⟩
    rw [startsPlain, hgap, hplain]
    rfl

/-- A word starts a plain scalar. -/
theorem At.next_eq_plainScalar {word : List Char} (h : s.At done keys (word ++ text))
    (hword : IsBare word) (hrest : s.cursor.rest = word ++ text) :
    s.next = some <$> s.plainScalar := by
  have hmark := hword.atDocumentMarker_eq_false hrest
  rw [Cursor.atDocumentMarker, Bool.or_eq_false_iff] at hmark
  obtain ⟨a, tail, rfl, -⟩ := hword.head
  have hchar : isWordChar a = true := List.all_eq_true.mp hword.chars a List.mem_cons_self
  have hne : ∀ d, isWordChar d = false → (a == d) = false := fun d hd => by
    simpa using ne_of_class hchar hd
  have hstart : startsToken a = true := hword.head?_any_startsToken text
  obtain ⟨hplain, hdash⟩ := startsPlain_of_isBare s.inFlow hword text
  have hrest' : s.cursor.rest = a :: (tail ++ text) := hrest
  rw [next, toNextToken_of_startsToken hrest' hstart, h.unroll, hrest']
  simp [hmark, hplain, hdash, hne '%' (by decide), hne '[' (by decide), hne ']' (by decide),
    hne '\x7b' (by decide), hne '\x7d' (by decide), hne ',' (by decide), hne '?' (by decide),
    hne ':' (by decide), hne '*' (by decide), hne '&' (by decide), hne '!' (by decide),
    hne '|' (by decide), hne '>' (by decide), hne '\'' (by decide), hne '"' (by decide)]

/-! ## Runs -/

/-- A token is read, and the text behind it is shorter. -/
def Step (s s' : Scanner) : Prop :=
  s.next = .ok (some s') ∧ s'.cursor.rest.length < s.cursor.rest.length

/-- Tokens are read one after the other. -/
abbrev Steps : Scanner → Scanner → Prop :=
  Relation.ReflTransGen Step

theorem exists_run_of_steps {s s' : Scanner} (h : Steps s s') {fuel : Nat}
    (hfuel : s.cursor.rest.length < fuel) :
    ∃ fuel', s'.cursor.rest.length < fuel' ∧ run fuel s = run fuel' s' := by
  induction h with
  | refl => exact ⟨fuel, hfuel, rfl⟩
  | tail _ hstep ih =>
    obtain ⟨hnext, hshort⟩ := hstep
    obtain ⟨fuel', hfuel', hrun⟩ := ih
    obtain ⟨k, rfl⟩ : ∃ k, fuel' = k + 1 := ⟨fuel' - 1, by omega⟩
    exact ⟨k, by omega, by rw [hrun, run, hnext]⟩

/-! ## One lemma for each kind of token -/

variable {s' : Scanner} {t : Token}

theorem roll_of_inFlow (h : s.inFlow = true) (column position : Nat) (t : Token) :
    s.roll column position t = s := by
  rw [roll, h]
  rfl

/-- The token read last is a key if a colon follows. -/
structure EndsKey (s : Scanner) (k : PossibleKey) : Prop where
  takeKey_eq : s.takeKey = .ok (some k)
  count_eq : s.count = k.position + 1

theorem isBreak_of_startsToken (h : startsToken c = true) : isBreak c = false := by
  simp [isBreak, ne_of_class h (d := '\n') (by decide), ne_of_class h (d := '\u2028') (by decide),
    ne_of_class h (d := '\u2029') (by decide)]

theorem rest_skip (h : s.cursor.rest = c :: text) (hc : startsToken c = true) :
    s.cursor.skip.rest = text := by
  rw [s.cursor.skip_eq_pass h (isBreak_of_startsToken hc)]
  rfl

theorem length_rest_skip (h : s.cursor.rest = c :: text) (hc : startsToken c = true) :
    s.cursor.skip.rest.length < s.cursor.rest.length := by
  rw [rest_skip h hc, h]
  exact Nat.lt_succ_self _

theorem step_of_eq {read : Scan Scanner} (hnext : s.next = some <$> read) (hread : read = .ok s')
    (hlength : s'.cursor.rest.length < s.cursor.rest.length) : Step s s' := by
  rw [hread] at hnext
  exact ⟨hnext, hlength⟩

namespace At

/-- The state behind one more token. -/
theorem advance (h : s.At done keys text) {keys' : List (Option PossibleKey)} {text' : List Char}
    (htext : s'.cursor.rest = text') (htokens : s'.tokens = t :: s.tokens)
    (hoptional : ∀ key ∈ keys', IsOptional key) (hkeys : s'.keys = keys')
    (hindent : s'.indent = s.indent) (hindents : s'.indents = s.indents) :
    s'.At (done ++ [t]) keys' text' where
  ahead_eq := by rw [htext]
  tokens_eq := by rw [htokens, List.reverse_cons, h.tokens_eq]
  keys_eq := hkeys
  optional := hoptional
  indent := hindent.trans h.indent
  indents := hindents.trans h.indents

theorem congr (h : s.At done keys text) {text' : List Char} (htext : ahead text = ahead text') :
    s.At done keys text' :=
  { h with ahead_eq := h.ahead_eq.trans htext }

theorem skip_space {space : List Char} (h : s.At done keys (space ++ text))
    (hspace : space.all isJsonBlank = true) : s.At done keys text :=
  h.congr (ahead_append hspace text)

/-- A token is read from where the white space in front of it ends; there is none in front of the
first. -/
theorem exists_settled (h : s.At done (key :: outer) text)
    (hplace : outer ≠ [] ∨ s.cursor.rest = text) (hstart : text.head?.any startsToken = true) :
    ∃ s₀ : Scanner, s₀.cursor.rest = text ∧ s₀.At done (key :: outer) text ∧
      s₀.keyAllowed = s.keyAllowed ∧ ∀ s', Step s₀ s' → Step s s' := by
  rcases hplace.symm with hrest | houter
  · exact ⟨s, hrest, h, rfl, fun _ => id⟩
  cases text with
  | nil => exact absurd hstart nofun
  | cons c text =>
    have hahead : ahead s.cursor.rest = c :: text := h.ahead_eq.trans (ahead_cons hstart text)
    obtain ⟨cursor, hnext, hcursor⟩ :=
      exists_toNextToken (h.inFlow houter) hahead hstart (Nat.lt_succ_self _)
    have hsettled : At { s with cursor } done (key :: outer) (c :: text) :=
      { h with ahead_eq := by rw [hcursor] }
    refine ⟨{ s with cursor }, hcursor, hsettled, rfl, fun s' ⟨hstep, hlength⟩ => ⟨?_, ?_⟩⟩
    · have hstay :=
        toNextToken_of_startsToken (s := { s with cursor }) hcursor hstart (cursor.rest.length + 1)
      rw [← hstep, next, next, hnext, hstay]
    · have hshort := length_ahead_le s.cursor.rest
      rw [hahead, ← hcursor] at hshort
      exact Nat.lt_of_lt_of_le hlength hshort

theorem optional_tail (h : s.At done (key :: outer) text) : ∀ k ∈ outer, IsOptional k :=
  fun _ hk => h.optional _ (List.mem_cons_of_mem _ hk)

/-- An opening bracket, within others or at the start of the text. -/
theorem step_open (h : s.At done (key :: outer) (c :: text))
    (hplace : outer ≠ [] ∨ s.cursor.rest = c :: text)
    (hact : action? c = some fun s => s.openFlow t) (hc : c ≠ ':') :
    ∃ s' key', Step s s' ∧ s'.At (done ++ [t]) (none :: key' :: outer) text ∧
      s'.keyAllowed = true := by
  obtain ⟨s₀, hrest, h, -, hlift⟩ := h.exists_settled hplace (startsToken_of_action? hact)
  have hnext := h.next_eq_action hrest _ hact (absurd · hc)
  obtain ⟨key', hkey', -, hsave⟩ := h.saveKey
  have hopen : s₀.openFlow t = .ok { (s₀.emit t).skip with
      keys := none :: key' :: outer, keyAllowed := true } := by
    rw [openFlow, hsave]
    rfl
  have htext := rest_skip hrest (startsToken_of_action? hact)
  have hoptional : ∀ k ∈ none :: key' :: outer, IsOptional k :=
    List.forall_mem_cons.mpr ⟨nofun, List.forall_mem_cons.mpr ⟨hkey', h.optional_tail⟩⟩
  have hstep := step_of_eq hnext hopen (length_rest_skip hrest (startsToken_of_action? hact))
  exact ⟨_, key', hlift _ hstep, h.advance htext rfl hoptional rfl rfl rfl, rfl⟩

/-- A closing bracket. -/
theorem step_close {inner : Option PossibleKey} (h : s.At done (inner :: key :: outer) (c :: text))
    (hact : action? c = some fun s => s.closeFlow t) (hc : c ≠ ':') :
    ∃ s', Step s s' ∧ s'.At (done ++ [t]) (key :: outer) text ∧ s'.cursor.rest = text := by
  obtain ⟨s₀, hrest, h, -, hlift⟩ :=
    h.exists_settled (.inl (List.cons_ne_nil _ _)) (startsToken_of_action? hact)
  have hnext := h.next_eq_action hrest _ hact (absurd · hc)
  have hclose : s₀.closeFlow t = .ok { (s₀.emit t).skip with
      keys := key :: outer, keyAllowed := false } := by
    rw [closeFlow, h.dropKey]
    rfl
  have hstep := step_of_eq hnext hclose (length_rest_skip hrest (startsToken_of_action? hact))
  have htext := rest_skip hrest (startsToken_of_action? hact)
  exact ⟨_, hlift _ hstep, h.advance htext rfl h.optional_tail rfl rfl rfl, htext⟩

/-- A comma. -/
theorem step_comma (h : s.At done (key :: outer) (',' :: text)) (houter : outer ≠ []) :
    ∃ s' key', Step s s' ∧ s'.At (done ++ [.flowEntry]) (key' :: outer) text ∧
      s'.keyAllowed = true := by
  obtain ⟨s₀, hrest, h, -, hlift⟩ := h.exists_settled (.inl houter) rfl
  have hnext := h.next_eq_action hrest flowEntry rfl (absurd · (by decide))
  have hcomma : s₀.flowEntry = .ok { (s₀.emit .flowEntry).skip with
      keys := none :: outer, keyAllowed := true } := by
    rw [flowEntry, h.dropKey]
    rfl
  have hstep := step_of_eq hnext hcomma (length_rest_skip hrest rfl)
  exact ⟨_, none, hlift _ hstep, h.advance (rest_skip hrest rfl) rfl
    (List.forall_mem_cons.mpr ⟨nofun, h.optional_tail⟩) rfl rfl rfl, rfl⟩

/-- A scalar without quotes. -/
theorem step_plain {word space rest : List Char} (h : s.At done (key :: outer) (word ++ text))
    (houter : outer ≠ []) (hword : IsBare word) (htext : Delimited text space c rest) :
    ∃ s' key', Step s s' ∧ s'.At (done ++ [.scalar word .plain]) (key' :: outer) text := by
  obtain ⟨s₀, hrest, h, -, hlift⟩ := h.exists_settled (.inl houter) (hword.head?_any_startsToken text)
  have hnext := h.next_eq_plainScalar hword hrest
  obtain ⟨key', hkey', -, hsave⟩ := h.saveKey
  obtain ⟨cursor, broken, hscan, hcursor⟩ :=
    scanPlain_of_isBare (s₀.indent + 1).toNat hword htext hrest
  have hoptional := List.forall_mem_cons.mpr ⟨hkey', h.optional_tail⟩
  have hflow : ({ s₀ with keys := key' :: outer } : Scanner).inFlow = true := by
    rw [Scanner.inFlow, List.length_cons, decide_eq_true_iff]
    exact Nat.succ_lt_succ (List.length_pos_iff.mpr houter)
  have hplain : s₀.plainScalar = .ok { s₀.emit (.scalar word .plain) with
      cursor, keys := key' :: outer, keyAllowed := broken } := by
    rw [plainScalar, hsave]
    change Except.bind (scanPlain (Scanner.inFlow _) _ s₀.cursor) _ = _
    rw [hflow, hscan]
    rfl
  have hlength : cursor.rest.length < s₀.cursor.rest.length := by
    rw [hcursor, hrest, htext.eq, List.length_append, List.length_append]
    have hpos := List.length_pos_iff.mpr hword.ne_nil
    omega
  have hbehind : ahead (c :: rest) = ahead text := by
    rw [htext.eq, ahead_append htext.space]
  refine ⟨_, key', hlift _ (step_of_eq hnext hplain hlength), ?_⟩
  refine congr ?_ hbehind
  exact h.advance hcursor rfl hoptional rfl rfl rfl

/-- A string; it may be a key if a key may start where it starts, and if it is not too long. -/
theorem step_string {str : String} (h : s.At done (key :: outer) (writeString str ++ text))
    (hplace : outer ≠ [] ∨ s.cursor.rest = writeString str ++ text)
    (hlegible : str.toList.all isLegible = true) :
    ∃ s' key', Step s s' ∧ s'.At (done ++ [.scalar str.toList .double]) (key' :: outer) text ∧
      s'.cursor.rest = text ∧
      (s.keyAllowed = true → (writeString str).length ≤ maxKeyLength → ∃ k, s'.EndsKey k) := by
  obtain ⟨s₀, hrest, h, hkeep, hlift⟩ := h.exists_settled hplace rfl
  have hnext := h.next_eq_action hrest (fun s => s.quotedScalar false) rfl (absurd · (by decide))
  obtain ⟨key', hkey', hsaved, hsave⟩ := h.saveKey
  have hoptional := List.forall_mem_cons.mpr ⟨hkey', h.optional_tail⟩
  have hquoted : s₀.quotedScalar false = .ok { s₀.emit (.scalar str.toList .double) with
      cursor := s₀.cursor.pass (writeString str).length text, keys := key' :: outer,
      keyAllowed := false } := by
    rw [quotedScalar, hsave]
    change Except.bind (scanQuoted false s₀.cursor) _ = _
    rw [scanQuoted_writeString hlegible hrest]
    rfl
  have hshort : text.length < s₀.cursor.rest.length := by
    rw [hrest, List.length_append]
    exact Nat.lt_add_of_pos_left (Nat.succ_pos _)
  refine ⟨_, key', hlift _ (step_of_eq hnext hquoted hshort),
    h.advance rfl rfl hoptional rfl rfl rfl, rfl, fun hallowed hlength => ?_⟩
  obtain rfl := hsaved (hkeep.trans hallowed)
  refine ⟨s₀.keyHere, ?_, rfl⟩
  simp [takeKey, keyHere, Cursor.pass, hlength]

/-- The colon behind a key; the key token is put in front of the key. -/
theorem step_colon {k : PossibleKey} (h : s.At (done ++ [t]) (key :: outer) (':' :: text))
    (houter : outer ≠ []) (hrest : s.cursor.rest = ':' :: text) (hkey : s.EndsKey k) :
    ∃ s', Step s s' ∧ s'.At (done ++ [.key, t, .value]) (none :: outer) text := by
  have hflow := h.inFlow houter
  have hnext := h.next_eq_action hrest mappingValue rfl fun _ => hflow
  have htokens : s.tokens = t :: done.reverse := by
    have heq := congrArg List.reverse h.tokens_eq
    rwa [List.reverse_reverse, List.reverse_append] at heq
  have hinsert : s.emitAt k.position .key =
      { s with tokens := t :: .key :: done.reverse, count := s.count + 1 } := by
    have hlater : s.count - k.position = 1 := by rw [hkey.count_eq, Nat.add_sub_cancel_left]
    rw [emitAt, hlater, htokens]
    rfl
  have hvalue : s.mappingValue = .ok { s with
      cursor := s.cursor.skip, tokens := .value :: t :: .key :: done.reverse, count := s.count + 2,
      keys := none :: outer, keyAllowed := false } := by
    have hbehind : s.keys.drop 1 = outer := by rw [h.keys_eq]; rfl
    rw [mappingValue, hkey.takeKey_eq, ← hbehind]
    change Except.ok _ = _
    rw [roll_of_inFlow (s := s.emitAt k.position .key) hflow, hinsert]
    rfl
  refine ⟨_, step_of_eq hnext hvalue (length_rest_skip hrest rfl), ?_⟩
  exact {
    ahead_eq := by rw [rest_skip hrest rfl]
    tokens_eq := by simp
    keys_eq := rfl
    optional := List.forall_mem_cons.mpr ⟨nofun, h.optional_tail⟩
    indent := h.indent
    indents := h.indents }

/-- A key and its colon. -/
theorem steps_key {str : String} {layout : Layout}
    (h : s.At done (key :: outer) (writeString str ++ (layout.colon ++ text))) (houter : outer ≠ [])
    (hallowed : s.keyAllowed = true) (hlegible : str.toList.all isLegible = true)
    (hlength : (writeString str).length ≤ maxKeyLength) :
    ∃ s' key', Steps s s' ∧
      s'.At (done ++ [.key, .scalar str.toList .double, .value]) (key' :: outer) text := by
  obtain ⟨space, hspace, hcolon⟩ :
      ∃ space, space.all isJsonBlank = true ∧ layout.colon = ':' :: space := by
    cases layout with
    | compact => exact ⟨[], rfl, rfl⟩
    | pretty => exact ⟨[' '], rfl, rfl⟩
  rw [hcolon] at h
  obtain ⟨s₁, _, hstring, h, hrest, hends⟩ := h.step_string (.inl houter) hlegible
  obtain ⟨k, hk⟩ := hends hallowed hlength
  obtain ⟨s₂, hcolon, h⟩ := h.step_colon houter hrest hk
  exact ⟨s₂, none, .tail (.single hstring) hcolon, h.skip_space hspace⟩

end At

end Scanner

end Yaml

end Redeclare
