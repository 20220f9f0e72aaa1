import Redeclare.Yaml.Token.Name

/-!
# Tokens of a YAML text

`Token.scan` splits a text into its tokens.  Indentation decides where block
collections start and end.  A key is known as a key only at the colon behind
it, so the scanner remembers where the latest possible key of each bracket
level started and puts the key token there afterwards.
-/

namespace Redeclare.Yaml

/-- A place where a key may have started: how many tokens precede it, its place, and whether the
grammar allows nothing but a key there. -/
structure PossibleKey where
  position : Nat
  required : Bool
  index : Nat
  line : Nat
  column : Nat

/-- The state of the scanner.  `tokens` has the latest token first; `keys` and `indents` have the
innermost level first, and `keys` holds one entry for each level of brackets and one for the text
outside them. -/
structure Scanner where
  cursor : Cursor
  tokens : List Token := []
  count : Nat := 0
  keys : List (Option PossibleKey) := [none]
  keyAllowed : Bool := true
  indent : Int := -1
  indents : List Int := []

namespace Scanner

/-- Whether the scanner is within brackets. -/
def inFlow (s : Scanner) : Bool :=
  1 < s.keys.length

/-- Appends a token. -/
def emit (s : Scanner) (t : Token) : Scanner :=
  { s with tokens := t :: s.tokens, count := s.count + 1 }

/-- Puts a token behind the first `position` tokens. -/
def emitAt (s : Scanner) (position : Nat) (t : Token) : Scanner :=
  let later := s.count - position
  { s with tokens := s.tokens.take later ++ t :: s.tokens.drop later, count := s.count + 1 }

/-- Passes one character. -/
def skip (s : Scanner) : Scanner :=
  { s with cursor := s.cursor.skip }

/-- Ends the block collections that are indented deeper than a column. -/
def unroll (s : Scanner) (column : Int) : Scanner :=
  if s.inFlow then s else go s s.indents
where
  go (s : Scanner) : List Int → Scanner
    | [] => s
    | outer :: rest =>
      if column < s.indent then go { s.emit .blockEnd with indent := outer, indents := rest } rest
      else s

/-- Starts a block collection if the column is deeper than the current one; the token goes behind
the first `position` tokens. -/
def roll (s : Scanner) (column position : Nat) (t : Token) : Scanner :=
  if !s.inFlow && s.indent < (column : Int) then
    { s.emitAt position t with indent := column, indents := s.indent :: s.indents }
  else s

/-- Forgets the possible key of this level, unless a key was the only thing allowed there. -/
def dropKey (s : Scanner) : Scan Scanner :=
  match s.keys with
  | some key :: rest => if key.required then .error .missingColon else .ok { s with keys := none :: rest }
  | _ => .ok s

/-- Remembers that a key may start here. -/
def saveKey (s : Scanner) : Scan Scanner :=
  if s.keyAllowed then
    match s.dropKey with
    | .error fault => .error fault
    | .ok s =>
      let c := s.cursor
      let required := !s.inFlow && s.indent == (c.column : Int)
      .ok { s with keys := some ⟨s.count, required, c.index, c.line, c.column⟩ :: s.keys.drop 1 }
  else .ok s

/-- The length beyond which a text before a colon is no key. -/
def maxKeyLength : Nat := 1024

/-- The possible key of this level if it can still be one: it has to be on this line and not too
long. -/
def takeKey (s : Scanner) : Scan (Option PossibleKey) :=
  match s.keys with
  | some key :: _ =>
    if key.line < s.cursor.line ∨ key.index + maxKeyLength < s.cursor.index then
      if key.required then .error .missingColon else .ok none
    else .ok (some key)
  | _ => .ok none

/-- Passes white space, comments and line breaks up to the next token.  A tab may stand where no
key can start. -/
def toNextToken : Nat → Scanner → Scanner
  | 0, s => s
  | fuel + 1, s =>
    match s.cursor.rest with
    | [] => s
    | c :: _ =>
      if c == byteOrderMark && s.cursor.index == 0 then toNextToken fuel s.skip
      else if c == ' ' || (c == '\t' && (s.inFlow || !s.keyAllowed)) then toNextToken fuel s.skip
      else if c == '#' then toNextToken fuel { s with cursor := s.cursor.toLineEnd }
      else if isBreak c then
        toNextToken fuel { s.skip with keyAllowed := s.keyAllowed || !s.inFlow }
      else s

/-! ## Tokens by kind -/

/-- The end of the text: all block collections end. -/
def finish (s : Scanner) : Scan Scanner :=
  (s.unroll (-1)).dropKey

/-- A directive. -/
def directive (s : Scanner) : Scan Scanner := do
  let s ← (s.unroll (-1)).dropKey
  let (token, cursor) ← scanDirective s.cursor
  .ok { s.emit token with cursor, keyAllowed := false }

/-- A marker of three characters. -/
def marker (s : Scanner) (t : Token) : Scan Scanner := do
  let s ← (s.unroll (-1)).dropKey
  .ok { (s.emit t).skip.skip.skip with keyAllowed := false }

/-- An opening bracket. -/
def openFlow (s : Scanner) (t : Token) : Scan Scanner := do
  let s ← s.saveKey
  .ok { (s.emit t).skip with keys := none :: s.keys, keyAllowed := true }

/-- A closing bracket. -/
def closeFlow (s : Scanner) (t : Token) : Scan Scanner := do
  let s ← s.dropKey
  .ok { (s.emit t).skip with keys := if s.inFlow then s.keys.drop 1 else s.keys, keyAllowed := false }

/-- A comma. -/
def flowEntry (s : Scanner) : Scan Scanner := do
  let s ← s.dropKey
  .ok { (s.emit .flowEntry).skip with keyAllowed := true }

/-- A dash that starts an entry of a block sequence. -/
def blockEntry (s : Scanner) : Scan Scanner := do
  if !s.inFlow && !s.keyAllowed then .error .misplaced
  else
    let s ← (s.roll s.cursor.column s.count .blockSequence).dropKey
    .ok { (s.emit .entry).skip with keyAllowed := true }

/-- A question mark that starts a key. -/
def explicitKey (s : Scanner) : Scan Scanner := do
  if !s.inFlow && !s.keyAllowed then .error .misplaced
  else
    let s ← (s.roll s.cursor.column s.count .blockMapping).dropKey
    .ok { (s.emit .key).skip with keyAllowed := !s.inFlow }

/-- A colon that starts a value.  If a key can have started before it, the key token is put
there. -/
def mappingValue (s : Scanner) : Scan Scanner := do
  match ← s.takeKey with
  | some key =>
    let s := (s.emitAt key.position .key).roll key.column key.position .blockMapping
    let s := { s with keys := none :: s.keys.drop 1, keyAllowed := false }
    .ok (s.emit .value).skip
  | none =>
    if !s.inFlow && !s.keyAllowed then .error .misplaced
    else
      let s := { s with keys := none :: s.keys.drop 1 }
      let s := if s.inFlow then s else s.roll s.cursor.column s.count .blockMapping
      .ok { (s.emit .value).skip with keyAllowed := !s.inFlow }

/-- An alias or an anchor. -/
def anchor (s : Scanner) (token : List Char → Token) : Scan Scanner := do
  let s ← s.saveKey
  let (name, cursor) ← scanAnchor s.cursor.skip
  .ok { s.emit (token name) with cursor, keyAllowed := false }

/-- A tag. -/
def tag (s : Scanner) : Scan Scanner := do
  let s ← s.saveKey
  let (token, cursor) ← scanTag s.inFlow s.cursor
  .ok { s.emit token with cursor, keyAllowed := false }

/-- A block scalar. -/
def blockScalar (s : Scanner) (literal : Bool) : Scan Scanner := do
  let s ← s.dropKey
  let (text, cursor) ← scanBlock literal s.indent s.cursor
  .ok { s.emit (.scalar text .block) with cursor, keyAllowed := true }

/-- A quoted scalar. -/
def quotedScalar (s : Scanner) (single : Bool) : Scan Scanner := do
  let s ← s.saveKey
  let (text, cursor) ← scanQuoted single s.cursor
  .ok { s.emit (.scalar text (if single then .single else .double)) with cursor, keyAllowed := false }

/-- A plain scalar. -/
def plainScalar (s : Scanner) : Scan Scanner := do
  let s ← s.saveKey
  let (text, cursor, broken) ← scanPlain s.inFlow (s.indent + 1).toNat s.cursor
  .ok { s.emit (.scalar text .plain) with cursor, keyAllowed := broken }

/-- Whether a plain scalar may start with `c` before `rest`. -/
def startsPlain (flow : Bool) (c : Char) (rest : List Char) : Bool :=
  !(isSpaceTab c || isBreak c || "-?:,[]\x7b\x7d#&*!|>'\"%@\x60".toList.contains c)
    || (c == '-' && !(rest.head?.any isSpaceTab))
    || (!flow && (c == '?' || c == ':') && !atGap rest)

/-- Reads the next token; none at the end of the text. -/
def next (s : Scanner) : Scan (Option Scanner) := do
  let s := toNextToken (s.cursor.rest.length + 1) s
  let s := s.unroll s.cursor.column
  match s.cursor.rest with
  | [] => .ok none
  | c :: rest =>
    if c == '%' && s.cursor.column == 0 then some <$> s.directive
    else if s.cursor.atMarker '-' then some <$> s.marker .documentStart
    else if s.cursor.atMarker '.' then some <$> s.marker .documentEnd
    else if c == '[' then some <$> s.openFlow .flowSequence
    else if c == '\x7b' then some <$> s.openFlow .flowMapping
    else if c == ']' then some <$> s.closeFlow .flowSequenceEnd
    else if c == '\x7d' then some <$> s.closeFlow .flowMappingEnd
    else if c == ',' then some <$> s.flowEntry
    else if c == '-' && atGap rest then some <$> s.blockEntry
    else if c == '?' && (s.inFlow || atGap rest) then some <$> s.explicitKey
    else if c == ':' && (s.inFlow || atGap rest) then some <$> s.mappingValue
    else if c == '*' then some <$> s.anchor .alias
    else if c == '&' then some <$> s.anchor .anchor
    else if c == '!' then some <$> s.tag
    else if c == '|' && !s.inFlow then some <$> s.blockScalar true
    else if c == '>' && !s.inFlow then some <$> s.blockScalar false
    else if c == '\'' then some <$> s.quotedScalar true
    else if c == '"' then some <$> s.quotedScalar false
    else if startsPlain s.inFlow c rest then some <$> s.plainScalar
    else .error (.unexpected c)

/-- Reads tokens up to the end of the text. -/
def run : Nat → Scanner → Scan (List Token)
  | 0, s => .ok s.tokens.reverse
  | fuel + 1, s =>
    match s.next with
    | .error fault => .error fault
    | .ok (some s) => run fuel s
    | .ok none =>
      let s := toNextToken (s.cursor.rest.length + 1) s
      match s.finish with
      | .ok s => .ok s.tokens.reverse
      | .error fault => .error fault

end Scanner

/-- The tokens of a text. -/
def Token.scan (text : List Char) : Scan (List Token) :=
  match sourceChars text with
  | .error fault => .error fault
  | .ok cs => Scanner.run (cs.length + 2) { cursor := { rest := cs } }

end Redeclare.Yaml
