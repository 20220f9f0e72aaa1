import Redeclare.Yaml.Token.Basic
import Redeclare.Text.Numeral

/-!
# Scalars in YAML text

The text of plain, quoted and block scalars, with line breaks folded and
escapes resolved.  Every function starts at a place in the text and answers
with the scalar and the place behind it.
-/

namespace Redeclare.Yaml

/-- The result of reading a part of a text. -/
abbrev Scan (α : Type) := Except SyntaxFault α

/-! ## Gaps between words -/

/-- White space within a scalar: the spaces before the first line break, the first break and the
breaks behind it, all with the latest character first. -/
structure Gap where
  spaces : List Char := []
  broken : Bool := false
  first : Option Char := none
  more : List Char := []

namespace Gap

/-- What a gap contributes to the text: its spaces, or its line breaks folded.  A single line feed
becomes a space; further breaks are kept. -/
def folded (g : Gap) : List Char :=
  if g.broken then
    match g.first with
    | some '\n' => if g.more.isEmpty then [' '] else g.more.reverse
    | some c => c :: g.more.reverse
    | none => g.more.reverse
  else g.spaces.reverse

/-- Reads the spaces, tabs and breaks at a place.  In a line behind the first break, a tab left of
`indent` is refused. -/
def scan (indent : Nat) : Nat → Gap → Cursor → Scan (Gap × Cursor)
  | 0, g, c => .ok (g, c)
  | fuel + 1, g, c =>
    match c.rest with
    | [] => .ok (g, c)
    | ch :: _ =>
      if isSpaceTab ch then
        if g.broken && c.column < indent && ch == '\t' then .error .tabIndentation
        else scan indent fuel (if g.broken then g else { g with spaces := ch :: g.spaces }) c.skip
      else if isBreak ch then
        let g := if g.broken then { g with more := ch :: g.more }
          else { g with spaces := [], broken := true, first := some ch }
        scan indent fuel g c.skip
      else .ok (g, c)

end Gap

/-! ## Plain scalars -/

/-- The word of a plain scalar at the start of a text, and the text behind it.  A colon before a
gap ends it; within brackets the flow indicators do too, and a colon right before one of them is
refused. -/
def plainWord (flow : Bool) : List Char → Scan (List Char × List Char)
  | [] => .ok ([], [])
  | c :: cs =>
    if atGap (c :: cs) then .ok ([], c :: cs)
    else if flow && c == ':' && (cs.head?.any fun n => ",?[]\x7b\x7d".toList.contains n) then
      .error (.unexpected ':')
    else if (c == ':' && atGap cs) || (flow && ",[]\x7b\x7d".toList.contains c) then
      .ok ([], c :: cs)
    else
      match plainWord flow cs with
      | .ok (word, rest) => .ok (c :: word, rest)
      | .error fault => .error fault

/-- The words of a plain scalar from a place on, behind a gap already read.  The last component of
the answer says whether the scalar ended behind a line break. -/
def plainWords (flow : Bool) (indent : Nat) :
    Nat → List Char → Gap → Cursor → Scan (List Char × Cursor × Bool)
  | 0, text, g, c => .ok (text, c, g.broken)
  | fuel + 1, text, g, c =>
    if c.atDocumentMarker || c.rest.head? == some '#' then .ok (text, c, g.broken)
    else
      match plainWord flow c.rest with
      | .error fault => .error fault
      | .ok (word, rest) =>
        let (text, g) := if word.isEmpty then (text, g) else (text ++ g.folded ++ word, {})
        let c := c.moveTo rest
        if c.rest.isEmpty || !atGap c.rest then .ok (text, c, g.broken)
        else
          match Gap.scan indent c.rest.length {} c with
          | .error fault => .error fault
          | .ok (g, c) =>
            if !flow && c.column < indent then .ok (text, c, g.broken)
            else plainWords flow indent fuel text g c

/-- A plain scalar; `indent` is the least column of its further lines. -/
def scanPlain (flow : Bool) (indent : Nat) (c : Cursor) : Scan (List Char × Cursor × Bool) :=
  plainWords flow indent (c.rest.length + 1) [] {} c

/-! ## Quoted scalars -/

/-- The character of an escape of one letter. -/
def letterEscape? : Char → Option Char
  | '0' => some '\x00'
  | 'a' => some '\x07'
  | 'b' => some '\x08'
  | 't' | '\t' => some '\t'
  | 'n' => some '\n'
  | 'v' => some '\x0b'
  | 'f' => some '\x0c'
  | 'r' => some '\r'
  | 'e' => some '\x1b'
  | ' ' => some ' '
  | '"' => some '"'
  | '/' => some '/'
  | '\\' => some '\\'
  | 'N' => some '\u0085'
  | '_' => some '\u00a0'
  | 'L' => some '\u2028'
  | 'P' => some '\u2029'
  | _ => none

/-- The character of a hexadecimal code; surrogates and numbers beyond Unicode are refused. -/
def codeEscape? (digits : List Char) : Option Char :=
  match Text.readNumeral 16 digits with
  | some code =>
    if (0xd800 ≤ code && code ≤ 0xdfff) || 0x10ffff < code then none else some (Char.ofNat code)
  | none => none

/-- Puts a character before a word read behind it. -/
def consWord (c : Option Char) (behind : Scan (List Char × List Char)) :
    Scan (List Char × List Char) :=
  match c, behind with
  | none, _ => .error .badEscape
  | some c, .ok (word, rest) => .ok (c :: word, rest)
  | some _, .error fault => .error fault

/-- The word of a scalar in single quotes, and the text from the gap or the closing quote on. -/
def singleWord : List Char → Scan (List Char × List Char)
  | '\'' :: '\'' :: cs => consWord (some '\'') (singleWord cs)
  | c :: cs =>
    if c == '\'' || atGap (c :: cs) then .ok ([], c :: cs) else consWord (some c) (singleWord cs)
  | [] => .ok ([], [])

/-- The word of a scalar in double quotes, and the text from the gap, the closing quote or an
escaped line break on. -/
def doubleWord : List Char → Scan (List Char × List Char)
  | '\\' :: 'x' :: a :: b :: cs => consWord (codeEscape? [a, b]) (doubleWord cs)
  | '\\' :: 'u' :: a :: b :: c :: d :: cs => consWord (codeEscape? [a, b, c, d]) (doubleWord cs)
  | '\\' :: 'U' :: a :: b :: c :: d :: e :: f :: g :: h :: cs =>
    consWord (codeEscape? [a, b, c, d, e, f, g, h]) (doubleWord cs)
  | '\\' :: c :: cs =>
    if isBreak c then .ok ([], '\\' :: c :: cs) else consWord (letterEscape? c) (doubleWord cs)
  | c :: cs =>
    if c == '"' || atGap (c :: cs) then .ok ([], c :: cs)
    else if c == '\\' then .error .badEscape
    else consWord (some c) (doubleWord cs)
  | [] => .ok ([], [])

/-- The words of a quoted scalar up to its closing quote. -/
def quotedWords (single : Bool) : Nat → List Char → Cursor → Scan (List Char × Cursor)
  | 0, _, _ => .error .unclosedQuote
  | fuel + 1, text, c =>
    if c.atDocumentMarker || c.rest.isEmpty then .error .unclosedQuote
    else
      match if single then singleWord c.rest else doubleWord c.rest with
      | .error fault => .error fault
      | .ok (word, rest) =>
        let text := text ++ word
        let c := c.moveTo rest
        if c.rest.head? == some (if single then '\'' else '"') then .ok (text, c.skip)
        else
          let (g, c) : Gap × Cursor :=
            if c.rest.head? == some '\\' then ({ broken := true }, c.skip.skip) else ({}, c)
          match Gap.scan 0 c.rest.length g c with
          | .error fault => .error fault
          | .ok (g, c) => quotedWords single fuel (text ++ g.folded) c

/-- A quoted scalar from its opening quote on. -/
def scanQuoted (single : Bool) (c : Cursor) : Scan (List Char × Cursor) :=
  quotedWords single (c.rest.length + 1) [] c.skip

/-! ## Block scalars -/

/-- What happens to the line breaks at the end of a block scalar. -/
inductive Chomping where
  /-- All are dropped. -/
  | strip
  /-- The first is kept. -/
  | clip
  /-- All are kept. -/
  | keep
  deriving DecidableEq

/-- The chomping of an indicator. -/
def Chomping.ofChar? : Char → Option Chomping
  | '+' => some .keep
  | '-' => some .strip
  | _ => none

/-- The indentation of an indicator: one digit, not zero. -/
def indentIndicator? (c : Char) : Option Nat :=
  if '1' ≤ c && c ≤ '9' then some (c.toNat - 48) else none

/-- The header of a block scalar behind its first character: chomping, explicit indentation (zero
if there is none), and the start of the next line. -/
def scanBlockHeader (c : Cursor) : Scan (Chomping × Nat × Cursor) :=
  let (chomp, digit, c) : Option Chomping × Option Char × Cursor :=
    match c.rest with
    | a :: b :: _ =>
      match Chomping.ofChar? a with
      | some chomp =>
        if Text.isDecimalDigit b then (some chomp, some b, c.skip.skip)
        else (some chomp, none, c.skip)
      | none =>
        if Text.isDecimalDigit a then
          match Chomping.ofChar? b with
          | some chomp => (some chomp, some a, c.skip.skip)
          | none => (none, some a, c.skip)
        else (none, none, c)
    | [a] =>
      match Chomping.ofChar? a with
      | some chomp => (some chomp, none, c.skip)
      | none => if Text.isDecimalDigit a then (none, some a, c.skip) else (none, none, c)
    | [] => (none, none, c)
  let c := c.skipWhile isSpaceTab
  let c := if c.rest.head? == some '#' then c.toLineEnd else c
  if !(c.rest.head?.all isBreak) then .error .badBlockHeader
  else
    match digit with
    | none => .ok (chomp.getD .clip, 0, c.skip)
    | some d =>
      match indentIndicator? d with
      | some n => .ok (chomp.getD .clip, n, c.skip)
      | none => .error .badBlockHeader

/-- Passes indentation and empty lines.  `indent` is zero while it is still to be found; the answer
has the greatest column seen and the breaks, the latest first. -/
def scanEmptyLines (indent : Nat) :
    Nat → Nat → List Char → Cursor → Scan (Nat × List Char × Cursor)
  | 0, deepest, breaks, c => .ok (max deepest c.column, breaks, c)
  | fuel + 1, deepest, breaks, c =>
    match c.rest with
    | [] => .ok (max deepest c.column, breaks, c)
    | ch :: _ =>
      let inIndent := indent == 0 || c.column < indent
      if inIndent && ch == ' ' then scanEmptyLines indent fuel deepest breaks c.skip
      else if inIndent && ch == '\t' then .error .tabIndentation
      else if isBreak ch then
        scanEmptyLines indent fuel (max deepest c.column) (ch :: breaks) c.skip
      else .ok (max deepest c.column, breaks, c)

/-- The lines of a block scalar.  `first` is the break behind the last line, `breaks` are those of
the empty lines behind it; `wasIndented` says whether the last line started with white space. -/
def blockLines (literal : Bool) (indent : Nat) :
    Nat → List Char → Option Char → List Char → Bool → Cursor →
      Scan (List Char × Option Char × List Char × Cursor)
  | 0, text, first, breaks, _, c => .ok (text, first, breaks, c)
  | fuel + 1, text, first, breaks, wasIndented, c =>
    if c.column ≠ indent || c.rest.isEmpty then .ok (text, first, breaks, c)
    else
      let isIndented := c.rest.head?.any isSpaceTab
      let joint :=
        if !literal && first == some '\n' && !wasIndented && !isIndented then
          if breaks.isEmpty then [' '] else []
        else first.toList
      let line := c.rest.takeWhile (fun ch => !isBreak ch)
      let c := c.toLineEnd
      let next := c.rest.head?
      let text := text ++ joint ++ breaks.reverse ++ line
      let c := c.skip
      match scanEmptyLines indent c.rest.length 0 [] c with
      | .error fault => .error fault
      | .ok (_, breaks, c) => blockLines literal indent fuel text next breaks isIndented c

/-- A block scalar from its indicator on; `parent` is the indentation it stands in. -/
def scanBlock (literal : Bool) (parent : Int) (c : Cursor) : Scan (List Char × Cursor) :=
  match scanBlockHeader c.skip with
  | .error fault => .error fault
  | .ok (chomp, increment, c) =>
    let indent := if increment = 0 then 0 else (max parent 0).toNat + increment
    match scanEmptyLines indent c.rest.length 0 [] c with
    | .error fault => .error fault
    | .ok (deepest, breaks, c) =>
      let indent := if indent = 0 then max deepest (max (parent + 1).toNat 1) else indent
      match blockLines literal indent (c.rest.length + 1) [] none breaks false c with
      | .error fault => .error fault
      | .ok (text, first, breaks, c) =>
        let tail := if chomp = .strip then [] else first.toList
        let more := if chomp = .keep then breaks.reverse else []
        .ok (text ++ tail ++ more, c)

end Redeclare.Yaml
