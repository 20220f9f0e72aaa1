import Redeclare.Yaml.Fault

/-!
# YAML source text

The characters a YAML text may hold, the classes of characters that its grammar
tells apart, and the place of a character in lines and columns.  Carriage
returns, alone or before a line feed, and the next-line character are read as
line feeds; the line and paragraph separators end a line as themselves.
-/

namespace Redeclare.Yaml

/-- The byte order mark. -/
def byteOrderMark : Char := '\ufeff'

/-- The characters that may occur in a text. -/
def isAllowed (c : Char) : Bool :=
  let n := c.toNat
  n == 0x09 || n == 0x0a || n == 0x0d || (0x20 ≤ n && n ≤ 0x7e) || n == 0x85
    || (0xa0 ≤ n && n ≤ 0xd7ff) || (0xe000 ≤ n && n ≤ 0xfffd) || 0x10000 ≤ n

/-- The characters that end a line, once line feeds are uniform. -/
def isBreak (c : Char) : Bool :=
  c == '\n' || c == '\u2028' || c == '\u2029'

/-- Space and tab. -/
def isSpaceTab (c : Char) : Bool :=
  c == ' ' || c == '\t'

/-- The characters of anchors, handles and directive names. -/
def isWordChar (c : Char) : Bool :=
  ('0' ≤ c && c ≤ '9') || ('A' ≤ c && c ≤ 'Z') || ('a' ≤ c && c ≤ 'z') || c == '_' || c == '-'

/-- Whether a word may end before this text: at its end, before a space, a tab or a line break. -/
def atGap : List Char → Bool
  | [] => true
  | c :: _ => isSpaceTab c || isBreak c

/-- The text with uniform line feeds. -/
def unifyBreaks : List Char → List Char
  | '\r' :: '\n' :: cs => '\n' :: unifyBreaks cs
  | c :: cs => (if c == '\r' || c == '\u0085' then '\n' else c) :: unifyBreaks cs
  | [] => []

/-- The characters to read: a leading byte order mark is dropped, line feeds are made uniform, and
a character that no text may hold is refused. -/
def sourceChars (cs : List Char) : Except SyntaxFault (List Char) :=
  let cs := match cs with
    | c :: rest => if c = byteOrderMark then rest else cs
    | [] => cs
  match cs.find? (fun c => !isAllowed c) with
  | some c => .error (.control c)
  | none => .ok (unifyBreaks cs)

/-- A place in a text: what is left to read, how many characters and lines were passed, and the
column in the line. -/
structure Cursor where
  rest : List Char
  index : Nat := 0
  line : Nat := 0
  column : Nat := 0

namespace Cursor

/-- The place behind the next character. -/
def skip (c : Cursor) : Cursor :=
  match c.rest with
  | [] => c
  | ch :: rest =>
    if isBreak ch then ⟨rest, c.index + 1, c.line + 1, 0⟩
    else ⟨rest, c.index + 1, c.line, c.column + 1⟩

/-- The place where a suffix of the text starts, on the same line. -/
def moveTo (c : Cursor) (rest : List Char) : Cursor :=
  let passed := c.rest.length - rest.length
  ⟨rest, c.index + passed, c.line, c.column + passed⟩

/-- The place behind the characters of a class that holds no line break. -/
def skipWhile (p : Char → Bool) (c : Cursor) : Cursor :=
  c.moveTo (c.rest.dropWhile p)

/-- The place at the end of the line, or of the text. -/
def toLineEnd (c : Cursor) : Cursor :=
  c.skipWhile (fun ch => !isBreak ch)

/-- Whether a document marker stands here: three equal characters at the start of a line, then a
gap. -/
def atMarker (c : Cursor) (mark : Char) : Bool :=
  match c.rest with
  | x :: y :: z :: rest => c.column == 0 && x == mark && y == mark && z == mark && atGap rest
  | _ => false

/-- Whether the start or the end of a document is marked here. -/
def atDocumentMarker (c : Cursor) : Bool :=
  c.atMarker '-' || c.atMarker '.'

end Cursor

end Redeclare.Yaml
