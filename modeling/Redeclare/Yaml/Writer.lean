import Redeclare.Form
import Redeclare.Yaml.Scalar
import Redeclare.Yaml.Style
import Redeclare.Yaml.Text

/-!
# Writing YAML

Block style throughout: every item and pair on a line of its own, sequences in
mappings without further indentation.  A text is written plain where it reads
back as that text, in single quotes where it would read as something else, as a
block where it has several lines, and in double quotes where it holds
characters that only an escape can show.
-/

namespace Redeclare.Yaml

/-! ## The style of a text -/

/-- The characters that a text may hold unescaped. -/
def isPrintable (c : Char) : Bool :=
  let n := c.toNat
  n == 0x0a || (0x20 ≤ n && n ≤ 0x7e) || (0xa0 ≤ n && n ≤ 0xd7ff)
    || (0xe000 ≤ n && n ≤ 0xfffd && n ≠ 0xfeff) || 0x10000 ≤ n

/-- The characters that end a line in any text. -/
def isLineEnd (c : Char) : Bool :=
  c == '\r' || c == '\u0085' || isBreak c

/-- Whether nothing, a space, a tab or a line end comes next. -/
def atSpacing (cs : List Char) : Bool :=
  cs.head?.all fun c => isSpaceTab c || isLineEnd c || c == '\x00'

/-- What matters in a text for the choice of its style. -/
structure Shape where
  /-- It has a line end. -/
  multiline : Bool := false
  /-- It has characters that need an escape. -/
  special : Bool := false
  /-- It has an indicator where a plain scalar must not have one. -/
  indicator : Bool := false
  /-- It has a space right behind a line end. -/
  breakSpace : Bool := false
  /-- It has a line end right behind a space. -/
  spaceBreak : Bool := false

/-- Whether a character is an indicator at its place: at the start of the text, or behind
`before`. -/
def isIndicator (before : Option Char) (c : Char) (rest : List Char) : Bool :=
  match before with
  | none =>
    "#,[]\x7b\x7d&*!|>'\"%@\x60".toList.contains c
      || ((c == '?' || c == ':' || c == '-') && atSpacing rest)
  | some b =>
    (c == ':' && atSpacing rest) || (c == '#' && (isSpaceTab b || isLineEnd b || b == '\x00'))

/-- The shape of the rest of a text behind a character. -/
def Shape.scan (shape : Shape) (before : Option Char) : List Char → Shape
  | [] => shape
  | c :: cs =>
    let afterBreak := before.any isLineEnd
    let afterSpace := before == some ' '
    scan { multiline := shape.multiline || isLineEnd c
           special := shape.special || !isPrintable c
           indicator := shape.indicator || isIndicator before c cs
           breakSpace := shape.breakSpace || (c == ' ' && afterBreak)
           spaceBreak := shape.spaceBreak || (isLineEnd c && afterSpace) } (some c) cs

/-- The shape of a text.  One that starts like a document marker counts as an indicator. -/
def Shape.of (cs : List Char) : Shape :=
  let isMarker := cs.take 3 == ['-', '-', '-'] || cs.take 3 == ['.', '.', '.']
  Shape.scan { indicator := isMarker } none cs

/-- Whether a space or a line end stands first or last. -/
def hasEdge (cs : List Char) : Bool :=
  let isEdge (c : Char) : Bool := c == ' ' || isLineEnd c
  cs.head?.any isEdge || cs.getLast?.any isEdge

/-- Whether a text may be written plain. -/
def allowsPlain (cs : List Char) : Bool :=
  let shape := Shape.of cs
  cs.isEmpty || !(hasEdge cs || shape.breakSpace || shape.spaceBreak || shape.special
    || shape.multiline || shape.indicator)

/-- Whether a text may be written in single quotes. -/
def allowsSingle (cs : List Char) : Bool :=
  let shape := Shape.of cs
  !(shape.breakSpace || shape.spaceBreak || shape.special)

/-- Whether a text may be written as a block. -/
def allowsBlock (cs : List Char) : Bool :=
  let shape := Shape.of cs
  !(cs.isEmpty || cs.getLast? == some ' ' || shape.spaceBreak || shape.special)

/-- Whether a plain scalar with this text would be something other than a text. -/
def readsAsOther (s : String) : Bool :=
  match plainValue s with
  | .str _ => isZeroPadded s.toList
  | _ => true

/-- The style of a text.  The key of a pair has to stay on its line. -/
def styleOf (s : String) (isKey : Bool) : Style :=
  let cs := s.toList
  let asSingle := if allowsSingle cs then Style.single else .double
  if isKey && (Shape.of cs).multiline then .double
  else if cs.contains '\n' then
    if allowsBlock cs && !isKey then .block else .double
  else if readsAsOther s then asSingle
  else if allowsPlain cs && !(cs.isEmpty && isKey) then .plain
  else asSingle

/-! ## The pen -/

/-- The text written so far, the latest character first, and what the writer has to know about its
end. -/
structure Pen where
  text : List Char := []
  column : Nat := 0
  /-- The last thing written was white space. -/
  spaced : Bool := true
  /-- Only indentation and indicators stand on the line. -/
  atIndent : Bool := true

namespace Pen

/-- Writes a character within a line. -/
def put (p : Pen) (c : Char) : Pen :=
  { p with text := c :: p.text, column := p.column + 1 }

/-- Writes characters within a line. -/
def puts (p : Pen) (cs : List Char) : Pen :=
  cs.foldl put p

/-- Writes a line end. -/
def lineEnd (p : Pen) (c : Char) : Pen :=
  { p with text := c :: p.text, column := 0 }

/-- Starts a line at an indentation, unless the pen is on such a line already. -/
def indentTo (p : Pen) (indent : Nat) : Pen :=
  let p := if !p.atIndent || indent < p.column || (p.column == indent && !p.spaced) then
    p.lineEnd '\n' else p
  { p.puts (List.replicate (indent - p.column) ' ') with spaced := true, atIndent := true }

/-- Writes a space unless one stands there. -/
def space (p : Pen) : Pen :=
  if p.spaced then p else p.put ' '

/-- Writes an indicator of a scalar or a bracket, which no longer is indentation. -/
def indicator (p : Pen) (cs : List Char) : Pen :=
  { p.puts cs with spaced := false, atIndent := false }

/-- Writes an indicator that counts as indentation. -/
def entry (p : Pen) (c : Char) : Pen :=
  { p.space.put c with spaced := false }

/-! ## Scalars -/

/-- The body of a scalar in single quotes. -/
def singleBody (indent : Nat) (p : Pen) (broken : Bool) : List Char → Pen × Bool
  | [] => (p, broken)
  | c :: cs =>
    if isLineEnd c then
      let p := if !broken && c == '\n' then p.lineEnd '\n' else p
      singleBody indent { p.lineEnd c with atIndent := true } true cs
    else if c == ' ' then singleBody indent (p.put c) broken cs
    else
      let p := if broken then p.indentTo indent else p
      let p := if c == '\'' then p.put c else p
      singleBody indent { p.put c with atIndent := false } false cs

/-- The escape of a character in double quotes. -/
def escape (c : Char) : List Char :=
  let n := c.toNat
  let letter : Option Char :=
    if n == 0x00 then some '0'
    else if n == 0x07 then some 'a'
    else if n == 0x08 then some 'b'
    else if n == 0x09 then some 't'
    else if n == 0x0a then some 'n'
    else if n == 0x0b then some 'v'
    else if n == 0x0c then some 'f'
    else if n == 0x0d then some 'r'
    else if n == 0x1b then some 'e'
    else if n == 0x22 then some '"'
    else if n == 0x5c then some '\\'
    else if n == 0x85 then some 'N'
    else if n == 0xa0 then some '_'
    else if n == 0x2028 then some 'L'
    else if n == 0x2029 then some 'P'
    else none
  match letter with
  | some l => ['\\', l]
  | none =>
    if n ≤ 0xff then '\\' :: 'x' :: Text.hexFixed Text.hexDigitUpper 2 n
    else if n ≤ 0xffff then '\\' :: 'u' :: Text.hexFixed Text.hexDigitUpper 4 n
    else '\\' :: 'U' :: Text.hexFixed Text.hexDigitUpper 8 n

/-- A character in double quotes. -/
def doubleChar (c : Char) : List Char :=
  if !isPrintable c || isLineEnd c || c == '"' || c == '\\' then escape c else [c]

/-- The indicator of a block: the indentation if the text starts with white space, and what
happens to the line ends behind the text. -/
def blockHeader (cs : List Char) : List Char :=
  let start := if cs.head?.any (fun c => c == ' ' || isLineEnd c) then ['2'] else []
  let chomp := match cs.reverse with
    | [] => ['-']
    | last :: before =>
      if !isLineEnd last then ['-']
      else if before.head?.all isLineEnd then ['+'] else []
  '|' :: start ++ chomp

/-- The lines of a block. -/
def blockBody (indent : Nat) (p : Pen) (broken : Bool) : List Char → Pen
  | [] => p
  | c :: cs =>
    if isLineEnd c then blockBody indent { p.lineEnd c with atIndent := true } true cs
    else
      let p := if broken then p.indentTo indent else p
      blockBody indent { p.put c with atIndent := false } false cs

/-- A plain scalar. -/
def plain (p : Pen) (cs : List Char) : Pen :=
  let p := if cs.isEmpty then p else p.space
  { p.puts cs with spaced := false, atIndent := false }

/-- A scalar in a style; further lines go to `indent`. -/
def scalar (p : Pen) (indent : Nat) (style : Style) (cs : List Char) : Pen :=
  match style with
  | .plain => p.plain cs
  | .single =>
    let (p, broken) := singleBody indent (p.space.indicator ['\'']) false cs
    let p := if broken then p.indentTo indent else p
    p.indicator ['\'']
  | .double => (p.space.indicator ('"' :: cs.flatMap doubleChar)).indicator ['"']
  | .block =>
    let p := (p.space.indicator (blockHeader cs)).lineEnd '\n'
    blockBody indent { p with spaced := true, atIndent := true } true cs

/-! ## Collections -/

/-- The tag of a variant. -/
def tag (p : Pen) (name : String) : Pen :=
  p.space.indicator ('!' :: name.toList)

/-- The longest text, in bytes, that is written as a key in front of its colon. -/
def maxKeyLength : Nat := 128

/-- The indentation within a collection; none is the level of the document. -/
def deeper : Option Nat → Nat
  | none => 0
  | some indent => indent + 2

/-- The indentation of further lines of a scalar. -/
def scalarIndent (indent : Option Nat) : Nat :=
  indent.getD 0 + 2

/-- The key of a field and its colon.  A key of several lines, or one that is too long, stands
behind a question mark. -/
def fieldKey (p : Pen) (indent : Nat) (key : String) : Pen :=
  let p := p.indentTo indent
  let cs := key.toList
  if !(Shape.of cs).multiline && key.utf8ByteSize ≤ maxKeyLength then
    (p.scalar (scalarIndent (some indent)) (styleOf key true) cs).indicator [':']
  else
    let p := (p.entry '?').scalar (scalarIndent (some indent)) (styleOf key false) cs
    (p.indentTo indent).entry ':'

mutual

/-- A form at an indentation.  `inMapping` says whether it is the value of a field. -/
def form (p : Pen) (indent : Option Nat) (inMapping : Bool) : Form → Pen
  | .bool b => p.plain (toString b).toList
  | .int n => p.plain (toString n).toList
  | .text s => p.scalar (scalarIndent indent) (styleOf s false) s.toList
  | .list items =>
    if items.isEmpty then p.space.indicator ['[', ']']
    else listItems p (if inMapping && !p.atIndent then indent.getD 0 else deeper indent) items
  | .record fields =>
    if fields.isEmpty then p.space.indicator ['\x7b', '\x7d']
    else recordFields p (deeper indent) fields
  | .variant name content => form (p.tag name) indent inMapping content

/-- The items of a list, each on a line of its own. -/
def listItems (p : Pen) (indent : Nat) : List Form → Pen
  | [] => p
  | item :: items =>
    listItems (form ((p.indentTo indent).entry '-') (some indent) false item) indent items

/-- The fields of a record, each on a line of its own. -/
def recordFields (p : Pen) (indent : Nat) : List (String × Form) → Pen
  | [] => p
  | (key, value) :: fields =>
    recordFields (form (p.fieldKey indent key) (some indent) true value) indent fields

end

end Pen

/-- The YAML text of a form. -/
def write (form : Form) : String :=
  String.ofList (((Pen.form {} none false form).indentTo 0).text.reverse)

end Redeclare.Yaml
