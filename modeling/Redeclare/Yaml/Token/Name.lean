import Redeclare.Yaml.Token.Scalar

/-!
# Names in YAML text

Directives, anchors, aliases and tags.  Tags are URIs in which a percent sign
and two digits stand for a byte of UTF-8.
-/

namespace Redeclare.Yaml

/-! ## Percent escapes -/

/-- The byte of a percent escape at the start of a text, and the text behind it. -/
def percentByte : List Char → Scan (Nat × List Char)
  | '%' :: a :: b :: rest =>
    match Text.readNumeral 16 [a, b] with
    | some byte => .ok (byte, rest)
    | none => .error .badName
  | _ => .error .badName

/-- Continuation bytes of a character whose leading byte is read. -/
def percentTail : Nat → Nat → List Char → Scan (Nat × List Char)
  | 0, code, cs => .ok (code, cs)
  | n + 1, code, cs =>
    match percentByte cs with
    | .error fault => .error fault
    | .ok (byte, cs) =>
      if byte / 64 = 2 then percentTail n (code * 64 + byte % 64) cs else .error .badName

/-- The character that the percent escapes at the start of a text stand for. -/
def percentChar (cs : List Char) : Scan (Char × List Char) :=
  match percentByte cs with
  | .error fault => .error fault
  | .ok (byte, cs) =>
    let start : Option (Nat × Nat) :=
      if byte < 0x80 then some (0, byte)
      else if byte / 32 = 6 then some (1, byte % 32)
      else if byte / 16 = 14 then some (2, byte % 16)
      else if byte / 8 = 30 then some (3, byte % 8)
      else none
    match start with
    | none => .error .badName
    | some (more, code) =>
      match percentTail more code cs with
      | .ok (code, cs) =>
        let isShortest :=
          if more = 0 then true else if more = 1 then 0x80 ≤ code
          else if more = 2 then 0x800 ≤ code else 0x10000 ≤ code
        if h : isShortest = true ∧ code.isValidChar then .ok (Char.ofNatAux code h.2, cs)
        else .error .badName
      | .error fault => .error fault

/-- The characters of a URI that stand for themselves; `full` admits those that mean something
within brackets. -/
def isUriChar (full : Bool) (c : Char) : Bool :=
  isWordChar c || ";/?:@&=+$.!~*'()".toList.contains c || (full && ",[]".toList.contains c)

/-- The URI at the start of a text. -/
def scanUri (full : Bool) : Nat → List Char → Scan (List Char × List Char)
  | 0, cs => .ok ([], cs)
  | fuel + 1, cs =>
    match cs with
    | [] => .ok ([], [])
    | c :: rest =>
      if c == '%' then
        match percentChar cs with
        | .ok (c, rest) => consWord (some c) (scanUri full fuel rest)
        | .error fault => .error fault
      else if isUriChar full c then consWord (some c) (scanUri full fuel rest)
      else .ok ([], cs)

/-! ## Anchors and tags -/

/-- An anchor or an alias behind its indicator. -/
def scanAnchor (c : Cursor) : Scan (List Char × Cursor) :=
  let name := c.rest.takeWhile isWordChar
  let behind := c.skipWhile isWordChar
  let isEnded := atGap behind.rest || behind.rest.head?.any fun ch => "?:,]\x7d%@\x60".toList.contains ch
  if name.isEmpty || !isEnded then .error .badName else .ok (name, behind)

/-- A tag handle: an exclamation mark, or a word between two of them, or an exclamation mark and
the word that the tag starts with. -/
def tagHandle (cs : List Char) : Scan (List Char × List Char) :=
  match cs with
  | '!' :: rest =>
    let word := rest.takeWhile isWordChar
    match rest.dropWhile isWordChar with
    | '!' :: rest => .ok ('!' :: word ++ ['!'], rest)
    | rest => .ok ('!' :: word, rest)
  | _ => .error .badName

/-- The handle and the suffix of a tag, and the text behind. -/
def tagParts (cs : List Char) : Scan ((List Char × List Char) × List Char) :=
  match cs with
  | '!' :: '<' :: rest =>
    match scanUri true rest.length rest with
    | .error fault => .error fault
    | .ok (uri, behind) =>
      match uri, behind with
      | _ :: _, '>' :: behind => .ok (([], uri), behind)
      | _, _ => .error .badName
  | _ =>
    match tagHandle cs with
    | .error fault => .error fault
    | .ok (handle, rest) =>
      match scanUri false rest.length rest with
      | .error fault => .error fault
      | .ok (uri, behind) =>
        if 2 ≤ handle.length ∧ handle.getLast? = some '!' then
          if uri.isEmpty then .error .badName else .ok ((handle, uri), behind)
        else
          match handle.drop 1 ++ uri with
          | [] => .ok (([], ['!']), behind)
          | suffix => .ok ((['!'], suffix), behind)

/-- A tag from its exclamation mark on. -/
def scanTag (flow : Bool) (c : Cursor) : Scan (Token × Cursor) :=
  match tagParts c.rest with
  | .error fault => .error fault
  | .ok ((handle, suffix), rest) =>
    if atGap rest || (flow && rest.head? == some ',') then
      .ok (.tag handle suffix, c.moveTo rest)
    else .error .badName

/-! ## Directives -/

/-- The number of a version at the start of a text: at most nine digits. -/
def versionNumber (cs : List Char) : Scan (Nat × List Char) :=
  let digits := cs.takeWhile Text.isDecimalDigit
  match Text.readNumeral 10 digits with
  | some n => if digits.length ≤ 9 then .ok (n, cs.drop digits.length) else .error .badDirective
  | none => .error .badDirective

/-- A directive from its percent sign on: a version or a tag handle. -/
def scanDirective (c : Cursor) : Scan (Token × Cursor) :=
  let text := c.skip.rest
  let name := String.ofList (text.takeWhile isWordChar)
  let behind := text.dropWhile isWordChar
  let value := behind.dropWhile isSpaceTab
  let parsed : Scan (Token × List Char) :=
    if !atGap behind then .error .badDirective
    else if name == "YAML" then
      match versionNumber value with
      | .ok (major, '.' :: rest) =>
        match versionNumber rest with
        | .ok (minor, rest) => .ok (.version major minor, rest)
        | .error fault => .error fault
      | _ => .error .badDirective
    else if name == "TAG" then
      match tagHandle value with
      | .error fault => .error fault
      | .ok (handle, rest) =>
        let isHandle := handle = ['!'] ∨ (2 ≤ handle.length ∧ handle.getLast? = some '!')
        match rest.takeWhile isSpaceTab, decide isHandle with
        | _ :: _, true =>
          let rest := rest.dropWhile isSpaceTab
          match scanUri true rest.length rest with
          | .error fault => .error fault
          | .ok (uri, rest) =>
            if uri.isEmpty || !atGap rest then .error .badDirective
            else .ok (.tagHandle handle uri, rest)
        | _, _ => .error .badDirective
    else .error .badDirective
  match parsed with
  | .error fault => .error fault
  | .ok (token, rest) =>
    let c := ((c.moveTo rest).skipWhile isSpaceTab)
    let c := if c.rest.head? == some '#' then c.toLineEnd else c
    if c.rest.head?.all isBreak then .ok (token, c.skip)
    else .error .badDirective

end Redeclare.Yaml
