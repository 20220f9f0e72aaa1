import Redeclare.Settings.Tree
import Redeclare.Text.Blank
import Redeclare.Yaml.Scalar

/-!
# Settings from the environment

Variables whose names begin with `METHOD_TRANSFORM_` are settings.  The rest of
the name is the key, and two underscores separate the keys of nested groups.
The value is a truth value, a number, a list in brackets, a group in braces, a
text in quotes, or else a text as it stands.
-/

namespace Redeclare.Environment

open Text

/-! ## Values -/

/-- White space of ASCII. -/
def isSpace (c : Char) : Bool :=
  c == ' ' || c == '\t' || c == '\n' || c == '\x0c' || c == '\r'

/-- The text behind its leading white space. -/
def skipSpace (cs : List Char) : List Char :=
  cs.dropWhile isSpace

/-- A character that ends a bare value. -/
def isSeparator (c : Char) : Bool :=
  c == ',' || c == '\x7b' || c == '\x7d' || c == '[' || c == ']'

/-- A character of a bare key. -/
def isKeyChar (c : Char) : Bool :=
  c.isAlphanum || c == '_' || c == '-'

/-- The text behind a word that it starts with. -/
def behind? : List Char → List Char → Option (List Char)
  | [], cs => some cs
  | w :: ws, c :: cs => if w = c then behind? ws cs else none
  | _ :: _, [] => none

/-- The character of a letter behind a backslash. -/
def escape? : Char → Option Char
  | '"' => some '"'
  | '\\' => some '\\'
  | 'b' => some '\x08'
  | 'f' => some '\x0c'
  | 'n' => some '\n'
  | 'r' => some '\r'
  | 't' => some '\t'
  | _ => none

/-- The character of a code. -/
def char? (code : Nat) : Option Char :=
  if code < 0xd800 ∨ (0xe000 ≤ code ∧ code < 0x110000) then some (Char.ofNat code) else none

/-- Whether a character may stand for itself in quotes. -/
def isPlain (c : Char) : Bool :=
  c == '\t' || (0x20 ≤ c.toNat && c.toNat ≠ 0x7f)

/-- A text behind its opening quote, and what stands behind its closing quote.  `fuel` bounds the
number of characters. -/
def readQuoted : Nat → List Char → List Char → Option (String × List Char)
  | 0, _, _ => none
  | _ + 1, _, [] => none
  | _ + 1, acc, '"' :: cs => some (String.ofList acc.reverse, cs)
  | fuel + 1, acc, '\\' :: e :: cs =>
    let coded (digits : Nat) : Option (String × List Char) :=
      if (cs.take digits).length = digits then
        match (readNumeral 16 (cs.take digits)).bind char? with
        | some c => readQuoted fuel (c :: acc) (cs.drop digits)
        | none => none
      else none
    if e = 'u' then coded 4
    else if e = 'U' then coded 8
    else
      match escape? e with
      | some c => readQuoted fuel (c :: acc) cs
      | none => none
  | fuel + 1, acc, c :: cs =>
    if isPlain c && c ≠ '\\' then readQuoted fuel (c :: acc) cs else none

/-- An integer without a minus sign, of 64 bits. -/
def natural? (cs : List Char) : Option Nat :=
  match readNumeral 10 (Yaml.dropSign ['+'] cs) with
  | some n => if n < 0x10000000000000000 then some n else none
  | none => none

/-- An integer with a minus sign, of 64 bits. -/
def signed? : List Char → Option Int
  | '-' :: cs =>
    match readNumeral 10 cs with
    | some n => if n ≤ 0x8000000000000000 then some (-(n : Int)) else none
    | none => none
  | _ => none

/-- A number with a point. -/
def float? (cs : List Char) : Option Binary64 :=
  if cs.contains '.' then
    match cs with
    | '-' :: rest => Yaml.decimal? true rest
    | _ => Yaml.decimal? false (Yaml.dropSign ['+'] cs)
  else none

/-- What a bare value is by its text. -/
def bare (cs : List Char) : Leaf :=
  match float? cs with
  | some x => .float x
  | none =>
    match natural? cs with
    | some n => .natural n
    | none =>
      match signed? cs with
      | some n => .signed n
      | none => .text (String.ofList cs)

/-- A key and what stands behind it. -/
def readKey (cs : List Char) : Option (String × List Char) :=
  match cs with
  | '"' :: cs => readQuoted (cs.length + 1) [] cs
  | cs =>
    match cs.takeWhile isKeyChar with
    | [] => none
    | key => some (String.ofList key, cs.dropWhile isKeyChar)

/-- A setting that is made in the environment. -/
def made (leaf : Leaf) : SettingTree := .leaf .environment leaf

mutual

/-- The value at the start of a text with white space around it, and what stands behind. -/
def readValue : Nat → List Char → Option (SettingTree × List Char)
  | 0, _ => none
  | fuel + 1, cs =>
    let cs := skipSpace cs
    let value : Option (SettingTree × List Char) :=
      match behind? "true".toList cs, behind? "false".toList cs with
      | some rest, _ => some (made (.bool true), rest)
      | none, some rest => some (made (.bool false), rest)
      | none, none =>
        match cs with
        | '\x7b' :: cs =>
          (readEntries fuel [] cs).map fun (entries, rest) => (.group .environment entries, rest)
        | '[' :: cs => (readItems fuel cs).map fun (items, rest) => (.list .environment items, rest)
        | '"' :: cs =>
          (readQuoted (cs.length + 1) [] cs).map fun (s, rest) => (made (.text s), rest)
        | '\'' :: cs =>
          match cs with
          | c :: '\'' :: rest => some (made (.char c), rest)
          | _ => none
        | cs =>
          some (made (bare (trim (cs.takeWhile fun c => !isSeparator c))),
            cs.dropWhile fun c => !isSeparator c)
    value.map fun (tree, rest) => (tree, skipSpace rest)

/-- The items of a list up to its closing bracket. -/
def readItems : Nat → List Char → Option (List SettingTree × List Char)
  | 0, _ => none
  | fuel + 1, cs =>
    match cs with
    | ']' :: rest => some ([], rest)
    | _ =>
      match readValue fuel cs with
      | some (item, ',' :: cs) => (readItems fuel cs).map fun (items, rest) => (item :: items, rest)
      | some (item, ']' :: rest) => some ([item], rest)
      | _ => none

/-- The entries of a group up to its closing brace, behind the entries read so far. -/
def readEntries : Nat → List (String × SettingTree) → List Char →
    Option (List (String × SettingTree) × List Char)
  | 0, _, _ => none
  | fuel + 1, entries, cs =>
    match cs with
    | '\x7d' :: rest => some (entries, rest)
    | _ =>
      match readKey (skipSpace cs) with
      | none => none
      | some (key, cs) =>
        match skipSpace cs with
        | '=' :: cs =>
          match readValue fuel cs with
          | some (value, ',' :: cs) => readEntries fuel (insertEntry key value entries) cs
          | some (value, '\x7d' :: rest) => some (insertEntry key value entries, rest)
          | _ => none
        | _ => none

end

/-- The setting of a variable's value.  A text that does not follow the rules to its end means
itself. -/
def ofValue (value : String) : SettingTree :=
  let cs := value.toList
  match readValue (2 * cs.length + 2) cs with
  | some (tree, []) => tree
  | _ => made (.text value)

/-! ## Names -/

/-- What the names of settings begin with. -/
def nameStart : String := "METHOD_TRANSFORM_"

/-- The text behind a beginning, in either case of ASCII letters. -/
def behindFolded? : List Char → List Char → Option (List Char)
  | [], cs => some cs
  | w :: ws, c :: cs => if w.toLower = c.toLower then behindFolded? ws cs else none
  | _ :: _, [] => none

/-- A name with a point for every two underscores. -/
def dotted : List Char → List Char
  | '_' :: '_' :: cs => '.' :: dotted cs
  | c :: cs => c :: dotted cs
  | [] => []

/-- The keys that a variable's name stands for; none if it is not the name of a setting, or if one
of the keys is empty. -/
def keys? (name : String) : Option (List String) :=
  match behindFolded? nameStart.toList (trim name.toList) with
  | none => none
  | some cs =>
    let keys := splitAt '.' ((trim (dotted cs)).map Char.toLower)
    if keys.any (·.isEmpty) then none else some (keys.map String.ofList)

/-- A setting under a path of keys. -/
def nest (value : SettingTree) : List String → SettingTree
  | [] => value
  | key :: keys => .group .environment [(key, nest value keys)]

/-- Lays the setting of a variable over others. -/
def addVariable (entries : List (String × SettingTree)) (v : String × String) :
    List (String × SettingTree) :=
  match keys? v.1 with
  | some (key :: keys) =>
    SettingTree.layerEntries entries [(key, nest (ofValue v.2) keys)]
  | _ => entries

/-- The settings of an environment; later variables are laid over earlier ones. -/
def settings (env : List (String × String)) : List (String × SettingTree) :=
  env.foldl addVariable []

end Redeclare.Environment
