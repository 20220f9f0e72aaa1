import Redeclare.Text.Blank
import Redeclare.Text.Numeral

/-!
# Log filters

Which log entries are shown.  A filter is a list of directives with commas
between them.  A directive is a level, a target, or a target and a level; the
most specific directive for a target decides, and of several for one target the
last one.
-/

namespace Redeclare.Log

open Text

/-- How grave an entry is. -/
inductive Level where
  | error
  | warn
  | info
  | debug
  | trace
  deriving DecidableEq

/-- How much has to be shown for entries of a level to be among it. -/
def Level.verbosity : Level → Nat
  | error => 1
  | warn => 2
  | info => 3
  | debug => 4
  | trace => 5

/-- A part of a filter: how much is shown, and of what.  Nothing in this program runs in a span,
so a directive for a span shows nothing. -/
structure Directive where
  target : Option String
  verbosity : Nat
  inSpan : Bool := false

/-- The words for how much is shown. -/
def verbosityNames : List (String × Nat) :=
  [("off", 0), ("error", 1), ("warn", 2), ("info", 3), ("debug", 4), ("trace", 5)]

/-- How much is shown by a word in either case, or by a number up to five. -/
def verbosity? (cs : List Char) : Option Nat :=
  match readNumeral 10 cs with
  | some n => if n ≤ 5 then some n else none
  | none => verbosityNames.lookup (String.ofList (cs.map Char.toLower))

/-- The level behind an equals sign; without a word everything is shown. -/
def levelBehind? : List Char → Option Nat
  | [] => some 5
  | cs => verbosity? cs

/-- What may stand between the closing bracket of a span and the end of its directive. -/
def spanLevel? : List Char → Option Nat
  | [] => some 5
  | '=' :: cs => levelBehind? cs
  | _ => none

/-- A directive with a span, from the span on. -/
def span? (target : Option String) (cs : List Char) : Option Directive :=
  match cs.dropWhile (· ≠ ']') with
  | ']' :: rest => (spanLevel? rest).map fun verbosity => ⟨target, verbosity, true⟩
  | _ => none

/-- A character with which a directive may begin: a letter, a digit, one of three signs, or any
character beyond ASCII. -/
def isStart (c : Char) : Bool :=
  c.isAlphanum || c == '-' || c == ':' || c == '_' || 128 ≤ c.toNat

/-- Reads a directive. -/
def Directive.read? (text : List Char) : Option Directive :=
  match trim text with
  | [] => some ⟨none, 5, false⟩
  | '[' :: cs => span? none cs
  | c :: cs =>
    if isStart c then
      let head := (c :: cs).takeWhile fun c => c ≠ '=' && c ≠ '['
      let name := String.ofList head
      match (c :: cs).drop head.length with
      | '=' :: rest => (levelBehind? rest).map fun verbosity => ⟨some name, verbosity, false⟩
      | '[' :: rest => span? (some name) rest
      | _ =>
        match verbosity? head with
        | some verbosity => some ⟨none, verbosity, false⟩
        | none => some ⟨some name, 5, false⟩
    else none

/-- The directives that decide what is shown. -/
abbrev Filter := List Directive

/-- The parts of a filter's text. -/
def parts (text : String) : List (List Char) :=
  (splitAt ',' text.toList).filter fun part => !part.isEmpty

/-- Reads a filter; one that has a faulty directive is refused, and one without directives shows
nothing. -/
def Filter.read? (text : String) : Option Filter :=
  (parts text).mapM Directive.read?

/-- Reads a filter; faulty directives are left out, and if none is left errors are shown. -/
def Filter.readLenient (text : String) : Filter :=
  match (parts text).filterMap Directive.read? with
  | [] => [⟨none, 1, false⟩]
  | directives => directives

/-- How specific a directive is. -/
def Directive.weight (d : Directive) : Nat :=
  match d.target with
  | none => 0
  | some target => target.utf8ByteSize + 1

/-- Whether a directive is for a target: its own target is a beginning of it. -/
def Directive.isFor (d : Directive) (target : String) : Bool :=
  !d.inSpan &&
    match d.target with
    | none => true
    | some t => target.startsWith t

/-- The most specific directive for a target. -/
def Filter.best (filter : Filter) (target : String) : Option Directive :=
  filter.foldl (fun best d =>
    if d.isFor target then
      match best with
      | some b => if b.weight ≤ d.weight then some d else some b
      | none => some d
    else best) none

/-- Whether an entry of a level is shown for a target. -/
def Filter.shows (filter : Filter) (target : String) (level : Level) : Bool :=
  match filter.best target with
  | some d => level.verbosity ≤ d.verbosity
  | none => false

end Redeclare.Log
