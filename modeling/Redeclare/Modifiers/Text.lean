import Redeclare.Modifiers.Basic
import Redeclare.Text.Blank
import Redeclare.Text.Numeral

/-!
# The written form of a modifier set

A set is written as the names of its flags, then its bits without a name as
one hexadecimal number, separated by ` | `.  Reading takes the parts in any
order and any number, with white space around them.
-/

namespace Redeclare

/-- Why a text is not a modifier set. -/
inductive FlagFault where
  /-- Nothing stands between two separators, or before the first or after the last. -/
  | emptyFlag
  /-- The digits behind `0x` are not a number of 16 bits. -/
  | hexFlag (digits : String)
  /-- No flag has this name. -/
  | unknownFlag (part : String)
  deriving DecidableEq

/-- The wording of a fault. -/
def FlagFault.message : FlagFault → String
  | emptyFlag => "encountered empty flag"
  | hexFlag digits => "invalid hex flag \x60" ++ digits ++ "\x60"
  | unknownFlag part => "unrecognized named flag \x60" ++ part ++ "\x60"

namespace Modifiers

/-- The lower-case hexadecimal digits of a set without leading zeros. -/
def hexDigits (m : Modifiers) : List Char :=
  (Text.hexFixed Text.hexDigit 4 m.toNat).dropWhile (· == '0')

/-- The parts that a set is written as. -/
def parts (m : Modifiers) : List String :=
  let rest := m.diff named
  m.flags.map Flag.name ++
    if rest = empty then [] else [String.ofList ('0' :: 'x' :: rest.hexDigits)]

/-- The written form of a set; the empty set is the empty text. -/
def write (m : Modifiers) : String :=
  Text.join " | " m.parts

/-- The digits of a number of 16 bits: either case, leading zeros and one leading plus sign are
allowed. -/
def readHex (cs : List Char) : Option Modifiers :=
  let digits := match cs with
    | '+' :: rest => rest
    | _ => cs
  match Text.readNumeral 16 digits with
  | some n => if n < 0x10000 then some (ofNat n) else none
  | none => none

/-- One part of a written set, without the white space around it. -/
def readPart (part : List Char) : Except FlagFault Modifiers :=
  match part with
  | [] => .error .emptyFlag
  | '0' :: 'x' :: digits =>
    match readHex digits with
    | some m => .ok m
    | none => .error (.hexFlag (String.ofList digits))
  | _ =>
    match Flag.ofName? (String.ofList part) with
    | some f => .ok f.mask
    | none => .error (.unknownFlag (String.ofList part))

/-- The union of the parts of a written set; the first part at fault decides the fault. -/
def readParts : Modifiers → List (List Char) → Except FlagFault Modifiers
  | m, [] => .ok m
  | m, part :: rest =>
    match readPart (Text.trim part) with
    | .ok n => readParts (m.union n) rest
    | .error fault => .error fault

/-- Reads a written set.  A blank text is the empty set. -/
def read (text : String) : Except FlagFault Modifiers :=
  let cs := text.toList
  if cs.all Text.isBlank then .ok empty
  else readParts empty (Text.splitAt '|' cs)

end Modifiers

end Redeclare
