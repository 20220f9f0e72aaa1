import Redeclare.Modifiers.Rule
import Redeclare.Text.Blank

/-!
# Named modifier choices

The seven groups of modifier bits that a method declaration chooses from, and
the choices by name.  A choice clears the bits of its group and sets its own,
so of several choices of a group the last one counts.
-/

namespace Redeclare

/-- A group of bits of which a declaration makes one choice. -/
inductive Group where
  /-- Who may call the method. -/
  | visibility
  /-- Whether the method belongs to instances or to the type. -/
  | ownership
  /-- How the body is provided and whether it may be overridden. -/
  | manifestation
  /-- Whether a call holds the monitor. -/
  | synchronization
  /-- Whether the method is marked as generated by a compiler. -/
  | origin
  /-- Whether floating point arithmetic is strict. -/
  | strictness
  /-- Whether the last parameter takes any number of arguments. -/
  | arity
  deriving DecidableEq

/-- The bits of a group. -/
def Group.range : Group → Modifiers
  | visibility => .ofNat 0x0007
  | ownership => .ofNat 0x0008
  | manifestation => .ofNat 0x0550
  | synchronization => .ofNat 0x0020
  | origin => .ofNat 0x1000
  | strictness => .ofNat 0x0800
  | arity => .ofNat 0x0080

/-- A choice within a group, under the name that configurations use. -/
inductive ModifierName where
  | publicAccess
  | protectedAccess
  | packageAccess
  | privateAccess
  | member
  | static
  | concrete
  | abstract
  | final
  | native
  | finalNative
  | bridge
  | finalBridge
  | synchronized
  | notSynchronized
  | synthetic
  | notSynthetic
  | strict
  | notStrict
  | varargs
  | fixedArity
  deriving DecidableEq

namespace ModifierName

/-- Every choice, in the order in which they are listed to a user. -/
def all : List ModifierName :=
  [publicAccess, protectedAccess, packageAccess, privateAccess, member, static, concrete, abstract,
    final, native, finalNative, bridge, finalBridge, synchronized, notSynchronized, synthetic,
    notSynthetic, strict, notStrict, varargs, fixedArity]

/-- The group of a choice. -/
def group : ModifierName → Group
  | publicAccess | protectedAccess | packageAccess | privateAccess => .visibility
  | member | static => .ownership
  | concrete | abstract | final | native | finalNative | bridge | finalBridge => .manifestation
  | synchronized | notSynchronized => .synchronization
  | synthetic | notSynthetic => .origin
  | strict | notStrict => .strictness
  | varargs | fixedArity => .arity

/-- The flags that a choice sets. -/
def flags : ModifierName → List Flag
  | publicAccess => [.accPublic]
  | protectedAccess => [.accProtected]
  | packageAccess => []
  | privateAccess => [.accPrivate]
  | member => []
  | static => [.accStatic]
  | concrete => []
  | abstract => [.accAbstract]
  | final => [.accFinal]
  | native => [.accNative]
  | finalNative => [.accFinal, .accNative]
  | bridge => [.accBridge]
  | finalBridge => [.accFinal, .accBridge]
  | synchronized => [.accSynchronized]
  | notSynchronized => []
  | synthetic => [.accSynthetic]
  | notSynthetic => []
  | strict => [.accStrict]
  | notStrict => []
  | varargs => [.accVarargs]
  | fixedArity => []

/-- The set of the flags that a choice sets. -/
def mask (n : ModifierName) : Modifiers :=
  n.flags.foldl (fun m f => m.union f.mask) .empty

/-- A choice as a rule: the group is cleared, the flags of the choice are set. -/
def rule (n : ModifierName) : Rule :=
  ⟨n.group.range, n.mask⟩

/-- The name in a configuration. -/
def text : ModifierName → String
  | publicAccess => "public"
  | protectedAccess => "protected"
  | packageAccess => "package-private"
  | privateAccess => "private"
  | member => "member"
  | static => "static"
  | concrete => "concrete"
  | abstract => "abstract"
  | final => "final"
  | native => "native"
  | finalNative => "final-native"
  | bridge => "bridge"
  | finalBridge => "final-bridge"
  | synchronized => "synchronized"
  | notSynchronized => "not-synchronized"
  | synthetic => "synthetic"
  | notSynthetic => "not-synthetic"
  | strict => "strict"
  | notStrict => "not-strict"
  | varargs => "varargs"
  | fixedArity => "fixed-arity"

/-- The choice with exactly this name. -/
def ofText? (text : String) : Option ModifierName :=
  all.find? (·.text == text)

/-- Reads a name as a user types it: white space around it and the case of ASCII letters do not
matter.  A text that is no name is returned without the white space around it. -/
def read (text : String) : Except String ModifierName :=
  let trimmed := Text.trim text.toList
  match all.find? fun n => n.text.toList == trimmed.map Char.toLower with
  | some n => .ok n
  | none => .error (String.ofList trimmed)

/-- Every choice is listed. -/
theorem mem_all (n : ModifierName) : n ∈ all := by
  cases n <;> decide

/-- A choice sets bits of its own group only. -/
theorem rule_isConfined (n : ModifierName) : n.rule.isConfined = true := by
  cases n <;> decide

end ModifierName

end Redeclare
