import Redeclare.Modifiers.Text
import Redeclare.Text.Quoted
import Redeclare.Value

/-!
# Faults of documents

Why a well-formed document does not describe what is read from it, and how a
message says so.  The formats word a few things differently; `Wording` collects
the differences.
-/

namespace Redeclare

/-- The things that are written as a record of named fields. -/
inductive RecordKind where
  | method
  | token
  | parameter
  | typeVariable
  | annotated
  | settings
  | output
  deriving DecidableEq

namespace RecordKind

/-- The name of a kind of record in messages. -/
def name : RecordKind → String
  | method => "MethodDescription"
  | token => "MethodToken"
  | parameter => "ParameterToken"
  | typeVariable => "TypeVariableToken"
  | annotated => "AnnotationDescription"
  | settings => "Config"
  | output => "OutputConfig"

/-- The fields of a kind of record, in the order of a positional form. -/
def fields : RecordKind → List String
  | method => []
  | token =>
    ["name", "modifiers", "type_variables", "return_type", "parameters", "exception_types",
      "annotations", "default_value"]
  | parameter => ["type", "name", "modifiers", "annotations"]
  | typeVariable => ["symbol", "bounds"]
  | annotated => ["type", "values"]
  | settings => ["transformer", "output"]
  | output => ["format", "pretty"]

end RecordKind

/-- The things that are written as one of several named variants. -/
inductive VariantKind where
  | plan
  | modifierName
  | outputFormat
  deriving DecidableEq

/-- The name of a kind of variant in messages. -/
def VariantKind.name : VariantKind → String
  | plan => "TransformerConfig"
  | modifierName => "ModifierName"
  | outputFormat => "OutputFormat"

/-- What stands in a document, as a message names it. -/
inductive Found where
  | null
  | bool (value : Bool)
  | int (value : Int)
  | float (value : Text.Binary64)
  | str (value : String)
  | seq
  | map
  /-- A document without any value. -/
  | absent
  /-- A tagged value. -/
  | tagged
  /-- A variant without content. -/
  | unitVariant

/-- What a value on its own is in a message. -/
def Found.ofValue : Value → Found
  | .null => .null
  | .bool b => .bool b
  | .int n => .int n
  | .float x => .float x
  | .str s => .str s
  | .seq _ => .seq
  | .map _ => .map

/-- What a reader expects at a place. -/
inductive Expected where
  | string
  | flags
  | sequence
  | map
  | boolean
  | unit
  | record (kind : RecordKind)
  | variant (kind : VariantKind)
  | variantForm
  | singleKey
  | unitVariant
  | newtypeVariant
  | tag
  | fieldName
  | variantName
  | anyValue
  | anySetting
  | variantGroup
  | nullText
  | booleanText
  | integerText
  | floatText
  deriving DecidableEq

/-- How a message says what is expected. -/
def Expected.text : Expected → String
  | string => "a string"
  | flags => "a string value of \x60|\x60 separated flags"
  | sequence => "a sequence"
  | map => "a map"
  | boolean => "a boolean"
  | unit => "unit"
  | record kind => "struct " ++ kind.name
  | variant kind => "enum " ++ kind.name
  | variantForm => "string or map"
  | singleKey => "map with a single key"
  | unitVariant => "unit variant"
  | newtypeVariant => "newtype variant"
  | tag => "a YAML tag starting with '!'"
  | fieldName => "field identifier"
  | variantName => "variant identifier"
  | anyValue => "any value"
  | anySetting => "any valid value"
  | variantGroup => "enum"
  | nullText => "null"
  | booleanText => "a boolean"
  | integerText => "an integer"
  | floatText => "a float"

/-- Why a document does not describe what is read from it. -/
inductive Fault where
  /-- A value of the wrong kind. -/
  | invalidType (found : Found) (expected : Expected)
  /-- A value of the right kind that does not fit. -/
  | invalidValue (found : Found) (expected : Expected)
  /-- A field without a default is missing. -/
  | missingField (field : String)
  /-- A field occurs twice. -/
  | duplicateField (field : String)
  /-- A name that no variant has. -/
  | unknownVariant (name : String) (known : List String)
  /-- A positional form ends before a field without a default. -/
  | tooShort (length : Nat) (kind : RecordKind)
  /-- A positional form has more items than fields. -/
  | tooLong (length : Nat) (kind : RecordKind)
  /-- A value that is no annotation value. -/
  | noAnnotationValue
  /-- A tagged value where an annotation value may stand. -/
  | taggedAnnotationValue
  /-- A text that is no modifier set. -/
  | flags (fault : FlagFault)
  /-- Collections nest too deep. -/
  | tooDeep
  /-- Aliases are followed too often. -/
  | tooManyAliases
  /-- The document ends before a value. -/
  | endOfDocument

/-- How a format words what all formats have. -/
structure Wording where
  null : String
  float : Text.Binary64.Spelling
  /-- What a positional form that is too long should have had. -/
  overlong : Nat → String

namespace Wording

/-- A list read field by field from a buffer. -/
def elements (n : Nat) : String :=
  toString n ++ (if n = 1 then " element" else " elements") ++ " in sequence"

/-- JSON read directly. -/
def json : Wording := ⟨"null", .compact, fun _ => "fewer elements in array"⟩

/-- JSON read by way of buffered values. -/
def bufferedJson : Wording := ⟨"null", .compact, elements⟩

/-- YAML. -/
def yaml : Wording := ⟨"unit value", .plain, elements⟩

end Wording

/-- A word between back quotes. -/
def backquoted (s : String) : String :=
  "\x60" ++ s ++ "\x60"

/-- An integer in a message; one of more than 64 bits is said to be so. -/
def integerText (n : Int) : String :=
  "integer " ++ backquoted (toString n) ++
    if n < -0x8000000000000000 then " as i128" else if 0x10000000000000000 ≤ n then " as u128" else ""

/-- How a message names what was found. -/
def Found.text (w : Wording) : Found → String
  | null => w.null
  | bool b => "boolean " ++ backquoted (toString b)
  | int n => integerText n
  | float x => "floating point " ++ backquoted (x.write w.float)
  | str s => "string " ++ Text.quoted s
  | seq => "sequence"
  | map => "map"
  | absent => "Option value"
  | tagged => "enum"
  | unitVariant => "unit variant"

/-- The known names in a message. -/
def knownText : List String → String
  | [a] => backquoted a
  | [a, b] => backquoted a ++ " or " ++ backquoted b
  | names => "one of " ++ Text.join ", " (names.map backquoted)

/-- The message of a fault. -/
def Fault.message (w : Wording) : Fault → String
  | invalidType found expected => "invalid type: " ++ found.text w ++ ", expected " ++ expected.text
  | invalidValue found expected => "invalid value: " ++ found.text w ++ ", expected " ++ expected.text
  | missingField field => "missing field " ++ backquoted field
  | duplicateField field => "duplicate field " ++ backquoted field
  | unknownVariant name known =>
    "unknown variant " ++ backquoted name ++ ", expected " ++ knownText known
  | tooShort length kind =>
    "invalid length " ++ toString length ++ ", expected struct " ++ kind.name ++ " with "
      ++ toString kind.fields.length ++ " elements"
  | tooLong length kind =>
    "invalid length " ++ toString length ++ ", expected " ++ w.overlong kind.fields.length
  | noAnnotationValue => "data did not match any variant of untagged enum AnnotationValue"
  | taggedAnnotationValue => "untagged and internally tagged enums do not support enum input"
  | flags fault => fault.message
  | tooDeep => "recursion limit exceeded"
  | tooManyAliases => "repetition limit exceeded"
  | endOfDocument => "EOF while parsing a value"

end Redeclare
