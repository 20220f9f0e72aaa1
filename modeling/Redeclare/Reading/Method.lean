import Redeclare.Reading.Source
import Redeclare.Method.Basic

/-!
# Reading methods

The readers of method tokens and their parts, for every source of documents.
Lists, modifiers and names that may be left out have defaults; a token needs a
name and a return type, a parameter and an annotation a type, and a type
variable a symbol.
-/

namespace Redeclare

/-! ## Annotation values -/

namespace AnnotationValue

/-- The integers of 64 bits with sign. -/
def int64? (n : Int) : Option Int64 :=
  if -0x8000000000000000 ≤ n ∧ n < 0x8000000000000000 then some (Int64.ofInt n) else none

mutual

/-- The annotation value that a value is: a boolean, an integer of 64 bits, a text, or a list of
annotation values. -/
def ofValue? : Value → Option AnnotationValue
  | .bool b => some (.boolean b)
  | .int n => (int64? n).map .integer
  | .str s => some (.text s)
  | .seq items => (ofValues? items).map .array
  | .null | .float _ | .map _ => none

/-- The annotation values that the items of a list are. -/
def ofValues? : List Value → Option (List AnnotationValue)
  | [] => some []
  | item :: items =>
    match ofValue? item, ofValues? items with
    | some value, some values => some (value :: values)
    | _, _ => none

end

end AnnotationValue

/-! ## Readers -/

variable {σ : Type} {m : Type → Type} [FaultMonad m] [Source σ m]

/-- Reads a text. -/
def readText : σ → m String :=
  Source.text .string anyText

/-- Reads the name of a type. -/
def TypeName.read (x : σ) : m TypeName :=
  Source.text .string (fun s => .ok ⟨s⟩) x

/-- Reads a modifier set. -/
def Modifiers.readFrom : σ → m Modifiers :=
  Source.text .flags fun s => (Modifiers.read s).mapError Fault.flags

/-- Reads an annotation value. -/
def AnnotationValue.read (x : σ) : m AnnotationValue := do
  let value ← Source.buffer x
  match AnnotationValue.ofValue? value with
  | some value => pure value
  | none => refuse .noAnnotationValue

/-- The fields of a type variable as far as they are read. -/
structure TypeVariable.Draft where
  symbol : Option String := none
  bounds : Option (List TypeName) := none

/-- How a type variable is read. -/
def TypeVariable.reader : RecordReader m σ TypeVariable.Draft TypeVariable where
  kind := .typeVariable
  draft := {}
  put field x d :=
    match field with
    | "symbol" => do return { d with symbol := some (← readText x) }
    | "bounds" => do return { d with bounds := some (← Source.list TypeName.read x) }
    | _ => pure d
  finish d :=
    match d.symbol with
    | none => .error "symbol"
    | some symbol => .ok ⟨symbol, d.bounds.getD []⟩

/-- The fields of an annotation as far as they are read. -/
structure Annotation.Draft where
  type : Option TypeName := none
  values : Option (KeyMap AnnotationValue) := none

/-- How an annotation is read. -/
def Annotation.reader : RecordReader m σ Annotation.Draft Annotation where
  kind := .annotated
  draft := {}
  put field x d :=
    match field with
    | "type" => do return { d with type := some (← TypeName.read x) }
    | "values" => do
      return { d with values := some (.ofList (← Source.entries AnnotationValue.read x)) }
    | _ => pure d
  finish d :=
    match d.type with
    | none => .error "type"
    | some type => .ok ⟨type, d.values.getD .empty⟩

/-- The fields of a parameter as far as they are read. -/
structure Parameter.Draft where
  type : Option TypeName := none
  name : Option (Option String) := none
  modifiers : Option Modifiers := none
  annotations : Option (List Annotation) := none

/-- How a parameter is read. -/
def Parameter.reader : RecordReader m σ Parameter.Draft Parameter where
  kind := .parameter
  draft := {}
  put field x d :=
    match field with
    | "type" => do return { d with type := some (← TypeName.read x) }
    | "name" => do return { d with name := some (← Source.option readText x) }
    | "modifiers" => do return { d with modifiers := some (← Modifiers.readFrom x) }
    | "annotations" => do
      return { d with annotations := some (← Source.list (Source.record Annotation.reader) x) }
    | _ => pure d
  finish d :=
    match d.type with
    | none => .error "type"
    | some type =>
      .ok ⟨type, d.name.getD none, d.modifiers.getD .empty, d.annotations.getD []⟩

/-- The fields of a method token as far as they are read. -/
structure MethodToken.Draft where
  name : Option String := none
  modifiers : Option Modifiers := none
  typeVariables : Option (List TypeVariable) := none
  returnType : Option TypeName := none
  parameters : Option (List Parameter) := none
  exceptionTypes : Option (List TypeName) := none
  annotations : Option (List Annotation) := none
  defaultValue : Option (Option AnnotationValue) := none

/-- How a method token is read. -/
def MethodToken.reader : RecordReader m σ MethodToken.Draft MethodToken where
  kind := .token
  draft := {}
  put field x d :=
    match field with
    | "name" => do return { d with name := some (← readText x) }
    | "modifiers" => do return { d with modifiers := some (← Modifiers.readFrom x) }
    | "type_variables" => do
      return { d with typeVariables := some (← Source.list (Source.record TypeVariable.reader) x) }
    | "return_type" => do return { d with returnType := some (← TypeName.read x) }
    | "parameters" => do
      return { d with parameters := some (← Source.list (Source.record Parameter.reader) x) }
    | "exception_types" => do
      return { d with exceptionTypes := some (← Source.list TypeName.read x) }
    | "annotations" => do
      return { d with annotations := some (← Source.list (Source.record Annotation.reader) x) }
    | "default_value" => do
      return { d with defaultValue := some (← Source.option AnnotationValue.read x) }
    | _ => pure d
  finish d :=
    match d.name, d.returnType with
    | none, _ => .error "name"
    | some _, none => .error "return_type"
    | some name, some returnType =>
      .ok ⟨name, d.modifiers.getD .empty, d.typeVariables.getD [], returnType,
        d.parameters.getD [], d.exceptionTypes.getD [], d.annotations.getD [],
        d.defaultValue.getD none⟩

end Redeclare
