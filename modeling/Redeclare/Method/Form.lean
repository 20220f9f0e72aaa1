import Redeclare.Form
import Redeclare.Method.Basic
import Redeclare.Modifiers.Text

/-!
# The written form of methods

Empty lists and absent parts are left out, except that parameters, modifiers
and the bounds of a type variable are always written.
-/

namespace Redeclare

namespace Form

/-- A field, unless its list is empty. -/
def unlessEmpty {α : Type} (key : String) (form : α → Form) (xs : List α) : List (String × Form) :=
  if xs.isEmpty then [] else [(key, .list (xs.map form))]

/-- A field, if there is something to write. -/
def ifPresent {α : Type} (key : String) (form : α → Form) (x : Option α) : List (String × Form) :=
  (x.map fun a => (key, form a)).toList

end Form

/-- The written form of a type name. -/
def TypeName.form (t : TypeName) : Form := .text t.name

/-- The written form of a modifier set. -/
def Modifiers.form (m : Modifiers) : Form := .text m.write

/-- The written form of a type variable. -/
def TypeVariable.form (v : TypeVariable) : Form :=
  .record [("symbol", .text v.symbol), ("bounds", .list (v.bounds.map TypeName.form))]

namespace AnnotationValue

mutual

/-- The written form of an annotation value. -/
def form : AnnotationValue → Form
  | .boolean b => .bool b
  | .integer n => .int n.toInt
  | .text s => .text s
  | .array values => .list (forms values)

/-- The written forms of the values of an array. -/
def forms : List AnnotationValue → List Form
  | [] => []
  | value :: values => form value :: forms values

end

end AnnotationValue

/-- The written form of an annotation. -/
def Annotation.form (a : Annotation) : Form :=
  .record (("type", a.type.form) ::
    if a.values.isEmpty then []
    else [("values", .record (a.values.entries.map fun e => (e.1, e.2.form)))])

/-- The written form of a parameter. -/
def Parameter.form (p : Parameter) : Form :=
  .record (("type", p.type.form) :: Form.ifPresent "name" .text p.name
    ++ ("modifiers", p.modifiers.form) :: Form.unlessEmpty "annotations" Annotation.form p.annotations)

/-- The fields of a method token in its written form. -/
def MethodToken.fields (t : MethodToken) : List (String × Form) :=
  ("name", .text t.name) :: ("modifiers", t.modifiers.form)
    :: Form.unlessEmpty "type_variables" TypeVariable.form t.typeVariables
    ++ ("return_type", t.returnType.form)
    :: ("parameters", .list (t.parameters.map Parameter.form))
    :: Form.unlessEmpty "exception_types" TypeName.form t.exceptionTypes
    ++ Form.unlessEmpty "annotations" Annotation.form t.annotations
    ++ Form.ifPresent "default_value" AnnotationValue.form t.defaultValue

/-- The written form of a method token. -/
def MethodToken.form (t : MethodToken) : Form := .record t.fields

/-- The written form of a method: its declaring type, then the fields of its token. -/
def Method.form (m : Method) : Form :=
  .record (("declaring_type", m.declaringType.form) :: m.token.fields)

end Redeclare
