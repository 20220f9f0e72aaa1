import Redeclare.KeyMap
import Redeclare.Modifiers.Basic

/-!
# Methods

A method token is the declaration of a method detached from any type.  A
method is a token bound to its declaring type.  Transformers take a method
apart into its token and bind another token again.
-/

namespace Redeclare

/-- A type by its binary name, such as `java.lang.String` or `int`. -/
structure TypeName where
  name : String
  deriving DecidableEq

namespace TypeName

/-- The type of a method that returns nothing. -/
def void : TypeName := ⟨"void"⟩

/-- Whether this is the type of a method that returns nothing. -/
def isVoid (t : TypeName) : Bool := t.name == "void"

/-- Type names in the order of their texts, by code points. -/
def sort (ts : List TypeName) : List TypeName :=
  ts.mergeSort fun a b => decide (a.name ≤ b.name)

end TypeName

/-- A declared type variable; without bounds its bound is the root class. -/
structure TypeVariable where
  symbol : String
  bounds : List TypeName := []
  deriving DecidableEq

/-- A constant that an annotation holds: integers have 64 bits, and a text also stands for an
enumeration constant or a class. -/
inductive AnnotationValue where
  | boolean (value : Bool)
  | integer (value : Int64)
  | text (value : String)
  | array (values : List AnnotationValue)

namespace AnnotationValue

mutual

/-- Two constants are equal or not. -/
def decEq : (a b : AnnotationValue) → Decidable (a = b)
  | .boolean a, .boolean b =>
    if h : a = b then isTrue (congrArg _ h) else isFalse fun he => h (AnnotationValue.boolean.inj he)
  | .integer a, .integer b =>
    if h : a = b then isTrue (congrArg _ h) else isFalse fun he => h (AnnotationValue.integer.inj he)
  | .text a, .text b =>
    if h : a = b then isTrue (congrArg _ h) else isFalse fun he => h (AnnotationValue.text.inj he)
  | .array as, .array bs =>
    match decEqList as bs with
    | isTrue h => isTrue (congrArg _ h)
    | isFalse h => isFalse fun he => h (AnnotationValue.array.inj he)
  | .boolean _, .integer _ | .boolean _, .text _ | .boolean _, .array _
  | .integer _, .boolean _ | .integer _, .text _ | .integer _, .array _
  | .text _, .boolean _ | .text _, .integer _ | .text _, .array _
  | .array _, .boolean _ | .array _, .integer _ | .array _, .text _ =>
    isFalse fun he => AnnotationValue.noConfusion he

/-- Two lists of constants are equal or not. -/
def decEqList : (as bs : List AnnotationValue) → Decidable (as = bs)
  | [], [] => isTrue rfl
  | [], _ :: _ => isFalse fun he => absurd he (by simp)
  | _ :: _, [] => isFalse fun he => absurd he (by simp)
  | a :: as, b :: bs =>
    match decEq a b, decEqList as bs with
    | isTrue h, isTrue hs => isTrue (by rw [h, hs])
    | isFalse h, _ => isFalse fun he => h (List.cons.inj he).1
    | _, isFalse hs => isFalse fun he => hs (List.cons.inj he).2

end

instance : DecidableEq AnnotationValue := decEq

end AnnotationValue

/-- An annotation with the properties that are set explicitly. -/
structure Annotation where
  type : TypeName
  values : KeyMap AnnotationValue := .empty
  deriving DecidableEq

/-- A parameter of a method; its name need not be recorded. -/
structure Parameter where
  type : TypeName
  name : Option String := none
  modifiers : Modifiers := .empty
  annotations : List Annotation := []
  deriving DecidableEq

/-- The declaration of a method detached from its declaring type. -/
structure MethodToken where
  name : String
  modifiers : Modifiers := .empty
  typeVariables : List TypeVariable := []
  returnType : TypeName
  parameters : List Parameter := []
  exceptionTypes : List TypeName := []
  annotations : List Annotation := []
  defaultValue : Option AnnotationValue := none
  deriving DecidableEq

namespace MethodToken

/-- The same token with other access flags. -/
def withModifiers (t : MethodToken) (m : Modifiers) : MethodToken :=
  { t with modifiers := m }

@[simp] theorem modifiers_withModifiers (t : MethodToken) (m : Modifiers) :
    (t.withModifiers m).modifiers = m := rfl

/-- Of two sets of access flags in a row the last one stays. -/
@[simp] theorem withModifiers_withModifiers (t : MethodToken) (m m' : Modifiers) :
    (t.withModifiers m).withModifiers m' = t.withModifiers m' := rfl

/-- The same token with one more parameter at the end. -/
def withParameter (t : MethodToken) (p : Parameter) : MethodToken :=
  { t with parameters := t.parameters ++ [p] }

/-- The same token with one more declared exception at the end. -/
def withException (t : MethodToken) (e : TypeName) : MethodToken :=
  { t with exceptionTypes := t.exceptionTypes ++ [e] }

/-- The same token with one more annotation at the end. -/
def withAnnotation (t : MethodToken) (a : Annotation) : MethodToken :=
  { t with annotations := t.annotations ++ [a] }

end MethodToken

/-- A method bound to the type that declares it. -/
structure Method where
  declaringType : TypeName
  token : MethodToken
  deriving DecidableEq

namespace Method

/-- Whether the method is an instance initializer.  One that returns a value is an ordinary
method with an odd name. -/
def isConstructor (m : Method) : Bool :=
  m.token.name == "<init>" && m.token.returnType.isVoid

end Method

end Redeclare
