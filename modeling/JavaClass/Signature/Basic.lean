/-
  JavaClass.Signature.Basic — generic types and declarations, and how source code writes them.

  A generic type is a primitive type, a class with type arguments, or a type variable, under a
  number of array dimensions.  A class type names its outer class first and then the classes
  nested in it, each with arguments of its own.  Where the format asks for a reference type, a
  primitive type needs at least one dimension.

  Three declarations have signatures: classes, methods and fields.
-/
import JavaClass.Descriptor.Basic

namespace JavaClass

/-- How a type argument bounds the type that it stands for. -/
inductive Variance where
  /-- The type itself. -/
  | exact
  /-- Any subtype. -/
  | covariant
  /-- Any supertype. -/
  | contravariant
deriving DecidableEq, Repr

mutual

/-- A type under some array dimensions. -/
structure GenericType where
  dimensions : Nat
  core : GenericCore

/-- A type without array dimensions. -/
inductive GenericCore where
  | base (type : BaseType)
  | cls (type : ClassType)
  | typeVariable (name : String)

/-- A class type: the outer class, its arguments, and the classes nested in it. -/
structure ClassType where
  name : String
  arguments : List TypeArgument
  nested : List NestedClass

/-- A class nested in the one before it. -/
structure NestedClass where
  name : String
  arguments : List TypeArgument

/-- What stands for a type parameter. -/
inductive TypeArgument where
  | unbounded
  | bounded (variance : Variance) (bound : GenericType)

end

/-- A type parameter with its bounds: a class, if one is named, and interfaces. -/
structure TypeParameter where
  name : String
  classBound : Option GenericType
  interfaceBounds : List GenericType

/-- What a method may throw. -/
inductive Thrown where
  | cls (type : ClassType)
  | typeVariable (name : String)

/-- The signature of a class: what it extends and what it implements. -/
structure ClassSignature where
  typeParameters : List TypeParameter
  superclass : ClassType
  interfaces : List ClassType

/-- The signature of a method; without a result the method is `void`. -/
structure MethodSignature where
  typeParameters : List TypeParameter
  parameters : List GenericType
  result : Option GenericType
  throws : List Thrown

/-! ## §1. Types in source code. -/

mutual

/-- A type as source code writes it. -/
def GenericType.display : GenericType → String
  | ⟨dimensions, core⟩ => core.display ++ repeatText dimensions "[]"

/-- A type without dimensions as source code writes it. -/
def GenericCore.display : GenericCore → String
  | .base type => type.keyword
  | .cls type => type.display
  | .typeVariable name => name

/-- A class type as source code writes it. -/
def ClassType.display : ClassType → String
  | ⟨name, arguments, nested⟩ =>
    sourceName name ++ TypeArgument.displayAll arguments ++ NestedClass.displayAll nested

/-- The nested classes, each behind a point. -/
def NestedClass.displayAll : List NestedClass → String
  | [] => ""
  | c :: rest => c.display ++ NestedClass.displayAll rest

/-- A nested class behind its point. -/
def NestedClass.display : NestedClass → String
  | ⟨name, arguments⟩ => "." ++ name ++ TypeArgument.displayAll arguments

/-- Type arguments in angle brackets; nothing if there are none. -/
def TypeArgument.displayAll : List TypeArgument → String
  | [] => ""
  | a :: rest => "<" ++ a.display ++ TypeArgument.displayMore rest ++ ">"

/-- The type arguments behind the first. -/
def TypeArgument.displayMore : List TypeArgument → String
  | [] => ""
  | a :: rest => ", " ++ a.display ++ TypeArgument.displayMore rest

/-- A type argument as source code writes it. -/
def TypeArgument.display : TypeArgument → String
  | .unbounded => "?"
  | .bounded .exact bound => bound.display
  | .bounded .covariant bound => "? extends " ++ bound.display
  | .bounded .contravariant bound => "? super " ++ bound.display

end

/-! ## §2. Declarations in source code. -/

namespace TypeParameter

/-- A type parameter with its bounds; the root class alone goes without saying. -/
def display (p : TypeParameter) : String :=
  let bounds := (p.classBound.toList ++ p.interfaceBounds).map GenericType.display
  if bounds = [] || bounds = ["java.lang.Object"] then p.name
  else p.name ++ " extends " ++ " & ".intercalate bounds

/-- Type parameters in angle brackets. -/
def displayAll (ps : List TypeParameter) : String :=
  "<" ++ ", ".intercalate (ps.map display) ++ ">"

end TypeParameter

/-- What a method may throw, as source code writes it. -/
def Thrown.display : Thrown → String
  | cls type => type.display
  | typeVariable name => name

namespace ClassSignature

/-- Type parameters, superclass and interfaces of a class. -/
def display (s : ClassSignature) : String :=
  (if s.typeParameters.isEmpty then "" else TypeParameter.displayAll s.typeParameters ++ " ")
    ++ "extends " ++ s.superclass.display
    ++ (if s.interfaces.isEmpty then ""
      else " implements " ++ ", ".intercalate (s.interfaces.map ClassType.display))

end ClassSignature

namespace MethodSignature

/-- Type parameters, parameters, result and exceptions of a method. -/
def display (s : MethodSignature) : String :=
  (if s.typeParameters.isEmpty then "" else TypeParameter.displayAll s.typeParameters)
    ++ "(" ++ ",".intercalate (s.parameters.map GenericType.display) ++ ") : "
    ++ s.result.elim "void" GenericType.display
    ++ (if s.throws.isEmpty then ""
      else " throws " ++ ", ".intercalate (s.throws.map Thrown.display))

end MethodSignature

end JavaClass
