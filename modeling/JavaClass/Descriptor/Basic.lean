/-
  JavaClass.Descriptor.Basic — the types of fields and methods.

  A field type is an element type, primitive or a class, under a number of array dimensions.  A
  method type has parameters and a result; no result is `void`.  Every type has its descriptor,
  the text in a class file, and its display, the text in source code.
-/
import JavaClass.Descriptor.Lexeme

namespace JavaClass

/-- The primitive types. -/
inductive BaseType where
  | byte | char | double | float | int | long | short | boolean
deriving DecidableEq, Repr

namespace BaseType

/-- The letter of a primitive type. -/
def letter : BaseType → Char
  | byte => 'B' | char => 'C' | double => 'D' | float => 'F'
  | int => 'I' | long => 'J' | short => 'S' | boolean => 'Z'

/-- The keyword of a primitive type. -/
def keyword : BaseType → String
  | byte => "byte" | char => "char" | double => "double" | float => "float"
  | int => "int" | long => "long" | short => "short" | boolean => "boolean"

/-- The primitive type of a letter. -/
def ofLetter? : Char → Option BaseType
  | 'B' => some byte | 'C' => some char | 'D' => some double | 'F' => some float
  | 'I' => some int | 'J' => some long | 'S' => some short | 'Z' => some boolean
  | _ => none

end BaseType

/-- The types that arrays are built from. -/
inductive ElementType where
  | base (type : BaseType)
  | object (name : String)
deriving DecidableEq, Repr

/-- An element type under some array dimensions. -/
structure FieldType where
  dimensions : Nat
  element : ElementType
deriving DecidableEq, Repr

/-- Parameters and result; without a result the method is `void`. -/
structure MethodType where
  parameters : List FieldType
  result : Option FieldType
deriving DecidableEq, Repr

/-- `s`, `count` times. -/
def repeatText (count : Nat) (s : String) : String := String.join (List.replicate count s)

namespace ElementType

/-- The element type as source code writes it. -/
def display : ElementType → String
  | base type => type.keyword
  | object name => sourceName name

/-- The element type as class files write it. -/
def descriptor : ElementType → String
  | base type => type.letter.toString
  | object name => "L" ++ name ++ ";"

/-- The name of a class. -/
def binaryName? : ElementType → Option String
  | base _ => none
  | object name => some name

/-- The sort of a type without dimensions. -/
def kind : ElementType → String
  | base _ => "primitive"
  | object _ => "class"

end ElementType

namespace FieldType

/-- The type as source code writes it. -/
def display (t : FieldType) : String := t.element.display ++ repeatText t.dimensions "[]"

/-- The type as class files write it. -/
def descriptor (t : FieldType) : String := repeatText t.dimensions "[" ++ t.element.descriptor

/-- The sort of a type. -/
def kind (t : FieldType) : String := if t.dimensions = 0 then t.element.kind else "array"

/-- The name of the class that the type is, or is an array of. -/
def binaryName? (t : FieldType) : Option String := t.element.binaryName?

end FieldType

namespace MethodType

/-- The result as source code writes it. -/
def resultDisplay (t : MethodType) : String := t.result.elim "void" FieldType.display

/-- The parameters in parentheses. -/
def parametersDisplay (t : MethodType) : String :=
  "(" ++ ",".intercalate (t.parameters.map FieldType.display) ++ ")"

/-- Parameters and result. -/
def display (t : MethodType) : String := t.parametersDisplay ++ " : " ++ t.resultDisplay

/-- The type as class files write it. -/
def descriptor (t : MethodType) : String :=
  "(" ++ String.join (t.parameters.map FieldType.descriptor) ++ ")"
    ++ t.result.elim "V" FieldType.descriptor

end MethodType

end JavaClass
