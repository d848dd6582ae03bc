/-
  JavaClass.Annotation.Basic — annotations and the values of their elements.

  An annotation has a type and named values; a value is a literal, an enum constant, a class,
  another annotation, or a list of values.  A type annotation also says which use of a type it is
  for: a target, and a path into the type.
-/
import JavaClass.Byte.Decoder
import JavaClass.Descriptor.Basic

namespace JavaClass

/-- What a literal is: a number, character or truth value of a primitive type, or a string. -/
inductive LiteralTag where
  | base (type : BaseType)
  | string
deriving DecidableEq, Repr

namespace LiteralTag

/-- The letter of a tag. -/
def letter : LiteralTag → Char
  | base type => type.letter
  | string => 's'

/-- The tag with a letter. -/
def ofLetter? (c : Char) : Option LiteralTag :=
  if c = 's' then some string else (BaseType.ofLetter? c).map base

end LiteralTag

mutual

/-- The value of an element, with its place. -/
inductive ElementValue where
  | literal (span : Span) (tag : LiteralTag) (index : UInt16)
  | enumConstant (span : Span) (typeName constName : UInt16)
  | cls (span : Span) (index : UInt16)
  | nested (span : Span) (value : Annotation)
  | array (span : Span) (values : List ElementValue)

/-- An annotation, with its place. -/
structure Annotation where
  span : Span
  typeIndex : UInt16
  pairs : List ElementPair

/-- A named value, with its place. -/
structure ElementPair where
  span : Span
  name : UInt16
  value : ElementValue

end

/-- A stretch of code in which a local variable has a value. -/
structure LocalRange where
  startPc : UInt16
  length : UInt16
  index : UInt16
deriving DecidableEq, Repr

/-- The use of a type that an annotation is for. -/
inductive Target where
  | typeParameter (index : UInt8)
  | supertype (index : UInt16)
  | typeParameterBound (parameter bound : UInt8)
  | empty
  | formalParameter (index : UInt8)
  | thrown (index : UInt16)
  | localVariables (table : List LocalRange)
  | caught (index : UInt16)
  | offset (offset : UInt16)
  | typeArgument (offset : UInt16) (index : UInt8)
deriving DecidableEq, Repr

/-- A step into a type. -/
structure PathStep where
  kind : UInt8
  argument : UInt8
deriving DecidableEq, Repr

/-- An annotation of the use of a type. -/
structure TypeAnnotation where
  targetType : UInt8
  target : Target
  path : List PathStep
  typeIndex : UInt16
  pairs : List ElementPair

end JavaClass
