/-
  JavaClass.Image.Declaration — fields and methods as source code declares them.
-/
import JavaClass.Access
import JavaClass.Constant.Description

namespace JavaClass

/-- The words that are not empty, with blanks between them. -/
def joinWords (words : List String) : String := " ".intercalate (words.filter (· ≠ ""))

/-- A field: modifiers, type and name. -/
def fieldDeclaration (flags : Int) (name : String) (descriptor : Option String) : String :=
  joinWords [modifiers flags .field, descriptor.elim unresolvable FieldType.describe, name]

/-- A method: modifiers, result, name and parameters, and what it throws. -/
def methodDeclaration (flags : Int) (name : String) (descriptor : Option String)
    (throws : List String) : String :=
  let modifiers := modifiers flags .method
  match descriptor with
  | none => joinWords [modifiers, unresolvable, name]
  | some descriptor =>
    match MethodType.parse descriptor with
    | .error _ => joinWords [modifiers, FieldType.unrecognized ++ descriptor, name]
    | .ok type =>
      let parameters := ", ".intercalate (type.parameters.map FieldType.display)
      joinWords [modifiers, type.resultDisplay, name ++ "(" ++ parameters ++ ")"]
        ++ if throws.isEmpty then "" else " throws " ++ ", ".intercalate throws

end JavaClass
