/-
  JavaClass.Annotation.Display — annotations as source code writes them.
-/
import JavaClass.Annotation.Basic
import JavaClass.Constant.Pool

namespace JavaClass

/-- The type whose descriptor is the text constant with a number. -/
def Pool.typeText (p : Pool) (index : UInt16) : String :=
  (p.utf8? index.toNat).elim (p.describe index.toNat) FieldType.describe

/-- The class whose descriptor is the text constant with a number. -/
def Pool.classText (p : Pool) (index : UInt16) : String :=
  match p.utf8? index.toNat with
  | none => p.describe index.toNat
  | some "V" => "void.class"
  | some descriptor => FieldType.describe descriptor ++ ".class"

/-- A literal; strings stand in quotes. -/
def Pool.literalText (p : Pool) (tag : LiteralTag) (index : UInt16) : String :=
  if tag = .string then "\"" ++ p.describe index.toNat ++ "\"" else p.describe index.toNat

mutual

/-- A value as source code writes it. -/
def ElementValue.display (p : Pool) : ElementValue → String
  | .literal _ tag index => p.literalText tag index
  | .enumConstant _ typeName constName => p.typeText typeName ++ "." ++ p.describe constName.toNat
  | .cls _ index => p.classText index
  | .nested _ value => value.display p
  | .array _ values => "\x7b" ++ ", ".intercalate (ElementValue.displayAll p values) ++ "\x7d"

/-- Several values. -/
def ElementValue.displayAll (p : Pool) : List ElementValue → List String
  | [] => []
  | value :: rest => value.display p :: ElementValue.displayAll p rest

/-- An annotation as source code writes it. -/
def Annotation.display (p : Pool) : Annotation → String
  | ⟨_, typeIndex, pairs⟩ =>
    let values := ElementPair.displayAll p pairs
    "@" ++ p.typeText typeIndex
      ++ if values.isEmpty then "" else "(" ++ ", ".intercalate values ++ ")"

/-- Several named values. -/
def ElementPair.displayAll (p : Pool) : List ElementPair → List String
  | [] => []
  | pair :: rest => pair.display p :: ElementPair.displayAll p rest

/-- A named value as source code writes it. -/
def ElementPair.display (p : Pool) : ElementPair → String
  | ⟨_, name, value⟩ => p.describe name.toNat ++ "=" ++ value.display p

end

end JavaClass
