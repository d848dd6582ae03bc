/-
  JavaClass.Descriptor.Parser — descriptors read as types.

  The tokens are the brackets of arrays, the letters of primitive types, whole class types
  `Lname;`, the parentheses around parameters, and `V`.  Their first characters differ, so a text
  can be cut in one way only.
-/
import JavaClass.Descriptor.Basic

namespace JavaClass.Descriptor

/-! ## §1. Tokens. -/

/-- The tokens of descriptors. -/
inductive Token where
  | bracket
  | base (type : BaseType)
  | object (name : String)
  | openParen
  | closeParen
  | void
deriving DecidableEq, Repr

/-- The class type behind its `L`, with its closing semicolon. -/
def object? (text : List Char) : Option (Found Unit Token) :=
  match qualified text with
  | (c :: name, ';' :: _) =>
    some ⟨.object (String.ofList (c :: name)), (), 'L' :: c :: name ++ [';']⟩
  | _ => none

/-- The token that starts a text. -/
def next? (_ : Unit) : List Char → Option (Found Unit Token)
  | '[' :: _ => some ⟨.bracket, (), ['[']⟩
  | '(' :: _ => some ⟨.openParen, (), ['(']⟩
  | ')' :: _ => some ⟨.closeParen, (), [')']⟩
  | 'V' :: _ => some ⟨.void, (), ['V']⟩
  | 'L' :: rest => object? rest
  | c :: _ => (BaseType.ofLetter? c).map fun type => ⟨.base type, (), [c]⟩
  | [] => none

/-- A descriptor cut into tokens. -/
def tokens (text : String) : Lexed Token := cut next? () text

/-! ## §2. Types. -/

/-- What is left to read.  A reader gives a value and the rest, or the rest where it stopped. -/
abbrev Rest := List (Lexeme Token)

/-- Read a field type behind `dimensions` brackets. -/
def fieldType (dimensions : Nat) : Rest → Except Rest (FieldType × Rest)
  | ⟨_, .bracket⟩ :: rest => fieldType (dimensions + 1) rest
  | ⟨_, .base type⟩ :: rest => .ok (⟨dimensions, .base type⟩, rest)
  | ⟨_, .object name⟩ :: rest => .ok (⟨dimensions, .object name⟩, rest)
  | rest => .error rest

/-- Read parameters up to the closing parenthesis, behind `dimensions` brackets and the parameters
    in `done`, held in reverse. -/
def parameters (dimensions : Nat) (done : List FieldType) :
    Rest → Except Rest (List FieldType × Rest)
  | [] => .error []
  | lexeme :: rest =>
    match lexeme.token with
    | .bracket => parameters (dimensions + 1) done rest
    | .base type => parameters 0 (⟨dimensions, .base type⟩ :: done) rest
    | .object name => parameters 0 (⟨dimensions, .object name⟩ :: done) rest
    | .closeParen =>
      if dimensions = 0 then .ok (done.reverse, rest) else .error (lexeme :: rest)
    | _ => .error (lexeme :: rest)

/-- Read a method type. -/
def methodType : Rest → Except Rest (MethodType × Rest)
  | ⟨_, .openParen⟩ :: rest => do
    let (parameters, rest) ← parameters 0 [] rest
    match rest with
    | ⟨_, .void⟩ :: rest => return (⟨parameters, none⟩, rest)
    | rest =>
      let (result, rest) ← fieldType 0 rest
      return (⟨parameters, some result⟩, rest)
  | rest => .error rest

end Descriptor

open Descriptor

namespace FieldType

/-- Read a field descriptor. -/
def parse (text : String) : Except BadDescriptor FieldType :=
  reading text ((tokens text).readAll (fieldType 0))

/-- What stands before a descriptor that is no descriptor. -/
def unrecognized : String := "[unrecognized] "

/-- The field type of a descriptor as source code writes it, or the descriptor with a mark. -/
def describe (descriptor : String) : String :=
  match parse descriptor with
  | .ok type => type.display
  | .error _ => unrecognized ++ descriptor

/-- A class name as source code writes it; the name of an array class is a descriptor. -/
def describeClass (name : String) : String :=
  match name.toList with
  | '[' :: _ => describe name
  | _ => sourceName name

end FieldType

namespace MethodType

/-- Read a method descriptor. -/
def parse (text : String) : Except BadDescriptor MethodType :=
  reading text ((tokens text).readAll methodType)

/-- The method type of a descriptor as source code writes it, or the descriptor with a mark. -/
def describe (descriptor : String) : String :=
  match parse descriptor with
  | .ok type => type.display
  | .error _ => FieldType.unrecognized ++ descriptor

end MethodType

end JavaClass
