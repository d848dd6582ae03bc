/-
  JavaClass.Signature.Parser — signatures read as generic declarations.

  ## Tokens

  A class type without arguments is one token, `Lname;`; any other class type starts with a token
  `Lname` that its arguments or nested classes follow.  The name of a type parameter and its colon
  are one token too.  Such a name may start with any letter, so it could be taken for the start of
  a type: it is looked for first wherever a type may just have ended, and at the start of the type
  parameters, and nowhere else (`Expecting`).

  ## Types

  Every call of the readers of types below takes a token before it goes a level deeper, or is itself
  made behind one, so the number of tokens bounds the depth.
-/
import JavaClass.Signature.Basic

namespace JavaClass.Signature

/-! ## §1. Tokens. -/

/-- The tokens of signatures. -/
inductive Token where
  | base (type : BaseType)
  | object (name : String)
  | className (name : String)
  | nested (name : String)
  | typeVariable (name : String)
  | parameter (name : String)
  | wildcard (variance : Variance)
  | star
  | bracket
  | openParen
  | closeParen
  | openAngle
  | closeAngle
  | colon
  | semicolon
  | caret
  | void
deriving DecidableEq, Repr

/-- What the next token may be. -/
inductive Expecting where
  /-- The text starts here: an angle bracket opens the type parameters. -/
  | start
  /-- The name of a type parameter comes first. -/
  | parameter
  /-- No name of a type parameter can stand here. -/
  | other
deriving DecidableEq, Repr

/-- What a token lets the next one be. -/
def Token.expecting (now : Expecting) : Token → Expecting
  | base _ | object _ | typeVariable _ | parameter _ | semicolon => .parameter
  | openAngle => if now = .start then .parameter else .other
  | _ => .other

/-- The longest name that starts the text. -/
def name (text : List Char) : List Char := text.takeWhile isNameChar

/-- The name of a type parameter with its colon. -/
def parameter? (text : List Char) : Option (Token × List Char) :=
  match name text, text.dropWhile isNameChar with
  | c :: rest, ':' :: _ => some (.parameter (String.ofList (c :: rest)), c :: rest ++ [':'])
  | _, _ => none

/-- A class type, whole or up to its arguments, behind its `L`. -/
def class? (text : List Char) : Option (Token × List Char) :=
  match qualified text with
  | (c :: name, ';' :: _) =>
    some (.object (String.ofList (c :: name)), 'L' :: c :: name ++ [';'])
  | (c :: name, _) => some (.className (String.ofList (c :: name)), 'L' :: c :: name)
  | ([], _) => none

/-- A type variable behind its `T`, with its semicolon. -/
def typeVariable? (text : List Char) : Option (Token × List Char) :=
  match name text, text.dropWhile isNameChar with
  | c :: rest, ';' :: _ =>
    some (.typeVariable (String.ofList (c :: rest)), 'T' :: c :: rest ++ [';'])
  | _, _ => none

/-- A nested class behind its point. -/
def nested? (text : List Char) : Option (Token × List Char) :=
  match name text with
  | c :: rest => some (.nested (String.ofList (c :: rest)), '.' :: c :: rest)
  | [] => none

/-- The token that starts a text, if it is not the name of a type parameter. -/
def mark? : List Char → Option (Token × List Char)
  | 'L' :: rest => class? rest
  | 'T' :: rest => typeVariable? rest
  | '.' :: rest => nested? rest
  | '+' :: _ => some (.wildcard .covariant, ['+'])
  | '-' :: _ => some (.wildcard .contravariant, ['-'])
  | '*' :: _ => some (.star, ['*'])
  | '[' :: _ => some (.bracket, ['['])
  | '(' :: _ => some (.openParen, ['('])
  | ')' :: _ => some (.closeParen, [')'])
  | '<' :: _ => some (.openAngle, ['<'])
  | '>' :: _ => some (.closeAngle, ['>'])
  | ':' :: _ => some (.colon, [':'])
  | ';' :: _ => some (.semicolon, [';'])
  | '^' :: _ => some (.caret, ['^'])
  | 'V' :: _ => some (.void, ['V'])
  | c :: _ => (BaseType.ofLetter? c).map fun type => (.base type, [c])
  | [] => none

/-- The token that starts a text. -/
def next? (now : Expecting) (text : List Char) : Option (Found Expecting Token) :=
  let found := match now with
    | .parameter => (parameter? text).or (mark? text)
    | _ => mark? text
  found.map fun (token, spelling) => ⟨token, token.expecting now, spelling⟩

/-- A signature cut into tokens. -/
def tokens (text : String) : Lexed Token := cut next? .start text

/-! ## §2. Types. -/

/-- What is left to read.  A reader gives a value and the rest, or the rest where it stopped. -/
abbrev Rest := List (Lexeme Token)

mutual

/-- Read a type behind `dimensions` brackets; without them it may have to be a reference type. -/
def type (reference : Bool) (dimensions : Nat) : Nat → Rest → Except Rest (GenericType × Rest)
  | 0, rest => .error rest
  | _, [] => .error []
  | depth + 1, lexeme :: rest =>
    match lexeme.token with
    | .bracket => type false (dimensions + 1) depth rest
    | .base t => if reference then .error (lexeme :: rest) else .ok (⟨dimensions, .base t⟩, rest)
    | .typeVariable name => .ok (⟨dimensions, .typeVariable name⟩, rest)
    | .object name => .ok (⟨dimensions, .cls ⟨name, [], []⟩⟩, rest)
    | .className name =>
      match rest with
      | ⟨_, .openAngle⟩ :: rest => do
        let (args, rest) ← arguments [] depth rest
        let (nested, rest) ← nestedClasses [] depth rest
        .ok (⟨dimensions, .cls ⟨name, args, nested⟩⟩, rest)
      | rest => do
        let (nested, rest) ← nestedClasses [] depth rest
        .ok (⟨dimensions, .cls ⟨name, [], nested⟩⟩, rest)
    | _ => .error (lexeme :: rest)

/-- Read type arguments up to the closing bracket, behind those in `done`, held in reverse. -/
def arguments (done : List TypeArgument) : Nat → Rest → Except Rest (List TypeArgument × Rest)
  | 0, rest => .error rest
  | _, [] => .error []
  | depth + 1, lexeme :: rest => do
    let (arg, rest) ← match lexeme.token with
      | .star => .ok (.unbounded, rest)
      | .wildcard variance => do
        let (bound, rest) ← type true 0 depth rest
        .ok (.bounded variance bound, rest)
      | _ => do
        let (bound, rest) ← type true 0 depth (lexeme :: rest)
        .ok (.bounded .exact bound, rest)
    match rest with
    | ⟨_, .closeAngle⟩ :: rest => .ok ((arg :: done).reverse, rest)
    | rest => arguments (arg :: done) depth rest

/-- Read nested classes up to the semicolon, behind those in `done`, held in reverse. -/
def nestedClasses (done : List NestedClass) : Nat → Rest → Except Rest (List NestedClass × Rest)
  | 0, rest => .error rest
  | _, [] => .error []
  | depth + 1, lexeme :: rest =>
    match lexeme.token with
    | .semicolon => .ok (done.reverse, rest)
    | .nested name =>
      match rest with
      | ⟨_, .openAngle⟩ :: rest => do
        let (args, rest) ← arguments [] depth rest
        nestedClasses (⟨name, args⟩ :: done) depth rest
      | rest => nestedClasses (⟨name, []⟩ :: done) depth rest
    | _ => .error (lexeme :: rest)

end

/-- Read a reference type. -/
def referenceType (rest : Rest) : Except Rest (GenericType × Rest) := type true 0 rest.length rest

/-- Read any type. -/
def anyType (rest : Rest) : Except Rest (GenericType × Rest) := type false 0 rest.length rest

/-- Read a class type. -/
def classType (rest : Rest) : Except Rest (ClassType × Rest) :=
  match rest with
  | ⟨_, .object _⟩ :: _ | ⟨_, .className _⟩ :: _ => do
    match ← referenceType rest with
    | (⟨_, .cls c⟩, after) => .ok (c, after)
    | _ => .error rest
  | _ => .error rest

/-- Read a class type or a type variable. -/
def thrown : Rest → Except Rest (Thrown × Rest)
  | ⟨_, .typeVariable name⟩ :: rest => .ok (.typeVariable name, rest)
  | rest => do
    let (c, rest) ← classType rest
    .ok (.cls c, rest)

/-! ## §3. Declarations. -/

/-- A reference type starts here. -/
def startsReference : Rest → Bool
  | ⟨_, .object _⟩ :: _ | ⟨_, .className _⟩ :: _ => true
  | ⟨_, .typeVariable _⟩ :: _ | ⟨_, .bracket⟩ :: _ => true
  | _ => false

/-- Read at most `count` values, each behind a token `lead`, behind those in `done`, held in
    reverse. -/
def led {α : Type} (lead : Token) (reader : Rest → Except Rest (α × Rest)) (done : List α) :
    Nat → Rest → Except Rest (List α × Rest)
  | count + 1, lexeme :: rest =>
    if lexeme.token = lead then do
      let (value, rest) ← reader rest
      led lead reader (value :: done) count rest
    else .ok (done.reverse, lexeme :: rest)
  | _, rest => .ok (done.reverse, rest)

/-- Read the class bound of a type parameter, if there is one. -/
def classBound (rest : Rest) : Except Rest (Option GenericType × Rest) :=
  if startsReference rest then do
    let (bound, rest) ← referenceType rest
    .ok (some bound, rest)
  else .ok (none, rest)

/-- Read at most `count` type parameters up to the closing bracket, behind those in `done`, held in
    reverse. -/
def typeParametersFrom (done : List TypeParameter) :
    Nat → Rest → Except Rest (List TypeParameter × Rest)
  | count + 1, ⟨_, .parameter name⟩ :: rest => do
    let (first, rest) ← classBound rest
    let (more, rest) ← led .colon referenceType [] rest.length rest
    let done := ⟨name, first, more⟩ :: done
    match rest with
    | ⟨_, .closeAngle⟩ :: rest => .ok (done.reverse, rest)
    | rest => typeParametersFrom done count rest
  | _, rest => .error rest

/-- Read type parameters, if there are any. -/
def typeParameters : Rest → Except Rest (List TypeParameter × Rest)
  | ⟨_, .openAngle⟩ :: rest => typeParametersFrom [] rest.length rest
  | rest => .ok ([], rest)

/-- Read at most `count` types up to the closing parenthesis, behind those in `done`, held in
    reverse. -/
def parameters (done : List GenericType) : Nat → Rest → Except Rest (List GenericType × Rest)
  | _, ⟨_, .closeParen⟩ :: rest => .ok (done.reverse, rest)
  | count + 1, rest => do
    let (t, rest) ← anyType rest
    parameters (t :: done) count rest
  | 0, rest => .error rest

/-- Read at most `count` class types up to the end, behind those in `done`, held in reverse. -/
def classTypes (done : List ClassType) : Nat → Rest → Except Rest (List ClassType × Rest)
  | _, [] => .ok (done.reverse, [])
  | count + 1, rest => do
    let (c, rest) ← classType rest
    classTypes (c :: done) count rest
  | 0, rest => .error rest

/-- Read a result; `V` is none. -/
def result : Rest → Except Rest (Option GenericType × Rest)
  | ⟨_, .void⟩ :: rest => .ok (none, rest)
  | rest => do
    let (t, rest) ← anyType rest
    .ok (some t, rest)

/-- Read the signature of a class. -/
def classSignature (rest : Rest) : Except Rest (ClassSignature × Rest) := do
  let (typeParameters, rest) ← typeParameters rest
  let (superclass, rest) ← classType rest
  let (interfaces, rest) ← classTypes [] rest.length rest
  .ok (⟨typeParameters, superclass, interfaces⟩, rest)

/-- Read the signature of a method. -/
def methodSignature (rest : Rest) : Except Rest (MethodSignature × Rest) := do
  let (typeParameters, rest) ← typeParameters rest
  match rest with
  | ⟨_, .openParen⟩ :: rest => do
    let (parameters, rest) ← parameters [] rest.length rest
    let (result, rest) ← result rest
    let (throws, rest) ← led .caret thrown [] rest.length rest
    .ok (⟨typeParameters, parameters, result, throws⟩, rest)
  | rest => .error rest

/-! ## §4. Texts. -/

/-- What a signature declares. -/
inductive Kind where
  | cls
  | method
  | field
deriving DecidableEq, Repr

namespace Kind

/-- The kind of this name. -/
def ofName? : String → Option Kind
  | "class" => some cls
  | "method" => some method
  | "field" => some field
  | _ => none

/-- The likely kind of a signature: parameters make a method, leading type parameters a class. -/
def guess (text : String) : Kind :=
  if text.toList.contains '(' then method
  else if text.toList.head? = some '<' then cls
  else field

/-- The named kind, or the likely one if none is named; an error text if the name is no kind. -/
def choose (name? : Option String) (text : String) : Except String Kind :=
  match name? with
  | none => .ok (guess text)
  | some name => (ofName? name).elim (.error ("Unknown signature kind: " ++ name)) .ok

end Kind

/-- Read a signature and give its text in source code. -/
def display (kind : Kind) (text : String) : Except BadDescriptor String :=
  let lexed := tokens text
  reading text <|
    match kind with
    | .cls => (lexed.readAll classSignature).map ClassSignature.display
    | .method => (lexed.readAll methodSignature).map MethodSignature.display
    | .field => (lexed.readAll referenceType).map GenericType.display

end JavaClass.Signature
