/-
  JavaClass.Descriptor.Lexeme — names, and texts cut into tokens.

  Descriptors and signatures are cut into tokens before they are read.  Each token keeps the column
  in which it starts, counted from 1 and from the last newline inside an earlier token.  Cutting
  stops early where no token starts; the reader of the tokens decides whether it gets that far.
-/
import JavaClass.Text.Quoted

namespace JavaClass

/-! ## §1. Names. -/

/-- Names may hold any character but the seven marks of descriptors and signatures. -/
def isNameChar (c : Char) : Bool := ['.', ';', '[', '/', '<', '>', ':'].all (· ≠ c)

/-- A name starts here. -/
def startsName : List Char → Bool
  | c :: _ => isNameChar c
  | [] => false

/-- The longest row of names separated by `/`, behind the part of it in `done`, held in reverse; and
    the rest of the text. -/
def qualifiedFrom : List Char → List Char → List Char × List Char
  | [], done => (done.reverse, [])
  | c :: rest, done =>
    if isNameChar c || (c = '/' && startsName rest) then qualifiedFrom rest (c :: done)
    else (done.reverse, c :: rest)

/-- The longest row of names separated by `/` that starts the text, and the rest of the text. -/
def qualified (text : List Char) : List Char × List Char :=
  if startsName text then qualifiedFrom text [] else ([], text)

/-- A name with `.` between its parts, as source code writes it. -/
def sourceName (name : String) : String :=
  String.ofList (name.toList.map fun c => if c = '/' then '.' else c)

/-! ## §2. Lexemes. -/

/-- A token with the column in which it starts. -/
structure Lexeme (τ : Type) where
  column : Nat
  token : τ
deriving DecidableEq, Repr

/-- How cutting ended: at the end of the text, or in a column where no token starts. -/
inductive Ending where
  | complete
  | stuck (column : Nat)
deriving DecidableEq, Repr

/-- A text cut into tokens. -/
structure Lexed (τ : Type) where
  lexemes : List (Lexeme τ)
  ending : Ending
deriving DecidableEq, Repr

/-- One token found at the start of a text: what it says, the state that the next token is looked
    for in, and its characters. -/
structure Found (σ τ : Type) where
  token : τ
  state : σ
  spelling : List Char

/-- The column behind a token; a newline in it starts a new count. -/
def columnAfter (column : Nat) (spelling : List Char) : Nat :=
  spelling.foldl (fun n c => if c = '\n' then 1 else n + 1) column

/-- Cut a text from a column on, the lexemes so far in `done` in reverse.  A token takes at least
    one character. -/
def cutFrom {σ τ : Type} (next : σ → List Char → Option (Found σ τ)) (state : σ) (column : Nat)
    (text : List Char) (done : List (Lexeme τ)) : Lexed τ :=
  match text with
  | [] => ⟨done.reverse, .complete⟩
  | c :: rest =>
    match next state (c :: rest) with
    | none => ⟨done.reverse, .stuck column⟩
    | some found =>
      cutFrom next found.state (columnAfter column found.spelling)
        (rest.drop (found.spelling.length - 1)) (⟨column, found.token⟩ :: done)
termination_by text.length
decreasing_by simp only [List.length_drop, List.length_cons]; omega

/-- Cut a text. -/
def cut {σ τ : Type} (next : σ → List Char → Option (Found σ τ)) (state : σ) (text : String) :
    Lexed τ :=
  cutFrom next state 1 text.toList []

/-! ## §3. What can be wrong with a text. -/

/-- Why a text could not be read. -/
inductive Reason where
  | empty
  | endOfInput
  | unexpected (column : Nat)
deriving DecidableEq, Repr

/-- A reason in words. -/
def Reason.message : Reason → String
  | empty => "empty"
  | endOfInput => "unexpected end of input"
  | unexpected column => s!"unexpected input at column {column}"

/-- A text that is not a descriptor or signature. -/
structure BadDescriptor where
  text : String
  reason : Reason
deriving DecidableEq, Repr

/-- The text of the error. -/
def BadDescriptor.message (e : BadDescriptor) : String :=
  s!"Malformed descriptor: {Text.quoted e.text} ({e.reason.message})"

namespace Lexed

/-- Why reading stopped in front of `rest`. -/
def reason {τ : Type} (lexed : Lexed τ) (rest : List (Lexeme τ)) : Reason :=
  match rest, lexed.ending with
  | lexeme :: _, _ => .unexpected lexeme.column
  | [], .stuck column => .unexpected column
  | [], .complete => .endOfInput

/-- Read all tokens of a text.  A reader that cannot go on gives the lexemes in front of which it
    stopped. -/
def readAll {τ α : Type} (lexed : Lexed τ)
    (reader : List (Lexeme τ) → Except (List (Lexeme τ)) (α × List (Lexeme τ))) : Except Reason α :=
  match reader lexed.lexemes with
  | .error rest => .error (lexed.reason rest)
  | .ok (value, []) =>
    match lexed.ending with
    | .complete => .ok value
    | .stuck column => .error (.unexpected column)
  | .ok (_, lexeme :: _) => .error (.unexpected lexeme.column)

end Lexed

/-- Attach the text to the reason; nothing at all is its own reason. -/
def reading {α : Type} (text : String) (result : Except Reason α) : Except BadDescriptor α :=
  if text.isEmpty then .error ⟨text, .empty⟩
  else result.mapError fun reason => ⟨text, reason⟩

end JavaClass
