/-
  JavaClass.Command.Options — command lines cut into options and plain words.

  An option has a short name `-x`, a long name `--name`, or both.  A long name may be cut short as
  long as it fits one option only, and a value may be attached to it with `=`.  A value may be
  attached to a short name directly or with `=`, and short names of options without a value may be
  run together, with or without `=` behind the first; one letter among them that is no option spoils
  the whole word.  Behind the word `--` all words are plain; so are `-`, negative numbers, and words
  with a blank that name no option.
-/

namespace JavaClass.Command

/-- An option with its names; `takesValue` if a value belongs to it. -/
structure Switch (κ : Type) where
  key : κ
  names : List String
  takesValue : Bool

/-- An option that was given, with its value if it takes one. -/
structure Given (κ : Type) where
  key : κ
  value : String

/-- What a word of a command line is. -/
inductive Word (κ : Type) where
  /-- A word that is no option. -/
  | plain (text : String)
  /-- The word that ends the options. -/
  | separator
  /-- Options, and the one behind them that waits for its value, if there is one. -/
  | options (given : List (Given κ)) (waiting : Option κ)
  /-- A name that no option has. -/
  | unknown
  /-- A short form of several names. -/
  | ambiguous
  /-- A value for an option that takes none. -/
  | misused

/-- The option of a name. -/
def named? {κ : Type} (switches : List (Switch κ)) (name : List Char) : Option (Switch κ) :=
  switches.find? fun s => s.names.contains (String.ofList name)

/-- An option with nothing attached to it, behind those in `before`, held in reverse. -/
def bare {κ : Type} (before : List (Given κ)) (s : Switch κ) : Word κ :=
  if s.takesValue then .options before.reverse (some s.key)
  else .options (⟨s.key, ""⟩ :: before).reverse none

/-- A long option with something attached to it. -/
def attachedLong {κ : Type} (s : Switch κ) (value : List Char) : Word κ :=
  if s.takesValue then .options [⟨s.key, String.ofList value⟩] none else .misused

/-- A short option with something attached to it: its value, or further short options. -/
def attachedShort {κ : Type} (switches : List (Switch κ)) (before : List (Given κ)) (s : Switch κ) :
    List Char → Word κ
  | [] => if s.takesValue then .options (⟨s.key, ""⟩ :: before).reverse none else .misused
  | c :: rest =>
    if s.takesValue then .options (⟨s.key, String.ofList (c :: rest)⟩ :: before).reverse none
    else
      match named? switches ['-', c], rest with
      | none, _ => .misused
      | some next, [] => bare (⟨s.key, ""⟩ :: before) next
      | some next, rest => attachedShort switches (⟨s.key, ""⟩ :: before) next rest

/-- The part before the first `=`, and the part behind it if there is one. -/
def splitValue (word : List Char) : List Char × Option (List Char) :=
  match word.dropWhile (· ≠ '=') with
  | [] => (word, none)
  | _ :: value => (word.takeWhile (· ≠ '='), some value)

/-- The options one of whose names starts like this, with the name. -/
def startingLike {κ : Type} (switches : List (Switch κ)) (start : List Char) : List (Switch κ) :=
  switches.flatMap fun s => (s.names.filter fun n => start.isPrefixOf n.toList).map fun _ => s

/-- `-12`, `-1.5` and `-.5` are numbers. -/
def isNegativeNumber : List Char → Bool
  | '-' :: rest =>
    match rest.dropWhile Char.isDigit with
    | [] => !rest.isEmpty
    | '.' :: fraction => !fraction.isEmpty && fraction.all Char.isDigit
    | _ => false
  | _ => false

/-- A word that names no option exactly. -/
def guessed {κ : Type} (switches : List (Switch κ)) (word : List Char) : Word κ :=
  let (name, value?) := splitValue word
  let candidates := match word with
    | '-' :: '-' :: _ => startingLike switches name
    | '-' :: c :: _ => (named? switches ['-', c]).toList
    | _ => []
  match candidates with
  | [s] =>
    match word, value? with
    | '-' :: '-' :: _, some value => attachedLong s value
    | '-' :: '-' :: _, none => bare [] s
    | _, _ => attachedShort switches [] s (word.drop 2)
  | _ :: _ :: _ => .ambiguous
  | [] =>
    if isNegativeNumber word || word.contains ' ' then .plain (String.ofList word) else .unknown

/-- A word before the separator. -/
def classify {κ : Type} (switches : List (Switch κ)) (word : List Char) : Word κ :=
  match word with
  | '-' :: next :: _ =>
    match named? switches word with
    | some s => bare [] s
    | none =>
      match splitValue word with
      | (name, some value) =>
        match named? switches name with
        | some s =>
          if next = '-' then attachedLong s value else attachedShort switches [] s value
        | none => guessed switches word
      | _ => guessed switches word
  | _ => .plain (String.ofList word)

/-- The words of a command line. -/
def classifyAll {κ : Type} (switches : List (Switch κ)) : List String → List (Word κ)
  | [] => []
  | "--" :: rest => .separator :: rest.map .plain
  | word :: rest => classify switches word.toList :: classifyAll switches rest

end JavaClass.Command
