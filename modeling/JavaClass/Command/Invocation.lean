/-
  JavaClass.Command.Invocation — what a command line asks for.

  The words before the command are options of the program; everything behind it belongs to the
  command.  A command takes one or more files, which stand together, before or behind its options.
  Asking for help is answered as soon as it is read, unless something before it is wrong.
-/
import JavaClass.Command.Options

namespace JavaClass.Command

/-- What can be done with classes. -/
inductive Task where
  /-- Show whole classes, as text or as documents. -/
  | dump (files : List String) (document code : Bool)
  /-- List the code of methods, of all or of those with a name. -/
  | disassemble (files : List String) (method : String)
deriving DecidableEq, Repr

/-- What a command line asks for. -/
inductive Invocation where
  | help
  | noCommand
  | invalid
  | run (verbosity : Nat) (task : Task)
deriving DecidableEq, Repr

/-! ## §1. Options. -/

/-- The options of the program and of its commands. -/
inductive Key where
  | help
  | verbose
  | document
  | noCode
  | method
deriving DecidableEq, Repr

/-- Ask for help. -/
def helpSwitch : Switch Key := ⟨.help, ["-h", "--help"], false⟩

/-- The options of the program. -/
def programSwitches : List (Switch Key) := [helpSwitch, ⟨.verbose, ["-v", "--verbose"], false⟩]

/-- The options of `dump`. -/
def dumpSwitches : List (Switch Key) :=
  [helpSwitch, ⟨.document, ["--json"], false⟩, ⟨.noCode, ["--no-code"], false⟩]

/-- The options of `disasm`. -/
def disassembleSwitches : List (Switch Key) := [helpSwitch, ⟨.method, ["-m", "--method"], true⟩]

/-- Several options have a word for a short form. -/
def Word.isAmbiguous {κ : Type} : Word κ → Bool
  | .ambiguous => true
  | _ => false

/-- Help is among the options. -/
def asksHelp (given : List (Given Key)) : Bool := given.any (·.key = .help)

/-! ## §2. The words of a command. -/

/-- Where the files of a command stand: ahead, here, or already passed. -/
inductive Files where
  | ahead
  | here (reversed : List String)
  | passed (files : List String)

namespace Files

/-- An option ends the row of files. -/
def close : Files → Files
  | here reversed => passed reversed.reverse
  | other => other

/-- All files. -/
def all : Files → List String
  | ahead => []
  | here reversed => reversed.reverse
  | passed files => files

end Files

/-- The words of a command that were read: its options, its files, and whether some word has no
    place in it. -/
structure Arguments where
  given : List (Given Key)
  files : Files
  surplus : Bool

/-- What reading the words of a command gives. -/
inductive Arguments.Result where
  | help
  | invalid
  | read (given : List (Given Key)) (files : List String) (surplus : Bool)

namespace Arguments

/-- Read the words of a command behind those in `a`; `waiting` is an option that waits for its
    value, behind the options given with it. -/
def readFrom (a : Arguments) : Option (List (Given Key) × Key) → List (Word Key) → Result
  | some (before, key), .plain text :: rest =>
    if asksHelp before then .help
    else readFrom { a with given := a.given ++ before ++ [⟨key, text⟩] } none rest
  | some _, _ => .invalid
  | none, [] => if a.files.all.isEmpty then .invalid else .read a.given a.files.all a.surplus
  | none, .plain text :: rest =>
    match a.files with
    | .ahead => readFrom { a with files := .here [text] } none rest
    | .here reversed => readFrom { a with files := .here (text :: reversed) } none rest
    | .passed _ => readFrom { a with surplus := true } none rest
  | none, .separator :: rest =>
    match a.files with
    | .passed _ => readFrom { a with surplus := true } none rest
    | _ => readFrom a none rest
  | none, .options given none :: rest =>
    if asksHelp given then .help
    else readFrom { a with given := a.given ++ given, files := a.files.close } none rest
  | none, .options given (some key) :: rest =>
    readFrom { a with files := a.files.close } (some (given, key)) rest
  | none, .unknown :: rest => readFrom { a with files := a.files.close, surplus := true } none rest
  | none, .ambiguous :: _ => .invalid
  | none, .misused :: _ => .invalid

/-- Read the words of a command with these options. -/
def read (switches : List (Switch Key)) (words : List String) : Result :=
  let words := classifyAll switches words
  if words.any Word.isAmbiguous then .invalid else readFrom ⟨[], .ahead, false⟩ none words

end Arguments

/-! ## §3. The whole command line. -/

/-- The command of this name with its words; `strict` if a word before it had no place. -/
def commandOf (strict : Bool) (verbosity : Nat) (name : String) (words : List String) :
    Invocation :=
  let finish (result : Arguments.Result) (make : List (Given Key) → List String → Task) :=
    match result with
    | .help => .help
    | .invalid => .invalid
    | .read given files surplus =>
      if strict || surplus then .invalid else Invocation.run verbosity (make given files)
  match name with
  | "dump" => finish (Arguments.read dumpSwitches words) fun given files =>
    .dump files (given.any (·.key = .document)) (!given.any (·.key = .noCode))
  | "disasm" => finish (Arguments.read disassembleSwitches words) fun given files =>
    .disassemble files (((given.filter (·.key = .method)).getLast?.map (·.value)).getD "")
  | _ => .invalid

/-- Read the words of the program, each with what it is; `strict` if a word had no place. -/
def readProgram (strict : Bool) (verbosity : Nat) : List (String × Word Key) → Invocation
  | [] => if strict then .invalid else .noCommand
  | (_, .plain name) :: rest => commandOf strict verbosity name (rest.map (·.1))
  | (_, .options given none) :: rest =>
    if asksHelp given then .help else readProgram strict (verbosity + given.length) rest
  | (_, .unknown) :: rest => readProgram true verbosity rest
  | _ => .invalid

/-- What a command line asks for. -/
def Invocation.ofWords (words : List String) : Invocation :=
  let classified := classifyAll programSwitches words
  if classified.any Word.isAmbiguous then .invalid else readProgram false 0 (words.zip classified)

/-- The files that a task reads. -/
def Task.files : Task → List String
  | dump files _ _ => files
  | disassemble files _ => files

end JavaClass.Command
