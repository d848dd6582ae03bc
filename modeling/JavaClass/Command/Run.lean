/-
  JavaClass.Command.Run — what a command line does, as a function of the files it can see.

  Files are worked on in order.  The first one that cannot be read or decoded, or that lacks the
  method asked for, ends the run; what was printed before it stays printed.
-/
import JavaClass.Command.Invocation
import JavaClass.Document.Image
import JavaClass.Image.Decoder
import JavaClass.Image.Listing

namespace JavaClass.Command

/-- What stands under the name of a file. -/
inductive Stored where
  | missing
  | unreadable (reason : String)
  | content (data : Array UInt8)

/-- How a run ends. -/
inductive Status where
  | exit (code : Nat)
  /-- A number could not be written; the run breaks off. -/
  | broken (fault : Fault)
deriving DecidableEq, Repr

/-- What a run prints, and how it ends. -/
structure Report where
  status : Status
  stdout : String
  stderr : String
deriving DecidableEq, Repr

/-- How to call the program. -/
def usage : String :=
  "usage: jclassview [-h] [-v] \x7bdump,disasm\x7d ...\n"
    ++ "\n"
    ++ "  dump [-h] [--json] [--no-code] files [files ...]\n"
    ++ "  disasm [-h] [-m METHOD] files [files ...]\n"

namespace Report

/-- Nothing printed yet. -/
def empty : Report := ⟨.exit 0, "", ""⟩

/-- Print lines. -/
def print (r : Report) (lines : List String) : Report :=
  { r with stdout := lines.foldl (fun out line => out ++ line ++ "\n") r.stdout }

/-- Print lines to the error stream. -/
def complain (r : Report) (lines : List String) : Report :=
  { r with stderr := lines.foldl (fun out line => out ++ line ++ "\n") r.stderr }

/-- End the run with an error. -/
def failWith (r : Report) (line : String) : Report := { r.complain [line] with status := .exit 1 }

end Report

/-- The notices to show: none, warnings, or all. -/
def shown (verbosity : Nat) (n : Notice) : Bool :=
  match verbosity with
  | 0 => false
  | 1 => n.severity = .warning
  | _ => true

/-- Decode a file behind what was printed: the class, or the end of the run. -/
def load (verbosity : Nat) (r : Report) (file : String) : Stored → Except Report (Image × Report)
  | .missing => .error (r.failWith s!"Error: File not found: {file}")
  | .unreadable reason => .error (r.failWith s!"Error reading {file}: {reason}")
  | .content data =>
    let o := Image.decode data true
    let r := r.complain ((o.notices.filter (shown verbosity)).map Notice.line)
    match o.result with
    | .ok image => .ok (image, r)
    | .error .tooLarge => .error { r with status := .broken .tooLarge }
    | .error fault => .error (r.failWith s!"Error reading {file}: {fault.message}")

/-- Show a class behind what was printed. -/
def dumpOne (document code : Bool) (image : Image) (r : Report) : Report :=
  if document then r.print [image.document.render] else r.print (image.lines code)

/-- List the code of a class behind what was printed. -/
def disassembleOne (method file : String) (image : Image) (r : Report) : Except Report Report :=
  let methods := if method = "" then image.methods else image.methodsNamed method
  if method ≠ "" && methods.isEmpty then
    .error (r.failWith s!"Error: No method named {method} in {file}")
  else .ok (r.print (methods.flatMap (Member.listing image.pool)))

/-- Work on files in order, until one ends the run. -/
def overFiles (verbosity : Nat) (storage : String → Stored)
    (one : String → Image → Report → Except Report Report) : List String → Report → Report
  | [], r => r
  | file :: rest, r =>
    match load verbosity r file (storage file) with
    | .error ended => ended
    | .ok (image, r) =>
      match one file image r with
      | .error ended => ended
      | .ok r => overFiles verbosity storage one rest r

/-- Do what a command line asks for. -/
def run (storage : String → Stored) : Invocation → Report
  | .help => { Report.empty with stdout := usage }
  | .noCommand => ⟨.exit 1, usage, ""⟩
  | .invalid => ⟨.exit 2, "", usage⟩
  | .run verbosity (.dump files document code) =>
    overFiles verbosity storage (fun _ image r => .ok (dumpOne document code image r)) files .empty
  | .run verbosity (.disassemble files method) =>
    overFiles verbosity storage (disassembleOne method) files .empty

end JavaClass.Command
