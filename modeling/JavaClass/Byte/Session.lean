/-
  JavaClass.Byte.Session — reads on several cursors, one request after the other.

  A session starts with one cursor.  Every request names the cursor that it is for; a window opens a
  further cursor, which later requests can name.  A request that fails leaves all cursors as they
  are, and the session goes on.
-/
import JavaClass.Byte.Decoder

namespace JavaClass

/-- Numbers of fixed width. -/
inductive Primitive where
  | u1 | s1 | u2 | s2 | u4 | s4 | u8 | s8 | f4 | f8
deriving DecidableEq, Repr

/-- A number that was read. -/
inductive Numeral where
  | integer (n : Int)
  | real (x : Number.Double)
deriving DecidableEq, Repr

namespace Primitive

/-- How many bytes a number takes. -/
def width : Primitive → Nat
  | u1 | s1 => 1
  | u2 | s2 => 2
  | u4 | s4 | f4 => 4
  | u8 | s8 | f8 => 8

/-- What a number is called in faults, unless the caller says otherwise. -/
def label : Primitive → String
  | u1 => "u1" | s1 => "s1" | u2 => "u2" | s2 => "s2"
  | u4 => "u4" | s4 => "s4" | u8 => "u8" | s8 => "s8"
  | f4 => "float" | f8 => "double"

/-- The primitive of this name. -/
def ofName? : String → Option Primitive
  | "u1" => some u1 | "s1" => some s1 | "u2" => some u2 | "s2" => some s2
  | "u4" => some u4 | "s4" => some s4 | "u8" => some u8 | "s8" => some s8
  | "f4" => some f4 | "f8" => some f8
  | _ => none

/-- Read a number. -/
def read (what : String) : Primitive → Decoder Numeral
  | u1 => do return .integer (← Decoder.u1 what).toNat
  | s1 => do return .integer (← Decoder.s1 what).toInt
  | u2 => do return .integer (← Decoder.u2 what).toNat
  | s2 => do return .integer (← Decoder.s2 what).toInt
  | u4 => do return .integer (← Decoder.u4 what).toNat
  | s4 => do return .integer (← Decoder.s4 what).toInt
  | u8 => do return .integer (← Decoder.u8 what).toNat
  | s8 => do return .integer (← Decoder.s8 what).toInt
  | f4 => do return .real (← Decoder.f4 what).toDouble
  | f8 => do return .real (← Decoder.f8 what)

end Primitive

/-- What can be asked of a cursor.  `what?` is the name of the bytes in faults. -/
inductive Request where
  | number (kind : Primitive) (what? : Option String)
  | bytes (size : Int) (what? : Option String)
  | skip (size : Int) (what? : Option String)
  | window (size : Int) (what? : Option String)
  | describe
deriving DecidableEq, Repr

/-- What a request gives. -/
inductive Reply where
  | number (n : Numeral)
  | bytes (content : List UInt8)
  | skipped
  | opened (c : Cursor)
  | described (text : String)
deriving DecidableEq, Repr

namespace Request

/-- Answer a request. -/
def answer : Request → Decoder Reply
  | number kind what? => do return .number (← kind.read (what?.getD kind.label))
  | bytes size what? => do return .bytes (← Decoder.bytes (what?.getD "bytes") size)
  | skip size what? => do
    Decoder.skip (what?.getD "padding") size
    return .skipped
  | window size what? => do return .opened (← Decoder.window (what?.getD "window") size)
  | describe => do return .described (← Decoder.cursor).describe

end Request

/-- The cursors of a session, in the order in which they were opened. -/
structure Session where
  cursors : Array Cursor
deriving DecidableEq, Repr

namespace Session

/-- A session with one cursor. -/
def start (c : Cursor) : Session := ⟨#[c]⟩

/-- Answer a request for the cursor with number `on`, and give the cursor as it stands then. -/
def step (s : Session) (on : Nat) (request : Request) :
    Session × Option (Except Fault Reply × Cursor) :=
  match s.cursors[on]? with
  | none => (s, none)
  | some c =>
    let o := request.answer c
    let cursors := s.cursors.setIfInBounds on o.cursor
    let cursors := match o.result with
      | .ok (.opened w) => cursors.push w
      | _ => cursors
    (⟨cursors⟩, some (o.result, o.cursor))

end Session

end JavaClass
