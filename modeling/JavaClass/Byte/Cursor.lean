/-
  JavaClass.Byte.Cursor — a position in a buffer of bytes, with a bound.

  Positions are absolute: a cursor into a part of the buffer counts from the start of the whole
  buffer.  The bound `stop` keeps a part from reading into its neighbours.  Neither number is held
  to the buffer by the type, because a caller may start anywhere; a cursor is `InBounds` when it
  stands inside the buffer, and the operations keep it so.
-/

namespace JavaClass

/-- A position `pos` in `data`, from which nothing at or behind `stop` may be read. -/
structure Cursor where
  data : Array UInt8
  pos : Int
  stop : Int
deriving DecidableEq, Repr, Inhabited

namespace Cursor

/-- A cursor that may read up to `stop?`, or to the end of the data if that comes first. -/
def bounded (data : Array UInt8) (pos : Int) (stop? : Option Int) : Cursor :=
  ⟨data, pos, match stop? with
    | none => data.size
    | some stop => min stop data.size⟩

/-- A cursor at the start of the data. -/
def ofBytes (data : Array UInt8) : Cursor := ⟨data, 0, data.size⟩

/-- The number of bytes before the bound; negative behind it. -/
def remaining (c : Cursor) : Int := c.stop - c.pos

/-- Nothing is left to read. -/
def atEnd (c : Cursor) : Bool := c.stop ≤ c.pos

/-- The cursor `size` bytes further on. -/
def advance (c : Cursor) (size : Int) : Cursor := { c with pos := c.pos + size }

/-- The part of the data from here on that is `size` bytes long. -/
def part (c : Cursor) (size : Int) : Cursor := { c with stop := c.pos + size }

/-- The place in the data that a position names; a negative position counts from the end. -/
def index (c : Cursor) (position : Int) : Nat :=
  (if position < 0 then position + c.data.size else position).toNat

/-- The bytes from here up to, and not including, the position `size` further on. -/
def slice (c : Cursor) (size : Int) : List UInt8 :=
  (c.data.extract (c.index c.pos) (c.index (c.pos + size))).toList

/-- The next `count` bytes. -/
def peek (c : Cursor) (count : Nat) : List UInt8 :=
  (c.data.extract (c.index c.pos) (c.index c.pos + count)).toList

/-- A cursor inside its data. -/
def InBounds (c : Cursor) : Prop := 0 ≤ c.pos ∧ c.pos ≤ c.stop ∧ c.stop ≤ c.data.size

/-- Position and bound as text. -/
def describe (c : Cursor) : String := s!"ByteCursor(pos={c.pos}, end={c.stop})"

end Cursor

end JavaClass
