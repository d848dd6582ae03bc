/-
  JavaClass.Byte.Decoder — decoders of binary structures.

  A decoder takes a cursor and gives an `Outcome`: a value or a fault, the cursor afterwards, and
  the notices made on the way.  The cursor is there in both cases, because a decoder that fails
  leaves it at the read that failed.

  Reads come in three sizes: numbers of fixed width, byte strings of a given length, and windows,
  which hand the next bytes to a cursor of their own.  All of them first ask for the bytes they need
  (`require`), so a read either happens whole or leaves the cursor alone.

  Recursive structures are decoders given by an equation, `Decoder.fix`.  A nested structure needs
  at least one byte more than the structures inside it, so the number of bytes left bounds the
  nesting.
-/
import JavaClass.Byte.Cursor
import JavaClass.Notice
import JavaClass.Number.Binary

namespace JavaClass

/-- What a decoder gives. -/
structure Outcome (α : Type) where
  result : Except Fault α
  cursor : Cursor
  notices : List Notice

namespace Outcome

/-- The same outcome with notices from before. -/
def behind {α : Type} (before : List Notice) (o : Outcome α) : Outcome α :=
  { o with notices := before ++ o.notices }

@[simp] theorem behind_nil {α : Type} (o : Outcome α) : o.behind [] = o := rfl

@[simp] theorem behind_behind {α : Type} (first second : List Notice) (o : Outcome α) :
    (o.behind second).behind first = o.behind (first ++ second) := by
  simp [behind]

end Outcome

/-- A reader of values of type `α` from bytes. -/
def Decoder (α : Type) : Type := Cursor → Outcome α

namespace Decoder

/-! ## §1. Sequencing. -/

/-- Run a decoder. -/
def run {α : Type} (d : Decoder α) (c : Cursor) : Outcome α := d c

/-- Give a value without reading. -/
protected def pure {α : Type} (a : α) : Decoder α := fun c => ⟨.ok a, c, []⟩

/-- Read with `d`, then with the decoder that the value chooses. -/
protected def bind {α β : Type} (d : Decoder α) (next : α → Decoder β) : Decoder β := fun c =>
  match d c with
  | ⟨.ok a, c₁, notices⟩ => (next a c₁).behind notices
  | ⟨.error fault, c₁, notices⟩ => ⟨.error fault, c₁, notices⟩

instance : Monad Decoder where
  pure := Decoder.pure
  bind := Decoder.bind

/-- Nothing read changes nothing, and reads in sequence may be grouped in any way. -/
instance : LawfulMonad Decoder :=
  LawfulMonad.mk' Decoder
    (fun d => by
      funext c
      show Decoder.bind d Decoder.pure c = d c
      rcases h : d c with ⟨_ | _, _, _⟩ <;> simp [Decoder.bind, Decoder.pure, Outcome.behind, h])
    (fun _ _ => rfl)
    (fun d f g => by
      funext c
      show Decoder.bind (Decoder.bind d f) g c = Decoder.bind d (fun a => Decoder.bind (f a) g) c
      rcases h : d c with ⟨_ | a, c₁, _⟩
      · simp [Decoder.bind, h]
      · rcases h' : f a c₁ with ⟨_ | _, _, _⟩ <;> simp [Decoder.bind, Outcome.behind, h, h'])

/-- Stop with a fault. -/
def fail {α : Type} (fault : Fault) : Decoder α := fun c => ⟨.error fault, c, []⟩

/-- Stop because of a value that the format does not allow. -/
def reject {α : Type} (cause : Malformation) (offset : Int) : Decoder α :=
  fail (.malformed cause offset)

/-- Make a notice. -/
def notice (n : Notice) : Decoder Unit := fun c => ⟨.ok (), c, [n]⟩

/-- The cursor as it stands. -/
def cursor : Decoder Cursor := fun c => ⟨.ok c, c, []⟩

/-- The position of the next byte. -/
def position : Decoder Int := fun c => ⟨.ok c.pos, c, []⟩

/-! ## §2. Reads. -/

/-- The fault of a read of `size` bytes that the cursor cannot give. -/
def shortage (c : Cursor) (what : String) (size : Int) : Fault :=
  .truncated what size (max c.remaining 0) c.pos

/-- Fail unless `size` bytes are left; read nothing. -/
def require (what : String) (size : Int) : Decoder Unit := fun c =>
  if c.stop < c.pos + size then ⟨.error (shortage c what size), c, []⟩ else ⟨.ok (), c, []⟩

/-- All reads are of one kind: they ask for `size` bytes, give what `v` makes of the cursor, and pass
    over these bytes. -/
def taking {α : Type} (what : String) (size : Int) (v : Cursor → α) : Decoder α := do
  require what size
  fun c => ⟨.ok (v c), c.advance size, []⟩

/-- The number that bytes write, the most significant byte first. -/
def bigEndian (bytes : List UInt8) : Nat := bytes.foldl (fun n b => n * 256 + b.toNat) 0

/-- The number that the next `width` bytes write. -/
def natural (what : String) (width : Nat) : Decoder Nat :=
  taking what width fun c => bigEndian (c.peek width)

/-- An unsigned byte. -/
def u1 (what : String) : Decoder UInt8 := do return UInt8.ofNat (← natural what 1)

/-- An unsigned number of two bytes. -/
def u2 (what : String) : Decoder UInt16 := do return UInt16.ofNat (← natural what 2)

/-- An unsigned number of four bytes. -/
def u4 (what : String) : Decoder UInt32 := do return UInt32.ofNat (← natural what 4)

/-- An unsigned number of eight bytes. -/
def u8 (what : String) : Decoder UInt64 := do return UInt64.ofNat (← natural what 8)

/-- A signed byte. -/
def s1 (what : String) : Decoder Int8 := do return (← u1 what).toInt8

/-- A signed number of two bytes. -/
def s2 (what : String) : Decoder Int16 := do return (← u2 what).toInt16

/-- A signed number of four bytes. -/
def s4 (what : String) : Decoder Int32 := do return (← u4 what).toInt32

/-- A signed number of eight bytes. -/
def s8 (what : String) : Decoder Int64 := do return (← u8 what).toInt64

/-- A floating-point number of four bytes. -/
def f4 (what : String) : Decoder Number.Single := do return ⟨← u4 what⟩

/-- A floating-point number of eight bytes. -/
def f8 (what : String) : Decoder Number.Double := do return ⟨← u8 what⟩

/-- The next `size` bytes. -/
def bytes (what : String) (size : Int) : Decoder (List UInt8) := taking what size fun c => c.slice size

/-- Pass over `size` bytes. -/
def skip (what : String) (size : Int) : Decoder Unit := taking what size fun _ => ()

/-- Pass over `size` bytes and give a cursor that reads just those. -/
def window (what : String) (size : Int) : Decoder Cursor := taking what size fun c => c.part size

/-! ## §3. Windows, repetition, recursion. -/

/-- Run `d` on a cursor of its own.  It never fails: the caller gets the result of `d` and the
    cursor that `d` leaves, and the notices of `d` count as its own. -/
def inside {α : Type} (w : Cursor) (d : Decoder α) : Decoder (Except Fault α × Cursor) := fun c =>
  let o := d w
  ⟨.ok (o.result, o.cursor), c, o.notices⟩

/-- Run `d` on a cursor of its own, and give what it gives. -/
def delegate {α : Type} (w : Cursor) (d : Decoder α) : Decoder α := fun c =>
  let o := d w
  ⟨o.result, c, o.notices⟩

/-- Take a step `count` times. -/
def iterate {σ : Type} (step : σ → Decoder σ) : Nat → σ → List Notice → Cursor → Outcome σ
  | 0, s, notices, c => ⟨.ok s, c, notices⟩
  | count + 1, s, notices, c =>
    match step s c with
    | ⟨.ok s₁, c₁, more⟩ => iterate step count s₁ (notices ++ more) c₁
    | ⟨.error fault, c₁, more⟩ => ⟨.error fault, c₁, notices ++ more⟩

/-- Start from `s` and take a step `count` times. -/
def repeated {σ : Type} (count : Nat) (step : σ → Decoder σ) (s : σ) : Decoder σ :=
  iterate step count s []

theorem iterate_behind {σ : Type} (step : σ → Decoder σ) (count : Nat) (s : σ)
    (notices : List Notice) (c : Cursor) :
    iterate step count s notices c = (repeated count step s c).behind notices := by
  induction count generalizing s notices c with
  | zero => simp [repeated, iterate, Outcome.behind]
  | succ count ih =>
    simp only [repeated, iterate]
    rcases step s c with ⟨_ | s₁, c₁, more⟩
    · simp [Outcome.behind]
    · show iterate step count s₁ (notices ++ more) c₁ =
        (iterate step count s₁ ([] ++ more) c₁).behind notices
      rw [ih s₁ (notices ++ more), ih s₁ ([] ++ more)]
      simp

theorem repeated_zero {σ : Type} (step : σ → Decoder σ) (s : σ) :
    repeated 0 step s = pure s := rfl

theorem repeated_succ {σ : Type} (count : Nat) (step : σ → Decoder σ) (s : σ) :
    repeated (count + 1) step s = step s >>= repeated count step := by
  funext c
  show iterate step (count + 1) s [] c = Decoder.bind (step s) (repeated count step) c
  rcases h : step s c with ⟨_ | s₁, c₁, more⟩
  · simp [iterate, Decoder.bind, h]
  · simp [iterate, Decoder.bind, h, iterate_behind]

/-- Read `count` values, one behind the other. -/
def many {α : Type} (count : Nat) (d : Decoder α) : Decoder (List α) := do
  let reversed ← repeated count (fun done => do return (← d) :: done) []
  return reversed.reverse

theorem repeated_cons {α : Type} (count : Nat) (d : Decoder α) (done : List α) :
    repeated count (fun done => (· :: done) <$> d) done =
      (· ++ done) <$> repeated count (fun done => (· :: done) <$> d) [] := by
  induction count generalizing done with
  | zero => simp [repeated_zero]
  | succ count ih =>
    simp only [repeated_succ, bind_map_left, map_bind]
    congr
    funext a
    rw [ih (a :: done), ih [a]]
    simp

theorem many_zero {α : Type} (d : Decoder α) : many 0 d = pure [] := rfl

theorem many_succ {α : Type} (count : Nat) (d : Decoder α) :
    many (count + 1) d = do return (← d) :: (← many count d) := by
  simp only [many, repeated_succ, bind_pure_comp, bind_map_left, map_bind]
  congr
  funext a
  rw [repeated_cons]
  simp

/-- A structure inside itself, at most `depth` deep. -/
def unroll {α : Type} (body : Decoder α → Decoder α) : Nat → Decoder α
  | 0, c => ⟨.error (shortage c "nested structure" 1), c, []⟩
  | depth + 1, c => body (unroll body depth) c

/-- The decoder `d` with `d = body d`, for a `body` that reads at least one byte before it turns to
    `d`, and turns to it only with cursors that have fewer bytes left. -/
def fix {α : Type} (body : Decoder α → Decoder α) : Decoder α := fun c =>
  unroll body (c.remaining.toNat + 1) c

end Decoder

/-- The place of a structure in the data. -/
structure Span where
  start : Int
  length : Int
deriving DecidableEq, Repr, Inhabited

/-- A value with the place that it was read from. -/
structure Located (α : Type) where
  span : Span
  value : α
deriving DecidableEq, Repr

namespace Decoder

/-- The place from `start` up to here. -/
def spanFrom (start : Int) : Decoder Span := fun c => ⟨.ok ⟨start, c.pos - start⟩, c, []⟩

/-- Read a value and note its place. -/
def located {α : Type} (d : Decoder α) : Decoder (Located α) := do
  let start ← position
  let value ← d
  return ⟨← spanFrom start, value⟩

end Decoder

end JavaClass
