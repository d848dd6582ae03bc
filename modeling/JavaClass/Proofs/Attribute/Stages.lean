/-
  JavaClass.Proofs.Attribute.Stages — an attribute is read in stages.

  An attribute is its envelope and what the envelope encloses (`Attribute.body_eq`), and code is its
  sizes, its array, its handlers and its attributes (`Code.read_eq`).  What comes of a payload is
  decided by the run over its window alone (`Attribute.readPayload_apply`).
-/
import JavaClass.Attribute.Decoder
import JavaClass.Proofs.Byte.Run

namespace JavaClass

open Decoder

/-! ## §1. Code. -/

/-- Reading code never fails. -/
theorem Listing.readFrom_ok (codeStart : Int) (count : Nat) (done : List Instruction) (c : Cursor) :
    ∃ listing, (readFrom codeStart count done c).result = .ok listing := by
  induction count generalizing done c with
  | zero => exact ⟨_, rfl⟩
  | succ count ih =>
    rw [readFrom]
    split
    · exact ⟨_, rfl⟩
    · rcases Instruction.read codeStart c with ⟨fault | instruction, c₁, _⟩
      · exact ⟨_, rfl⟩
      · exact ih (instruction :: done) c₁

theorem Listing.read_eq_ok (c : Cursor) :
    ∃ listing after notices, Listing.read c = ⟨.ok listing, after, notices⟩ := by
  obtain ⟨listing, h⟩ := readFrom_ok c.pos c.remaining.toNat [] c
  exact ⟨listing, (Listing.read c).cursor, (Listing.read c).notices, by rw [← h]; rfl⟩

namespace Code

/-- What is kept of a code array of `n` bytes: where it starts, its bytes, and its instructions if
    asked. -/
def ofArray (disassemble : Bool) (n : Nat) (w : Cursor) : Decoder (Int × List UInt8 × Listing) := do
  let listing ← if disassemble then delegate w Listing.read else pure ⟨[], none⟩
  return (w.pos, w.slice n, listing)

/-- The body of a method is its sizes, its code array, its handlers and its attributes. -/
theorem read_eq (disassemble : Bool) (inner : Decoder Attribute) :
    read disassemble inner = (do
      let maxStack ← u2 "max_stack"
      let maxLocals ← u2 "max_locals"
      let length ← u4 "code_length"
      let array ← window "code array" length.toNat >>= ofArray disassemble length.toNat
      let handlers ← readRows "exception_table_length" ExceptionHandler.read
      let attributes ← readAttributes inner
      return ⟨maxStack, maxLocals, array.1, length, array.2.1, array.2.2, handlers, attributes⟩) := by
  cases disassemble <;> simp [read, ofArray, bind_assoc]

theorem ofArray_listed {n : Nat} {w after : Cursor} {listing : Listing} {notices : List Notice}
    (h : Listing.read w = ⟨.ok listing, after, notices⟩) (c : Cursor) :
    ofArray true n w c = ⟨.ok (w.pos, w.slice n, listing), c, notices⟩ := by
  have hdelegate : delegate w Listing.read c = ⟨.ok listing, c, notices⟩ := by
    simp only [delegate, h]
  refine (bind_of_ok hdelegate).trans ?_
  show (⟨_, _, notices ++ []⟩ : Outcome (Int × List UInt8 × Listing)) = _
  rw [List.append_nil]
  rfl

theorem ofArray_unlisted (n : Nat) (w c : Cursor) :
    ofArray false n w c = ⟨.ok (w.pos, w.slice n, ⟨[], none⟩), c, []⟩ := rfl

end Code

/-! ## §2. Payloads. -/

/-- A debug extension is all the bytes of its window. -/
theorem Payload.read_debugExtension (disassemble : Bool) (inner : Decoder Attribute) (w : Cursor) :
    read disassemble inner .sourceDebugExtension w =
      ⟨.ok (.sourceDebugExtension (w.slice w.remaining)), w.goto w.stop, []⟩ := by
  have hend : w.pos + w.remaining = w.stop := by
    simp only [Cursor.remaining]
    omega
  have hbytes : Decoder.bytes "debug_extension" w.remaining w =
      ⟨.ok (w.slice w.remaining), w.goto w.stop, []⟩ := by
    rw [Decoder.bytes, taking_of_enough (by omega), hend]
  have hcursor : Decoder.cursor w = ⟨.ok w, w, []⟩ := rfl
  refine (bind_of_ok hcursor).trans ?_
  rw [bind_of_ok hbytes]
  rfl

/-- A payload that is no code and no record, and so has no instructions and no attributes in it. -/
def Payload.Plain : Payload → Prop
  | .code _ | .recordComponents _ => False
  | _ => True

/-- Only code is read as code, and only records are read as records. -/
theorem Payload.read_plain (disassemble : Bool) (inner : Decoder Attribute) {kind : AttributeKind}
    (hcode : kind ≠ .code) (hrecord : kind ≠ .recordComponents) :
    (read disassemble inner kind).Always Plain := by
  cases kind
  case code => exact absurd rfl hcode
  case recordComponents => exact absurd rfl hrecord
  case synthetic => exact .pure trivial
  case deprecated => exact .pure trivial
  case enclosingMethod => exact .bind fun _ => .bind fun _ => .pure trivial
  case sourceDebugExtension => exact .bind fun _ => .bind fun _ => .pure trivial
  case methodParameters => exact .bind fun _ => .bind fun _ => .pure trivial
  case moduleHashes => exact .bind fun _ => .bind fun _ => .pure trivial
  all_goals exact .bind fun _ => .pure trivial

namespace Attribute

/-- What comes of a payload that was read in its window with outcome `o`; `c` is the cursor behind
    the window. -/
def concluded (name : String) (start : Int) (declared : UInt32) (o : Outcome Payload) (c : Cursor) :
    Outcome Payload :=
  match o with
  | ⟨.ok payload, after, notices⟩ =>
    ⟨.ok payload, c, notices ++
      if after.atEnd then [] else [.unreadPayload name start after.remaining declared]⟩
  | ⟨.error (.truncated _ _ _ offset), _, notices⟩ =>
    ⟨.error (.malformed (.payload name declared) offset), c, notices⟩
  | ⟨.error fault, _, notices⟩ => ⟨.error fault, c, notices⟩

theorem readPayload_apply (payload : Decoder Payload) (name : String) (start : Int)
    (declared : UInt32) (w c : Cursor) :
    readPayload payload name start declared w c = concluded name start declared (payload w) c := by
  have hinside : inside w payload c =
      ⟨.ok ((payload w).result, (payload w).cursor), c, (payload w).notices⟩ := rfl
  refine (bind_of_ok hinside).trans ?_
  rcases payload w with ⟨(⟨what, size, left, offset⟩ | ⟨cause, offset⟩ | _) | payload, after, notices⟩
  · show (⟨_, _, notices ++ []⟩ : Outcome Payload) = _
    rw [List.append_nil]
    rfl
  · show (⟨_, _, notices ++ []⟩ : Outcome Payload) = _
    rw [List.append_nil]
    rfl
  · show (⟨_, _, notices ++ []⟩ : Outcome Payload) = _
    rw [List.append_nil]
    rfl
  · simp only [concluded]
    split <;> rfl

theorem concluded_cursor (name : String) (start : Int) (declared : UInt32) (o : Outcome Payload)
    (c : Cursor) : (concluded name start declared o c).cursor = c := by
  rcases o with ⟨(_ | _ | _) | _, _, _⟩ <;> rfl

theorem concluded_ok {name : String} {start : Int} {declared : UInt32} {o : Outcome Payload}
    {c : Cursor} {payload : Payload}
    (h : (concluded name start declared o c).result = .ok payload) : o.result = .ok payload := by
  rcases o with ⟨(_ | _ | _) | payload', w, notices⟩
  · cases h
  · cases h
  · cases h
  · exact h

theorem concluded_malformed {name : String} {start : Int} {declared : UInt32} {o : Outcome Payload}
    {c : Cursor} {cause : Malformation} {offset : Int}
    (h : o.result = .error (.malformed cause offset)) :
    (concluded name start declared o c).result = .error (.malformed cause offset) := by
  obtain ⟨result, w, notices⟩ := o
  obtain rfl : result = .error (.malformed cause offset) := h
  rfl

/-- A payload that is kept is the bytes of its window. -/
theorem window_keepRaw (what : String) (n : Nat) (why : Notice) :
    (window what n >>= keepRaw why) =
      (do
        let content ← bytes what n
        notice why
        return .raw content) := by
  funext c
  by_cases h : c.stop < c.pos + n
  · have hbytes : Decoder.bytes what n c = ⟨.error (shortage c what n), c, []⟩ := by
      rw [Decoder.bytes, taking_of_short h]
    rw [window_bind_of_short h, bind_of_error hbytes]
  · have henough : c.pos + n ≤ c.stop := by omega
    have hbytes : Decoder.bytes what n c = ⟨.ok (c.slice n), c.goto (c.pos + n), []⟩ := by
      rw [Decoder.bytes, taking_of_enough henough]
    have hsize : (c.part n).remaining = n := by
      simp only [Cursor.remaining, Cursor.part_stop, Cursor.part_pos]
      omega
    rw [window_bind_of_enough henough, bind_of_ok hbytes, Outcome.behind_nil, keepRaw, hsize]
    rfl

/-! ## §3. Envelopes. -/

/-- The payload of an attribute whose envelope is read. -/
def readEnclosed (name : Option String) (payload : AttributeKind → Decoder Payload) (start : Int)
    (nameIndex : UInt16) (declared : UInt32) : Decoder Payload :=
  window (payloadLabel name) declared.toNat >>= fun w =>
    match name with
    | none => keepRaw (.unnamedAttribute start nameIndex) w
    | some name =>
      match AttributeKind.ofName? name with
      | none => keepRaw (.unknownAttribute name start) w
      | some kind => readPayload (payload kind) name start declared w

/-- An attribute is its envelope and what the envelope encloses. -/
theorem body_eq (pool : Pool) (disassemble : Bool) (inner : Decoder Attribute) :
    body pool disassemble inner = (do
      let start ← position
      let nameIndex ← u2 "attribute_name_index"
      let declared ← u4 "attribute_length"
      let payload ← readEnclosed (pool.utf8? nameIndex.toNat) (Payload.read disassemble inner) start
        nameIndex declared
      return ⟨start, nameIndex, pool.utf8? nameIndex.toNat, declared, payload⟩) := by
  unfold body readEnclosed
  refine bind_congr fun start => bind_congr fun nameIndex => bind_congr fun declared => ?_
  rw [bind_assoc]
  refine bind_congr fun w => ?_
  generalize pool.utf8? nameIndex.toNat = name
  cases name with
  | none => rfl
  | some name =>
    dsimp only
    cases AttributeKind.ofName? name <;> rfl

/-- Read the envelope of an attribute: its start, the number of its name, and its declared
    length. -/
def readEnvelope : Decoder (Int × UInt16 × UInt32) := do
  let start ← position
  let nameIndex ← u2 "attribute_name_index"
  return (start, nameIndex, ← u4 "attribute_length")

theorem body_eq_envelope (pool : Pool) (disassemble : Bool) (inner : Decoder Attribute) :
    body pool disassemble inner = (do
      let envelope ← readEnvelope
      let payload ← readEnclosed (pool.utf8? envelope.2.1.toNat) (Payload.read disassemble inner)
        envelope.1 envelope.2.1 envelope.2.2
      return ⟨envelope.1, envelope.2.1, pool.utf8? envelope.2.1.toNat, envelope.2.2, payload⟩) := by
  simp only [body_eq, readEnvelope, bind_assoc, pure_bind]

/-- What is enclosed in a window that fits: bytes that are kept, or what comes of a payload. -/
theorem readEnclosed_of_enough (name : Option String) (payload : AttributeKind → Decoder Payload)
    (start : Int) (nameIndex : UInt16) (declared : UInt32) {c : Cursor}
    (h : c.pos + declared.toNat ≤ c.stop) :
    (∃ content, ∃ notices, readEnclosed name payload start nameIndex declared c =
      ⟨.ok (.raw content), c.goto (c.pos + declared.toNat), notices⟩) ∨
    ∃ label kind, ∀ c' : Cursor, c'.pos + declared.toNat ≤ c'.stop →
      readEnclosed name payload start nameIndex declared c' =
        concluded label start declared (payload kind (c'.part declared.toNat))
          (c'.goto (c'.pos + declared.toNat)) := by
  unfold readEnclosed
  cases name with
  | none => exact .inl ⟨_, _, window_bind_of_enough h⟩
  | some label =>
    dsimp only
    cases AttributeKind.ofName? label with
    | none => exact .inl ⟨_, _, window_bind_of_enough h⟩
    | some kind =>
      refine .inr ⟨label, kind, fun c' h' => ?_⟩
      refine (window_bind_of_enough h').trans ?_
      exact readPayload_apply (payload kind) label start declared _ _

/-- The cursor is left behind the window, whatever comes of it. -/
theorem readEnclosed_cursor (name : Option String) (payload : AttributeKind → Decoder Payload)
    (start : Int) (nameIndex : UInt16) (declared : UInt32) {c : Cursor}
    (h : c.pos + declared.toNat ≤ c.stop) :
    (readEnclosed name payload start nameIndex declared c).cursor =
      c.goto (c.pos + declared.toNat) := by
  obtain ⟨content, notices, hrun⟩ | ⟨label, kind, hrun⟩ :=
    readEnclosed_of_enough name payload start nameIndex declared h
  · rw [hrun]
  · rw [hrun c h, concluded_cursor]

theorem readEnclosed_of_short (name : Option String) (payload : AttributeKind → Decoder Payload)
    (start : Int) (nameIndex : UInt16) (declared : UInt32) {c : Cursor}
    (h : c.stop < c.pos + declared.toNat) :
    readEnclosed name payload start nameIndex declared c =
      ⟨.error (shortage c (payloadLabel name) declared.toNat), c, []⟩ :=
  window_bind_of_short h

end Attribute

end JavaClass
