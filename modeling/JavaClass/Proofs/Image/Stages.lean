/-
  JavaClass.Proofs.Image.Stages — a class is read in three stages.

  The head is everything up to the last constant, the body everything behind the pool.  Between them
  the constants are described, which reads nothing.  The first and the last stage are orderly and
  depend on the bytes that they pass over, and on nothing else; the one in the middle depends on the
  slots.

  `Image.decode_eq` puts the stages together: it gives the outcome of decoding a class by the
  outcomes of the stages.
-/
import JavaClass.Image.Decoder
import JavaClass.Proofs.Relocation.Constant
import JavaClass.Proofs.Relocation.Stable

namespace JavaClass

open Decoder

/-! ## §1. Members. -/

theorem Member.readWith_stable (pool : Pool) (disassemble : Bool)
    (declare : UInt16 → String → Option String → List Attribute → String) :
    (Member.readWith pool disassemble declare).Stable :=
  .bind .position fun start => .bind (.u2 _) fun _ => .bind (.u2 _) fun _ => .bind (.u2 _) fun _ =>
    .bind (Attribute.readAll_stable pool disassemble) fun _ => .bind (.spanFrom start) fun _ =>
    .pure _

theorem Member.readField_stable (pool : Pool) (disassemble : Bool) :
    (Member.readField pool disassemble).Stable := Member.readWith_stable pool disassemble _

theorem Member.readMethod_stable (pool : Pool) (disassemble : Bool) :
    (Member.readMethod pool disassemble).Stable := Member.readWith_stable pool disassemble _

/-! ## §2. The stages of a class. -/

namespace Image

/-- What stands before the constants are described. -/
structure Head where
  minor : UInt16
  major : UInt16
  span : Span
  slots : Slots

/-- What stands behind the constants. -/
structure Body where
  access : UInt16
  thisClass : UInt16
  superClass : UInt16
  interfaces : List UInt16
  fields : List Member
  methods : List Member
  attributes : List Attribute

/-- Read everything up to the last constant. -/
def readHead : Decoder Head := do
  readMagic
  let minor ← u2 "minor_version"
  let major ← u2 "major_version"
  let count ← u2 "constant_pool_count"
  let start ← position
  let slots ← repeated ((count.toNat : Int) - 1).toNat Slots.readNext #[.unused]
  return ⟨minor, major, ← spanFrom start, slots⟩

/-- Read everything behind the constants. -/
def readBody (pool : Pool) (disassemble : Bool) : Decoder Body := do
  let access ← u2 "access_flags"
  let thisClass ← u2 "this_class"
  let superClass ← u2 "super_class"
  let interfaceCount ← u2 "interfaces_count"
  let interfaces ← many interfaceCount.toNat (u2 "interface index")
  let fieldCount ← u2 "fields_count"
  let fields ← many fieldCount.toNat (Member.readField pool disassemble)
  let methodCount ← u2 "methods_count"
  let methods ← many methodCount.toNat (Member.readMethod pool disassemble)
  let attributes ← Attribute.readAll pool disassemble
  return ⟨access, thisClass, superClass, interfaces, fields, methods, attributes⟩

/-- A class of `length` bytes from its parts. -/
def assemble (head : Head) (descriptions : Array String) (body : Body) (length : Int) : Image :=
  ⟨length, head.minor, head.major, ⟨head.span, head.slots, descriptions⟩, body.access,
    body.thisClass, body.superClass, body.interfaces, body.fields, body.methods, body.attributes⟩

/-- Reading a class is reading its head, describing the constants and reading its body. -/
theorem read_eq (disassemble : Bool) :
    read disassemble = (do
      let start ← position
      let head ← readHead
      let descriptions ← Pool.describeSlots head.slots
      let body ← readBody ⟨head.span, head.slots, descriptions⟩ disassemble
      noteTrailing
      return assemble head descriptions body (← spanFrom start).length) := by
  simp only [read, readHead, readBody, Pool.read, assemble, bind_assoc, pure_bind]

theorem readMagic_stable : readMagic.Stable := by
  intro lo l r
  refine .position_bind fun start => .bind (.u4 _) fun found => ?_
  simp only [id_eq]
  split
  · exact .pure rfl
  · exact .reject _

theorem readHead_stable : readHead.Stable := by
  have hslots : ∀ count, (repeated count Slots.readNext #[.unused]).Stable := fun count =>
    .of_relocates Slots.shift_zero fun _ _ _ => Slots.readAll_relocates count
  exact .bind readMagic_stable fun _ => .bind (.u2 _) fun _ => .bind (.u2 _) fun _ =>
    .bind (.u2 _) fun _ => .bind .position fun start => .bind (hslots _) fun _ =>
    .bind (.spanFrom start) fun _ => .pure _

theorem readBody_stable (pool : Pool) (disassemble : Bool) : (readBody pool disassemble).Stable :=
  .bind (.u2 _) fun _ => .bind (.u2 _) fun _ => .bind (.u2 _) fun _ =>
    .bind (.u2 _) fun count => .bind (.many count.toNat (.u2 _)) fun _ =>
    .bind (.u2 _) fun count => .bind (.many count.toNat (Member.readField_stable pool _)) fun _ =>
    .bind (.u2 _) fun count => .bind (.many count.toNat (Member.readMethod_stable pool _)) fun _ =>
    .bind (Attribute.readAll_stable pool disassemble) fun _ => .pure _

/-! ## §3. What decoding gives. -/

/-- The notice about the bytes behind a class. -/
def trailing (c : Cursor) : List Notice :=
  if c.atEnd then [] else [.trailingBytes c.remaining c.pos]

theorem noteTrailing_apply (c : Cursor) : noteTrailing c = ⟨.ok (), c, trailing c⟩ := by
  unfold noteTrailing trailing
  rw [bind_of_ok (show cursor c = ⟨.ok c, c, []⟩ from rfl)]
  by_cases hend : c.atEnd = true
  · rw [if_pos hend, if_pos hend]
    rfl
  · rw [if_neg hend, if_neg hend]
    rfl

/-- A class decodes if its stages do, and the first stage that fails decides the fault. -/
theorem decode_eq (data : Array UInt8) (disassemble : Bool) :
    decode data disassemble =
      match readHead (Cursor.ofBytes data) with
      | ⟨.error fault, c₁, notices⟩ => ⟨.error fault, c₁, notices⟩
      | ⟨.ok head, c₁, notices⟩ =>
        match Description.all head.slots with
        | (.error fault, more) => ⟨.error fault, c₁, notices ++ more⟩
        | (.ok descriptions, more) =>
          match readBody ⟨head.span, head.slots, descriptions⟩ disassemble c₁ with
          | ⟨.error fault, c₂, last⟩ => ⟨.error fault, c₂, notices ++ (more ++ last)⟩
          | ⟨.ok body, c₂, last⟩ =>
            ⟨.ok (assemble head descriptions body c₂.pos), c₂,
              notices ++ (more ++ (last ++ trailing c₂))⟩ := by
  have hread : decode data disassemble = (readHead >>= fun head =>
      Pool.describeSlots head.slots >>= fun descriptions =>
      readBody ⟨head.span, head.slots, descriptions⟩ disassemble >>= fun body =>
      noteTrailing >>= fun _ => spanFrom 0 >>= fun span =>
      pure (assemble head descriptions body span.length)) (Cursor.ofBytes data) := by
    show read disassemble (Cursor.ofBytes data) = _
    rw [read_eq]
    rfl
  rw [hread]
  rcases hhead : readHead (Cursor.ofBytes data) with ⟨fault | head, c₁, notices⟩
  · rw [bind_of_error hhead]
  rw [bind_of_ok hhead]
  dsimp only
  rcases hall : Description.all head.slots with ⟨fault | descriptions, more⟩
  · have hslots : Pool.describeSlots head.slots c₁ = ⟨.error fault, c₁, more⟩ := by
      simp only [Pool.describeSlots, hall]
    rw [bind_of_error hslots]
    rfl
  have hslots : Pool.describeSlots head.slots c₁ = ⟨.ok descriptions, c₁, more⟩ := by
    simp only [Pool.describeSlots, hall]
  rw [bind_of_ok hslots]
  dsimp only
  rcases hbody : readBody ⟨head.span, head.slots, descriptions⟩ disassemble c₁ with
    ⟨fault | body, c₂, last⟩
  · rw [bind_of_error hbody]
    rfl
  rw [bind_of_ok hbody, bind_of_ok (noteTrailing_apply c₂)]
  show (⟨.ok (assemble head descriptions body (c₂.pos - 0)), c₂,
    notices ++ (more ++ (last ++ (trailing c₂ ++ [])))⟩ : Outcome Image) = _
  rw [Int.sub_zero, List.append_nil]

section

variable {data : Array UInt8} {disassemble : Bool} {head : Head} {descriptions : Array String}
  {body : Body} {c₁ c₂ : Cursor} {headNotices more bodyNotices : List Notice} {fault : Fault}

theorem decode_of_head_error (h : (readHead (Cursor.ofBytes data)).result = .error fault) :
    (decode data disassemble).result = .error fault := by
  rw [decode_eq]
  rcases hhead : readHead (Cursor.ofBytes data) with ⟨fault' | head, c₁, notices⟩ <;>
    rw [hhead] at h
  · cases h
    rfl
  · cases h

theorem decode_of_description_error
    (hhead : readHead (Cursor.ofBytes data) = ⟨.ok head, c₁, headNotices⟩)
    (hall : Description.all head.slots = (.error fault, more)) :
    (decode data disassemble).result = .error fault := by
  rw [decode_eq, hhead]
  dsimp only
  rw [hall]

theorem decode_of_body_error
    (hhead : readHead (Cursor.ofBytes data) = ⟨.ok head, c₁, headNotices⟩)
    (hall : Description.all head.slots = (.ok descriptions, more))
    (hbody : (readBody ⟨head.span, head.slots, descriptions⟩ disassemble c₁).result =
      .error fault) :
    (decode data disassemble).result = .error fault := by
  rw [decode_eq, hhead]
  dsimp only
  rw [hall]
  dsimp only
  rcases hrun : readBody ⟨head.span, head.slots, descriptions⟩ disassemble c₁ with
    ⟨fault' | body, c₂, notices⟩ <;> rw [hrun] at hbody
  · cases hbody
    rfl
  · cases hbody

theorem decode_of_stages
    (hhead : readHead (Cursor.ofBytes data) = ⟨.ok head, c₁, headNotices⟩)
    (hall : Description.all head.slots = (.ok descriptions, more))
    (hbody : readBody ⟨head.span, head.slots, descriptions⟩ disassemble c₁ =
      ⟨.ok body, c₂, bodyNotices⟩) :
    decode data disassemble = ⟨.ok (assemble head descriptions body c₂.pos), c₂,
      headNotices ++ (more ++ (bodyNotices ++ trailing c₂))⟩ := by
  rw [decode_eq, hhead]
  dsimp only
  rw [hall]
  dsimp only
  rw [hbody]

end

/-- The stages of a class that decodes, with what they give and where they end. -/
structure Staged (data : Array UInt8) (disassemble : Bool) where
  head : Head
  headEnd : Int
  headNotices : List Notice
  descriptions : Array String
  descriptionNotices : List Notice
  body : Body
  bodyEnd : Int
  bodyNotices : List Notice
  headStart_le : 0 ≤ headEnd
  headEnd_le : headEnd ≤ bodyEnd
  bodyEnd_le : bodyEnd ≤ data.size
  readHead_eq : readHead (Cursor.ofBytes data) =
    ⟨.ok head, (Cursor.ofBytes data).goto headEnd, headNotices⟩
  all_eq : Description.all head.slots = (.ok descriptions, descriptionNotices)
  readBody_eq : readBody ⟨head.span, head.slots, descriptions⟩ disassemble
    ((Cursor.ofBytes data).goto headEnd) =
      ⟨.ok body, (Cursor.ofBytes data).goto bodyEnd, bodyNotices⟩

/-- The class that stages give. -/
def Staged.image {data : Array UInt8} {disassemble : Bool} (st : Staged data disassemble) : Image :=
  assemble st.head st.descriptions st.body st.bodyEnd

/-- A class that decodes has its stages. -/
theorem staged_of_decode {data : Array UInt8} {disassemble : Bool} {m : Image}
    (h : (decode data disassemble).result = .ok m) :
    ∃ st : Staged data disassemble, m = st.image := by
  have hstart := Cursor.InBounds.ofBytes data
  rw [decode_eq] at h
  obtain ⟨q₁, hq₁, hle₁, hstop₁, -⟩ := readHead_stable.orderly hstart
  rcases hhead : readHead (Cursor.ofBytes data) with ⟨fault | head, c₁, headNotices⟩ <;>
    rw [hhead] at h hq₁
  · cases h
  obtain rfl : c₁ = (Cursor.ofBytes data).goto q₁ := hq₁
  dsimp only at h
  rcases hall : Description.all head.slots with ⟨fault | descriptions, more⟩ <;> rw [hall] at h
  · cases h
  obtain ⟨q₂, hq₂, hle₂, hstop₂, -⟩ := (readBody_stable ⟨head.span, head.slots, descriptions⟩
    disassemble).orderly (hstart.goto hle₁ hstop₁)
  dsimp only at h
  rcases hbody : readBody ⟨head.span, head.slots, descriptions⟩ disassemble
    ((Cursor.ofBytes data).goto q₁) with ⟨fault | body, c₂, bodyNotices⟩ <;> rw [hbody] at h hq₂
  · cases h
  obtain rfl : c₂ = (Cursor.ofBytes data).goto q₂ := hq₂
  exact ⟨⟨head, q₁, headNotices, descriptions, more, body, q₂, bodyNotices, hle₁, hle₂, hstop₂,
    hhead, hall, hbody⟩, (Except.ok.inj h).symm⟩

/-! ## §4. A specimen. -/

/-- A class with text, a number of two slots, a floating-point number, and a method whose code
    holds an attribute of its own.  Two bytes follow it. -/
def specimen : Array UInt8 := #[
  0xCA, 0xFE, 0xBA, 0xBE, 0, 0, 0, 52,
  -- Six constants in slots 1 to 6: "A", "Code", 9 in two slots, "()V", and 1.0.
  0, 7, 1, 0, 1, 0x41, 1, 0, 4, 0x43, 0x6F, 0x64, 0x65, 5, 0, 0, 0, 0, 0, 0, 0, 9,
  1, 0, 3, 0x28, 0x29, 0x56, 4, 0x3F, 0x80, 0, 0,
  -- A public class without superclass, interfaces and fields.
  0, 33, 0, 0, 0, 0, 0, 0, 0, 0,
  -- One method, with two instructions, and an attribute "A" inside its code.
  0, 1, 0, 9, 0, 1, 0, 5, 0, 1,
  0, 2, 0, 0, 0, 22, 0, 1, 0, 2, 0, 0, 0, 2, 0x57, 0xB1, 0, 0, 0, 1, 0, 1, 0, 0, 0, 2, 7, 7,
  -- No attributes of the class; then the bytes that follow it.
  0, 0, 0xFF, 0xFF]

theorem specimen_decodes :
    ∃ m, (decode specimen true).result = .ok m ∧ m.length = 91 := by
  have hlength : (decode specimen true).result.toOption.map (·.length) = some 91 := by
    decide +kernel
  rcases hresult : (decode specimen true).result with fault | m <;> rw [hresult] at hlength
  · cases hlength
  · exact ⟨m, rfl, Option.some.inj hlength⟩

end Image

end JavaClass
