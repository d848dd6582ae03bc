/-
  JavaClass.Proofs.Relocation.Attribute — attributes read elsewhere.

  An attribute depends on its own bytes only: the declared length cuts its payload off from what
  follows, so a payload may look at its bound (a debug extension takes all there is, code is
  disassembled to its end) and the attribute still does not.  A payload that wants more bytes than it
  has is malformed, and never a lack of bytes: the place that is blamed lies inside the attribute.
-/
import JavaClass.Proofs.Attribute.Stages
import JavaClass.Proofs.Relocation.Annotation
import JavaClass.Proofs.Relocation.Instruction

namespace JavaClass

open Decoder

/-! ## §1. Attributes moved. -/

/-- A frame `p` bytes further on. -/
def StackMapFrame.shift (p : Int) (frame : StackMapFrame) : StackMapFrame :=
  { frame with
    locals := frame.locals.map (Located.shift p id)
    stack := frame.stack.map (Located.shift p id) }

/-- A module `p` bytes further on. -/
def ModuleDeclaration.shift (p : Int) (m : ModuleDeclaration) : ModuleDeclaration :=
  { m with
    requires := m.requires.map (Located.shift p id)
    exports := m.exports.map (Located.shift p id)
    opens := m.opens.map (Located.shift p id)
    provides := m.provides.map (Located.shift p id) }

mutual

/-- A payload `p` bytes further on. -/
def Payload.shift (p : Int) : Payload → Payload
  | .code code => .code (code.shift p)
  | .stackMapTable frames =>
    .stackMapTable (frames.map (Located.shift p (StackMapFrame.shift p)))
  | .innerClasses classes => .innerClasses (classes.map (Located.shift p id))
  | .lineNumbers rows => .lineNumbers (rows.map (Located.shift p id))
  | .localVariables rows => .localVariables (rows.map (Located.shift p id))
  | .localVariableTypes rows => .localVariableTypes (rows.map (Located.shift p id))
  | .annotations visible annotations =>
    .annotations visible (annotations.map fun a => a.shift p)
  | .parameterAnnotations visible parameters =>
    .parameterAnnotations visible
      (parameters.map (Located.shift p (List.map fun a => a.shift p)))
  | .typeAnnotations visible annotations =>
    .typeAnnotations visible (annotations.map (Located.shift p fun a => a.shift p))
  | .annotationDefault value => .annotationDefault (value.shift p)
  | .bootstrapMethods methods => .bootstrapMethods (methods.map (Located.shift p id))
  | .methodParameters parameters => .methodParameters (parameters.map (Located.shift p id))
  | .moduleDeclaration declaration => .moduleDeclaration (declaration.shift p)
  | .moduleHashes algorithm hashes => .moduleHashes algorithm (hashes.map (Located.shift p id))
  | .recordComponents components => .recordComponents (RecordComponent.shiftAll p components)
  | other => other

/-- The body of a method `p` bytes further on. -/
def Code.shift (p : Int) : Code → Code
  | ⟨maxStack, maxLocals, start, length, content, listing, handlers, attributes⟩ =>
    ⟨maxStack, maxLocals, start + p, length, content, listing.shift p,
      handlers.map (Located.shift p id), Attribute.shiftAll p attributes⟩

/-- A component `p` bytes further on. -/
def RecordComponent.shift (p : Int) : RecordComponent → RecordComponent
  | ⟨span, name, descriptor, attributes⟩ =>
    ⟨span.shift p, name, descriptor, Attribute.shiftAll p attributes⟩

/-- Components `p` bytes further on. -/
def RecordComponent.shiftAll (p : Int) : List RecordComponent → List RecordComponent
  | [] => []
  | component :: rest => component.shift p :: RecordComponent.shiftAll p rest

/-- An attribute `p` bytes further on. -/
def Attribute.shift (p : Int) : Attribute → Attribute
  | ⟨start, nameIndex, name, declared, payload⟩ =>
    ⟨start + p, nameIndex, name, declared, payload.shift p⟩

/-- Attributes `p` bytes further on. -/
def Attribute.shiftAll (p : Int) : List Attribute → List Attribute
  | [] => []
  | a :: rest => a.shift p :: Attribute.shiftAll p rest

end

theorem RecordComponent.shiftAll_eq_map (p : Int) (components : List RecordComponent) :
    shiftAll p components = components.map (shift p) := by
  induction components with
  | nil => rfl
  | cons component rest ih => rw [shiftAll, ih, List.map_cons]

theorem Attribute.shiftAll_eq_map (p : Int) (attributes : List Attribute) :
    shiftAll p attributes = attributes.map (shift p) := by
  induction attributes with
  | nil => rfl
  | cons a rest ih => rw [shiftAll, ih, List.map_cons]

theorem Listing.shift_zero (listing : Listing) : listing.shift 0 = listing := by
  rcases listing with ⟨instructions, _ | fault⟩
  · rfl
  · rw [shift, Option.map_some, Fault.shift_zero]

theorem StackMapFrame.shift_zero (frame : StackMapFrame) : frame.shift 0 = frame := by
  rw [shift, Located.map_shift_zero_id, Located.map_shift_zero_id]

theorem ModuleDeclaration.shift_zero (m : ModuleDeclaration) : m.shift 0 = m := by
  simp only [shift, Located.map_shift_zero_id]

mutual

theorem Payload.shift_zero : ∀ payload : Payload, payload.shift 0 = payload
  | .code code => by rw [Payload.shift, Code.shift_zero code]
  | .stackMapTable _ => by rw [Payload.shift, Located.map_shift_zero StackMapFrame.shift_zero]
  | .innerClasses _ => by rw [Payload.shift, Located.map_shift_zero_id]
  | .lineNumbers _ => by rw [Payload.shift, Located.map_shift_zero_id]
  | .localVariables _ => by rw [Payload.shift, Located.map_shift_zero_id]
  | .localVariableTypes _ => by rw [Payload.shift, Located.map_shift_zero_id]
  | .annotations _ _ => by simp only [Payload.shift, Annotation.shift_zero, List.map_id']
  | .parameterAnnotations _ _ => by
    rw [Payload.shift, Located.map_shift_zero]
    intro annotations
    simp only [List.map_id', Annotation.shift_zero]
  | .typeAnnotations _ _ => by
    rw [Payload.shift, Located.map_shift_zero fun a => TypeAnnotation.shift_zero a]
  | .annotationDefault value => by rw [Payload.shift, ElementValue.shift_zero value]
  | .bootstrapMethods _ => by rw [Payload.shift, Located.map_shift_zero_id]
  | .methodParameters _ => by rw [Payload.shift, Located.map_shift_zero_id]
  | .moduleDeclaration m => by rw [Payload.shift, ModuleDeclaration.shift_zero m]
  | .moduleHashes _ _ => by rw [Payload.shift, Located.map_shift_zero_id]
  | .recordComponents components => by rw [Payload.shift, RecordComponent.shiftAll_zero components]
  | .raw _ | .constantValue _ | .exceptions _ | .enclosingMethod _ _ | .synthetic | .deprecated
  | .signature _ | .sourceFile _ | .sourceDebugExtension _ | .modulePackages _ | .moduleMainClass _
  | .moduleTarget _ | .moduleResolution _ | .nestHost _ | .nestMembers _
  | .permittedSubclasses _ => rfl

theorem Code.shift_zero : ∀ code : Code, code.shift 0 = code
  | ⟨_, _, _, _, _, listing, _, attributes⟩ => by
    rw [Code.shift, Int.add_zero, Listing.shift_zero listing,
      Located.map_shift_zero_id, Attribute.shiftAll_zero attributes]

theorem RecordComponent.shift_zero : ∀ component : RecordComponent, component.shift 0 = component
  | ⟨_, _, _, attributes⟩ => by
    rw [RecordComponent.shift, Span.shift_zero, Attribute.shiftAll_zero attributes]

theorem RecordComponent.shiftAll_zero :
    ∀ components, RecordComponent.shiftAll 0 components = components
  | [] => rfl
  | component :: rest => by
    rw [RecordComponent.shiftAll, RecordComponent.shift_zero component,
      RecordComponent.shiftAll_zero rest]

theorem Attribute.shift_zero : ∀ a : Attribute, a.shift 0 = a
  | ⟨_, _, _, _, payload⟩ => by rw [Attribute.shift, Int.add_zero, Payload.shift_zero payload]

theorem Attribute.shiftAll_zero : ∀ attributes, Attribute.shiftAll 0 attributes = attributes
  | [] => rfl
  | a :: rest => by rw [Attribute.shiftAll, Attribute.shift_zero a, Attribute.shiftAll_zero rest]

end

/-! ## §2. Rows of tables. -/

variable {lo : Int} {S : Setting}

theorem readWords_relocates (what : String) :
    Relocates lo S id (readWords what) (readWords what) :=
  .bind (.u2 _) fun count => .many_id count.toNat (.u2 _)

theorem readRows_relocates {α β : Type} {f : α → β} (what : String) {row : Decoder α}
    {row' : Decoder β} (h : Relocates lo S f row row') :
    Relocates lo S (List.map (Located.shift S.shift f)) (readRows what row) (readRows what row') :=
  .bind (.u2 _) fun count => .many count.toNat (.located h)

theorem ExceptionHandler.read_relocates : Relocates lo S id read read :=
  .bind (.u2 _) fun _ => .bind (.u2 _) fun _ => .bind (.u2 _) fun _ => .bind (.u2 _) fun _ =>
    .pure rfl

theorem VerificationType.read_relocates : Relocates lo S id read read := by
  refine .position_bind fun start => .bind (.u1 _) fun tag => ?_
  simp only [id_eq]
  split
  case h_8 => exact .bind (.u2 _) fun _ => .pure rfl
  case h_9 => exact .bind (.u2 _) fun _ => .pure rfl
  case h_10 => exact .reject _
  all_goals exact .pure rfl

theorem VerificationType.readMany_relocates (count : Nat) :
    Relocates lo S (List.map (Located.shift S.shift id)) (readMany count) (readMany count) :=
  .many count (.located read_relocates)

theorem StackMapFrame.read_relocates : Relocates lo S (shift S.shift) read read := by
  refine .position_bind fun start => .bind (.u1 _) fun frameType => ?_
  have htypes : ∀ count, Relocates start S (List.map (Located.shift S.shift id))
      (VerificationType.readMany count) (VerificationType.readMany count) :=
    VerificationType.readMany_relocates
  simp only [id_eq]
  split
  · exact .pure rfl
  · exact .bind (htypes 1) fun _ => .pure rfl
  · exact .reject _
  · exact .bind (.u2 _) fun _ => .bind (htypes 1) fun _ => .pure rfl
  · exact .bind (.u2 _) fun _ => .pure rfl
  · exact .bind (.u2 _) fun _ => .pure rfl
  · exact .bind (.u2 _) fun _ => .bind (htypes _) fun _ => .pure rfl
  · exact .bind (.u2 _) fun _ => .bind (.u2 _) fun localCount => .bind (htypes localCount.toNat)
      fun _ => .bind (.u2 _) fun stackCount => .bind (htypes stackCount.toNat) fun _ => .pure rfl

theorem InnerClass.read_relocates : Relocates lo S id read read :=
  .bind (.u2 _) fun _ => .bind (.u2 _) fun _ => .bind (.u2 _) fun _ => .bind (.u2 _) fun _ =>
    .pure rfl

theorem LineNumber.read_relocates : Relocates lo S id read read :=
  .bind (.u2 _) fun _ => .bind (.u2 _) fun _ => .pure rfl

theorem LocalVariable.read_relocates : Relocates lo S id read read :=
  .bind (.u2 _) fun _ => .bind (.u2 _) fun _ => .bind (.u2 _) fun _ => .bind (.u2 _) fun _ =>
    .bind (.u2 _) fun _ => .pure rfl

theorem LocalVariable.readAll_relocates :
    Relocates lo S (List.map (Located.shift S.shift id)) readAll readAll :=
  readRows_relocates _ read_relocates

theorem BootstrapMethod.read_relocates : Relocates lo S id read read :=
  .bind (.u2 _) fun _ => .bind (readWords_relocates _) fun _ => .pure rfl

theorem MethodParameter.read_relocates : Relocates lo S id read read :=
  .bind (.u2 _) fun _ => .bind (.u2 _) fun _ => .pure rfl

theorem ModuleRequires.read_relocates : Relocates lo S id read read :=
  .bind (.u2 _) fun _ => .bind (.u2 _) fun _ => .bind (.u2 _) fun _ => .pure rfl

theorem ModuleExports.read_relocates (what : String) : Relocates lo S id (read what) (read what) :=
  .bind (.u2 _) fun _ => .bind (.u2 _) fun _ => .bind (readWords_relocates _) fun _ => .pure rfl

theorem ModuleProvides.read_relocates : Relocates lo S id read read :=
  .bind (.u2 _) fun _ => .bind (readWords_relocates _) fun _ => .pure rfl

theorem ModuleDeclaration.read_relocates : Relocates lo S (shift S.shift) read read :=
  .bind (.u2 _) fun _ => .bind (.u2 _) fun _ => .bind (.u2 _) fun _ =>
    .bind (readRows_relocates _ ModuleRequires.read_relocates) fun _ =>
    .bind (readRows_relocates _ (ModuleExports.read_relocates _)) fun _ =>
    .bind (readRows_relocates _ (ModuleExports.read_relocates _)) fun _ =>
    .bind (readWords_relocates _) fun _ =>
    .bind (readRows_relocates _ ModuleProvides.read_relocates) fun _ => .pure rfl

theorem ModuleHash.read_relocates : Relocates lo S id read read :=
  .bind (.u2 _) fun _ => .bind (.u2 _) fun size => .bind (.bytes _ size.toNat) fun _ => .pure rfl

/-! ## §3. Code. -/

theorem readAttributes_relocates {inner inner' : Decoder Attribute}
    (h : Relocates lo S (Attribute.shift S.shift) inner inner') :
    Relocates lo S (List.map (Attribute.shift S.shift)) (readAttributes inner)
      (readAttributes inner') :=
  .bind (.u2 _) fun count => .many count.toNat h

namespace Code

/-- A code array `p` bytes further on. -/
def shiftArray (p : Int) (array : Int × List UInt8 × Listing) : Int × List UInt8 × Listing :=
  (array.1 + p, array.2.1, array.2.2.shift p)

/-- Windows of `n` bytes that are twins hold the same bytes. -/
theorem slice_of_twins {n : Nat} {c₁ c₂ : Cursor} (h : Twins S (c₁.part n) (c₂.part n)) :
    (c₂.part n).slice n = (c₁.part n).slice n := by
  rw [Cursor.slice_eq_peek h.left, Cursor.slice_eq_peek h.right]
  exact Cursor.peek_congr h.left h.right n h.pos h.bytes

theorem array_relocates (disassemble : Bool) (n : Nat) :
    Relocates lo S (shiftArray S.shift) (window "code array" n >>= ofArray disassemble n)
      (window "code array" n >>= ofArray disassemble n) := by
  refine .window_bind ?_ ?_
  -- Code is listed as far as it goes, so no fault comes out of its window.
  · intro c _ _ _
    obtain ⟨listing, after, notices, hlist⟩ := Listing.read_eq_ok (c.part n)
    cases disassemble with
    | false =>
      refine ⟨rfl, ?_⟩
      intro fault hfault
      cases hfault
    | true =>
      rw [ofArray_listed hlist]
      refine ⟨rfl, ?_⟩
      intro fault hfault
      cases hfault
  · intro c₁ c₂ hlo htwins
    have hpos : c₂.pos = c₁.pos + S.shift := htwins.pos
    have hbytes := slice_of_twins htwins
    have hend : c₂.pos + n = c₁.pos + n + S.shift := by omega
    cases disassemble with
    | false =>
      rw [ofArray_unlisted, ofArray_unlisted, Outcome.moved_ok, hbytes, hend]
      simp only [Cursor.part_pos, hpos, shiftArray, Cursor.goto_pos, List.map_nil]
      rfl
    | true =>
      obtain ⟨listing, after, notices, hlist⟩ := Listing.read_eq_ok (c₁.part n)
      have hlist' := Listing.read_relocates.moves _ _ htwins hlo
      rw [hlist, Outcome.moved_ok] at hlist'
      rw [ofArray_listed hlist, ofArray_listed hlist', Outcome.moved_ok, hbytes, hend]
      simp only [Cursor.part_pos, hpos, shiftArray, Cursor.goto_pos]

theorem read_relocates (disassemble : Bool) {inner inner' : Decoder Attribute}
    (h : Relocates lo S (Attribute.shift S.shift) inner inner') :
    Relocates lo S (shift S.shift) (read disassemble inner) (read disassemble inner') := by
  rw [read_eq, read_eq]
  refine .bind (.u2 _) fun _ => .bind (.u2 _) fun _ => .bind (.u4 _) fun length =>
    .bind (array_relocates disassemble length.toNat) fun _ =>
    .bind (readRows_relocates _ ExceptionHandler.read_relocates) fun _ =>
    .bind (readAttributes_relocates h) fun _ => .pure ?_
  simp only [shift, Attribute.shiftAll_eq_map, shiftArray, id_eq]

end Code

/-! ## §4. Payloads. -/

theorem RecordComponent.read_relocates {inner inner' : Decoder Attribute}
    (h : Relocates lo S (Attribute.shift S.shift) inner inner') :
    Relocates lo S (shift S.shift) (read inner) (read inner') := by
  refine .bind .position fun start => .bind (.u2 _) fun _ => .bind (.u2 _) fun _ =>
    .bind (readAttributes_relocates h) fun _ => .bind (.spanFrom start) fun _ => .pure ?_
  simp only [shift, Attribute.shiftAll_eq_map, id_eq]

namespace Payload

theorem debugExtension_relocates {inner inner' : Decoder Attribute} (disassemble : Bool) :
    RelocatesWithin lo S (shift S.shift) (read disassemble inner .sourceDebugExtension)
      (read disassemble inner' .sourceDebugExtension) := by
  refine ⟨?_, ?_⟩
  · intro c hc _
    rw [read_debugExtension]
    refine ⟨c.stop, rfl, hc.2.1, Int.le_refl _, ?_⟩
    intro fault hfault
    cases hfault
  -- The payload is all of its window, and windows of twins have one length.
  · intro c₁ c₂ htwins _
    have hbound := htwins.left.2.1
    have hsize : c₁.remaining = (c₁.remaining.toNat : Int) := by
      simp only [Cursor.remaining]
      omega
    have hbytes : c₂.slice c₂.remaining = c₁.slice c₁.remaining := by
      rw [htwins.remaining, hsize, Cursor.slice_eq_peek htwins.left,
        Cursor.slice_eq_peek htwins.right]
      refine Cursor.peek_congr htwins.left htwins.right _ htwins.pos ?_
      intro i hi hin
      refine htwins.bytes i hi ?_
      simp only [Cursor.remaining] at hin
      omega
    rw [read_debugExtension, read_debugExtension, Outcome.moved_ok, hbytes, htwins.stop]
    rfl

theorem read_relocates (disassemble : Bool) {inner inner' : Decoder Attribute}
    (h : Relocates lo S (Attribute.shift S.shift) inner inner') (kind : AttributeKind) :
    RelocatesWithin lo S (shift S.shift) (read disassemble inner kind)
      (read disassemble inner' kind) := by
  cases kind
  case sourceDebugExtension => exact debugExtension_relocates disassemble
  -- All others depend on the bytes that they pass over, and not on where the window ends.
  all_goals apply Relocates.within
  case constantValue => exact .bind (.u2 _) fun _ => .pure rfl
  case code => exact .bind (Code.read_relocates disassemble h) fun _ => .pure rfl
  case stackMapTable =>
    exact .bind (readRows_relocates _ StackMapFrame.read_relocates) fun _ => .pure rfl
  case exceptions => exact .bind (readWords_relocates _) fun _ => .pure rfl
  case innerClasses =>
    exact .bind (readRows_relocates _ InnerClass.read_relocates) fun _ => .pure rfl
  case enclosingMethod => exact .bind (.u2 _) fun _ => .bind (.u2 _) fun _ => .pure rfl
  case synthetic => exact .pure rfl
  case deprecated => exact .pure rfl
  case signature => exact .bind (.u2 _) fun _ => .pure rfl
  case sourceFile => exact .bind (.u2 _) fun _ => .pure rfl
  case lineNumbers =>
    exact .bind (readRows_relocates _ LineNumber.read_relocates) fun _ => .pure rfl
  case localVariables => exact .bind LocalVariable.readAll_relocates fun _ => .pure rfl
  case localVariableTypes => exact .bind LocalVariable.readAll_relocates fun _ => .pure rfl
  case annotations => exact .bind Annotation.readAll_relocates fun _ => .pure rfl
  case parameterAnnotations => exact .bind Annotation.readParameters_relocates fun _ => .pure rfl
  case typeAnnotations => exact .bind TypeAnnotation.readAll_relocates fun _ => .pure rfl
  case annotationDefault => exact .bind ElementValue.read_relocates fun _ => .pure rfl
  case bootstrapMethods =>
    exact .bind (readRows_relocates _ BootstrapMethod.read_relocates) fun _ => .pure rfl
  case methodParameters =>
    exact .bind (.u1 _) fun count =>
      .bind (.many count.toNat (.located MethodParameter.read_relocates)) fun _ => .pure rfl
  case moduleDeclaration => exact .bind ModuleDeclaration.read_relocates fun _ => .pure rfl
  case modulePackages => exact .bind (readWords_relocates _) fun _ => .pure rfl
  case moduleMainClass => exact .bind (.u2 _) fun _ => .pure rfl
  case moduleHashes =>
    exact .bind (.u2 _) fun _ =>
      .bind (readRows_relocates _ ModuleHash.read_relocates) fun _ => .pure rfl
  case moduleTarget => exact .bind (.u2 _) fun _ => .pure rfl
  case moduleResolution => exact .bind (.u2 _) fun _ => .pure rfl
  case nestHost => exact .bind (.u2 _) fun _ => .pure rfl
  case nestMembers => exact .bind (readWords_relocates _) fun _ => .pure rfl
  case recordComponents =>
    refine .bind (.u2 _) fun count =>
      .bind (.many count.toNat (RecordComponent.read_relocates h)) fun _ => .pure ?_
    simp only [shift, RecordComponent.shiftAll_eq_map]
  case permittedSubclasses => exact .bind (readWords_relocates _) fun _ => .pure rfl

end Payload

/-! ## §5. Envelopes. -/

namespace Attribute

/-- A payload is never blamed for a lack of bytes, and only for places inside its window. -/
theorem concluded_fault {name : String} {start : Int} {declared : UInt32} {o : Outcome Payload}
    {c : Cursor} {lo hi : Int}
    (ho : ∀ fault, o.result = .error fault → fault.Within lo o.cursor.pos)
    (hhi : o.cursor.pos ≤ hi) {fault : Fault}
    (h : (concluded name start declared o c).result = .error fault) :
    ∃ cause offset, fault = .malformed cause offset ∧ lo ≤ offset ∧ offset ≤ hi := by
  rcases o with ⟨(⟨what, size, left, offset⟩ | ⟨cause, offset⟩ | _) | payload, after, notices⟩
  -- A lack of bytes in the window makes a malformed payload.
  · cases h
    obtain ⟨hlo, hoffset⟩ := ho _ rfl
    simp only at hoffset hhi
    exact ⟨_, offset, rfl, hlo, by omega⟩
  · cases h
    obtain ⟨hlo, hoffset⟩ := ho _ rfl
    exact ⟨cause, offset, rfl, hlo, Int.le_trans hoffset hhi⟩
  · exact absurd (ho _ rfl) id
  · cases h

/-- What comes of a payload does not depend on where it stands. -/
theorem concluded_moved {name : String} {start : Int} {declared : UInt32} {o : Outcome Payload}
    {w₁ w₂ : Cursor} {p q : Int} {f : Payload → Payload} (hcursor : o.cursor = w₁.goto q)
    (hstop : w₂.stop = w₁.stop + p) (c₁ c₂ : Cursor) :
    concluded name (start + p) declared (o.moved p f w₂) (c₂.goto (c₁.pos + p)) =
      (concluded name start declared o c₁).moved p f c₂ := by
  rcases o with ⟨(⟨what, size, left, offset⟩ | ⟨cause, offset⟩ | _) | payload, after, notices⟩
  · rfl
  · rfl
  · rfl
  · simp only at hcursor
    subst hcursor
    have hleft : (w₂.goto (q + p)).remaining = (w₁.goto q).remaining := by
      simp only [Cursor.remaining, Cursor.goto_stop, Cursor.goto_pos]
      omega
    simp only [Outcome.moved_ok, concluded, Cursor.goto_pos, Cursor.atEnd_congr hleft, hleft,
      List.map_append]
    split <;> rfl

theorem readPayload_relocates {name : String} {start : Int} {declared : UInt32} {what : String}
    {n : Nat} {f : Payload → Payload} {payload payload' : Decoder Payload}
    (h : ∀ lo, RelocatesWithin lo S f payload payload') :
    Relocates lo S f (window what n >>= readPayload payload name start declared)
      (window what n >>= readPayload payload' name (start + S.shift) declared) := by
  refine .window_bind ?_ ?_
  · intro c hc hlo henough
    have hwindow : (c.part n).InBounds := hc.part (by omega) henough
    -- The payload blames places from the start of its own window on.
    obtain ⟨q, hq, hle, hstop, hfault⟩ := (h c.pos).orderly (c.part n) hwindow (Int.le_refl _)
    rw [readPayload_apply]
    refine ⟨concluded_cursor .., ?_⟩
    intro fault hresult
    rw [← show (payload (c.part n)).cursor.pos = q by rw [hq]; rfl] at hfault hstop
    obtain ⟨cause, offset, rfl, hle', hoffset⟩ := concluded_fault hfault hstop hresult
    exact ⟨cause, offset, rfl, Int.le_trans hlo hle', hoffset⟩
  · intro c₁ c₂ hlo htwins
    obtain ⟨q, hq, -⟩ := (h lo).orderly (c₁.part n) htwins.left hlo
    have hpos : c₂.pos = c₁.pos + S.shift := htwins.pos
    have hend : c₂.pos + n = (c₁.goto (c₁.pos + n)).pos + S.shift := by
      show c₂.pos + n = c₁.pos + n + S.shift
      omega
    rw [readPayload_apply, readPayload_apply, (h lo).moves _ _ htwins hlo, hend]
    exact concluded_moved hq htwins.stop _ _

theorem keepRaw_relocates (what : String) (n : Nat) (why : Notice) :
    Relocates lo S (Payload.shift S.shift) (window what n >>= keepRaw why)
      (window what n >>= keepRaw (why.shift S.shift)) := by
  rw [window_keepRaw, window_keepRaw]
  exact .bind (.bytes what n) fun _ => .bind (.notice why) fun _ => .pure rfl

theorem readEnclosed_relocates (name : Option String) (start : Int) (nameIndex : UInt16)
    (declared : UInt32) {payload payload' : AttributeKind → Decoder Payload}
    (h : ∀ kind lo, RelocatesWithin lo S (Payload.shift S.shift) (payload kind) (payload' kind)) :
    Relocates lo S (Payload.shift S.shift) (readEnclosed name payload start nameIndex declared)
      (readEnclosed name payload' (start + S.shift) nameIndex declared) := by
  unfold readEnclosed
  cases name with
  | none => exact keepRaw_relocates _ _ _
  | some name =>
    dsimp only
    cases AttributeKind.ofName? name with
    | none => exact keepRaw_relocates _ _ _
    | some kind => exact readPayload_relocates (h kind)

/-- An attribute takes bytes for its name before it turns to the attributes inside it. -/
theorem body_relocates (pool : Pool) (disassemble : Bool) {inner inner' : Decoder Attribute}
    (h : ∀ lo, Relocates lo S (shift S.shift) inner inner') :
    Relocates lo (S.more 1) (shift S.shift) (body pool disassemble inner)
      (body pool disassemble inner') := by
  have hpayload : ∀ kind lo, RelocatesWithin lo S (Payload.shift S.shift)
      (Payload.read disassemble inner kind) (Payload.read disassemble inner' kind) :=
    fun kind lo => Payload.read_relocates disassemble (h lo) kind
  rw [body_eq, body_eq]
  exact .bind .position fun start => .u2_bind _ fun nameIndex => .bind (.u4 _) fun declared =>
    .bind (readEnclosed_relocates _ start nameIndex declared hpayload) fun _ => .pure rfl

theorem read_relocates (pool : Pool) (disassemble : Bool) :
    Relocates lo S (shift S.shift) (read pool disassemble) (read pool disassemble) :=
  .fix fun _ _ _ _ h _ => body_relocates pool disassemble h

theorem readAll_relocates (pool : Pool) (disassemble : Bool) :
    Relocates lo S (List.map (shift S.shift)) (readAll pool disassemble)
      (readAll pool disassemble) :=
  readAttributes_relocates (read_relocates pool disassemble)

end Attribute

end JavaClass
