/-
  JavaClass.Proofs.Attribute.Tiling — where the parts of attributes stand.

  An attribute records where it starts and what length it declares; the structures inside it record
  places of their own.  All of them agree: the attributes in a list stand one behind the other, and so
  do those in code and in the components of a record, at any depth (`Payload.Tiled`).  Only the last
  of them may end before the attribute around it does.
-/
import JavaClass.Proofs.Attribute.Isolation
import JavaClass.Proofs.Serial.Account

namespace JavaClass

open Decoder

/-! ## §1. Attributes in a place. -/

/-- A place whose first `header` bytes are followed by attributes up to its end. -/
def Span.Encloses (header : Int) (attributes : List Attribute) (s : Span) : Prop :=
  s.length = header + Span.total Attribute.span attributes ∧
    Tiles Attribute.span (s.start + header) attributes (s.start + s.length)

theorem Span.Encloses.of_tiles {header length start : Int} {attributes : List Attribute}
    (h : Tiles Attribute.span (start + header) attributes (start + length)) :
    Span.Encloses header attributes ⟨start, length⟩ := by
  have hend := h.end_eq
  refine ⟨?_, h⟩
  show length = header + Span.total Attribute.span attributes
  omega

/-- The parts of a payload that takes up the bytes from `lo` to `hi`, or fewer, stand one behind the
    other. -/
def Payload.Tiled (lo hi : Int) : Payload → Prop
  | .code body =>
    body.start = lo + 8 ∧ ∃ stop ≤ hi,
      Tiles Attribute.span (body.start + body.length.toNat + 2 + 8 * body.handlers.length + 2)
        body.attributes stop
  | .recordComponents components =>
    (∃ stop ≤ hi, Tiles RecordComponent.span (lo + 2) components stop) ∧
      ∀ component ∈ components, component.span.Encloses 6 component.attributes
  | _ => True

/-- The payload of an attribute stands inside it. -/
def Attribute.Tiled (a : Attribute) : Prop := a.payload.Tiled a.payloadStart (a.start + a.length)

theorem Payload.Tiled.mono {lo hi hi' : Int} {payload : Payload} (h : payload.Tiled lo hi)
    (hle : hi ≤ hi') : payload.Tiled lo hi' := by
  cases payload with
  | code body =>
    obtain ⟨hstart, stop, hstop, htiles⟩ := h
    exact ⟨hstart, stop, Int.le_trans hstop hle, htiles⟩
  | recordComponents components =>
    obtain ⟨⟨stop, hstop, htiles⟩, hcomponents⟩ := h
    exact ⟨⟨stop, Int.le_trans hstop hle, htiles⟩, hcomponents⟩
  | _ => trivial

/-! ## §2. Payloads. -/

/-- The attribute takes up the bytes from `p` on, and all attributes of its family are in order. -/
def Attribute.Settled (p : Int) (a : Attribute) (bytes : List UInt8) : Prop :=
  a.span = ⟨p, bytes.length⟩ ∧ ∀ b ∈ a.family, b.Tiled

variable {p : Int} {inner : Decoder Attribute}

theorem readAttributes_settles (h : ∀ p, inner.YieldsAt p (Attribute.Settled p)) (p : Int) :
    (readAttributes inner).YieldsAt p fun attributes bytes =>
      Tiles Attribute.span (p + 2) attributes (p + bytes.length) ∧
        ∀ b ∈ Attribute.familyAll attributes, b.Tiled := by
  refine (u2_yieldsAt _).bind fun count first hfirst => (YieldsAt.many count.toNat h _).mono ?_
  rintro attributes bytes ⟨-, hseries⟩
  have htiles : Tiles Attribute.span _ attributes _ := .of_series (fun _ _ _ ha => ha.1) hseries
  refine ⟨htiles.cast (by rw [hfirst, Serial.length_u2]; rfl) ?_, ?_⟩
  · rw [List.length_append]
    omega
  rw [Attribute.familyAll_eq_flatMap]
  intro b hb
  obtain ⟨a, ha, hb⟩ := List.mem_flatMap.mp hb
  exact hseries.all (fun _ _ _ ha => ha.2) a ha b hb

/-- Whatever is kept of a code array, nothing more is read for it. -/
theorem Code.ofArray_eq (disassemble : Bool) (n : Nat) (w c : Cursor) :
    ∃ listing notices,
      ofArray disassemble n w c = ⟨.ok (w.pos, w.slice n, listing), c, notices⟩ := by
  cases disassemble with
  | false => exact ⟨_, _, ofArray_unlisted n w c⟩
  | true =>
    obtain ⟨listing, after, notices, hrun⟩ := Listing.read_eq_ok w
    exact ⟨listing, notices, ofArray_listed hrun c⟩

/-- A code array is where its window is. -/
theorem Code.array_yieldsAt (disassemble : Bool) (n : Nat) :
    (window "code array" n >>= ofArray disassemble n).YieldsAt p fun array bytes =>
      array.1 = p ∧ bytes.length = n := by
  intro c hc hpos array hresult
  by_cases hshort : c.stop < c.pos + n
  · rw [window_bind_of_short hshort] at hresult
    cases hresult
  · have hfits : c.pos + n ≤ c.stop := by omega
    obtain ⟨listing, notices, hrun⟩ := ofArray_eq disassemble n (c.part n) (c.goto (c.pos + n))
    rw [window_bind_of_enough hfits, hrun] at hresult ⊢
    obtain rfl := Except.ok.inj hresult
    subst hpos
    exact ⟨n, rfl, hfits, rfl, Cursor.length_peek hc hfits⟩

theorem ExceptionHandler.read_yieldsAt :
    ExceptionHandler.read.YieldsAt p fun _ bytes => bytes.length = 8 := by
  refine (u2_yieldsAt _).bind fun _ _ h₁ => (u2_yieldsAt _).bind fun _ _ h₂ =>
    (u2_yieldsAt _).bind fun _ _ h₃ => (u2_yieldsAt _).bind fun _ _ h₄ => .pure ?_
  simp only [h₁, h₂, h₃, h₄, List.length_append, Serial.length_u2, List.length_nil]

theorem ExceptionHandler.readRows_yieldsAt (what : String) :
    (readRows what ExceptionHandler.read).YieldsAt p fun handlers bytes =>
      bytes.length = 2 + 8 * handlers.length := by
  refine (u2_yieldsAt _).bind fun count first hfirst =>
    (YieldsAt.many count.toNat (fun _ => read_yieldsAt.located) _).mono ?_
  rintro handlers bytes ⟨-, hseries⟩
  rw [List.length_append, hfirst, Serial.length_u2, hseries.length_eq fun _ _ _ h => h.2]

/-- The attributes of code stand behind its handlers. -/
theorem Code.read_settles (disassemble : Bool) (h : ∀ p, inner.YieldsAt p (Attribute.Settled p))
    (p : Int) :
    (Code.read disassemble inner).YieldsAt p fun code bytes =>
      code.start = p + 8 ∧
      Tiles Attribute.span (code.start + code.length.toNat + 2 + 8 * code.handlers.length + 2)
        code.attributes (p + bytes.length) ∧
      ∀ b ∈ code.family, b.Tiled := by
  rw [Code.read_eq]
  refine (u2_yieldsAt _).bind fun maxStack b₁ h₁ => (u2_yieldsAt _).bind fun maxLocals b₂ h₂ =>
    (u4_yieldsAt _).bind fun length b₃ h₃ =>
    (array_yieldsAt disassemble length.toNat).bind fun array b₄ h₄ =>
    (ExceptionHandler.readRows_yieldsAt _).bind fun handlers b₅ h₅ =>
    (readAttributes_settles h _).bind fun attributes b₆ h₆ => .pure ?_
  obtain ⟨hstart, hlength⟩ := h₄
  obtain ⟨htiles, hfamily⟩ := h₆
  -- All that stands before the attributes has a length that is known.
  have e₁ : b₁.length = 2 := by rw [h₁, Serial.length_u2]
  have e₂ : b₂.length = 2 := by rw [h₂, Serial.length_u2]
  have e₃ : b₃.length = 4 := by rw [h₃, Serial.length_u4]
  dsimp only
  refine ⟨by omega, htiles.cast ?_ ?_, ?_⟩
  · omega
  · simp only [List.length_append, List.length_nil]
    omega
  · rw [Code.family]
    exact hfamily

/-- A component takes up its six bytes and its attributes. -/
theorem RecordComponent.read_settles (h : ∀ p, inner.YieldsAt p (Attribute.Settled p)) (p : Int) :
    (RecordComponent.read inner).YieldsAt p fun component bytes =>
      component.span = ⟨p, bytes.length⟩ ∧ component.span.Encloses 6 component.attributes ∧
        ∀ b ∈ component.family, b.Tiled := by
  refine .position_bind ((u2_yieldsAt _).bind fun name b₁ h₁ => (u2_yieldsAt _).bind
    fun descriptor b₂ h₂ => (readAttributes_settles h _).bind fun attributes b₃ h₃ =>
    .spanFrom_bind (n := (b₁ ++ (b₂ ++ b₃)).length) ?_ (.pure ?_))
  · simp only [List.length_append]
    omega
  · obtain ⟨htiles, hfamily⟩ := h₃
    have e₁ : b₁.length = 2 := by rw [h₁, Serial.length_u2]
    have e₂ : b₂.length = 2 := by rw [h₂, Serial.length_u2]
    refine ⟨by rw [List.append_nil], .of_tiles (htiles.cast ?_ ?_), ?_⟩
    · omega
    · simp only [List.length_append]
      omega
    · rw [RecordComponent.family]
      exact hfamily

namespace Payload

/-- Only code and records have parts that can stand somewhere else. -/
theorem read_tiled (disassemble : Bool) {kind : AttributeKind} (hcode : kind ≠ .code)
    (hrecord : kind ≠ .recordComponents) :
    (read disassemble inner kind).Always fun payload => ∀ lo hi, payload.Tiled lo hi := by
  intro w payload hresult lo hi
  have hplain := read_plain disassemble inner hcode hrecord w payload hresult
  cases payload with
  | code | recordComponents => exact absurd hplain id
  | _ => trivial

/-- Parts as far as a payload is read are parts inside its window. -/
theorem settled_in_window {d : Decoder Payload} {w : Cursor} (hw : w.InBounds) {payload : Payload}
    (h : d.YieldsAt w.pos fun payload bytes =>
      payload.Tiled w.pos (w.pos + bytes.length) ∧ ∀ b ∈ payload.family, b.Tiled)
    (hresult : (d w).result = .ok payload) :
    payload.Tiled w.pos w.stop ∧ ∀ b ∈ payload.family, b.Tiled := by
  obtain ⟨n, -, hstop, htiled, hfamily⟩ := h w hw rfl payload hresult
  refine ⟨htiled.mono ?_, hfamily⟩
  rw [Cursor.length_peek hw hstop]
  exact hstop

/-- A payload that is read in a window has its parts in that window. -/
theorem read_settles (disassemble : Bool) (h : ∀ p, inner.YieldsAt p (Attribute.Settled p))
    (kind : AttributeKind) {w : Cursor} (hw : w.InBounds) {payload : Payload}
    (hresult : (read disassemble inner kind w).result = .ok payload) :
    payload.Tiled w.pos w.stop ∧ ∀ b ∈ payload.family, b.Tiled := by
  by_cases hcode : kind = .code
  -- Code has attributes behind its handlers.
  · subst hcode
    refine settled_in_window hw ((Code.read_settles disassemble h _).bind ?_) hresult
    rintro code bytes ⟨hstart, htiles, hfamily⟩
    refine .pure ?_
    rw [List.append_nil, family]
    exact ⟨⟨hstart, _, Int.le_refl _, htiles⟩, hfamily⟩
  by_cases hrecord : kind = .recordComponents
  -- A record has components behind their count.
  · subst hrecord
    refine settled_in_window hw ((u2_yieldsAt _).bind fun count first hfirst =>
      (YieldsAt.many count.toNat (RecordComponent.read_settles h) _).bind ?_) hresult
    rintro components bytes ⟨-, hseries⟩
    have htiles : Tiles RecordComponent.span _ components _ :=
      .of_series (fun _ _ _ hc => hc.1) hseries
    refine .pure ?_
    rw [family, RecordComponent.familyAll_eq_flatMap]
    refine ⟨⟨⟨_, Int.le_refl _, htiles.cast (by rw [hfirst, Serial.length_u2]; rfl) ?_⟩,
      hseries.all fun _ _ _ hc => hc.2.1⟩, ?_⟩
    · simp only [List.length_append, List.length_nil]
      omega
    · intro b hb
      obtain ⟨component, hmem, hb⟩ := List.mem_flatMap.mp hb
      exact hseries.all (fun _ _ _ hc => hc.2.2) component hmem b hb
  · refine ⟨read_tiled disassemble hcode hrecord w payload hresult _ _, ?_⟩
    rw [read_childless disassemble hcode hrecord w payload hresult]
    intro b hb
    cases hb

end Payload

/-! ## §3. Attributes. -/

namespace Attribute

/-- What is enclosed fills its window, and has its parts in it. -/
theorem readEnclosed_settles_in (disassemble : Bool) (h : ∀ p, inner.YieldsAt p (Settled p))
    (name : Option String) (start : Int) (nameIndex : UInt16) (declared : UInt32) (p : Int) :
    (readEnclosed name (Payload.read disassemble inner) start nameIndex declared).YieldsAt p
      fun payload bytes => bytes.length = declared.toNat ∧
        payload.Tiled p (p + declared.toNat) ∧ ∀ b ∈ payload.family, b.Tiled := by
  intro c hc hpos payload hresult
  by_cases hshort : c.stop < c.pos + declared.toNat
  · rw [readEnclosed_of_short _ _ _ _ _ hshort] at hresult
    cases hresult
  have hfits : c.pos + declared.toNat ≤ c.stop := by omega
  subst hpos
  -- The payload is kept as it is, or it is read in a window of the declared length.
  obtain ⟨content, notices, hraw⟩ | ⟨label, kind, hall⟩ :=
    readEnclosed_of_enough name (Payload.read disassemble inner) start nameIndex declared hfits
  · rw [hraw] at hresult ⊢
    obtain rfl : Payload.raw content = payload := Except.ok.inj hresult
    refine ⟨declared.toNat, rfl, hfits, Cursor.length_peek hc hfits, trivial, ?_⟩
    simp only [Payload.family]
    intro b hb
    cases hb
  · have hrun := hall c hfits
    rw [hrun] at hresult ⊢
    have hsettled := Payload.read_settles disassemble h kind (hc.part (by omega) hfits)
      (concluded_ok hresult)
    exact ⟨declared.toNat, concluded_cursor _ _ _ _ _, hfits, Cursor.length_peek hc hfits, hsettled⟩

theorem body_settles (pool : Pool) (disassemble : Bool) (h : ∀ p, inner.YieldsAt p (Settled p))
    (p : Int) : (body pool disassemble inner).YieldsAt p (Settled p) := by
  rw [body_eq]
  refine .position_bind ((u2_yieldsAt _).bind fun nameIndex b₁ h₁ => (u4_yieldsAt _).bind
    fun declared b₂ h₂ => (readEnclosed_settles_in disassemble h _ _ _ _ _).bind
    fun payload b₃ h₃ => .pure ?_)
  obtain ⟨hlength, htiled, hfamily⟩ := h₃
  have e₁ : b₁.length = 2 := by rw [h₁, Serial.length_u2]
  have e₂ : b₂.length = 4 := by rw [h₂, Serial.length_u4]
  have hstart : p + b₁.length + b₂.length = p + 6 := by omega
  refine ⟨?_, ?_⟩
  · show (⟨p, 6 + declared.toNat⟩ : Span) = _
    simp only [List.length_append, List.length_nil]
    congr 1
    omega
  · rw [family_eq]
    intro b hb
    obtain rfl | hb := List.mem_cons.mp hb
    · show payload.Tiled (p + 6) (p + (6 + declared.toNat))
      rw [hstart, Int.add_assoc] at htiled
      exact htiled
    · exact hfamily b hb

/-- An attribute takes up the bytes that it says, and all attributes of its family have their parts
    in order: by induction on the depth to which the structure is unrolled. -/
theorem read_settles (pool : Pool) (disassemble : Bool) (p : Int) :
    (read pool disassemble).YieldsAt p (Settled p) :=
  YieldsAt.fix (fun _ h p => body_settles pool disassemble h p) p

theorem readAll_settles (pool : Pool) (disassemble : Bool) (p : Int) :
    (readAll pool disassemble).YieldsAt p fun attributes bytes =>
      Tiles span (p + 2) attributes (p + bytes.length) ∧ ∀ b ∈ familyAll attributes, b.Tiled :=
  readAttributes_settles (read_settles pool disassemble) p

end Attribute

end JavaClass
