/-
  JavaClass.Proofs.Image.Tiling — where the parts of a class stand.

  Every part of a class records where it starts and how long it is.  `decode_tiles` says that these
  records agree with each other, from the first constant to the last byte: constants, fields, methods
  and attributes stand one behind the other, with nothing but their counts and the fixed parts of the
  class between them, and the same holds inside members and attributes.
-/
import JavaClass.Proofs.Attribute.Tiling
import JavaClass.Proofs.Constant.Layout
import JavaClass.Proofs.Image.Isolation

namespace JavaClass

open Decoder

variable {p : Int}

/-! ## §1. Members. -/

namespace Member

/-- The member takes up the bytes from `p` on, and its attributes those behind the first eight. -/
def Settled (p : Int) (m : Member) (bytes : List UInt8) : Prop :=
  m.span = ⟨p, bytes.length⟩ ∧ m.span.Encloses 8 m.attributes ∧ ∀ b ∈ m.family, b.Tiled

theorem readWith_settles (pool : Pool) (disassemble : Bool)
    (declare : UInt16 → String → Option String → List Attribute → String) (p : Int) :
    (readWith pool disassemble declare).YieldsAt p (Settled p) := by
  refine .position_bind ((u2_yieldsAt _).bind fun access b₁ h₁ => (u2_yieldsAt _).bind
    fun nameIndex b₂ h₂ => (u2_yieldsAt _).bind fun descriptorIndex b₃ h₃ =>
    (Attribute.readAll_settles pool disassemble _).bind fun attributes b₄ h₄ =>
    .spanFrom_bind (n := (b₁ ++ (b₂ ++ (b₃ ++ b₄))).length) ?_ (.pure ?_))
  · simp only [List.length_append]
    omega
  · obtain ⟨htiles, hfamily⟩ := h₄
    have e₁ : b₁.length = 2 := by rw [h₁, Serial.length_u2]
    have e₂ : b₂.length = 2 := by rw [h₂, Serial.length_u2]
    have e₃ : b₃.length = 2 := by rw [h₃, Serial.length_u2]
    refine ⟨by rw [List.append_nil], .of_tiles (htiles.cast ?_ ?_), hfamily⟩
    · omega
    · simp only [List.length_append]
      omega

/-- Members that are read one behind the other. -/
theorem series_settled {members : List Member} {content : List UInt8}
    (h : Series Settled p members content) :
    Tiles span p members (p + content.length) ∧
      (∀ m ∈ members, m.span.Encloses 8 m.attributes) ∧
      ∀ b ∈ members.flatMap family, b.Tiled := by
  refine ⟨.of_series (fun _ _ _ hm => hm.1) h, h.all fun _ _ _ hm => hm.2.1, ?_⟩
  intro b hb
  obtain ⟨m, hm, hb⟩ := List.mem_flatMap.mp hb
  exact h.all (fun _ _ _ hm => hm.2.2) m hm b hb

end Member

/-! ## §2. Head and body. -/

namespace Image

theorem readMagic_length : readMagic.YieldsAt p fun _ bytes => bytes.length = 4 := by
  refine .position_bind ((u4_yieldsAt _).bind fun found b₁ h₁ => ?_)
  have hlength : b₁.length = 4 := by rw [h₁, Serial.length_u4]
  split
  · exact .pure (by rw [List.append_nil, hlength])
  · exact .reject _ _

/-- The constants of a class stand behind its first ten bytes. -/
theorem readHead_settles :
    readHead.YieldsAt 0 fun head bytes =>
      head.span = ⟨10, bytes.length - 10⟩ ∧
        ∀ descriptions, (⟨head.span, head.slots, descriptions⟩ : Pool).Tiled := by
  refine readMagic_length.bind fun _ b₁ h₁ => (u2_yieldsAt _).bind fun minor b₂ h₂ =>
    (u2_yieldsAt _).bind fun major b₃ h₃ => (u2_yieldsAt _).bind fun count b₄ h₄ => ?_
  have hstart : (0 : Int) + b₁.length + b₂.length + b₃.length + b₄.length = 10 := by
    simp only [h₁, h₂, h₃, h₄, Serial.length_u2]
    rfl
  rw [hstart]
  refine .position_bind ((Slots.readAll_settles _ _).bind fun slots b₅ h₅ =>
    .spanFrom_bind rfl (.pure ?_))
  obtain ⟨more, hslots, -, hseries⟩ := h₅
  refine ⟨?_, fun _ => .of_series hslots rfl hseries⟩
  simp only [List.length_append, List.length_nil, Span.mk.injEq, true_and]
  omega

/-- The members and attributes of a class stand one behind the other. -/
structure Body.Tiled (p hi : Int) (b : Body) : Prop where
  parts : ∃ fieldsEnd methodsEnd,
    Tiles Member.span (p + 8 + 2 * b.interfaces.length + 2) b.fields fieldsEnd ∧
    Tiles Member.span (fieldsEnd + 2) b.methods methodsEnd ∧
    Tiles Attribute.span (methodsEnd + 2) b.attributes hi
  members : ∀ m ∈ b.fields ++ b.methods, m.span.Encloses 8 m.attributes
  family : ∀ a ∈ b.family, a.Tiled

theorem readBody_settles (pool : Pool) (disassemble : Bool) (p : Int) :
    (readBody pool disassemble).YieldsAt p fun body bytes => body.Tiled p (p + bytes.length) := by
  refine (u2_yieldsAt _).bind fun access b₁ h₁ => (u2_yieldsAt _).bind fun thisClass b₂ h₂ =>
    (u2_yieldsAt _).bind fun superClass b₃ h₃ => (u2_yieldsAt _).bind fun count b₄ h₄ =>
    (YieldsAt.many count.toNat (fun _ => u2_yieldsAt _) _).bind fun interfaces b₅ h₅ =>
    (u2_yieldsAt _).bind fun fieldCount b₆ h₆ =>
    (YieldsAt.many _ (Member.readWith_settles pool disassemble _) _).bind fun fields b₇ h₇ =>
    (u2_yieldsAt _).bind fun methodCount b₈ h₈ =>
    (YieldsAt.many _ (Member.readWith_settles pool disassemble _) _).bind fun methods b₉ h₉ =>
    (Attribute.readAll_settles pool disassemble _).bind fun attributes b₁₀ h₁₀ => .pure ?_
  obtain ⟨htiles₇, hmembers₇, hfamily₇⟩ := Member.series_settled h₇.2
  obtain ⟨htiles₉, hmembers₉, hfamily₉⟩ := Member.series_settled h₉.2
  -- What is not a member or an attribute has a length that its count decides.
  have hinterfaces : b₅.length = 2 * interfaces.length :=
    h₅.2.length_eq fun _ _ _ h => by rw [h, Serial.length_u2]
  have hfixed : b₁.length + b₂.length + b₃.length + b₄.length = 8 := by
    rw [h₁, h₂, h₃, h₄]
    rfl
  have e₆ : b₆.length = 2 := by rw [h₆, Serial.length_u2]
  have e₈ : b₈.length = 2 := by rw [h₈, Serial.length_u2]
  refine ⟨⟨_, _, htiles₇.cast ?_ rfl, htiles₉.cast (by rw [e₈]; rfl) rfl, h₁₀.1.cast rfl ?_⟩, ?_, ?_⟩
  · show p + b₁.length + b₂.length + b₃.length + b₄.length + b₅.length + b₆.length =
      p + 8 + 2 * (interfaces.length : Int) + 2
    omega
  · simp only [List.length_append, List.length_nil]
    omega
  · intro m hm
    obtain hm | hm := List.mem_append.mp hm
    · exact hmembers₇ m hm
    · exact hmembers₉ m hm
  · intro a ha
    obtain ha | ha := List.mem_append.mp ha
    · exact hfamily₇ a ha
    obtain ha | ha := List.mem_append.mp ha
    · exact hfamily₉ a ha
    · exact h₁₀.2 a ha

/-! ## §3. Classes. -/

/-- All parts of a class that decodes stand where its other parts leave room for them.

    The constants take up the place of the pool, which starts at 10, in the order of their numbers.
    Behind them stand eight fixed bytes, the interfaces, and fields, methods and attributes, each
    behind a count of two bytes, up to the end of the class.  A member is eight bytes long without
    its attributes, which take up the rest of it.  Every attribute, also inside others, is six bytes
    longer than it declares, and what it consists of stands inside it in the same way. -/
theorem decode_tiles (data : Array UInt8) (disassemble : Bool) (m : Image)
    (h : (decode data disassemble).result = .ok m) :
    m.pool.span.start = 10 ∧ m.pool.Tiled ∧
    (∃ fieldsEnd methodsEnd,
      Tiles Member.span (10 + m.pool.span.length + 8 + 2 * m.interfaces.length + 2) m.fields
        fieldsEnd ∧
      Tiles Member.span (fieldsEnd + 2) m.methods methodsEnd ∧
      Tiles Attribute.span (methodsEnd + 2) m.attributes m.length) ∧
    (∀ member ∈ m.fields ++ m.methods, member.span.Encloses 8 member.attributes) ∧
    ∀ a ∈ m.family, a.length = 6 + a.declared.toNat ∧ a.Tiled := by
  obtain ⟨st, rfl⟩ := staged_of_decode h
  have hin := Cursor.InBounds.ofBytes data
  have hin' := hin.goto st.headStart_le (Int.le_trans st.headEnd_le st.bodyEnd_le)
  obtain ⟨headBytes, hhead, -, -, hspan, hpool⟩ := readHead_settles.of_run hin st.readHead_eq
  obtain ⟨bodyBytes, hbody, -, -, htiled⟩ := (readBody_settles _ _ _).of_run hin' st.readBody_eq
  have hheadEnd : st.headEnd = 0 + headBytes.length := congrArg Cursor.pos hhead
  have hbodyEnd : st.bodyEnd = st.headEnd + bodyBytes.length := congrArg Cursor.pos hbody
  obtain ⟨fieldsEnd, methodsEnd, hfields, hmethods, hattributes⟩ := htiled.parts
  refine ⟨congrArg Span.start hspan, hpool _, ⟨fieldsEnd, methodsEnd, hfields.cast ?_ rfl, hmethods,
    hattributes.cast rfl hbodyEnd.symm⟩, htiled.members, fun a ha => ⟨rfl, htiled.family a ha⟩⟩
  -- The body starts where the pool ends.
  have hstart : st.headEnd = 10 + st.head.span.length := by
    rw [hspan]
    show st.headEnd = 10 + (headBytes.length - 10 : Int)
    omega
  show st.headEnd + 8 + 2 * st.body.interfaces.length + 2 = _
  rw [hstart]
  rfl

theorem specimen_tiles :
    ∃ m, (decode specimen true).result = .ok m ∧ m.pool.span.start = 10 ∧ m.pool.Tiled ∧
      (∃ fieldsEnd methodsEnd,
        Tiles Member.span (10 + m.pool.span.length + 8 + 2 * m.interfaces.length + 2) m.fields
          fieldsEnd ∧
        Tiles Member.span (fieldsEnd + 2) m.methods methodsEnd ∧
        Tiles Attribute.span (methodsEnd + 2) m.attributes 91) ∧
      (∀ member ∈ m.fields ++ m.methods, member.span.Encloses 8 member.attributes) ∧
      ∀ a ∈ m.family, a.length = 6 + a.declared.toNat ∧ a.Tiled := by
  obtain ⟨m, hm, hlength⟩ := specimen_decodes
  have htiles := decode_tiles specimen true m hm
  rw [hlength] at htiles
  exact ⟨m, hm, htiles⟩

end Image

end JavaClass
