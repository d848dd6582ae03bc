/-
  JavaClass.Proofs.Image.Isolation — damage to one attribute of a class.

  Change bytes inside the payload of one attribute of a class, and decode it again.  The class comes
  out as it was except for that payload, or the payload is reported as malformed, at a place inside
  it (`Image.decode_isolates_payload`).  No damage makes the data look cut, moves what follows, or
  reaches the constants.

  One thing outside a payload is made from it: the declaration of a method names what its attribute
  "Exceptions" lists.  It is blanked together with that attribute (`Member.maskMethod`).
-/
import JavaClass.Proofs.Attribute.Isolation
import JavaClass.Proofs.Image.Stages

namespace JavaClass

open Decoder Damage

variable {D : Damage} {k : Nat}

/-! ## §1. Members. -/

namespace Attribute

/-- The attribute starts at `place`, and lists what a method throws. -/
def throwsAt (place : Int) (a : Attribute) : Bool := a.start = place ∧ a.name = some "Exceptions"

theorem mask_start (place : Int) (a : Attribute) : (a.mask place).start = a.start := by
  cases a
  rw [mask]

theorem mask_name (place : Int) (a : Attribute) : (a.mask place).name = a.name := by
  cases a
  rw [mask]

/-- Blanking a payload leaves where the lists of exceptions start. -/
theorem any_throwsAt_maskAll (place : Int) (attributes : List Attribute) :
    (maskAll place attributes).any (throwsAt place) = attributes.any (throwsAt place) := by
  rw [maskAll_eq_map, List.any_map]
  congr 1
  funext a
  simp only [Function.comp_apply, throwsAt, mask_start, mask_name]

theorem find?_maskAll (place : Int) (attributes : List Attribute) (name : String) :
    find? (maskAll place attributes) name = (find? attributes name).map (mask place) := by
  rw [maskAll_eq_map]
  unfold find?
  rw [List.find?_map]
  congr 2
  funext a
  simp only [Function.comp_apply, mask_name]

end Attribute

namespace Member

/-- All attributes of a member. -/
def family (m : Member) : List Attribute := Attribute.familyAll m.attributes

/-- The member with the payload of the attribute that starts at `place` blanked. -/
def mask (place : Int) (m : Member) : Member :=
  { m with attributes := Attribute.maskAll place m.attributes }

/-- The method with the payload of the attribute that starts at `place` blanked; the declaration is
    blanked with it if this attribute lists what the method throws. -/
def maskMethod (place : Int) (m : Member) : Member :=
  { m.mask place with
    declaration := if m.attributes.any (Attribute.throwsAt place) then "" else m.declaration }

/-- What a method throws is told by its lists of exceptions. -/
theorem thrownNames_maskAll (pool : Pool) {place : Int} {attributes : List Attribute}
    (h : attributes.any (Attribute.throwsAt place) = false) :
    thrownNames pool (Attribute.maskAll place attributes) = thrownNames pool attributes := by
  unfold thrownNames
  rw [Attribute.find?_maskAll]
  rcases hfind : Attribute.find? attributes "Exceptions" with _ | a
  · rfl
  have hname : a.name = some "Exceptions" := by simpa using List.find?_some hfind
  have hstart : a.start ≠ place := by
    intro hstart
    have hnot := List.any_eq_false.mp h a (List.mem_of_find?_eq_some hfind)
    exact hnot (by simp only [Attribute.throwsAt, hstart, hname, and_self, decide_true])
  obtain ⟨start, nameIndex, name, declared, payload⟩ := a
  rw [Option.map_some, Attribute.mask, if_neg hstart]
  -- Blanking keeps the kind of a payload, and a list of exceptions holds no attributes.
  cases payload <;> simp only [Payload.mask]

theorem readWith_isolates (pool : Pool) (disassemble : Bool)
    (declare : UInt16 → String → Option String → List Attribute → String)
    {mask' : Member → Member}
    (hmask : ∀ span access nameIndex descriptorIndex name descriptor shown attributes attributes',
      Attribute.maskAll D.start attributes' = Attribute.maskAll D.start attributes →
      mask' ⟨span, access, nameIndex, descriptorIndex, attributes', name, shown,
        declare access name descriptor attributes'⟩ =
      mask' ⟨span, access, nameIndex, descriptorIndex, attributes, name, shown,
        declare access name descriptor attributes⟩) :
    D.Isolates k family mask' (readWith pool disassemble declare) := by
  refine .after .position fun start => .after (.u2 _) fun access => .after (.u2 _) fun nameIndex =>
    .after (.u2 _) fun descriptorIndex => ?_
  refine (Attribute.readAll_isolates pool disassemble k).then (fun q attributes =>
    ⟨⟨start, q - start⟩, access, nameIndex, descriptorIndex, attributes,
      (pool.utf8? nameIndex.toNat).getD unresolvable,
      (pool.utf8? descriptorIndex.toNat).getD unresolvable,
      declare access ((pool.utf8? nameIndex.toNat).getD unresolvable)
        (pool.utf8? descriptorIndex.toNat) attributes⟩)
    (Attribute.readAll_stable pool disassemble) (fun _ _ => rfl) (fun _ _ => rfl) ?_
  intro _ attributes attributes' hsame
  exact hmask _ _ _ _ _ _ _ _ _ hsame

theorem readField_isolates (pool : Pool) (disassemble : Bool) :
    D.Isolates k family (mask D.start) (readField pool disassemble) := by
  refine readWith_isolates pool disassemble _ ?_
  intro _ _ _ _ _ _ _ attributes attributes' hsame
  simp only [mask, hsame]

theorem readMethod_isolates (pool : Pool) (disassemble : Bool) :
    D.Isolates k family (maskMethod D.start) (readMethod pool disassemble) := by
  refine readWith_isolates pool disassemble _ ?_
  intro _ _ _ _ _ _ _ attributes attributes' hsame
  have hany : attributes'.any (Attribute.throwsAt D.start) =
      attributes.any (Attribute.throwsAt D.start) := by
    rw [← Attribute.any_throwsAt_maskAll, hsame, Attribute.any_throwsAt_maskAll]
  simp only [maskMethod, mask, hsame, hany]
  by_cases hthrows : attributes.any (Attribute.throwsAt D.start) = true
  · rw [if_pos hthrows, if_pos hthrows]
  · have hkept : attributes.any (Attribute.throwsAt D.start) = false := by simpa using hthrows
    rw [if_neg hthrows, if_neg hthrows, ← thrownNames_maskAll pool (hany.trans hkept), hsame,
      thrownNames_maskAll pool hkept]

end Member

/-! ## §2. Classes. -/

namespace Image

/-- All attributes behind the constants. -/
def Body.family (b : Body) : List Attribute :=
  b.fields.flatMap Member.family ++ (b.methods.flatMap Member.family ++
    Attribute.familyAll b.attributes)

/-- The body with the payload of the attribute that starts at `place` blanked. -/
def Body.mask (place : Int) (b : Body) : Body :=
  { b with
    fields := b.fields.map (Member.mask place)
    methods := b.methods.map (Member.maskMethod place)
    attributes := Attribute.maskAll place b.attributes }

/-- All attributes of a class, those inside others included. -/
def family (m : Image) : List Attribute :=
  m.fields.flatMap Member.family ++ (m.methods.flatMap Member.family ++
    Attribute.familyAll m.attributes)

/-- The class with the payload of the attribute that starts at `place` blanked. -/
def mask (place : Int) (m : Image) : Image :=
  { m with
    fields := m.fields.map (Member.mask place)
    methods := m.methods.map (Member.maskMethod place)
    attributes := Attribute.maskAll place m.attributes }

/-- The parts of a class that hold attributes stand side by side. -/
theorem readBody_eq (pool : Pool) (disassemble : Bool) :
    readBody pool disassemble = (do
      let access ← u2 "access_flags"
      let thisClass ← u2 "this_class"
      let superClass ← u2 "super_class"
      let interfaceCount ← u2 "interfaces_count"
      let interfaces ← many interfaceCount.toNat (u2 "interface index")
      let fieldCount ← u2 "fields_count"
      let parts ← many fieldCount.toNat (Member.readField pool disassemble) >>= fun fields =>
        (u2 "methods_count" >>= fun methodCount =>
          many methodCount.toNat (Member.readMethod pool disassemble) >>= fun methods =>
          Attribute.readAll pool disassemble >>= fun attributes => pure (methods, attributes)) >>=
        fun rest => pure (fields, rest)
      return ⟨access, thisClass, superClass, interfaces, parts.1, parts.2.1, parts.2.2⟩) := by
  simp only [readBody, bind_assoc, pure_bind]

theorem readBody_isolates (pool : Pool) (disassemble : Bool) :
    D.Isolates k Body.family (Body.mask D.start) (readBody pool disassemble) := by
  rw [readBody_eq]
  refine .after (.u2 _) fun access => .after (.u2 _) fun thisClass => .after (.u2 _) fun superClass =>
    .after (.u2 _) fun interfaceCount => .after (.many interfaceCount.toNat (.u2 _)) fun interfaces =>
    .after (.u2 _) fun fieldCount => ?_
  have hfield := Member.readField_stable pool disassemble
  have hmethod := Member.readMethod_stable pool disassemble
  have hattributes := Attribute.readAll_stable pool disassemble
  have hfields : (many fieldCount.toNat (Member.readField pool disassemble)).Stable :=
    .many fieldCount.toNat hfield
  have hrest : (u2 "methods_count" >>= fun methodCount =>
      many methodCount.toNat (Member.readMethod pool disassemble) >>= fun methods =>
      Attribute.readAll pool disassemble >>= fun attributes => pure (methods, attributes)).Stable :=
    .bind (.u2 _) fun count => .bind (.many count.toNat hmethod) fun _ =>
      .bind hattributes fun _ => .pure _
  have hparts := Isolates.pair hfields hrest
    (.many fieldCount.toNat hfield (Member.readField_isolates (D := D) (k := k) pool disassemble))
    (.after (.u2 _) fun methodCount => .pair (.many methodCount.toNat hmethod) hattributes
      (.many methodCount.toNat hmethod (Member.readMethod_isolates pool disassemble))
      (Attribute.readAll_isolates pool disassemble k))
  refine hparts.then (fun _ parts => ⟨access, thisClass, superClass, interfaces, parts.1, parts.2.1,
    parts.2.2⟩) (.bind hfields fun _ => .bind hrest fun _ => .pure _) (fun _ _ => rfl)
    (fun _ _ => rfl) ?_
  intro _ parts parts' hmask
  obtain ⟨hsameFields, hsameRest⟩ := Prod.mk.inj hmask
  obtain ⟨hsameMethods, hsameAttributes⟩ := Prod.mk.inj hsameRest
  simp only [Body.mask, hsameFields, hsameMethods, hsameAttributes]

/-- The attributes of a class stand behind its head, and their starts ascend. -/
theorem Staged.nested {data : Array UInt8} {disassemble : Bool} (st : Staged data disassemble) :
    Nested st.headEnd st.image.family st.bodyEnd := by
  let none : Damage := ⟨0, 0, data, data, rfl, fun _ _ => rfl⟩
  have hisolates : none.Isolates (data.size + 1) _ _ _ :=
    readBody_isolates ⟨st.head.span, st.head.slots, st.descriptions⟩ disassemble
  have hin := (Cursor.InBounds.ofBytes data).goto st.headStart_le
    (Int.le_trans st.headEnd_le st.bodyEnd_le)
  have hless : (data.size : Int) - st.headEnd < (data.size + 1 : Nat) := by
    have := st.headStart_le
    omega
  exact hisolates.nested _ _ _ hin hless ⟨st.bodyNotices, st.readBody_eq⟩

theorem on_ofBytes : D.on (Cursor.ofBytes D.before) = Cursor.ofBytes D.after := by
  show (⟨D.after, 0, D.before.size⟩ : Cursor) = ⟨D.after, 0, D.after.size⟩
  rw [D.size_eq]

theorem on_goto (c : Cursor) (q : Int) : D.on (c.goto q) = (D.on c).goto q := rfl

theorem mask_assemble (place : Int) (head : Head) (descriptions : Array String) (body : Body)
    (length : Int) : (assemble head descriptions body length).mask place =
      assemble head descriptions (body.mask place) length := rfl

/-- A class of which an attribute is damaged decodes to the same class, or the damaged payload is
    blamed. -/
theorem decode_damaged {disassemble : Bool} (st : Staged D.before disassemble)
    (hhits : D.Hits st.image.family) :
    (∃ m', (decode D.after disassemble).result = .ok m' ∧
      m'.mask D.start = st.image.mask D.start) ∨ D.Blamed (decode D.after disassemble) := by
  have hstart := st.headStart_le
  have hin := Cursor.InBounds.ofBytes D.before
  have hin' := hin.goto hstart (Int.le_trans st.headEnd_le st.bodyEnd_le)
  have hless : (D.before.size : Int) - st.headEnd < (D.before.size + 1 : Nat) := by omega
  -- The damage is behind the head, which is read as before.
  obtain ⟨hbefore, -⟩ := hhits.bounds st.nested
  obtain ⟨headNotices, hhead⟩ := spared readHead_stable hin rfl ⟨st.headNotices, st.readHead_eq⟩
    (.inl (by simp only [lo]; omega))
  rw [on_ofBytes] at hhead
  obtain ⟨body', ⟨bodyNotices, hbody⟩, hmask⟩ | ⟨cause, offset, hbody, hoffset⟩ :=
    (readBody_isolates ⟨st.head.span, st.head.slots, st.descriptions⟩ disassemble).contained _ _ _
      hin' hless rfl ⟨st.bodyNotices, st.readBody_eq⟩ hhits
  · rw [on_goto, on_ofBytes] at hbody
    refine .inl ⟨assemble st.head st.descriptions body' st.bodyEnd, ?_, ?_⟩
    · rw [decode_of_stages hhead st.all_eq hbody]
      rfl
    · rw [mask_assemble, hmask]
      exact (mask_assemble _ _ _ _ _).symm
  · rw [on_goto, on_ofBytes] at hbody
    exact .inr ⟨cause, offset, decode_of_body_error hhead st.all_eq hbody, hoffset⟩

/-- Damage to the payload of an attribute `a`, at any depth, stays inside it: the class decodes to
    the same class up to that payload, or the payload is malformed and a place inside it, or its
    end, is blamed.  No other attribute starts where `a` does, so that `mask` blanks this payload
    alone. -/
theorem decode_isolates_payload (data damaged : Array UInt8) (disassemble : Bool) (m : Image)
    (a : Attribute) (h : (decode data disassemble).result = .ok m) (ha : a ∈ m.family)
    (hsize : damaged.size = data.size)
    (hsame : ∀ i : Nat, ¬ (a.payloadStart ≤ i ∧ i < a.start + a.length) → damaged[i]? = data[i]?) :
    (∀ b ∈ m.family, b.start = a.start → b = a) ∧
    ((∃ m', (decode damaged disassemble).result = .ok m' ∧ m'.mask a.start = m.mask a.start) ∨
      ∃ cause offset, (decode damaged disassemble).result = .error (.malformed cause offset) ∧
        a.payloadStart ≤ offset ∧ offset ≤ a.start + a.length) := by
  obtain ⟨st, rfl⟩ := staged_of_decode h
  refine ⟨fun b hb hstart => st.nested.eq_of_start_eq ha hb hstart, ?_⟩
  have hlength : a.length = 6 + a.declared.toNat := rfl
  have hpayload : a.payloadStart = a.start + 6 := rfl
  have hspares : ∀ i : Nat, ¬ (a.start + 6 ≤ i ∧ i < a.start + 6 + a.declared.toNat) →
      damaged[i]? = data[i]? := by
    intro i hi
    apply hsame
    omega
  let D : Damage := ⟨a.start, a.declared.toNat, data, damaged, hsize, hspares⟩
  obtain hok | ⟨cause, offset, hfault, hlo, hhi⟩ :=
    decode_damaged (D := D) st ⟨a, ha, rfl, rfl⟩
  · exact .inl hok
  · have hlo : a.start + 6 ≤ offset := hlo
    have hhi : offset ≤ a.start + 6 + a.declared.toNat := hhi
    exact .inr ⟨cause, offset, hfault, by omega, by omega⟩

/-- Another byte in the attribute inside the code of the specimen. -/
theorem specimen_isolates_payload :
    ∃ m a m', (decode specimen true).result = .ok m ∧ a ∈ m.family ∧ a.start = 81 ∧ a.length = 8 ∧
      (∀ b ∈ m.family, b.start = 81 → b = a) ∧
      (decode (specimen.setIfInBounds 88 9) true).result = .ok m' ∧ m'.mask 81 = m.mask 81 := by
  obtain ⟨m, hm, -⟩ := specimen_decodes
  have hplaces : (decode specimen true).result.toOption.map
      (fun m => m.family.map fun a => (a.start, a.length)) = some [(61, 28), (81, 8)] := by
    decide +kernel
  have hdecodes : (decode (specimen.setIfInBounds 88 9) true).result.toOption.isSome = true := by
    decide +kernel
  rw [hm] at hplaces
  have hmem : ((81 : Int), (8 : Int)) ∈ m.family.map fun a => (a.start, a.length) := by
    rw [show (m.family.map fun a => (a.start, a.length)) = [(61, 28), (81, 8)] from
      Option.some.inj hplaces]
    decide
  obtain ⟨a, ha, hplace⟩ := List.mem_map.mp hmem
  obtain ⟨hstart, hlength⟩ := Prod.mk.inj hplace
  have hpayload : a.payloadStart = a.start + 6 := rfl
  obtain ⟨hunique, ⟨m', hm', hmask⟩ | ⟨cause, offset, hfault, -⟩⟩ :=
    decode_isolates_payload specimen (specimen.setIfInBounds 88 9) true m a hm ha
      Array.size_setIfInBounds (by
        intro i hi
        rw [Array.getElem?_setIfInBounds, if_neg (by omega)])
  · rw [hstart] at hunique hmask
    exact ⟨m, a, m', hm, ha, hstart, hlength, hunique, hm', hmask⟩
  · rw [hfault] at hdecodes
    cases hdecodes

end Image

end JavaClass
