/-
  JavaClass.Proofs.Constant.Reference — the text of a slot, from the constants alone.

  What a slot stands for can be said without a table and without an order: a constant is described by
  its kind, and where it refers to another constant, by that one's kind (`Reference.constant`).  There
  are at most two steps, from a method handle to a member, and from a member to its class.

  `Pool.describe_eq` says that the table of a pool holds these texts, and no others.  The table is
  complete when it is filled, because a text that it knows is never forgotten (`Grows`), and it holds
  no wrong text, because every text in it is what its constant says.
-/
import JavaClass.Proofs.Constant.Description
import JavaClass.Proofs.Constant.Layout

namespace JavaClass

/-! ## §1. The texts. -/

namespace Reference

variable (slots : Slots)

/-- The text constant with a number. -/
def text (index : UInt16) : String := (slots.utf8? index.toNat).getD unresolvable

/-- The class whose name has a number.  The name of an array class is the descriptor of its type. -/
def className (index : UInt16) : String :=
  match slots.utf8? index.toNat with
  | none => unresolvable
  | some name =>
    match name.toList with
    | '[' :: _ =>
      match FieldType.parse name with
      | .ok type => type.display
      | .error _ => s!"[unrecognized] {name}"
    | _ => sourceName name

/-- The class constant with a number. -/
def classAt (index : UInt16) : String :=
  match slots.constant? index.toNat with
  | some (.cls name) => className slots name
  | _ => unresolvable

/-- The method type whose descriptor has a number. -/
def methodType (index : UInt16) : String :=
  match slots.utf8? index.toNat with
  | none => unresolvable
  | some descriptor =>
    match MethodType.parse descriptor with
    | .ok type => type.display
    | .error _ => s!"[unrecognized] {descriptor}"

/-- A name and a type, by their numbers. -/
def nameAndType (name descriptor : UInt16) : String :=
  s!"name={text slots name}, type={text slots descriptor}"

/-- The name and type with a number. -/
def nameAndTypeAt (index : UInt16) : String :=
  match slots.constant? index.toNat with
  | some (.nameAndType name descriptor) => nameAndType slots name descriptor
  | _ => unresolvable

/-- The two texts of the name and type with a number, if both are there. -/
def nameAndTypeTexts? (index : UInt16) : Option (String × String) :=
  match slots.constant? index.toNat with
  | some (.nameAndType name descriptor) =>
    (slots.utf8? name.toNat).bind fun name => (slots.utf8? descriptor.toNat).map (name, ·)
  | _ => none

/-- A member of a class.  A field has a type, a method has parameters and a result; a method whose
    descriptor is none is shown like a field of an unrecognized type. -/
def member (kind : MemberKind) (owner nameAndType : UInt16) : String :=
  match nameAndTypeTexts? slots nameAndType, kind with
  | none, _ => s!"{classAt slots owner}.{unresolvable}"
  | some (name, descriptor), .field =>
    match FieldType.parse descriptor with
    | .ok type => s!"{classAt slots owner}.{name} : {type.display}"
    | .error _ => s!"{classAt slots owner}.{name} : [unrecognized] {descriptor}"
  | some (name, descriptor), _ =>
    match MethodType.parse descriptor with
    | .ok type => s!"{classAt slots owner}.{name}{type.display}"
    | .error _ => s!"{classAt slots owner}.{name} : [unrecognized] {descriptor}"

/-- The member with a number. -/
def memberAt (index : UInt16) : String :=
  match slots.constant? index.toNat with
  | some (.member kind owner nameAndType) => member slots kind owner nameAndType
  | _ => unresolvable

/-- A constant.  (A four-byte number that is too large has no text; no pool that is read holds one.) -/
def constant : Constant → String
  | .utf8 text _ => text
  | .integer value => toString value.toInt
  | .long value => toString value.toInt
  | .float value => value.value.displaySingle?.getD unresolvable
  | .double value => value.display
  | .cls name => className slots name
  | .string index => text slots index
  | .member kind owner nameAndType => member slots kind owner nameAndType
  | .nameAndType name descriptor => nameAndType slots name descriptor
  | .methodHandle kind reference =>
    s!"reference_kind={referenceKindName kind.toNat} reference_index={memberAt slots reference}"
  | .methodType descriptor => methodType slots descriptor
  | .dynamic bootstrap nameAndType | .invokeDynamic bootstrap nameAndType =>
    s!"bootstrap_method_attr_index={bootstrap} name_and_type_index={nameAndTypeAt slots nameAndType}"
  | .moduleName index => text slots index
  | .packageName index => text slots index

/-- The slot with a number. -/
def describe (index : Int) : String :=
  match slots.constant? index with
  | some c => constant slots c
  | none => unresolvable

end Reference

/-! ## §2. The texts are what constants say. -/

namespace Description

variable {slots : Slots}

theorem plain_cls (name : UInt16) :
    plain slots (.cls name) = .ok (Reference.className slots name) := by
  show Except.ok ((slots.utf8? name.toNat).elim unresolvable FieldType.describeClass) = _
  unfold Reference.className
  rcases slots.utf8? name.toNat with _ | text <;> rfl

theorem plain_methodType (descriptor : UInt16) :
    plain slots (.methodType descriptor) = .ok (Reference.methodType slots descriptor) := by
  show Except.ok ((slots.utf8? descriptor.toNat).elim unresolvable MethodType.describe) = _
  unfold Reference.methodType
  rcases slots.utf8? descriptor.toNat with _ | text <;> rfl

theorem reached_isClass (index : UInt16) :
    reached slots (plain slots) Constant.isClass index.toNat =
      .ok (Reference.classAt slots index) := by
  unfold reached Reference.classAt
  rcases slots.constant? index.toNat with _ | c
  · rfl
  cases c with
  | cls name => exact plain_cls name
  | _ => rfl

theorem reached_isNameAndType (index : UInt16) :
    reached slots (plain slots) Constant.isNameAndType index.toNat =
      .ok (Reference.nameAndTypeAt slots index) := by
  unfold reached Reference.nameAndTypeAt
  rcases slots.constant? index.toNat with _ | c
  · rfl
  cases c <;> rfl

/-- The words before a descriptor that is none. -/
theorem append_unrecognized (shown : String) :
    shown ++ " : " ++ FieldType.unrecognized = shown ++ " : [unrecognized] " := by
  rw [String.append_assoc]
  rfl

theorem fieldText_eq (shown descriptor : String) :
    shown ++ " : " ++ FieldType.describe descriptor =
      match FieldType.parse descriptor with
      | .ok type => shown ++ " : " ++ type.display
      | .error _ => shown ++ " : [unrecognized] " ++ descriptor := by
  unfold FieldType.describe
  rcases FieldType.parse descriptor with _ | type
  · dsimp only
    rw [← String.append_assoc, append_unrecognized]
  · rfl

theorem methodText_eq (shown descriptor : String) :
    (match MethodType.parse descriptor with
      | .ok type => shown ++ type.display
      | .error _ => shown ++ " : " ++ FieldType.unrecognized ++ descriptor) =
      match MethodType.parse descriptor with
      | .ok type => shown ++ type.display
      | .error _ => shown ++ " : [unrecognized] " ++ descriptor := by
  rw [append_unrecognized]

theorem memberText_eq (kind : MemberKind) (owner nameAndType : UInt16) :
    memberText slots kind (Reference.classAt slots owner) nameAndType =
      Reference.member slots kind owner nameAndType := by
  unfold memberText Reference.member Reference.nameAndTypeTexts?
  rcases slots.constant? nameAndType.toNat with _ | c
  · rfl
  cases c
  case nameAndType name descriptor =>
    dsimp only
    rcases slots.utf8? name.toNat with _ | name
    · rfl
    rcases slots.utf8? descriptor.toNat with _ | descriptor
    · rfl
    cases kind with
    | field => exact fieldText_eq _ descriptor
    | method | interfaceMethod => exact methodText_eq _ descriptor
  all_goals rfl

theorem renderCompound_member (kind : MemberKind) (owner nameAndType : UInt16) :
    renderCompound slots (.member kind owner nameAndType) =
      .ok (Reference.member slots kind owner nameAndType) := by
  rw [renderCompound, reached_isClass, ← memberText_eq]
  rfl

theorem reached_isMember (index : UInt16) :
    reached slots (renderCompound slots) Constant.isMember index.toNat =
      .ok (Reference.memberAt slots index) := by
  unfold reached Reference.memberAt
  rcases slots.constant? index.toNat with _ | c
  · rfl
  cases c with
  | member kind owner nameAndType => exact renderCompound_member kind owner nameAndType
  | _ => rfl

/-- What a constant says is its text. -/
theorem render_eq {c : Constant} (h : ¬ Overflows c) :
    render slots c = .ok (Reference.constant slots c) := by
  cases c
  case float number =>
    rcases hdisplay : number.value.displaySingle? with _ | text
    · exact absurd ⟨number, rfl, hdisplay⟩ h
    · show number.value.displaySingle?.elim (.error Fault.tooLarge) .ok =
        Except.ok (number.value.displaySingle?.getD unresolvable)
      rw [hdisplay]
      rfl
  case cls name => exact plain_cls name
  case methodType descriptor => exact plain_methodType descriptor
  case member kind owner nameAndType => exact renderCompound_member kind owner nameAndType
  case methodHandle kind reference =>
    rw [render, reached_isMember]
    rfl
  case dynamic bootstrap nameAndType =>
    show (reached slots (plain slots) Constant.isNameAndType nameAndType.toNat).map
      (renderCompound.dynamicWords bootstrap) = _
    rw [reached_isNameAndType]
    rfl
  case invokeDynamic bootstrap nameAndType =>
    show (reached slots (plain slots) Constant.isNameAndType nameAndType.toNat).map
      (renderCompound.dynamicWords bootstrap) = _
    rw [reached_isNameAndType]
    rfl
  all_goals rfl

/-! ## §3. The table is complete. -/

/-- The table has a text for a slot. -/
def Table.Knows (t : Table) (index : Nat) : Prop := ∃ text, t.known[index]? = some (some text)

/-- The later table has all texts of the earlier one. -/
structure Table.Grows (t t' : Table) : Prop where
  size : t'.known.size = t.known.size
  knows : ∀ index, t.Knows index → t'.Knows index

theorem Table.Grows.refl (t : Table) : t.Grows t := ⟨rfl, fun _ h => h⟩

theorem Table.Grows.trans {t t' t'' : Table} (h : t.Grows t') (h' : t'.Grows t'') : t.Grows t'' :=
  ⟨h'.size.trans h.size, fun index hknown => h'.knows index (h.knows index hknown)⟩

theorem Table.knows_learn (t : Table) {index : Nat} (text : String) (h : index < t.known.size) :
    Knows { t with known := t.known.setIfInBounds index (some text) } index := by
  refine ⟨text, ?_⟩
  show (t.known.setIfInBounds index (some text))[index]? = some (some text)
  rw [Array.getElem?_setIfInBounds_self_of_lt h]

theorem Table.grows_learn (t : Table) (index : Nat) (text : String) :
    t.Grows { t with known := t.known.setIfInBounds index (some text) } := by
  refine ⟨Array.size_setIfInBounds, ?_⟩
  rintro i ⟨old, hold⟩
  have hsize : i < t.known.size := (Array.getElem?_eq_some_iff.mp hold).1
  by_cases hi : index = i
  · subst hi
    exact t.knows_learn text hsize
  · refine ⟨old, ?_⟩
    show (t.known.setIfInBounds index (some text))[i]? = some (some old)
    rw [Array.getElem?_setIfInBounds_ne hi, hold]

/-- Notes and texts that are learned leave all texts in place. -/
theorem Table.Leads.grows {t t' : Table} (h : t.Leads t') : t.Grows t' := by
  induction h with
  | refl => exact .refl t
  | note _ index ih => exact ih.trans ⟨rfl, fun _ hknown => hknown⟩
  | learn _ index text ih => exact ih.trans (Table.grows_learn _ index text)

/-- A slot that is described is known. -/
theorem follow_knows {index : Nat} {c : Constant} {t t' : Table} {text : String}
    (hc : slots.constant? index = some c) (hsize : t.known.size = slots.size)
    (h : follow slots (any slots) (fun _ => true) index t = (.ok text, t')) : t'.Knows index := by
  have hlt := size_of_constant? hc
  by_cases hknown : t.Knows index
  · have hgrows : t.Grows (follow slots (any slots) (fun _ => true) index t).2 :=
      (Leads.follow any_leads _ index t).grows
    rw [h] at hgrows
    exact hgrows.knows index hknown
  · rw [follow_unknown hc rfl fun text htext => hknown ⟨text, htext⟩] at h
    have hgrows : t.Grows (any slots c t).2 := (any_leads c t).grows
    rcases hrun : any slots c t with ⟨fault | text', t₁⟩ <;> rw [hrun] at hgrows
    · rw [bind_of_error hrun] at h
      cases h
    · rw [bind_of_ok hrun] at h
      have hsize₁ : t₁.known.size = t.known.size := hgrows.size
      cases h
      exact t₁.knows_learn text (by omega)

/-- Slots that are described one after the other are known in the end. -/
theorem fill_complete (count index : Nat) {t t' : Table} (ht : Agrees slots t)
    (hsize : t.known.size = slots.size) (h : fill slots count index t = (.ok (), t')) :
    Agrees slots t' ∧ t.Grows t' ∧
      ∀ i c, index ≤ i → i < index + count → slots.constant? i = some c → t'.Knows i := by
  induction count generalizing index t with
  | zero =>
    obtain rfl : t = t' := (Prod.mk.inj h).2
    refine ⟨ht, .refl t, ?_⟩
    intro i c hlo hhi
    omega
  | succ count ih =>
    rw [fill] at h
    rcases hfollow : follow slots (any slots) (fun _ => true) index t with ⟨fault | text, t₁⟩ <;>
      rw [hfollow] at h
    · cases h
    -- The step learns its own slot, and the steps behind it forget none.
    obtain ⟨t₂, hgives, ht₁⟩ := Gives.follow (fun c _ => any_gives c) index t ht
    obtain rfl : t₁ = t₂ := (Prod.mk.inj (hfollow.symm.trans hgives)).2
    have hgrows : t.Grows (follow slots (any slots) (fun _ => true) index t).2 :=
      (Leads.follow any_leads _ index t).grows
    rw [hfollow] at hgrows
    obtain ⟨ht', hrest, hknown⟩ := ih (index + 1) ht₁ (hgrows.size.trans hsize) h
    refine ⟨ht', hgrows.trans hrest, ?_⟩
    intro i c hlo hhi hc
    by_cases hi : i = index
    · subst hi
      exact hrest.knows i (follow_knows hc hsize hfollow)
    · exact hknown i c (by omega) (by omega) hc

section

variable {descriptions : Array String} {notices : List Notice}

theorem not_overflows_of_all (hzero : slots.constant? 0 = none)
    (h : all slots = (.ok descriptions, notices)) {index : Nat} {c : Constant}
    (hc : slots.constant? index = some c) : ¬ Overflows c := by
  obtain ⟨hnone, -⟩ | ⟨-, hfault⟩ := all_result hzero
  · exact hnone index c hc
  · rw [h] at hfault
    cases hfault

/-- Descriptions are taken from the table when it is filled. -/
theorem fill_of_all (h : all slots = (.ok descriptions, notices)) :
    ∃ t, fill slots (slots.size - 1) 1 ⟨Array.replicate slots.size none, []⟩ = (.ok (), t) ∧
      descriptions = t.known.map (·.getD unresolvable) := by
  unfold all at h
  rcases hfill : fill slots (slots.size - 1) 1 ⟨Array.replicate slots.size none, []⟩ with
    ⟨fault | _, t⟩ <;> rw [hfill] at h
  · cases h
  · exact ⟨t, rfl, (Except.ok.inj (Prod.mk.inj h).1).symm⟩

/-- The table that is filled holds the text of every slot. -/
theorem all_eq (hzero : slots.constant? 0 = none) (h : all slots = (.ok descriptions, notices))
    (index : Nat) :
    descriptions[index]?.getD unresolvable = Reference.describe slots index := by
  obtain ⟨t, hfill, rfl⟩ := fill_of_all h
  obtain ⟨ht, hgrows, hknown⟩ :=
    fill_complete _ _ (agrees_empty slots slots.size) Array.size_replicate hfill
  unfold Reference.describe
  rw [Array.getElem?_map]
  rcases hc : slots.constant? index with _ | c
  -- A slot without a constant is never learned.
  · rcases hslot : t.known[index]? with _ | _ | text
    · rfl
    · rfl
    · obtain ⟨c, hc', -⟩ := ht index text hslot
      rw [hc] at hc'
      cases hc'
  -- A slot with a constant is known, and its text is what the constant says.
  · have hlt := size_of_constant? hc
    have hpos : index ≠ 0 := by
      rintro rfl
      rw [show slots.constant? (0 : Nat) = none from hzero] at hc
      cases hc
    obtain ⟨text, htext⟩ := hknown index c (by omega) (by omega) hc
    obtain ⟨c', hc', hrender⟩ := ht index text htext
    obtain rfl : c = c' := Option.some.inj (hc.symm.trans hc')
    rw [render_eq (not_overflows_of_all hzero h hc)] at hrender
    obtain rfl : Reference.constant slots c = text := Except.ok.inj hrender
    rw [htext]
    rfl

end

end Description

/-! ## §4. Pools. -/

namespace Pool

/-- Slot 0 of a pool holds nothing. -/
theorem constant?_zero {c : Cursor} {count : Int} {pool : Pool}
    (h : (read count c).result = .ok pool) : pool.slots.constant? 0 = none := by
  obtain ⟨notices, more, hslots, -, -⟩ := read_cases h
  have hfirst := Slots.readAll_first (count - 1).toNat #[.unused] rfl c pool.slots (by rw [hslots])
  simp [Slots.constant?, Slots.located?, hfirst]

theorem constant?_of_neg (slots : Slots) {index : Int} (h : index < 0) :
    slots.constant? index = none := by
  unfold Slots.constant? Slots.located?
  rw [if_pos h]
  rfl

/-- A pool says of every number what the constants alone say. -/
theorem describe_eq {c : Cursor} {count : Int} {pool : Pool}
    (h : (read count c).result = .ok pool) (index : Int) :
    pool.describe index = Reference.describe pool.slots index := by
  obtain ⟨notices, more, -, hall, -⟩ := read_cases h
  unfold describe
  by_cases hneg : index < 0
  · rw [if_pos hneg, Reference.describe, constant?_of_neg pool.slots hneg]
  · rw [if_neg hneg, Description.all_eq (constant?_zero h) hall, Int.toNat_of_nonneg (by omega)]

end Pool

end JavaClass
