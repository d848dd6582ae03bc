/-
  JavaClass.Proofs.Serial.Annotation — annotations as bytes.

  The values of elements are nested to any depth; places are not written.
-/
import JavaClass.Annotation.Decoder
import JavaClass.Proofs.Descriptor.Lexeme
import JavaClass.Proofs.Serial.Basic

namespace JavaClass

open Decoder

/-! ## §1. Tags. -/

/-- A tag that is a letter. -/
def Serial.letter (c : Char) : List UInt8 := Serial.u1 (UInt8.ofNat c.toNat)

theorem Serial.letter_ofNat (tag : UInt8) : Serial.letter (Char.ofNat tag.toNat) = Serial.u1 tag := by
  have hvalid : tag.toNat.isValidChar := Or.inl (by have := tag.toNat_lt; omega)
  have hnumber : (Char.ofNat tag.toNat).toNat = tag.toNat := by
    rw [Char.ofNat, dif_pos hvalid]
    rfl
  rw [Serial.letter, hnumber, UInt8.ofNat_toNat]

theorem LiteralTag.letter_of_ofLetter? {c : Char} {tag : LiteralTag}
    (h : LiteralTag.ofLetter? c = some tag) : tag.letter = c := by
  unfold LiteralTag.ofLetter? at h
  by_cases hstring : c = 's'
  · rw [if_pos hstring] at h
    cases h
    exact hstring.symm
  · rw [if_neg hstring] at h
    obtain ⟨type, htype, rfl⟩ := Option.map_eq_some_iff.mp h
    exact BaseType.letter_of_ofLetter? htype

/-! ## §2. Annotations as bytes. -/

mutual

/-- The bytes of a value. -/
def ElementValue.serialize : ElementValue → List UInt8
  | .literal _ tag index => Serial.letter tag.letter ++ Serial.u2 index
  | .enumConstant _ typeName constName =>
    Serial.letter 'e' ++ Serial.u2 typeName ++ Serial.u2 constName
  | .cls _ index => Serial.letter 'c' ++ Serial.u2 index
  | .nested _ value => Serial.letter '@' ++ value.serialize
  | .array _ values =>
    Serial.letter '[' ++ Serial.u2 (UInt16.ofNat values.length) ++ ElementValue.serializeAll values

/-- The bytes of values, one behind the other. -/
def ElementValue.serializeAll : List ElementValue → List UInt8
  | [] => []
  | value :: rest => value.serialize ++ ElementValue.serializeAll rest

/-- The bytes of an annotation. -/
def Annotation.serialize : Annotation → List UInt8
  | ⟨_, typeIndex, pairs⟩ =>
    Serial.u2 typeIndex ++ Serial.u2 (UInt16.ofNat pairs.length) ++ ElementPair.serializeAll pairs

/-- The bytes of a named value. -/
def ElementPair.serialize : ElementPair → List UInt8
  | ⟨_, name, value⟩ => Serial.u2 name ++ value.serialize

/-- The bytes of named values, one behind the other. -/
def ElementPair.serializeAll : List ElementPair → List UInt8
  | [] => []
  | pair :: rest => pair.serialize ++ ElementPair.serializeAll rest

end

/-- The bytes of a stretch of code. -/
def LocalRange.serialize (r : LocalRange) : List UInt8 :=
  Serial.u2 r.startPc ++ Serial.u2 r.length ++ Serial.u2 r.index

/-- The bytes of a target; its type stands before it. -/
def Target.serialize : Target → List UInt8
  | .typeParameter index => Serial.u1 index
  | .supertype index => Serial.u2 index
  | .typeParameterBound parameter bound => Serial.u1 parameter ++ Serial.u1 bound
  | .empty => []
  | .formalParameter index => Serial.u1 index
  | .thrown index => Serial.u2 index
  | .localVariables ranges => Serial.table LocalRange.serialize ranges
  | .caught index => Serial.u2 index
  | .offset place => Serial.u2 place
  | .typeArgument place index => Serial.u2 place ++ Serial.u1 index

/-- The bytes of a step into a type. -/
def PathStep.serialize (s : PathStep) : List UInt8 := Serial.u1 s.kind ++ Serial.u1 s.argument

/-- The bytes of a type annotation. -/
def TypeAnnotation.serialize (a : TypeAnnotation) : List UInt8 :=
  Serial.u1 a.targetType ++ a.target.serialize ++ Serial.shortTable PathStep.serialize a.path ++
    Serial.u2 a.typeIndex ++ Serial.table ElementPair.serialize a.pairs

theorem ElementValue.serializeAll_eq_flatMap (values : List ElementValue) :
    ElementValue.serializeAll values = values.flatMap ElementValue.serialize := by
  induction values with
  | nil => rfl
  | cons value rest ih => rw [ElementValue.serializeAll, ih, List.flatMap_cons]

theorem ElementPair.serializeAll_eq_flatMap (pairs : List ElementPair) :
    ElementPair.serializeAll pairs = pairs.flatMap ElementPair.serialize := by
  induction pairs with
  | nil => rfl
  | cons pair rest ih => rw [ElementPair.serializeAll, ih, List.flatMap_cons]

/-! ## §3. Reading. -/

namespace ElementPair

theorem read_inverts {value : Decoder ElementValue} (h : value.Inverts ElementValue.serialize) :
    (read value).Inverts serialize := by
  refine position_still.bind fun start => (u2_inverts _).bind fun name => h.bind fun v =>
    (spanFrom_still start).bind fun _ => .pure ?_
  simp only [serialize, List.append_nil]

theorem readAll_inverts {value : Decoder ElementValue} (h : value.Inverts ElementValue.serialize) :
    (readAll value).Inverts (Serial.table serialize) := .table _ (read_inverts h)

end ElementPair

theorem Annotation.readWith_inverts {value : Decoder ElementValue}
    (h : value.Inverts ElementValue.serialize) : (readWith value).Inverts serialize := by
  refine position_still.bind fun start => (u2_inverts _).bind fun typeIndex =>
    (ElementPair.readAll_inverts h).bind fun pairs => (spanFrom_still start).bind fun _ => .pure ?_
  simp only [serialize, Serial.table, ElementPair.serializeAll_eq_flatMap, List.append_nil,
    List.append_assoc]

namespace ElementValue

theorem body_inverts {inner : Decoder ElementValue} (h : inner.Inverts serialize) :
    (body inner).Inverts serialize := by
  refine position_still.bind fun start => (u1_inverts _).bind fun tag => ?_
  rw [← Serial.letter_ofNat tag]
  rcases htag : LiteralTag.ofLetter? (Char.ofNat tag.toNat) with _ | literalTag
  · dsimp only
    split <;> rename_i hletter
    · rw [hletter]
      refine (u2_inverts _).bind fun typeName => (u2_inverts _).bind fun constName =>
        (spanFrom_still start).bind fun _ => .pure ?_
      simp only [serialize, List.append_nil, List.append_assoc]
    · rw [hletter]
      refine (u2_inverts _).bind fun index => (spanFrom_still start).bind fun _ => .pure ?_
      simp only [serialize, List.append_nil]
    · rw [hletter]
      have hnested := Annotation.readWith_inverts h
      refine hnested.bind fun value => (spanFrom_still start).bind fun _ => .pure ?_
      simp only [serialize, List.append_nil]
    · rw [hletter]
      refine h.table_bind _ fun values => (spanFrom_still start).bind fun _ => .pure ?_
      simp only [serialize, Serial.table, serializeAll_eq_flatMap, List.append_nil,
        List.append_assoc]
    · exact .reject _ _
  · refine (u2_inverts _).bind fun index => (spanFrom_still start).bind fun _ => .pure ?_
    simp only [serialize, LiteralTag.letter_of_ofLetter? htag, List.append_nil]

theorem read_inverts : read.Inverts serialize := .fix fun _ => body_inverts

end ElementValue

namespace Annotation

theorem read_inverts : read.Inverts serialize := readWith_inverts ElementValue.read_inverts

theorem readAll_inverts : readAll.Inverts (Serial.table serialize) := .table _ read_inverts

theorem readParameters_inverts :
    readParameters.Inverts (Serial.shortTable fun x => Serial.table serialize x.value) :=
  .shortTable _ (.located readAll_inverts)

end Annotation

theorem LocalRange.read_inverts : read.Inverts serialize := by
  refine (u2_inverts _).bind fun startPc => (u2_inverts _).bind fun length =>
    (u2_inverts _).bind fun index => .pure ?_
  simp only [serialize, List.append_nil, List.append_assoc]

theorem Target.read_inverts (layout : Layout) : (read layout).Inverts serialize := by
  cases layout with
  | typeParameter => exact (u1_inverts _).bind fun _ => .pure (List.append_nil _)
  | supertype => exact (u2_inverts _).bind fun _ => .pure (List.append_nil _)
  | typeParameterBound =>
    refine (u1_inverts _).bind fun parameter => (u1_inverts _).bind fun bound => .pure ?_
    rw [List.append_nil, serialize]
  | empty => exact .pure rfl
  | formalParameter => exact (u1_inverts _).bind fun _ => .pure (List.append_nil _)
  | thrown => exact (u2_inverts _).bind fun _ => .pure (List.append_nil _)
  | localVariables =>
    exact LocalRange.read_inverts.table_bind _ fun _ => .pure (List.append_nil _)
  | caught => exact (u2_inverts _).bind fun _ => .pure (List.append_nil _)
  | offset => exact (u2_inverts _).bind fun _ => .pure (List.append_nil _)
  | typeArgument =>
    refine (u2_inverts _).bind fun offset => (u1_inverts _).bind fun index => .pure ?_
    rw [List.append_nil, serialize]

theorem PathStep.read_inverts : read.Inverts serialize := by
  refine (u1_inverts _).bind fun kind => (u1_inverts _).bind fun argument => .pure ?_
  rw [List.append_nil, serialize]

namespace TypeAnnotation

theorem read_inverts : read.Inverts serialize := by
  refine position_still.bind fun start => (u1_inverts _).bind fun targetType => ?_
  cases Target.layout? targetType with
  | none => exact .reject _ _
  | some layout =>
    refine (Target.read_inverts layout).bind fun target =>
      PathStep.read_inverts.shortTable_bind _ fun path => (u2_inverts _).bind fun typeIndex =>
      (ElementPair.readAll_inverts ElementValue.read_inverts).bind fun pairs => .pure ?_
    simp only [serialize, List.append_nil, List.append_assoc]

theorem readAll_inverts : readAll.Inverts (Serial.rows serialize) := .table _ (.located read_inverts)

end TypeAnnotation

end JavaClass
