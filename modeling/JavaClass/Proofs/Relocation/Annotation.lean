/-
  JavaClass.Proofs.Relocation.Annotation — annotations read elsewhere.

  An annotation that is read `p` bytes further on is the same annotation with every place in it moved
  by `p`, however deep its values are nested.
-/
import JavaClass.Annotation.Decoder
import JavaClass.Proofs.Relocation.Basic

namespace JavaClass

open Decoder

/-! ## §1. Annotations moved. -/

mutual

/-- A value `p` bytes further on. -/
def ElementValue.shift (p : Int) : ElementValue → ElementValue
  | .literal span tag index => .literal (span.shift p) tag index
  | .enumConstant span typeName constName => .enumConstant (span.shift p) typeName constName
  | .cls span index => .cls (span.shift p) index
  | .nested span value => .nested (span.shift p) (value.shift p)
  | .array span values => .array (span.shift p) (ElementValue.shiftAll p values)

/-- Values `p` bytes further on. -/
def ElementValue.shiftAll (p : Int) : List ElementValue → List ElementValue
  | [] => []
  | value :: rest => value.shift p :: ElementValue.shiftAll p rest

/-- An annotation `p` bytes further on. -/
def Annotation.shift (p : Int) : Annotation → Annotation
  | ⟨span, typeIndex, pairs⟩ => ⟨span.shift p, typeIndex, ElementPair.shiftAll p pairs⟩

/-- A named value `p` bytes further on. -/
def ElementPair.shift (p : Int) : ElementPair → ElementPair
  | ⟨span, name, value⟩ => ⟨span.shift p, name, value.shift p⟩

/-- Named values `p` bytes further on. -/
def ElementPair.shiftAll (p : Int) : List ElementPair → List ElementPair
  | [] => []
  | pair :: rest => pair.shift p :: ElementPair.shiftAll p rest

end

theorem ElementValue.shiftAll_eq_map (p : Int) (values : List ElementValue) :
    ElementValue.shiftAll p values = values.map (ElementValue.shift p) := by
  induction values with
  | nil => rfl
  | cons value rest ih => rw [ElementValue.shiftAll, ih, List.map_cons]

theorem ElementPair.shiftAll_eq_map (p : Int) (pairs : List ElementPair) :
    ElementPair.shiftAll p pairs = pairs.map (ElementPair.shift p) := by
  induction pairs with
  | nil => rfl
  | cons pair rest ih => rw [ElementPair.shiftAll, ih, List.map_cons]

/-- A type annotation `p` bytes further on. -/
def TypeAnnotation.shift (p : Int) (a : TypeAnnotation) : TypeAnnotation :=
  { a with pairs := a.pairs.map (ElementPair.shift p) }

mutual

theorem ElementValue.shift_zero : ∀ value : ElementValue, value.shift 0 = value
  | .literal .. => by rw [ElementValue.shift, Span.shift_zero]
  | .enumConstant .. => by rw [ElementValue.shift, Span.shift_zero]
  | .cls .. => by rw [ElementValue.shift, Span.shift_zero]
  | .nested _ value => by rw [ElementValue.shift, Span.shift_zero, Annotation.shift_zero value]
  | .array _ values => by rw [ElementValue.shift, Span.shift_zero, ElementValue.shiftAll_zero values]

theorem ElementValue.shiftAll_zero : ∀ values, ElementValue.shiftAll 0 values = values
  | [] => rfl
  | value :: rest => by
    rw [ElementValue.shiftAll, ElementValue.shift_zero value, ElementValue.shiftAll_zero rest]

theorem Annotation.shift_zero : ∀ a : Annotation, a.shift 0 = a
  | ⟨_, _, pairs⟩ => by
    simp only [Span.shift_zero, Annotation.shift, ElementPair.shiftAll_zero pairs]

theorem ElementPair.shift_zero : ∀ pair : ElementPair, pair.shift 0 = pair
  | ⟨_, _, value⟩ => by rw [ElementPair.shift, Span.shift_zero, ElementValue.shift_zero value]

theorem ElementPair.shiftAll_zero : ∀ pairs, ElementPair.shiftAll 0 pairs = pairs
  | [] => rfl
  | pair :: rest => by
    rw [ElementPair.shiftAll, ElementPair.shift_zero pair, ElementPair.shiftAll_zero rest]

end

theorem TypeAnnotation.shift_zero (a : TypeAnnotation) : a.shift 0 = a := by
  rw [shift, ← ElementPair.shiftAll_eq_map, ElementPair.shiftAll_zero]

/-! ## §2. Reading. -/

variable {lo : Int} {S : Setting}

namespace ElementPair

theorem read_relocates {value value' : Decoder ElementValue}
    (h : Relocates lo S (ElementValue.shift S.shift) value value') :
    Relocates lo S (shift S.shift) (read value) (read value') :=
  .bind .position fun start => .bind (.u2 _) fun _ => .bind h fun _ =>
    .bind (.spanFrom start) fun _ => .pure rfl

theorem readAll_relocates {value value' : Decoder ElementValue}
    (h : Relocates lo S (ElementValue.shift S.shift) value value') :
    Relocates lo S (List.map (shift S.shift)) (readAll value) (readAll value') :=
  .bind (.u2 _) fun count => .many count.toNat (read_relocates h)

end ElementPair

theorem Annotation.readWith_relocates {value value' : Decoder ElementValue}
    (h : Relocates lo S (ElementValue.shift S.shift) value value') :
    Relocates lo S (shift S.shift) (readWith value) (readWith value') := by
  refine .bind .position fun start => .bind (.u2 _) fun _ =>
    .bind (ElementPair.readAll_relocates h) fun pairs => .bind (.spanFrom start) fun _ => .pure ?_
  simp only [shift, ElementPair.shiftAll_eq_map, id_eq]

namespace ElementValue

/-- A value takes a byte for its tag before it turns to the values inside it. -/
theorem body_relocates {inner inner' : Decoder ElementValue}
    (h : ∀ lo, Relocates lo S (shift S.shift) inner inner') :
    Relocates lo (S.more 1) (shift S.shift) (body inner) (body inner') := by
  refine .position_bind fun start => .u1_bind _ fun tag => ?_
  have hannotation := Annotation.readWith_relocates (h start)
  cases LiteralTag.ofLetter? (Char.ofNat tag.toNat) with
  | some literalTag =>
    exact .bind (.u2 _) fun _ => .bind (.spanFrom start) fun _ => .pure rfl
  | none =>
    dsimp only
    split
    · exact .bind (.u2 _) fun _ => .bind (.u2 _) fun _ => .bind (.spanFrom start) fun _ => .pure rfl
    · exact .bind (.u2 _) fun _ => .bind (.spanFrom start) fun _ => .pure rfl
    · exact .bind hannotation fun _ => .bind (.spanFrom start) fun _ => .pure rfl
    · refine .bind (.u2 _) fun count => .bind (.many count.toNat (h start)) fun values =>
        .bind (.spanFrom start) fun _ => .pure ?_
      simp only [shift, shiftAll_eq_map]
    · exact .reject _

theorem read_relocates : Relocates lo S (shift S.shift) read read :=
  .fix fun _ _ _ _ h _ => body_relocates h

end ElementValue

namespace Annotation

theorem read_relocates : Relocates lo S (shift S.shift) read read :=
  readWith_relocates ElementValue.read_relocates

theorem readAll_relocates : Relocates lo S (List.map (shift S.shift)) readAll readAll :=
  .bind (.u2 _) fun count => .many count.toNat read_relocates

theorem readParameters_relocates :
    Relocates lo S (List.map (Located.shift S.shift (List.map (shift S.shift))))
      readParameters readParameters :=
  .bind (.u1 _) fun count => .many count.toNat (.located readAll_relocates)

end Annotation

theorem LocalRange.read_relocates : Relocates lo S id read read :=
  .bind (.u2 _) fun _ => .bind (.u2 _) fun _ => .bind (.u2 _) fun _ => .pure rfl

theorem Target.read_relocates (layout : Layout) : Relocates lo S id (read layout) (read layout) := by
  cases layout with
  | typeParameter => exact .bind (.u1 _) fun _ => .pure rfl
  | supertype => exact .bind (.u2 _) fun _ => .pure rfl
  | typeParameterBound => exact .bind (.u1 _) fun _ => .bind (.u1 _) fun _ => .pure rfl
  | empty => exact .pure rfl
  | formalParameter => exact .bind (.u1 _) fun _ => .pure rfl
  | thrown => exact .bind (.u2 _) fun _ => .pure rfl
  | localVariables =>
    exact .bind (.u2 _) fun count => .bind (.many_id count.toNat LocalRange.read_relocates)
      fun _ => .pure rfl
  | caught => exact .bind (.u2 _) fun _ => .pure rfl
  | offset => exact .bind (.u2 _) fun _ => .pure rfl
  | typeArgument => exact .bind (.u2 _) fun _ => .bind (.u1 _) fun _ => .pure rfl

theorem PathStep.read_relocates : Relocates lo S id read read :=
  .bind (.u1 _) fun _ => .bind (.u1 _) fun _ => .pure rfl

namespace TypeAnnotation

theorem read_relocates : Relocates lo S (shift S.shift) read read := by
  refine .position_bind fun start => .bind (.u1 _) fun targetType => ?_
  simp only [id_eq]
  split
  · exact .reject _
  · exact .bind (Target.read_relocates _) fun _ => .bind (.u1 _) fun count =>
      .bind (.many_id count.toNat PathStep.read_relocates) fun _ => .bind (.u2 _) fun _ =>
      .bind (ElementPair.readAll_relocates ElementValue.read_relocates) fun _ => .pure rfl

theorem readAll_relocates :
    Relocates lo S (List.map (Located.shift S.shift (shift S.shift))) readAll readAll :=
  .bind (.u2 _) fun count => .many count.toNat (.located read_relocates)

end TypeAnnotation

end JavaClass
