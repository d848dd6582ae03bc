/-
  JavaClass.Proofs.Attribute.Family — attributes inside attributes.

  The family of an attribute is the attribute itself and all attributes inside it, at any depth, the
  outer ones first.  In this order their starts ascend, because an attribute starts before everything
  inside it, and what follows it starts behind its end (`Nested`).  So a start names one attribute.

  `mask` blanks the payload of the attribute with a given start, and leaves everything else as it is.
-/
import JavaClass.Attribute.Basic

namespace JavaClass

/-! ## §1. Families. -/

mutual

/-- The attribute and all attributes inside it. -/
def Attribute.family : Attribute → List Attribute
  | ⟨start, nameIndex, name, declared, payload⟩ =>
    ⟨start, nameIndex, name, declared, payload⟩ :: payload.family

/-- All attributes inside a payload. -/
def Payload.family : Payload → List Attribute
  | .code code => code.family
  | .recordComponents components => RecordComponent.familyAll components
  | _ => []

/-- All attributes inside the body of a method. -/
def Code.family : Code → List Attribute
  | ⟨_, _, _, _, _, _, _, attributes⟩ => Attribute.familyAll attributes

/-- All attributes of a component of a record. -/
def RecordComponent.family : RecordComponent → List Attribute
  | ⟨_, _, _, attributes⟩ => Attribute.familyAll attributes

/-- All attributes of components, one behind the other. -/
def RecordComponent.familyAll : List RecordComponent → List Attribute
  | [] => []
  | component :: rest => component.family ++ RecordComponent.familyAll rest

/-- Attributes, each with those inside it. -/
def Attribute.familyAll : List Attribute → List Attribute
  | [] => []
  | a :: rest => a.family ++ Attribute.familyAll rest

end

theorem RecordComponent.familyAll_eq_flatMap (components : List RecordComponent) :
    RecordComponent.familyAll components = components.flatMap RecordComponent.family := by
  induction components with
  | nil => rfl
  | cons component rest ih => rw [RecordComponent.familyAll, ih, List.flatMap_cons]

theorem Attribute.familyAll_eq_flatMap (attributes : List Attribute) :
    Attribute.familyAll attributes = attributes.flatMap Attribute.family := by
  induction attributes with
  | nil => rfl
  | cons a rest ih => rw [Attribute.familyAll, ih, List.flatMap_cons]

theorem Attribute.family_eq (a : Attribute) : a.family = a :: a.payload.family := by
  cases a
  rw [Attribute.family]

/-! ## §2. Blanking a payload. -/

mutual

/-- The attribute with the payload of the one that starts at `place` blanked. -/
def Attribute.mask (place : Int) : Attribute → Attribute
  | ⟨start, nameIndex, name, declared, payload⟩ =>
    ⟨start, nameIndex, name, declared, if start = place then .raw [] else payload.mask place⟩

/-- The payload with the payload of the attribute that starts at `place` blanked. -/
def Payload.mask (place : Int) : Payload → Payload
  | .code code => .code (code.mask place)
  | .recordComponents components =>
    .recordComponents (RecordComponent.maskAll place components)
  | payload => payload

/-- The body of a method with the payload of the attribute that starts at `place` blanked. -/
def Code.mask (place : Int) : Code → Code
  | ⟨maxStack, maxLocals, start, length, content, listing, handlers, attributes⟩ =>
    ⟨maxStack, maxLocals, start, length, content, listing, handlers,
      Attribute.maskAll place attributes⟩

/-- The component with the payload of the attribute that starts at `place` blanked. -/
def RecordComponent.mask (place : Int) : RecordComponent → RecordComponent
  | ⟨span, name, descriptor, attributes⟩ =>
    ⟨span, name, descriptor, Attribute.maskAll place attributes⟩

/-- The components with the payload of the attribute that starts at `place` blanked. -/
def RecordComponent.maskAll (place : Int) : List RecordComponent → List RecordComponent
  | [] => []
  | component :: rest => component.mask place :: RecordComponent.maskAll place rest

/-- The attributes with the payload of the one that starts at `place` blanked. -/
def Attribute.maskAll (place : Int) : List Attribute → List Attribute
  | [] => []
  | a :: rest => a.mask place :: Attribute.maskAll place rest

end

theorem RecordComponent.maskAll_eq_map (place : Int) (components : List RecordComponent) :
    RecordComponent.maskAll place components = components.map (RecordComponent.mask place) := by
  induction components with
  | nil => rfl
  | cons component rest ih => rw [RecordComponent.maskAll, ih, List.map_cons]

theorem Attribute.maskAll_eq_map (place : Int) (attributes : List Attribute) :
    Attribute.maskAll place attributes = attributes.map (Attribute.mask place) := by
  induction attributes with
  | nil => rfl
  | cons a rest ih => rw [Attribute.maskAll, ih, List.map_cons]

/-! ## §3. The order of starts. -/

/-- Attributes from `lo` to `hi` whose starts ascend. -/
structure Nested (lo : Int) (attributes : List Attribute) (hi : Int) : Prop where
  le : lo ≤ hi
  ascending : attributes.Pairwise fun a b => a.start < b.start
  within : ∀ a ∈ attributes, lo ≤ a.start ∧ a.start + a.length ≤ hi

namespace Nested

variable {lo mid hi : Int} {first second : List Attribute}

theorem nil (h : lo ≤ hi) : Nested lo [] hi := ⟨h, .nil, fun _ ha => nomatch ha⟩

theorem mono (h : Nested lo first hi) {lo' hi' : Int} (hlo : lo' ≤ lo) (hhi : hi ≤ hi') :
    Nested lo' first hi' := by
  refine ⟨Int.le_trans hlo (Int.le_trans h.le hhi), h.ascending, ?_⟩
  intro a ha
  obtain ⟨hstart, hend⟩ := h.within a ha
  exact ⟨Int.le_trans hlo hstart, Int.le_trans hend hhi⟩

theorem append (h₁ : Nested lo first mid) (h₂ : Nested mid second hi) :
    Nested lo (first ++ second) hi := by
  have hle₁ := h₁.le
  have hle₂ := h₂.le
  refine ⟨Int.le_trans hle₁ hle₂, List.pairwise_append.mpr ⟨h₁.ascending, h₂.ascending, ?_⟩, ?_⟩
  -- All of the first end before any of the second starts.
  · intro a ha b hb
    have hlength : a.length = 6 + a.declared.toNat := rfl
    have := (h₁.within a ha).2
    have := (h₂.within b hb).1
    omega
  · intro a ha
    obtain ha | ha := List.mem_append.mp ha
    · exact ⟨(h₁.within a ha).1, Int.le_trans (h₁.within a ha).2 hle₂⟩
    · exact ⟨Int.le_trans hle₁ (h₂.within a ha).1, (h₂.within a ha).2⟩

/-- An attribute from `lo` to `hi`, and attributes inside its payload. -/
theorem enclose {a : Attribute} (hstart : a.start = lo) (hend : a.start + a.length = hi)
    (h : Nested a.payloadStart a.payload.family hi) : Nested lo a.family hi := by
  have hpayload : a.payloadStart = a.start + 6 := rfl
  have hlength : a.length = 6 + a.declared.toNat := rfl
  rw [Attribute.family_eq]
  refine ⟨by omega, List.pairwise_cons.mpr ⟨?_, h.ascending⟩, ?_⟩
  · intro b hb
    have := (h.within b hb).1
    omega
  · intro b hb
    obtain rfl | hb := List.mem_cons.mp hb
    · omega
    · have := h.within b hb
      omega

/-- A start names one attribute. -/
theorem eq_of_start_eq (h : Nested lo first hi) {a b : Attribute} (ha : a ∈ first)
    (hb : b ∈ first) (hstart : b.start = a.start) : b = a := by
  -- Starts ascend strictly, so two places in the list have two starts.
  obtain ⟨i, hi, rfl⟩ := List.mem_iff_getElem.mp ha
  obtain ⟨j, hj, rfl⟩ := List.mem_iff_getElem.mp hb
  have hpairs := List.pairwise_iff_getElem.mp h.ascending
  obtain hlt | heq | hgt : i < j ∨ i = j ∨ j < i := by omega
  · have := hpairs i j hi hj hlt
    omega
  · subst heq
    rfl
  · have := hpairs j i hj hi hgt
    omega

end Nested

end JavaClass
