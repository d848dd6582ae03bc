/-
  JavaClass.Proofs.Signature.Plain — types without generics, read as descriptors and as signatures.

  A descriptor is a signature that happens to use no generics, but the two are cut into different
  tokens and read by different readers.  Both are read exactly as their grammars derive them, so it
  is enough to compare the grammars: every form of a descriptor has a tree in the grammar of
  signatures, which spells the same text (`spelling_tree`) and is rendered as the type of the form
  is displayed (`rendering_tree`).

  `plain_types_agree` says so of the readers.
-/
import JavaClass.Proofs.Descriptor.Grammar
import JavaClass.Proofs.Signature.Derivation

namespace JavaClass

open Signature (Tree MethodTree)

/-! ## §1. Forms as trees. -/

namespace Signature

/-- A type under `n` array dimensions. -/
def Tree.arrays (t : Tree .anyType) : Nat → Tree .anyType
  | 0 => t
  | n + 1 => .reference (.array (t.arrays n))

theorem Tree.spelling_arrays (t : Tree .anyType) (n : Nat) :
    (t.arrays n).spelling = List.replicate n '[' ++ t.spelling := by
  induction n with
  | zero => rfl
  | succ n ih =>
    show '[' :: (t.arrays n).spelling = _
    rw [ih, List.replicate_succ, List.cons_append]

theorem Tree.rendering_arrays (t : Tree .anyType) (n : Nat) :
    (t.arrays n).rendering = t.rendering ++ repeatText n "[]" := by
  induction n with
  | zero => exact (String.append_empty).symm
  | succ n ih =>
    -- Dimensions are written behind the element, so the last bracket pair is the outermost.
    have hlast : repeatText (n + 1) "[]" = repeatText n "[]" ++ "[]" := by
      simp [repeatText, List.replicate_succ']
    show (t.arrays n).rendering ++ "[]" = _
    rw [ih, hlast, String.append_assoc]

end Signature

namespace Descriptor

/-- A primitive type, or a class type in one piece. -/
def ElementForm.tree : ElementForm → Tree .anyType
  | base type => .base type
  | object name => .reference (.cls (.whole name))

/-- The form as a type of the grammar of signatures. -/
def FieldForm.tree (f : FieldForm) : Tree .anyType := f.element.tree.arrays f.brackets

/-- The form as the signature of a method without type parameters and exceptions. -/
def MethodForm.tree (m : MethodForm) : MethodTree :=
  ⟨[], m.parameters.map FieldForm.tree, m.result.map FieldForm.tree, []⟩

/-! ## §2. They spell the same, and read the same in source code. -/

theorem FieldForm.spelling_tree (f : FieldForm) : f.tree.spelling = f.spelling := by
  obtain ⟨brackets, element⟩ := f
  rw [tree, Signature.Tree.spelling_arrays]
  cases element <;> rfl

theorem FieldForm.rendering_tree (f : FieldForm) : f.tree.rendering = f.type.display := by
  obtain ⟨brackets, element⟩ := f
  rw [tree, Signature.Tree.rendering_arrays, FieldType.display]
  congr 1
  cases element with
  | base type => rfl
  | object name => exact (QualifiedName.sourceName_text name).symm

theorem MethodForm.spelling_tree (m : MethodForm) : m.tree.spelling = m.spelling := by
  have hparameters : (m.parameters.map FieldForm.tree).flatMap Tree.spelling =
      m.parameters.flatMap FieldForm.spelling := by
    rw [List.flatMap_map]
    exact congrArg (List.flatMap · m.parameters) (funext FieldForm.spelling_tree)
  have hresult : (m.result.map FieldForm.tree).elim ['V'] Tree.spelling = m.resultSpelling := by
    rcases m with ⟨parameters, _ | result⟩
    · rfl
    · exact result.spelling_tree
  show '(' :: ((m.parameters.map FieldForm.tree).flatMap Tree.spelling ++
    ')' :: ((m.result.map FieldForm.tree).elim ['V'] Tree.spelling ++ [])) = _
  rw [hparameters, hresult, List.append_nil]
  rfl

theorem MethodForm.rendering_tree (m : MethodForm) : m.tree.rendering = m.type.display := by
  have hparameters : (m.parameters.map FieldForm.tree).map Tree.rendering =
      m.type.parameters.map FieldType.display := by
    rw [List.map_map]
    show _ = (m.parameters.map FieldForm.type).map FieldType.display
    rw [List.map_map]
    exact List.map_congr_left fun f _ => f.rendering_tree
  have hresult : (m.result.map FieldForm.tree).elim "void" Tree.rendering =
      m.type.resultDisplay := by
    rcases m with ⟨parameters, _ | result⟩
    · rfl
    · exact result.rendering_tree
  show "" ++ "(" ++ ",".intercalate ((m.parameters.map FieldForm.tree).map Tree.rendering) ++
    ") : " ++ (m.result.map FieldForm.tree).elim "void" Tree.rendering ++ "" = _
  rw [hparameters, hresult]
  simp [MethodType.display, MethodType.parametersDisplay, String.append_assoc]

/-- A form that is no primitive type is a reference type. -/
theorem FieldForm.exists_reference {f : FieldForm}
    (h : f.type.kind = "class" ∨ f.type.kind = "array") :
    ∃ t : Tree .reference, f.tree = .reference t := by
  obtain ⟨_ | n, type | name⟩ := f
  · have hkind : (FieldForm.mk 0 (.base type)).type.kind = "primitive" := rfl
    rw [hkind] at h
    exact absurd h (by decide)
  · exact ⟨_, rfl⟩
  · exact ⟨_, rfl⟩
  · exact ⟨_, rfl⟩

end Descriptor

/-! ## §3. The readers agree. -/

namespace Signature

/-- The text is a signature of the kind with this name, or of the likely kind if none is named, and
    source code writes it as `shown`. -/
def Shows (name? : Option String) (text shown : String) : Prop :=
  ∃ kind, Kind.choose name? text = .ok kind ∧ display kind text = .ok shown

theorem Shows.of_derivation (kind : Kind) {name? : Option String} {text : String}
    (hkind : Kind.choose name? text = .ok kind) (d : Derivation kind)
    (hspelling : d.spelling = text.toList) : Shows name? text d.rendering :=
  ⟨kind, hkind, display_eq_ok_iff.mpr ⟨d, hspelling, rfl⟩⟩

/-- **Descriptors are signatures.**  A field descriptor of a class or an array is a signature of a
    field, and source code writes both in the same way.  A method descriptor is a signature of a
    method, which is also what it is taken for if no kind is named. -/
theorem plain_types_agree :
    (∀ (text : String) (t : FieldType), FieldType.parse text = .ok t →
      t.kind = "class" ∨ t.kind = "array" → Shows (some "field") text t.display) ∧
    ∀ (text : String) (t : MethodType), MethodType.parse text = .ok t →
      Shows (some "method") text t.display ∧ Shows none text t.display := by
  refine ⟨fun text t hparse hkind => ?_, fun text t hparse => ?_⟩
  · obtain ⟨f, hspelling, rfl⟩ := FieldType.parse_eq_ok_iff.mp hparse
    obtain ⟨tree, htree⟩ := Descriptor.FieldForm.exists_reference hkind
    have hsame : tree.spelling = text.toList := by
      rw [← hspelling, ← f.spelling_tree, htree]
      rfl
    have hshown : tree.rendering = f.type.display := by
      rw [← f.rendering_tree, htree]
      rfl
    rw [← hshown]
    exact .of_derivation .field rfl tree hsame
  · obtain ⟨m, hspelling, rfl⟩ := MethodType.parse_eq_ok_iff.mp hparse
    have hsame : m.tree.spelling = text.toList := m.spelling_tree.trans hspelling
    -- A parenthesis makes a method of a signature, and this one starts with it.
    have hguess : Kind.choose none text = .ok .method := by
      show Except.ok (Kind.guess text) = _
      rw [Kind.guess, ← hspelling]
      rfl
    rw [← m.rendering_tree]
    exact ⟨.of_derivation .method rfl m.tree hsame, .of_derivation .method hguess m.tree hsame⟩

/-- Names that look like types, and like the marks around them. -/
theorem plain_types_agree_odd :
    (FieldType.parse "[L(TV/^*;" = .ok ⟨1, .object "(TV/^*"⟩ ∧
      Shows (some "field") "[L(TV/^*;" "(TV.^*[]") ∧
    MethodType.parse "(L)I;[[JLT+;)LV;" =
      .ok ⟨[⟨0, .object ")I"⟩, ⟨2, .base .long⟩, ⟨0, .object "T+"⟩], some ⟨0, .object "V"⟩⟩ ∧
    Shows (some "method") "(L)I;[[JLT+;)LV;" "()I,long[][],T+) : V" ∧
    Shows none "(L)I;[[JLT+;)LV;" "()I,long[][],T+) : V" := by
  have hfield : FieldType.parse "[L(TV/^*;" = .ok ⟨1, .object "(TV/^*"⟩ :=
    FieldType.parse_eq_ok_iff.mpr ⟨⟨1, .object ⟨.ofChars ['(', 'T', 'V'] (by decide) (by decide),
      [.ofChars ['^', '*'] (by decide) (by decide)]⟩⟩, by decide, by decide⟩
  have hmethod : MethodType.parse "(L)I;[[JLT+;)LV;" =
      .ok ⟨[⟨0, .object ")I"⟩, ⟨2, .base .long⟩, ⟨0, .object "T+"⟩], some ⟨0, .object "V"⟩⟩ :=
    MethodType.parse_eq_ok_iff.mpr ⟨⟨[
      ⟨0, .object ⟨.ofChars [')', 'I'] (by decide) (by decide), []⟩⟩, ⟨2, .base .long⟩,
      ⟨0, .object ⟨.ofChars ['T', '+'] (by decide) (by decide), []⟩⟩],
      some ⟨0, .object ⟨.ofChars ['V'] (by decide) (by decide), []⟩⟩⟩, by decide, by decide⟩
  exact ⟨⟨hfield, plain_types_agree.1 _ _ hfield (.inr rfl)⟩, hmethod,
    plain_types_agree.2 _ _ hmethod⟩

end Signature

end JavaClass
