/-
  JavaClass.Proofs.Signature.Grammar — the grammar of signatures as trees.

  A tree of `Tree s` is a derivation from the symbol `s`, with one constructor for each production;
  rows of the same symbol are lists.  The declarations do not nest, so their derivations are plain
  records of trees.  Four functions read a tree:

    • `spelling`  — the characters that it derives,
    • `rendering` — its text in source code,
    • `canonical` — the tree with every bare class type in one piece,
    • `meaning`   — the generic type that it stands for.

  The grammar is ambiguous in one point only: a class type without arguments and nested classes is
  a whole name, or a parted name with nothing behind it.  Both mean the same, and apart from that a
  tree is determined by its meaning (`Tree.canonical_eq_of_meaning_eq`).
-/
import JavaClass.Proofs.Descriptor.Lexeme
import JavaClass.Signature.Parser

namespace JavaClass.Signature

/-! ## §1. Derivations. -/

/-- The symbols that types are derived from. -/
inductive Symbol where
  /-- A primitive type or a reference type. -/
  | anyType
  | reference
  | cls
  /-- Any number of type arguments, without the brackets around them. -/
  | arguments
  | argument
  /-- Any number of nested classes. -/
  | nested
deriving DecidableEq, Repr

/-- The derivations from a symbol. -/
inductive Tree : Symbol → Type where
  | base (type : BaseType) : Tree .anyType
  | reference (type : Tree .reference) : Tree .anyType
  | cls (type : Tree .cls) : Tree .reference
  | typeVariable (name : Identifier) : Tree .reference
  | array (element : Tree .anyType) : Tree .reference
  /-- A class type in one piece. -/
  | whole (name : QualifiedName) : Tree .cls
  /-- A class type with its arguments and the classes nested in it; each may be missing. -/
  | parted (name : QualifiedName) (arguments : Tree .arguments) (nested : Tree .nested) : Tree .cls
  | noArguments : Tree .arguments
  | argument (first : Tree .argument) (more : Tree .arguments) : Tree .arguments
  | unbounded : Tree .argument
  | bounded (variance : Variance) (bound : Tree .reference) : Tree .argument
  | noNested : Tree .nested
  | nested (name : Identifier) (arguments : Tree .arguments) (more : Tree .nested) : Tree .nested

/-- A type parameter: its name, perhaps a class bound, and interface bounds. -/
structure ParameterTree where
  name : Identifier
  classBound : Option (Tree .reference)
  interfaceBounds : List (Tree .reference)

/-- What a method may throw. -/
inductive ThrownTree where
  | cls (type : Tree .cls)
  | typeVariable (name : Identifier)

/-- The signature of a class. -/
structure ClassTree where
  typeParameters : List ParameterTree
  superclass : Tree .cls
  interfaces : List (Tree .cls)

/-- The signature of a method; without a result it is void. -/
structure MethodTree where
  typeParameters : List ParameterTree
  parameters : List (Tree .anyType)
  result : Option (Tree .anyType)
  throws : List ThrownTree

/-- The derivations of a signature of some kind. -/
def Derivation : Kind → Type
  | .cls => ClassTree
  | .method => MethodTree
  | .field => Tree .reference

/-! ## §2. Spelling. -/

/-- A row in angle brackets; nothing if the row is empty. -/
def angled (row : List Char) : List Char := if row.isEmpty then [] else '<' :: (row ++ ['>'])

/-- The mark in front of a type argument. -/
def Variance.spelling : Variance → List Char
  | .exact => []
  | .covariant => ['+']
  | .contravariant => ['-']

/-- The characters of a tree. -/
def Tree.spelling : {s : Symbol} → Tree s → List Char
  | _, base type => [type.letter]
  | _, reference type => type.spelling
  | _, cls type => type.spelling
  | _, typeVariable name => 'T' :: (name.chars ++ [';'])
  | _, array element => '[' :: element.spelling
  | _, whole name => 'L' :: (name.spelling ++ [';'])
  | _, parted name arguments inner =>
    'L' :: (name.spelling ++ (angled arguments.spelling ++ (inner.spelling ++ [';'])))
  | _, noArguments => []
  | _, argument first more => first.spelling ++ more.spelling
  | _, unbounded => ['*']
  | _, bounded variance bound => Variance.spelling variance ++ bound.spelling
  | _, noNested => []
  | _, nested name arguments more =>
    '.' :: (name.chars ++ (angled arguments.spelling ++ more.spelling))

/-- A name and its colon, the class bound, and each interface bound behind a colon. -/
def ParameterTree.spelling (p : ParameterTree) : List Char :=
  p.name.chars ++ ':' ::
    (p.classBound.elim [] Tree.spelling ++ p.interfaceBounds.flatMap fun b => ':' :: b.spelling)

/-- The type that is thrown. -/
def ThrownTree.type : ThrownTree → Tree .reference
  | cls type => .cls type
  | typeVariable name => .typeVariable name

/-- A class type or a type variable behind its caret. -/
def ThrownTree.spelling (t : ThrownTree) : List Char := '^' :: t.type.spelling

/-- Type parameters, superclass and interfaces. -/
def ClassTree.spelling (d : ClassTree) : List Char :=
  angled (d.typeParameters.flatMap ParameterTree.spelling) ++
    (d.superclass.spelling ++ d.interfaces.flatMap Tree.spelling)

/-- Type parameters, parameters in parentheses, result and exceptions. -/
def MethodTree.spelling (d : MethodTree) : List Char :=
  angled (d.typeParameters.flatMap ParameterTree.spelling) ++
    '(' :: (d.parameters.flatMap Tree.spelling ++
      ')' :: (d.result.elim ['V'] Tree.spelling ++ d.throws.flatMap ThrownTree.spelling))

/-- The characters of a signature. -/
def Derivation.spelling : {kind : Kind} → Derivation kind → List Char
  | .cls, d => ClassTree.spelling d
  | .method, d => MethodTree.spelling d
  | .field, d => Tree.spelling d

/-! ## §3. Rendering. -/

/-- Texts joined in angle brackets; nothing if there are none. -/
def joined (texts : List String) : String :=
  if texts.isEmpty then "" else "<" ++ ", ".intercalate texts ++ ">"

/-- Type arguments are rendered one by one. -/
abbrev Shown : Symbol → Type
  | .arguments => List String
  | _ => String

/-- A tree as source code writes it. -/
def Tree.rendering : {s : Symbol} → Tree s → Shown s
  | _, base type => type.keyword
  | _, reference type => type.rendering
  | _, cls type => type.rendering
  | _, typeVariable name => name.text
  | _, array element => element.rendering ++ "[]"
  | _, whole name => name.dotted
  | _, parted name arguments inner =>
    name.dotted ++ joined arguments.rendering ++ inner.rendering
  | _, noArguments => []
  | _, argument first more => first.rendering :: more.rendering
  | _, unbounded => "?"
  | _, bounded .exact bound => bound.rendering
  | _, bounded .covariant bound => "? extends " ++ bound.rendering
  | _, bounded .contravariant bound => "? super " ++ bound.rendering
  | _, noNested => ""
  | _, nested name arguments more =>
    "." ++ name.text ++ joined arguments.rendering ++ more.rendering

/-- A type parameter as source code writes it; the root class as the only bound is left out. -/
def ParameterTree.rendering (p : ParameterTree) : String :=
  let bounds := (p.classBound.toList ++ p.interfaceBounds).map Tree.rendering
  if bounds = [] ∨ bounds = ["java.lang.Object"] then p.name.text
  else p.name.text ++ " extends " ++ " & ".intercalate bounds

/-- What a method may throw, as source code writes it. -/
def ThrownTree.rendering (t : ThrownTree) : String := t.type.rendering

/-- The signature of a class as source code writes it. -/
def ClassTree.rendering (d : ClassTree) : String :=
  (if d.typeParameters.isEmpty then ""
    else joined (d.typeParameters.map ParameterTree.rendering) ++ " ") ++
  "extends " ++ d.superclass.rendering ++
  (if d.interfaces.isEmpty then ""
    else " implements " ++ ", ".intercalate (d.interfaces.map Tree.rendering))

/-- The signature of a method as source code writes it. -/
def MethodTree.rendering (d : MethodTree) : String :=
  joined (d.typeParameters.map ParameterTree.rendering) ++
  "(" ++ ",".intercalate (d.parameters.map Tree.rendering) ++ ") : " ++
  d.result.elim "void" Tree.rendering ++
  (if d.throws.isEmpty then ""
    else " throws " ++ ", ".intercalate (d.throws.map ThrownTree.rendering))

/-- A signature as source code writes it. -/
def Derivation.rendering : {kind : Kind} → Derivation kind → String
  | .cls, d => ClassTree.rendering d
  | .method, d => MethodTree.rendering d
  | .field, d => Tree.rendering d

/-! ## §4. Canonical trees. -/

/-- A class type, in one piece if nothing stands behind its name. -/
def Tree.close (name : QualifiedName) : Tree .arguments → Tree .nested → Tree .cls
  | noArguments, noNested => whole name
  | arguments, inner => parted name arguments inner

/-- The tree with every bare class type in one piece. -/
def Tree.canonical : {s : Symbol} → Tree s → Tree s
  | _, base type => base type
  | _, reference type => reference type.canonical
  | _, cls type => cls type.canonical
  | _, typeVariable name => typeVariable name
  | _, array element => array element.canonical
  | _, whole name => whole name
  | _, parted name arguments inner => close name arguments.canonical inner.canonical
  | _, noArguments => noArguments
  | _, argument first more => argument first.canonical more.canonical
  | _, unbounded => unbounded
  | _, bounded variance bound => bounded variance bound.canonical
  | _, noNested => noNested
  | _, nested name arguments more => nested name arguments.canonical more.canonical

/-- The type parameter with canonical bounds. -/
def ParameterTree.canonical (p : ParameterTree) : ParameterTree :=
  ⟨p.name, p.classBound.map Tree.canonical, p.interfaceBounds.map Tree.canonical⟩

/-- What may be thrown, with a canonical class type. -/
def ThrownTree.canonical : ThrownTree → ThrownTree
  | cls type => cls type.canonical
  | typeVariable name => typeVariable name

/-- The signature of a class with canonical types. -/
def ClassTree.canonical (d : ClassTree) : ClassTree :=
  ⟨d.typeParameters.map ParameterTree.canonical, d.superclass.canonical,
    d.interfaces.map Tree.canonical⟩

/-- The signature of a method with canonical types. -/
def MethodTree.canonical (d : MethodTree) : MethodTree :=
  ⟨d.typeParameters.map ParameterTree.canonical, d.parameters.map Tree.canonical,
    d.result.map Tree.canonical, d.throws.map ThrownTree.canonical⟩

/-- A signature with canonical types. -/
def Derivation.canonical : {kind : Kind} → Derivation kind → Derivation kind
  | .cls, d => ClassTree.canonical d
  | .method, d => MethodTree.canonical d
  | .field, d => Tree.canonical d

/-! ## §5. Meaning. -/

/-- What the trees of a symbol stand for. -/
abbrev Meaning : Symbol → Type
  | .anyType | .reference => GenericType
  | .cls => ClassType
  | .arguments => List TypeArgument
  | .argument => TypeArgument
  | .nested => List NestedClass

/-- One more dimension. -/
def arrayOf (t : GenericType) : GenericType := ⟨t.dimensions + 1, t.core⟩

/-- What a tree stands for. -/
def Tree.meaning : {s : Symbol} → Tree s → Meaning s
  | _, base type => ⟨0, .base type⟩
  | _, reference type => type.meaning
  | _, cls type => ⟨0, .cls type.meaning⟩
  | _, typeVariable name => ⟨0, .typeVariable name.text⟩
  | _, array element => arrayOf element.meaning
  | _, whole name => ⟨name.text, [], []⟩
  | _, parted name arguments inner => ⟨name.text, arguments.meaning, inner.meaning⟩
  | _, noArguments => []
  | _, argument first more => first.meaning :: more.meaning
  | _, unbounded => .unbounded
  | _, bounded variance bound => .bounded variance bound.meaning
  | _, noNested => []
  | _, nested name arguments more => ⟨name.text, arguments.meaning⟩ :: more.meaning

/-- The type parameter that a tree stands for. -/
def ParameterTree.meaning (p : ParameterTree) : TypeParameter :=
  ⟨p.name.text, p.classBound.map Tree.meaning, p.interfaceBounds.map Tree.meaning⟩

/-- What may be thrown. -/
def ThrownTree.meaning : ThrownTree → Thrown
  | cls type => .cls type.meaning
  | typeVariable name => .typeVariable name.text

/-- The signature of a class that a tree stands for. -/
def ClassTree.meaning (d : ClassTree) : ClassSignature :=
  ⟨d.typeParameters.map ParameterTree.meaning, d.superclass.meaning,
    d.interfaces.map Tree.meaning⟩

/-- The signature of a method that a tree stands for. -/
def MethodTree.meaning (d : MethodTree) : MethodSignature :=
  ⟨d.typeParameters.map ParameterTree.meaning, d.parameters.map Tree.meaning,
    d.result.map Tree.meaning, d.throws.map ThrownTree.meaning⟩

/-! ## §6. The meaning is displayed as the tree is rendered. -/

/-- What a tree stands for, as source code writes it. -/
def Symbol.display : (s : Symbol) → Meaning s → Shown s
  | .anyType, type => GenericType.display type
  | .reference, type => GenericType.display type
  | .cls, type => ClassType.display type
  | .arguments, as => as.map TypeArgument.display
  | .argument, a => TypeArgument.display a
  | .nested, cs => NestedClass.displayAll cs

theorem intercalate_display (text : String) (arguments : List TypeArgument) :
    ", ".intercalate (text :: arguments.map TypeArgument.display) =
      text ++ TypeArgument.displayMore arguments := by
  induction arguments generalizing text with
  | nil => simp [TypeArgument.displayMore]
  | cons a arguments ih =>
    rw [List.map_cons, String.intercalate_cons_cons, ih, TypeArgument.displayMore]
    simp only [String.append_assoc]

theorem displayAll_eq_joined (arguments : List TypeArgument) :
    TypeArgument.displayAll arguments = joined (arguments.map TypeArgument.display) := by
  cases arguments with
  | nil => rfl
  | cons a arguments =>
    rw [TypeArgument.displayAll, joined, List.map_cons, intercalate_display]
    simp only [List.isEmpty_cons, Bool.false_eq_true, if_false, String.append_assoc]

theorem display_zero (core : GenericCore) : GenericType.display ⟨0, core⟩ = core.display := by
  simp [GenericType.display, repeatText]

theorem display_arrayOf (t : GenericType) : (arrayOf t).display = t.display ++ "[]" := by
  obtain ⟨dimensions, core⟩ := t
  simp [arrayOf, GenericType.display, repeatText, List.replicate_succ', String.append_assoc]

theorem Tree.display_meaning {s : Symbol} (t : Tree s) : s.display t.meaning = t.rendering := by
  induction t with
  | base type => exact display_zero _
  | reference type ih => exact ih
  | cls type ih => exact (display_zero _).trans ih
  | typeVariable name => exact display_zero _
  | array element ih => exact (display_arrayOf _).trans (congrArg (· ++ "[]") ih)
  | whole name =>
    simp [Symbol.display, meaning, rendering, ClassType.display, TypeArgument.displayAll,
      NestedClass.displayAll, QualifiedName.sourceName_text]
  | parted name arguments inner iharguments ihinner =>
    simp only [Symbol.display] at iharguments ihinner
    simp only [Symbol.display, meaning, rendering, ClassType.display, displayAll_eq_joined,
      QualifiedName.sourceName_text, iharguments, ihinner]
  | noArguments => rfl
  | argument first more ihfirst ihmore => exact congr (congrArg List.cons ihfirst) ihmore
  | unbounded => rfl
  | bounded variance bound ih =>
    simp only [Symbol.display] at ih
    cases variance <;> simp only [Symbol.display, meaning, rendering, TypeArgument.display, ih]
  | noNested => rfl
  | nested name arguments more iharguments ihmore =>
    simp only [Symbol.display] at iharguments ihmore
    simp only [Symbol.display, meaning, rendering, NestedClass.displayAll, NestedClass.display,
      displayAll_eq_joined, iharguments, ihmore]

/-! ## §7. The meaning determines the canonical tree. -/

theorem Tree.meaning_ne_base (t : Tree .reference) (type : BaseType) :
    t.meaning ≠ (⟨0, .base type⟩ : GenericType) := by
  cases t with
  | cls type => simp [meaning]
  | typeVariable name => simp [meaning]
  | array element => simp [meaning, arrayOf]

theorem arrayOf_inj {t t' : GenericType} (h : arrayOf t = arrayOf t') : t = t' := by
  obtain ⟨dimensions, core⟩ := t
  obtain ⟨dimensions', core'⟩ := t'
  simpa [arrayOf] using h

/-- A class type with no arguments and no nested classes is bare. -/
theorem Tree.canonical_of_bare (name : QualifiedName) {arguments : Tree .arguments}
    {inner : Tree .nested} (harguments : arguments.meaning = ([] : List TypeArgument))
    (hinner : inner.meaning = ([] : List NestedClass)) :
    (parted name arguments inner).canonical = whole name := by
  cases arguments with
  | noArguments =>
    cases inner with
    | noNested => rfl
    | nested => cases hinner
  | argument => cases harguments

/-- Trees of one meaning differ only in the pieces of bare class types. -/
theorem Tree.canonical_eq_of_meaning_eq {s : Symbol} {t t' : Tree s}
    (h : t.meaning = t'.meaning) : t.canonical = t'.canonical := by
  -- Two constructors of one symbol have no meaning in common, but for the two class types.
  induction t with
  | base type =>
    cases t' with
    | base type' =>
      cases h
      rfl
    | reference type' => exact absurd h.symm (type'.meaning_ne_base type)
  | reference type ih =>
    cases t' with
    | base type' => exact absurd h (type.meaning_ne_base type')
    | reference type' => exact congrArg reference (ih h)
  | cls type ih =>
    cases t' with
    | cls type' =>
      injection h with _ hcore
      injection hcore with htype
      exact congrArg cls (ih htype)
    | typeVariable name' => simp [meaning] at h
    | array element' => simp [meaning, arrayOf] at h
  | typeVariable name =>
    cases t' with
    | cls type' => simp [meaning] at h
    | typeVariable name' =>
      injection h with _ hcore
      injection hcore with htext
      rw [Identifier.text_inj htext]
    | array element' => simp [meaning, arrayOf] at h
  | array element ih =>
    cases t' with
    | cls type' => simp [meaning, arrayOf] at h
    | typeVariable name' => simp [meaning, arrayOf] at h
    | array element' => exact congrArg array (ih (arrayOf_inj h))
  | whole name =>
    cases t' with
    | whole name' =>
      injection h with hname
      rw [QualifiedName.text_inj hname]
    | parted name' arguments' inner' =>
      injection h with hname harguments hinner
      rw [canonical_of_bare name' harguments.symm hinner.symm, QualifiedName.text_inj hname]
      rfl
  | parted name arguments inner iharguments ihinner =>
    cases t' with
    | whole name' =>
      injection h with hname harguments hinner
      rw [canonical_of_bare name harguments hinner, QualifiedName.text_inj hname]
      rfl
    | parted name' arguments' inner' =>
      injection h with hname harguments hinner
      rw [canonical, canonical, QualifiedName.text_inj hname, iharguments harguments,
        ihinner hinner]
  | noArguments =>
    cases t' with
    | noArguments => rfl
    | argument => cases h
  | argument first more ihfirst ihmore =>
    cases t' with
    | noArguments => cases h
    | argument first' more' =>
      injection h with hfirst hmore
      rw [canonical, canonical, ihfirst hfirst, ihmore hmore]
  | unbounded =>
    cases t' with
    | unbounded => rfl
    | bounded => cases h
  | bounded variance bound ih =>
    cases t' with
    | unbounded => cases h
    | bounded variance' bound' =>
      injection h with hvariance hbound
      rw [canonical, canonical, hvariance, ih hbound]
  | noNested =>
    cases t' with
    | noNested => rfl
    | nested => cases h
  | nested name arguments more iharguments ihmore =>
    cases t' with
    | noNested => cases h
    | nested name' arguments' more' =>
      injection h with hfirst hmore
      injection hfirst with hname harguments
      rw [canonical, canonical, Identifier.text_inj hname, iharguments harguments, ihmore hmore]

/-- A canonical tree derives the same characters. -/
theorem Tree.spelling_canonical {s : Symbol} (t : Tree s) : t.canonical.spelling = t.spelling := by
  have hclose : ∀ (name : QualifiedName) (arguments : Tree .arguments) (inner : Tree .nested),
      (close name arguments inner).spelling = (parted name arguments inner).spelling := by
    intro name arguments inner
    cases arguments <;> cases inner <;> rfl
  induction t with
  | parted name arguments inner iharguments ihinner =>
    rw [canonical, hclose, spelling, spelling, iharguments, ihinner]
  | reference type ih => exact ih
  | cls type ih => exact ih
  | array element ih => rw [canonical, spelling, spelling, ih]
  | argument first more ihfirst ihmore => rw [canonical, spelling, spelling, ihfirst, ihmore]
  | bounded variance bound ih => rw [canonical, spelling, spelling, ih]
  | nested name arguments more iharguments ihmore =>
    rw [canonical, spelling, spelling, iharguments, ihmore]
  | base | typeVariable | whole | noArguments | unbounded | noNested => rfl

/-! ## §8. The same for declarations. -/

theorem map_display_meaning (s : Symbol) (ts : List (Tree s)) :
    (ts.map Tree.meaning).map s.display = ts.map Tree.rendering := by
  rw [List.map_map]
  exact List.map_congr_left fun t _ => t.display_meaning

theorem ParameterTree.display_meaning (p : ParameterTree) : p.meaning.display = p.rendering := by
  have hbounds : (p.meaning.classBound.toList ++ p.meaning.interfaceBounds).map
      GenericType.display = (p.classBound.toList ++ p.interfaceBounds).map Tree.rendering := by
    rw [← map_display_meaning .reference, List.map_append (f := Tree.meaning),
      ← Option.toList_map]
    rfl
  unfold TypeParameter.display rendering
  rw [hbounds]
  simp [meaning]

theorem ThrownTree.display_meaning (t : ThrownTree) : t.meaning.display = t.rendering := by
  cases t with
  | cls type => exact type.display_meaning
  | typeVariable name => rfl

theorem displayAll_map_meaning (ps : List ParameterTree) :
    TypeParameter.displayAll (ps.map ParameterTree.meaning) =
      "<" ++ ", ".intercalate (ps.map ParameterTree.rendering) ++ ">" := by
  rw [TypeParameter.displayAll, List.map_map]
  congr 4
  exact funext ParameterTree.display_meaning

theorem ClassTree.display_meaning (d : ClassTree) : d.meaning.display = d.rendering := by
  obtain ⟨ps, superclass, interfaces⟩ := d
  have hsuperclass : superclass.meaning.display = superclass.rendering :=
    superclass.display_meaning
  have hinterfaces : (interfaces.map Tree.meaning).map ClassType.display =
      interfaces.map Tree.rendering := map_display_meaning .cls interfaces
  simp only [meaning, rendering, ClassSignature.display, List.isEmpty_map, displayAll_map_meaning,
    hsuperclass, hinterfaces]
  cases ps with
  | nil => rfl
  | cons p ps => rfl

theorem MethodTree.display_meaning (d : MethodTree) : d.meaning.display = d.rendering := by
  obtain ⟨ps, parameters, result, throws⟩ := d
  have hparameters : (parameters.map Tree.meaning).map GenericType.display =
      parameters.map Tree.rendering := map_display_meaning .anyType parameters
  have hresult : (result.map Tree.meaning).elim "void" GenericType.display =
      result.elim "void" Tree.rendering := by
    cases result with
    | none => rfl
    | some type => exact type.display_meaning
  have hthrows : (throws.map ThrownTree.meaning).map Thrown.display =
      throws.map ThrownTree.rendering := by
    rw [List.map_map]
    exact List.map_congr_left fun t _ => t.display_meaning
  simp only [meaning, rendering, MethodSignature.display, List.isEmpty_map,
    displayAll_map_meaning, hparameters, hresult, hthrows]
  cases ps with
  | nil => rfl
  | cons p ps => rfl

/-- Where one function decides another, it does so for rows. -/
theorem map_eq_map_of_decides {α β γ : Type} {f : α → β} {g : α → γ}
    (h : ∀ {a a'}, f a = f a' → g a = g a') {xs ys : List α} (hxs : xs.map f = ys.map f) :
    xs.map g = ys.map g := by
  induction xs generalizing ys with
  | nil =>
    cases ys with
    | nil => rfl
    | cons y ys => cases hxs
  | cons x xs ih =>
    cases ys with
    | nil => cases hxs
    | cons y ys =>
      injection hxs with hx hxs
      rw [List.map_cons, List.map_cons, h hx, ih hxs]

theorem option_map_eq_map_of_decides {α β γ : Type} {f : α → β} {g : α → γ}
    (h : ∀ {a a'}, f a = f a' → g a = g a') {x y : Option α} (hx : x.map f = y.map f) :
    x.map g = y.map g := by
  cases x with
  | none =>
    cases y with
    | none => rfl
    | some y => cases hx
  | some x =>
    cases y with
    | none => cases hx
    | some y =>
      injection hx with hx
      rw [Option.map_some, Option.map_some, h hx]

theorem ParameterTree.canonical_eq_of_meaning_eq {p p' : ParameterTree}
    (h : p.meaning = p'.meaning) : p.canonical = p'.canonical := by
  injection h with hname hclass hinterfaces
  rw [canonical, canonical, Identifier.text_inj hname,
    option_map_eq_map_of_decides Tree.canonical_eq_of_meaning_eq hclass,
    map_eq_map_of_decides Tree.canonical_eq_of_meaning_eq hinterfaces]

theorem ThrownTree.canonical_eq_of_meaning_eq {t t' : ThrownTree}
    (h : t.meaning = t'.meaning) : t.canonical = t'.canonical := by
  cases t with
  | cls type =>
    cases t' with
    | cls type' =>
      injection h with htype
      exact congrArg cls (Tree.canonical_eq_of_meaning_eq htype)
    | typeVariable name' => cases h
  | typeVariable name =>
    cases t' with
    | cls type' => cases h
    | typeVariable name' =>
      injection h with htext
      rw [Identifier.text_inj htext]

theorem ClassTree.canonical_eq_of_meaning_eq {d d' : ClassTree}
    (h : d.meaning = d'.meaning) : d.canonical = d'.canonical := by
  injection h with hparameters hsuperclass hinterfaces
  rw [canonical, canonical,
    map_eq_map_of_decides ParameterTree.canonical_eq_of_meaning_eq hparameters,
    Tree.canonical_eq_of_meaning_eq hsuperclass,
    map_eq_map_of_decides Tree.canonical_eq_of_meaning_eq hinterfaces]

theorem MethodTree.canonical_eq_of_meaning_eq {d d' : MethodTree}
    (h : d.meaning = d'.meaning) : d.canonical = d'.canonical := by
  injection h with htypeParameters hparameters hresult hthrows
  rw [canonical, canonical,
    map_eq_map_of_decides ParameterTree.canonical_eq_of_meaning_eq htypeParameters,
    map_eq_map_of_decides Tree.canonical_eq_of_meaning_eq hparameters,
    option_map_eq_map_of_decides Tree.canonical_eq_of_meaning_eq hresult,
    map_eq_map_of_decides ThrownTree.canonical_eq_of_meaning_eq hthrows]

theorem ParameterTree.spelling_canonical (p : ParameterTree) :
    p.canonical.spelling = p.spelling := by
  obtain ⟨name, classBound, interfaceBounds⟩ := p
  cases classBound <;>
    simp [canonical, spelling, List.flatMap_map, Tree.spelling_canonical]

theorem ThrownTree.spelling_canonical (t : ThrownTree) : t.canonical.spelling = t.spelling := by
  have htype : t.canonical.type = t.type.canonical := by
    cases t <;> rfl
  rw [spelling, spelling, htype, t.type.spelling_canonical]

/-- A canonical signature derives the same characters. -/
theorem Derivation.spelling_canonical {kind : Kind} (d : Derivation kind) :
    d.canonical.spelling = d.spelling := by
  cases kind with
  | cls =>
    obtain ⟨ps, superclass, interfaces⟩ := d
    simp [Derivation.canonical, Derivation.spelling, ClassTree.canonical, ClassTree.spelling,
      List.flatMap_map, ParameterTree.spelling_canonical, Tree.spelling_canonical]
  | method =>
    obtain ⟨ps, parameters, result, throws⟩ := d
    cases result <;>
      simp [Derivation.canonical, Derivation.spelling, MethodTree.canonical, MethodTree.spelling,
        List.flatMap_map, ParameterTree.spelling_canonical, Tree.spelling_canonical,
        ThrownTree.spelling_canonical]
  | field => exact Tree.spelling_canonical d

end JavaClass.Signature
