/-
  JavaClass.Proofs.Signature.Cutting — the spelling of a tree is cut into the tokens of the tree.

  The name of a type parameter is looked for first wherever a type may just have ended, and a name
  may start with any letter.  It needs a colon, though, and no type has one in its spelling
  (`Tree.colon_notMem`).  So a text is safe from being taken for such a name if the first mark in it
  is not a colon (`Calm`): in front of anything but type parameters all texts are calm, and a
  reference type is calm whatever follows it, because it has a mark of its own.

  A class type that has nothing behind its name is one token in both of its trees.
-/
import JavaClass.Proofs.Signature.Grammar

namespace JavaClass.Signature

/-! ## §1. The tokens of trees. -/

/-- A row in angle brackets; nothing if the row is empty. -/
def angledTokens (row : List Token) : List Token :=
  if row.isEmpty then [] else .openAngle :: (row ++ [.closeAngle])

/-- The token in front of a type argument. -/
def Variance.tokens : Variance → List Token
  | .exact => []
  | .covariant => [.wildcard .covariant]
  | .contravariant => [.wildcard .contravariant]

/-- Nothing stands behind the name of a class. -/
def Tree.bare : Tree .arguments → Tree .nested → Bool
  | noArguments, noNested => true
  | _, _ => false

/-- The tokens of a tree. -/
def Tree.tokens : {s : Symbol} → Tree s → List Token
  | _, base type => [.base type]
  | _, reference type => type.tokens
  | _, cls type => type.tokens
  | _, typeVariable name => [.typeVariable name.text]
  | _, array element => .bracket :: element.tokens
  | _, whole name => [.object name.text]
  | _, parted name arguments inner =>
    if bare arguments inner then [.object name.text]
    else .className name.text ::
      (angledTokens arguments.tokens ++ (inner.tokens ++ [.semicolon]))
  | _, noArguments => []
  | _, argument first more => first.tokens ++ more.tokens
  | _, unbounded => [.star]
  | _, bounded variance bound => Variance.tokens variance ++ bound.tokens
  | _, noNested => []
  | _, nested name arguments more =>
    .nested name.text :: (angledTokens arguments.tokens ++ more.tokens)

/-- The tokens of a type parameter. -/
def ParameterTree.tokens (p : ParameterTree) : List Token :=
  .parameter p.name.text ::
    (p.classBound.elim [] Tree.tokens ++ p.interfaceBounds.flatMap fun b => .colon :: b.tokens)

/-- The tokens of what may be thrown. -/
def ThrownTree.tokens (t : ThrownTree) : List Token := .caret :: t.type.tokens

/-- The tokens of the signature of a class. -/
def ClassTree.tokens (d : ClassTree) : List Token :=
  angledTokens (d.typeParameters.flatMap ParameterTree.tokens) ++
    (d.superclass.tokens ++ d.interfaces.flatMap Tree.tokens)

/-- The tokens of the signature of a method. -/
def MethodTree.tokens (d : MethodTree) : List Token :=
  angledTokens (d.typeParameters.flatMap ParameterTree.tokens) ++
    .openParen :: (d.parameters.flatMap Tree.tokens ++
      .closeParen :: (d.result.elim [.void] Tree.tokens ++ d.throws.flatMap ThrownTree.tokens))

/-! ## §2. Calm texts. -/

/-- The text does not start with the name of a type parameter and its colon. -/
def Calm (text : List Char) : Prop := ∀ rest, text.dropWhile isNameChar ≠ ':' :: rest

theorem calm_nil : Calm [] := by
  intro rest h
  cases h

theorem calm_of_mark {c : Char} (hmark : isNameChar c = false) (hc : c ≠ ':') (rest : List Char) :
    Calm (c :: rest) := by
  intro rest' h
  rw [List.dropWhile_cons_of_neg (by simp [hmark])] at h
  exact hc (List.cons.inj h).1

theorem calm_append {cs rest : List Char} (hcs : ':' ∉ cs) (h : Calm rest) : Calm (cs ++ rest) := by
  induction cs with
  | nil => exact h
  | cons c cs ih =>
    rw [List.mem_cons, not_or] at hcs
    by_cases hname : isNameChar c = true
    · intro rest'
      rw [List.cons_append, List.dropWhile_cons_of_pos hname]
      exact ih hcs.2 rest'
    · exact calm_of_mark (by simpa using hname) (Ne.symm hcs.1) (cs ++ rest)

theorem parameter?_of_calm {text : List Char} (h : Calm text) : parameter? text = none := by
  unfold parameter?
  split
  · next c cs rest hname hdrop => exact absurd hdrop (h rest)
  · rfl

/-- What is expected where a text starts does not hide what the text starts with. -/
def Open (now : Expecting) (text : List Char) : Prop := now = .parameter → Calm text

theorem open_other (text : List Char) : Open .other text := by
  intro h
  cases h

theorem open_of_mark {c : Char} (hmark : isNameChar c = false) (hc : c ≠ ':') (now : Expecting)
    (rest : List Char) : Open now (c :: rest) := fun _ => calm_of_mark hmark hc rest

/-- In front of an open text only marks are found. -/
theorem next?_of_mark {now : Expecting} {text spelling : List Char} {token : Token}
    (hnow : Open now text) (h : mark? text = some (token, spelling)) :
    next? now text = some ⟨token, token.expecting now, spelling⟩ := by
  unfold next?
  cases now with
  | start => simp only [h, Option.map_some]
  | parameter => simp only [parameter?_of_calm (hnow rfl), h, Option.none_or, Option.map_some]
  | other => simp only [h, Option.map_some]

/-! ## §3. Where colons are. -/

theorem colon_notMem_identifier (n : Identifier) : ':' ∉ n.chars := by
  intro h
  exact absurd (n.isNameChar_of_mem ':' h) (by decide)

theorem colon_notMem_qualified (q : QualifiedName) : ':' ∉ q.spelling := by
  simp [QualifiedName.spelling, QualifiedName.slashed, colon_notMem_identifier]

theorem colon_notMem_angled {row : List Char} (h : ':' ∉ row) : ':' ∉ angled row := by
  unfold angled
  split
  · simp
  · simp [h]

/-- No type has a colon in it. -/
theorem Tree.colon_notMem {s : Symbol} (t : Tree s) : ':' ∉ t.spelling := by
  induction t with
  | base type => cases type <;> decide
  | reference type ih => exact ih
  | cls type ih => exact ih
  | typeVariable name => simp [spelling, colon_notMem_identifier]
  | array element ih => simp [spelling, ih]
  | whole name => simp [spelling, colon_notMem_qualified]
  | parted name arguments inner iharguments ihinner =>
    simp [spelling, colon_notMem_qualified, colon_notMem_angled iharguments, ihinner]
  | noArguments => simp [spelling]
  | argument first more ihfirst ihmore => simp [spelling, ihfirst, ihmore]
  | unbounded => simp [spelling]
  | bounded variance bound ih => cases variance <;> simp [spelling, Variance.spelling, ih]
  | noNested => simp [spelling]
  | nested name arguments more iharguments ihmore =>
    simp [spelling, colon_notMem_identifier, colon_notMem_angled iharguments, ihmore]

/-- A reference type is calm whatever follows: it has a bracket at its start or a semicolon. -/
theorem Tree.calm_reference (t : Tree .reference) (rest : List Char) :
    Calm (t.spelling ++ rest) := by
  have hsemicolon : ∀ cs : List Char, ':' ∉ cs → Calm (cs ++ ';' :: rest) :=
    fun _ hcs => calm_append hcs (calm_of_mark rfl (by decide) rest)
  cases t with
  | cls type =>
    cases type with
    | whole name =>
      have h := hsemicolon ('L' :: name.spelling) (by simp [colon_notMem_qualified])
      simpa [spelling] using h
    | parted name arguments inner =>
      have h := hsemicolon ('L' :: (name.spelling ++ (angled arguments.spelling ++
        inner.spelling))) (by simp [colon_notMem_qualified,
          colon_notMem_angled arguments.colon_notMem, inner.colon_notMem])
      simpa [spelling] using h
  | typeVariable name =>
    have h := hsemicolon ('T' :: name.chars) (by simp [colon_notMem_identifier])
    simpa [spelling] using h
  | array element => exact calm_of_mark rfl (by decide) _

/-! ## §4. Tokens with names. -/

theorem mark?_letter (type : BaseType) (rest : List Char) :
    mark? (type.letter :: rest) = some (.base type, [type.letter]) := by
  cases type <;> rfl

theorem mark?_object (q : QualifiedName) (rest : List Char) :
    mark? ('L' :: (q.spelling ++ [';']) ++ rest) =
      some (.object q.text, 'L' :: (q.spelling ++ [';'])) := by
  obtain ⟨c, cs, hname⟩ := List.exists_cons_of_ne_nil q.spelling_ne_nil
  have hfound : qualified (q.spelling ++ ';' :: rest) = (q.spelling, ';' :: rest) :=
    qualified_append q rfl
  rw [List.cons_append, List.append_assoc, List.singleton_append, mark?, class?, hfound]
  simp [hname, QualifiedName.text]

theorem mark?_className (q : QualifiedName) {c : Char} (hc : endsNames [c] = true) (hne : c ≠ ';')
    (rest : List Char) :
    mark? ('L' :: q.spelling ++ c :: rest) = some (.className q.text, 'L' :: q.spelling) := by
  obtain ⟨c', cs, hname⟩ := List.exists_cons_of_ne_nil q.spelling_ne_nil
  have hfound : qualified (q.spelling ++ c :: rest) = (q.spelling, c :: rest) :=
    qualified_append q hc
  rw [List.cons_append, mark?, class?, hfound, hname]
  simp [hne, hname, QualifiedName.text]

theorem mark?_typeVariable (n : Identifier) (rest : List Char) :
    mark? ('T' :: (n.chars ++ [';']) ++ rest) =
      some (.typeVariable n.text, 'T' :: (n.chars ++ [';'])) := by
  obtain ⟨c, cs, hname, -⟩ := n.exists_cons
  have htake : name (n.chars ++ ';' :: rest) = n.chars := n.takeWhile_append rfl
  have hdrop : (n.chars ++ ';' :: rest).dropWhile isNameChar = ';' :: rest :=
    n.dropWhile_append rfl
  rw [List.cons_append, List.append_assoc, List.singleton_append, mark?, typeVariable?, htake,
    hdrop]
  simp [hname, Identifier.text]

theorem mark?_nested (n : Identifier) {rest : List Char} (h : startsName rest = false) :
    mark? ('.' :: n.chars ++ rest) = some (.nested n.text, '.' :: n.chars) := by
  obtain ⟨c, cs, hname, -⟩ := n.exists_cons
  have htake : name (n.chars ++ rest) = n.chars := n.takeWhile_append h
  rw [List.cons_append, mark?, nested?, htake]
  simp [hname, Identifier.text]

theorem parameter?_append (n : Identifier) (rest : List Char) :
    parameter? (n.chars ++ [':'] ++ rest) = some (.parameter n.text, n.chars ++ [':']) := by
  obtain ⟨c, cs, hname, -⟩ := n.exists_cons
  have htake : name (n.chars ++ ':' :: rest) = n.chars := n.takeWhile_append rfl
  have hdrop : (n.chars ++ ':' :: rest).dropWhile isNameChar = ':' :: rest :=
    n.dropWhile_append rfl
  rw [List.append_assoc, List.singleton_append, parameter?, htake, hdrop]
  simp [hname, Identifier.text]

/-! ## §5. Types. -/

theorem angled_of_ne_nil {row : List Char} (h : row ≠ []) : angled row = '<' :: (row ++ ['>']) := by
  simp [angled, h]

theorem angledTokens_of_ne_nil {row : List Token} (h : row ≠ []) :
    angledTokens row = .openAngle :: (row ++ [.closeAngle]) := by
  simp [angledTokens, h]

theorem Tree.tokens_ne_nil_of_cls (t : Tree .cls) : t.tokens ≠ [] := by
  cases t with
  | whole name => simp [tokens]
  | parted name arguments inner =>
    rw [tokens]
    split
    all_goals simp

theorem Tree.tokens_ne_nil_of_reference (t : Tree .reference) : t.tokens ≠ [] := by
  cases t with
  | cls type => exact type.tokens_ne_nil_of_cls
  | typeVariable name => simp [tokens]
  | array element => simp [tokens]

theorem Tree.tokens_ne_nil_of_argument (t : Tree .argument) : t.tokens ≠ [] := by
  cases t with
  | unbounded => simp [tokens]
  | bounded variance bound => simp [tokens, bound.tokens_ne_nil_of_reference]

theorem Tree.spelling_ne_nil_of_reference (t : Tree .reference) : t.spelling ≠ [] := by
  cases t with
  | cls type => cases type <;> simp [spelling]
  | typeVariable name => simp [spelling]
  | array element => simp [spelling]

theorem Tree.spelling_ne_nil_of_argument (t : Tree .argument) : t.spelling ≠ [] := by
  cases t with
  | unbounded => simp [spelling]
  | bounded variance bound => simp [spelling, bound.spelling_ne_nil_of_reference]

/-- What may follow a tree: a row goes on up to its closing mark. -/
def Symbol.Follows : Symbol → List Char → Prop
  | .arguments, rest => ∃ more, rest = '>' :: more
  | .nested, rest => ∃ more, rest = ';' :: more
  | _, _ => True

/-- What is expected behind a tree: behind a type, the name of a type parameter. -/
def Symbol.Leaves : Symbol → Expecting → Prop
  | .anyType, later | .reference, later | .cls, later => later = .parameter
  | _, _ => True

/-- Arguments that are cut without their brackets are cut with them. -/
theorem cuts_angled (arguments : Tree .arguments) (rest : List Char)
    (h : ∀ {now : Expecting} {rest : List Char}, Symbol.arguments.Follows rest →
      Open now (arguments.spelling ++ rest) → ∃ later, Symbol.arguments.Leaves later ∧
        Cuts next? now (arguments.spelling ++ rest) arguments.tokens later rest) :
    Cuts next? .other (angled arguments.spelling ++ rest) (angledTokens arguments.tokens) .other
      rest := by
  cases arguments with
  | noArguments => exact Cuts.nil _ rest
  | argument first more =>
    have hspelling : (Tree.argument first more).spelling ≠ [] := by
      simp [Tree.spelling, first.spelling_ne_nil_of_argument]
    have htokens : (Tree.argument first more).tokens ≠ [] := by
      simp [Tree.tokens, first.tokens_ne_nil_of_argument]
    obtain ⟨later, -, hcuts⟩ := h ⟨rest, rfl⟩ (open_other _)
    rw [angled_of_ne_nil hspelling, angledTokens_of_ne_nil htokens, List.cons_append,
      List.append_assoc]
    refine Cuts.char (next?_of_mark (open_other _) rfl) (hcuts.append (Cuts.char ?_ (.nil _ _)))
    exact next?_of_mark (open_of_mark rfl (by decide) later rest) rfl

theorem startsName_angled {row rest : List Char} (h : startsName rest = false) :
    startsName (angled row ++ rest) = false := by
  unfold angled
  split
  · exact h
  · rfl

theorem Tree.startsName_nested (t : Tree .nested) {rest : List Char}
    (h : startsName rest = false) : startsName (t.spelling ++ rest) = false := by
  cases t with
  | noNested => exact h
  | nested => rfl

theorem Tree.eq_of_bare {arguments : Tree .arguments} {inner : Tree .nested}
    (h : bare arguments inner = true) : arguments = noArguments ∧ inner = noNested := by
  cases arguments with
  | noArguments =>
    cases inner with
    | noNested => exact ⟨rfl, rfl⟩
    | nested => cases h
  | argument => cases h

/-- A class type that is not bare goes on with an angle bracket or a point. -/
theorem Tree.exists_mark_of_not_bare {arguments : Tree .arguments} {inner : Tree .nested}
    (h : ¬bare arguments inner = true) (rest : List Char) :
    ∃ c more, angled arguments.spelling ++ (inner.spelling ++ rest) = c :: more ∧
      endsNames [c] = true ∧ c ≠ ';' := by
  cases arguments with
  | noArguments =>
    cases inner with
    | noNested => exact absurd rfl h
    | nested name arguments more => exact ⟨'.', _, rfl, rfl, by decide⟩
  | argument first more =>
    have hspelling : (argument first more).spelling ≠ [] := by
      simp [spelling, first.spelling_ne_nil_of_argument]
    exact ⟨'<', _, by rw [angled_of_ne_nil hspelling]; rfl, rfl, by decide⟩

/-- **A tree is cut into its tokens.** -/
theorem Tree.cuts {s : Symbol} (t : Tree s) {now : Expecting} {rest : List Char}
    (hrest : s.Follows rest) (hnow : Open now (t.spelling ++ rest)) :
    ∃ later, s.Leaves later ∧ Cuts next? now (t.spelling ++ rest) t.tokens later rest := by
  induction t generalizing now rest with
  | base type =>
    exact ⟨.parameter, rfl, Cuts.char (next?_of_mark hnow (mark?_letter type rest)) (.nil _ _)⟩
  | reference type ih => exact ih trivial hnow
  | cls type ih => exact ih trivial hnow
  | typeVariable name =>
    exact ⟨.parameter, rfl,
      Cuts.single (next?_of_mark hnow (mark?_typeVariable name rest)) (by simp [spelling])⟩
  | array element ih =>
    -- Behind a bracket no name of a type parameter is expected.
    obtain ⟨later, hlater, hcuts⟩ := ih trivial (open_other (element.spelling ++ rest))
    exact ⟨later, hlater, Cuts.char (next?_of_mark hnow rfl) hcuts⟩
  | whole name =>
    exact ⟨.parameter, rfl,
      Cuts.single (next?_of_mark hnow (mark?_object name rest)) (by simp [spelling])⟩
  | parted name arguments inner iharguments ihinner =>
    refine ⟨.parameter, rfl, ?_⟩
    by_cases hbare : bare arguments inner = true
    · -- The name and the semicolon are one token, so the name alone is not found.
      obtain ⟨rfl, rfl⟩ := eq_of_bare hbare
      exact Cuts.single (next?_of_mark hnow (mark?_object name rest)) (List.cons_ne_nil _ _)
    · have htext : (parted name arguments inner).spelling ++ rest = 'L' :: name.spelling ++
          (angled arguments.spelling ++ (inner.spelling ++ ';' :: rest)) := by
        simp [spelling]
      obtain ⟨c, more, hmore, hends, hne⟩ := exists_mark_of_not_bare hbare (';' :: rest)
      have hname := mark?_className name hends hne more
      rw [← hmore] at hname
      obtain ⟨later, -, hinner⟩ := ihinner ⟨rest, rfl⟩ (open_other (inner.spelling ++ ';' :: rest))
      have hsemicolon : next? later (';' :: rest) = some ⟨.semicolon, .parameter, [';']⟩ :=
        next?_of_mark (open_of_mark rfl (by decide) later rest) rfl
      rw [htext] at hnow ⊢
      rw [tokens, if_neg hbare]
      exact .cons (next?_of_mark hnow hname) (List.cons_ne_nil _ _)
        ((cuts_angled arguments _ iharguments).append
          (hinner.append (Cuts.char hsemicolon (.nil _ _))))
  | noArguments => exact ⟨now, trivial, .nil now rest⟩
  | argument first more ihfirst ihmore =>
    obtain ⟨more', rfl⟩ := hrest
    rw [spelling, List.append_assoc] at hnow ⊢
    obtain ⟨later, -, hfirst⟩ := ihfirst trivial hnow
    -- The first argument may leave any state, but no colon comes before the closing bracket.
    have hcalm : Calm (more.spelling ++ '>' :: more') :=
      calm_append more.colon_notMem (calm_of_mark rfl (by decide) more')
    obtain ⟨later', -, hmore⟩ := ihmore ⟨more', rfl⟩ fun _ => hcalm
    exact ⟨later', trivial, hfirst.append hmore⟩
  | unbounded => exact ⟨.other, trivial, Cuts.char (next?_of_mark hnow rfl) (.nil _ _)⟩
  | bounded variance bound ih =>
    cases variance with
    | exact =>
      obtain ⟨later, -, hcuts⟩ := ih trivial hnow
      exact ⟨later, trivial, hcuts⟩
    | covariant | contravariant =>
      obtain ⟨later, -, hcuts⟩ := ih trivial (open_other (bound.spelling ++ rest))
      exact ⟨later, trivial, Cuts.char (next?_of_mark hnow rfl) hcuts⟩
  | noNested => exact ⟨now, trivial, .nil now rest⟩
  | nested name arguments more iharguments ihmore =>
    obtain ⟨more', rfl⟩ := hrest
    have htext : (nested name arguments more).spelling ++ ';' :: more' = '.' :: name.chars ++
        (angled arguments.spelling ++ (more.spelling ++ ';' :: more')) := by
      simp [spelling]
    have hstart : startsName (angled arguments.spelling ++ (more.spelling ++ ';' :: more')) =
        false := startsName_angled (more.startsName_nested rfl)
    obtain ⟨later, -, hmore⟩ := ihmore ⟨more', rfl⟩ (open_other (more.spelling ++ ';' :: more'))
    rw [htext] at hnow ⊢
    exact ⟨later, trivial, .cons (next?_of_mark hnow (mark?_nested name hstart))
      (List.cons_ne_nil _ _) ((cuts_angled arguments _ iharguments).append hmore)⟩

/-! ## §6. Declarations. -/

theorem Tree.cuts_anyType (t : Tree .anyType) {now : Expecting} {rest : List Char}
    (hnow : Open now (t.spelling ++ rest)) :
    Cuts next? now (t.spelling ++ rest) t.tokens .parameter rest := by
  obtain ⟨later, rfl, hcuts⟩ := t.cuts trivial hnow
  exact hcuts

theorem Tree.cuts_reference (t : Tree .reference) (now : Expecting) (rest : List Char) :
    Cuts next? now (t.spelling ++ rest) t.tokens .parameter rest := by
  obtain ⟨later, rfl, hcuts⟩ := t.cuts trivial fun _ => t.calm_reference rest
  exact hcuts

theorem Tree.cuts_cls (t : Tree .cls) (now : Expecting) (rest : List Char) :
    Cuts next? now (t.spelling ++ rest) t.tokens .parameter rest :=
  (Tree.cls t).cuts_reference now rest

theorem cuts_interfaceBounds (bounds : List (Tree .reference)) (rest : List Char) :
    Cuts next? .parameter ((bounds.flatMap fun b => ':' :: b.spelling) ++ rest)
      (bounds.flatMap fun b => .colon :: b.tokens) .parameter rest := by
  induction bounds with
  | nil => exact .nil _ rest
  | cons b bounds ih =>
    rw [List.flatMap_cons, List.flatMap_cons, List.append_assoc]
    exact Cuts.char rfl ((b.cuts_reference .other _).append ih)

/-- A type parameter is cut where its name is expected, and so is the one behind it. -/
theorem ParameterTree.cuts (p : ParameterTree) (rest : List Char) :
    Cuts next? .parameter (p.spelling ++ rest) p.tokens .parameter rest := by
  obtain ⟨name, classBound, interfaceBounds⟩ := p
  have hname : ∀ more, next? .parameter (name.chars ++ [':'] ++ more) =
      some ⟨.parameter name.text, .parameter, name.chars ++ [':']⟩ := by
    intro more
    rw [next?, parameter?_append, Option.some_or]
    rfl
  have hclass : ∀ more, Cuts next? .parameter (classBound.elim [] Tree.spelling ++ more)
      (classBound.elim [] Tree.tokens) .parameter more := by
    intro more
    cases classBound with
    | none => exact .nil _ more
    | some bound => exact bound.cuts_reference .parameter more
  have htext : ParameterTree.spelling ⟨name, classBound, interfaceBounds⟩ ++ rest =
      name.chars ++ [':'] ++ (classBound.elim [] Tree.spelling ++
        ((interfaceBounds.flatMap fun b => ':' :: b.spelling) ++ rest)) := by
    simp [spelling]
  rw [htext]
  exact .cons (hname _) (by simp) ((hclass _).append (cuts_interfaceBounds interfaceBounds rest))

theorem cuts_parameterTrees (ps : List ParameterTree) (rest : List Char) :
    Cuts next? .parameter (ps.flatMap ParameterTree.spelling ++ rest)
      (ps.flatMap ParameterTree.tokens) .parameter rest := by
  induction ps with
  | nil => exact .nil _ rest
  | cons p ps ih =>
    rw [List.flatMap_cons, List.flatMap_cons, List.append_assoc]
    exact (p.cuts _).append ih

/-- Behind the type parameters, if there are any, no name of one is expected. -/
theorem cuts_typeParameters (ps : List ParameterTree) (rest : List Char) :
    ∃ later, later ≠ .parameter ∧
      Cuts next? .start (angled (ps.flatMap ParameterTree.spelling) ++ rest)
        (angledTokens (ps.flatMap ParameterTree.tokens)) later rest := by
  cases ps with
  | nil => exact ⟨.start, by decide, .nil _ rest⟩
  | cons p ps =>
    have hspelling : (p :: ps).flatMap ParameterTree.spelling ≠ [] := by
      simp [ParameterTree.spelling]
    have htokens : (p :: ps).flatMap ParameterTree.tokens ≠ [] := by
      simp [ParameterTree.tokens]
    rw [angled_of_ne_nil hspelling, angledTokens_of_ne_nil htokens, List.cons_append,
      List.append_assoc]
    exact ⟨.other, by decide, Cuts.char rfl ((cuts_parameterTrees (p :: ps) _).append
      (Cuts.char (next?_of_mark (open_of_mark rfl (by decide) _ _) rfl) (.nil _ _)))⟩

theorem cuts_classes (cs : List (Tree .cls)) (now : Expecting) :
    ∃ later, Cuts next? now (cs.flatMap Tree.spelling) (cs.flatMap Tree.tokens) later [] := by
  induction cs generalizing now with
  | nil => exact ⟨now, .nil _ []⟩
  | cons c cs ih =>
    obtain ⟨later, hcs⟩ := ih .parameter
    exact ⟨later, (c.cuts_cls now _).append hcs⟩

/-- The signature of a class is cut into its tokens. -/
theorem ClassTree.cuts (d : ClassTree) :
    ∃ later, Cuts next? .start d.spelling d.tokens later [] := by
  obtain ⟨now, -, hparameters⟩ := cuts_typeParameters d.typeParameters
    (d.superclass.spelling ++ d.interfaces.flatMap Tree.spelling)
  obtain ⟨later, hinterfaces⟩ := cuts_classes d.interfaces .parameter
  exact ⟨later, hparameters.append ((d.superclass.cuts_cls now _).append hinterfaces)⟩

theorem cuts_parameters (ps : List (Tree .anyType)) {rest : List Char} (h : Calm rest)
    (now : Expecting) :
    ∃ later, Cuts next? now (ps.flatMap Tree.spelling ++ rest) (ps.flatMap Tree.tokens) later
      rest := by
  induction ps generalizing now with
  | nil => exact ⟨now, .nil _ rest⟩
  | cons p ps ih =>
    obtain ⟨later, hps⟩ := ih .parameter
    have hcalm : Calm (p.spelling ++ (ps.flatMap Tree.spelling ++ rest)) := by
      refine calm_append p.colon_notMem (calm_append ?_ h)
      simp [Tree.colon_notMem]
    rw [List.flatMap_cons, List.append_assoc]
    exact ⟨later, (p.cuts_anyType fun _ => hcalm).append hps⟩

theorem ThrownTree.colon_notMem (t : ThrownTree) : ':' ∉ t.spelling := by
  simp [spelling, t.type.colon_notMem]

theorem ThrownTree.cuts (t : ThrownTree) (now : Expecting) (rest : List Char) :
    Cuts next? now (t.spelling ++ rest) t.tokens .parameter rest := by
  -- The caret may stand in a name, so the type behind it has to be calm.
  have hcalm : Calm (['^'] ++ (t.type.spelling ++ rest)) :=
    calm_append (by simp) (t.type.calm_reference rest)
  exact Cuts.char (next?_of_mark (fun _ => hcalm) rfl) (t.type.cuts_reference .other rest)

theorem cuts_throws (ts : List ThrownTree) (now : Expecting) :
    ∃ later, Cuts next? now (ts.flatMap ThrownTree.spelling) (ts.flatMap ThrownTree.tokens) later
      [] := by
  induction ts generalizing now with
  | nil => exact ⟨now, .nil _ []⟩
  | cons t ts ih =>
    obtain ⟨later, hts⟩ := ih .parameter
    exact ⟨later, (t.cuts now _).append hts⟩

/-- The signature of a method is cut into its tokens. -/
theorem MethodTree.cuts (d : MethodTree) :
    ∃ later, Cuts next? .start d.spelling d.tokens later [] := by
  obtain ⟨typeParameters, parameters, result, throws⟩ := d
  have hresult : ∀ rest, ∃ later, Cuts next? .other (result.elim ['V'] Tree.spelling ++ rest)
      (result.elim [.void] Tree.tokens) later rest := by
    intro rest
    cases result with
    | none => exact ⟨.other, Cuts.char rfl (.nil _ rest)⟩
    | some type => exact ⟨.parameter, type.cuts_anyType (open_other _)⟩
  -- Nothing from the closing parenthesis on has a colon in it.
  have hcalm : Calm (([')'] ++ result.elim ['V'] Tree.spelling ++
      throws.flatMap ThrownTree.spelling) ++ []) := by
    refine calm_append ?_ calm_nil
    cases result with
    | none => simp [ThrownTree.colon_notMem]
    | some type => simp [ThrownTree.colon_notMem, type.colon_notMem]
  rw [List.append_nil, List.append_assoc] at hcalm
  obtain ⟨now, hnow, htypeParameters⟩ := cuts_typeParameters typeParameters
    ('(' :: (parameters.flatMap Tree.spelling ++
      ')' :: (result.elim ['V'] Tree.spelling ++ throws.flatMap ThrownTree.spelling)))
  obtain ⟨now₁, hparameters⟩ := cuts_parameters parameters hcalm .other
  obtain ⟨now₂, hresult⟩ := hresult (throws.flatMap ThrownTree.spelling)
  obtain ⟨later, hthrows⟩ := cuts_throws throws now₂
  refine ⟨later, htypeParameters.append (Cuts.char ?_ (hparameters.append
    (Cuts.char (next?_of_mark (fun _ => hcalm) rfl) (hresult.append hthrows))))⟩
  exact next?_of_mark (fun h => absurd h hnow) rfl

end JavaClass.Signature
