/-
  JavaClass.Proofs.Signature.Derivation — signatures are read exactly as the grammar derives them.

  The tokens that are found spell the text, and the names in them are names (`next?_honest`).
  `Gives` says that whatever a reader takes is the spelling of some tree, and what it gives is the
  meaning of that tree; for the readers of types the induction is on the depth, over all of them at
  once.  So a signature that is read has a derivation.  It is unique up to the pieces of bare class
  types, because the text is read in one way and the meaning determines the rest.
-/
import JavaClass.Proofs.Signature.Reading

namespace JavaClass.Signature

/-! ## §1. What tokens spell. -/

/-- The characters of a token. -/
def Token.spelling : Token → List Char
  | base type => [type.letter]
  | object name => 'L' :: (name.toList ++ [';'])
  | className name => 'L' :: name.toList
  | nested name => '.' :: name.toList
  | typeVariable name => 'T' :: (name.toList ++ [';'])
  | parameter name => name.toList ++ [':']
  | wildcard variance => Variance.spelling variance
  | star => ['*']
  | bracket => ['[']
  | openParen => ['(']
  | closeParen => [')']
  | openAngle => ['<']
  | closeAngle => ['>']
  | colon => [':']
  | semicolon => [';']
  | caret => ['^']
  | void => ['V']

/-- The name in a token is a name. -/
def Token.Genuine : Token → Prop
  | object name | className name => ∃ q : QualifiedName, q.text = name
  | nested name | typeVariable name | parameter name => ∃ n : Identifier, n.text = name
  | _ => True

/-- A token that is found says what stands at the start of the text. -/
def Faithful (text : List Char) (token : Token) (spelling : List Char) : Prop :=
  spelling = token.spelling ∧ spelling ≠ [] ∧ spelling <+: text ∧ token.Genuine

/-- The longest name that starts a text, if there is one. -/
theorem exists_of_name {text : List Char} {c : Char} {cs : List Char}
    (h : name text = c :: cs) :
    ∃ n : Identifier, n.chars = c :: cs ∧ text = n.chars ++ text.dropWhile isNameChar := by
  have hvalid : (c :: cs).all isNameChar = true := by
    rw [← h]
    exact List.all_takeWhile
  refine ⟨.ofChars (c :: cs) (List.cons_ne_nil c cs) hvalid, rfl, ?_⟩
  show text = c :: cs ++ _
  rw [← h]
  exact List.takeWhile_append_dropWhile.symm

theorem class?_faithful {text spelling : List Char} {token : Token}
    (h : class? text = some (token, spelling)) : Faithful ('L' :: text) token spelling := by
  unfold class? at h
  split at h
  · next c name rest hfound =>
    obtain ⟨q, hq, htext⟩ := exists_of_qualified hfound (List.cons_ne_nil c name)
    cases h
    refine ⟨by simp [Token.spelling], by simp, ⟨rest, by simp [htext]⟩, q, ?_⟩
    rw [QualifiedName.text, hq]
  · next c name rest _ hfound =>
    obtain ⟨q, hq, htext⟩ := exists_of_qualified hfound (List.cons_ne_nil c name)
    cases h
    refine ⟨by simp [Token.spelling], by simp, ⟨rest, by simp [htext]⟩, q, ?_⟩
    rw [QualifiedName.text, hq]
  · cases h

theorem typeVariable?_faithful {text spelling : List Char} {token : Token}
    (h : typeVariable? text = some (token, spelling)) : Faithful ('T' :: text) token spelling := by
  unfold typeVariable? at h
  split at h
  · next c cs rest hname hdrop =>
    obtain ⟨n, hn, htext⟩ := exists_of_name hname
    rw [hdrop, hn] at htext
    cases h
    refine ⟨by simp [Token.spelling], by simp, ⟨rest, by simp [htext]⟩, n, ?_⟩
    rw [Identifier.text, hn]
  · cases h

theorem nested?_faithful {text spelling : List Char} {token : Token}
    (h : nested? text = some (token, spelling)) : Faithful ('.' :: text) token spelling := by
  unfold nested? at h
  split at h
  · next c cs hname =>
    obtain ⟨n, hn, htext⟩ := exists_of_name hname
    rw [hn] at htext
    cases h
    refine ⟨by simp [Token.spelling], by simp, ⟨text.dropWhile isNameChar, ?_⟩, n, ?_⟩
    · rw [List.cons_append, ← htext]
    · rw [Identifier.text, hn]
  · cases h

theorem parameter?_faithful {text spelling : List Char} {token : Token}
    (h : parameter? text = some (token, spelling)) : Faithful text token spelling := by
  unfold parameter? at h
  split at h
  · next c cs rest hname hdrop =>
    obtain ⟨n, hn, htext⟩ := exists_of_name hname
    rw [hdrop, hn] at htext
    cases h
    refine ⟨by simp [Token.spelling], by simp, ⟨rest, by simp [htext]⟩, n, ?_⟩
    rw [Identifier.text, hn]
  · cases h

theorem mark?_faithful {text spelling : List Char} {token : Token}
    (h : mark? text = some (token, spelling)) : Faithful text token spelling := by
  unfold mark? at h
  split at h
  -- Tokens with names, the end of the text, and letters; all others are single marks.
  case h_1 => exact class?_faithful h
  case h_2 => exact typeVariable?_faithful h
  case h_3 => exact nested?_faithful h
  case h_17 => cases h
  case h_16 =>
    obtain ⟨type, htype, heq⟩ := Option.map_eq_some_iff.mp h
    cases heq
    rw [← BaseType.letter_of_ofLetter? htype]
    exact ⟨rfl, by simp, ⟨_, rfl⟩, trivial⟩
  all_goals
    cases h
    exact ⟨rfl, by simp, ⟨_, rfl⟩, trivial⟩

theorem next?_honest : Honest next? Token.spelling Token.Genuine := by
  intro now text found h
  unfold next? at h
  obtain ⟨⟨token, spelling⟩, hfound, rfl⟩ := Option.map_eq_some_iff.mp h
  split at hfound
  · obtain hparameter | ⟨-, hmark⟩ := Option.or_eq_some_iff.mp hfound
    · exact parameter?_faithful hparameter
    · exact mark?_faithful hmark
  · exact mark?_faithful hfound

/-! ## §2. Readers that give trees. -/

section

variable {α β ι κ : Type}

/-- The characters of what is left to read. -/
abbrev spelled (xs : Rest) : List Char := JavaClass.spelled Token.spelling xs

/-- All names in what is left to read are names. -/
def Genuine (xs : Rest) : Prop := ∀ x ∈ xs, x.token.Genuine

/-- Between `xs` and `rest` the characters `cs` are read. -/
def Taken (xs : Rest) (cs : List Char) (rest : Rest) : Prop :=
  spelled xs = cs ++ spelled rest ∧ Genuine rest

theorem Taken.refl {xs : Rest} (h : Genuine xs) : Taken xs [] xs := ⟨rfl, h⟩

theorem Taken.token {column : Nat} {token : Token} {xs : Rest}
    (h : Genuine (⟨column, token⟩ :: xs)) : Taken (⟨column, token⟩ :: xs) token.spelling xs :=
  ⟨rfl, fun x hx => h x (List.mem_cons_of_mem _ hx)⟩

theorem Taken.trans {xs ys zs : Rest} {cs cs' : List Char} (h : Taken xs cs ys)
    (h' : Taken ys cs' zs) : Taken xs (cs ++ cs') zs := by
  refine ⟨?_, h'.2⟩
  rw [h.1, h'.1, List.append_assoc]

/-- Whatever the reader takes is one of the spellings, and it gives the value that belongs to
    it. -/
def Gives (reader : Rest → Except Rest (α × Rest)) (spelling : ι → List Char) (value : ι → α) :
    Prop :=
  ∀ {xs rest : Rest} {a : α}, Genuine xs → reader xs = .ok (a, rest) →
    ∃ i, value i = a ∧ Taken xs (spelling i) rest

end

/-! ## §3. Types. -/

/-- To some depth, whatever is read is a tree. -/
structure GivesTo (depth : Nat) : Prop where
  any : ∀ dimensions, Gives (type false dimensions depth) Tree.spelling
    fun t : Tree .anyType => under dimensions t.meaning
  references : ∀ dimensions, Gives (type true dimensions depth) Tree.spelling
    fun t : Tree .reference => under dimensions t.meaning
  argumentRow : ∀ done, Gives (arguments done depth)
    (fun row : Tree .argument × Tree .arguments => row.1.spelling ++ (row.2.spelling ++ ['>']))
    fun row => done.reverse ++ row.1.meaning :: row.2.meaning
  nestedRow : ∀ done, Gives (nestedClasses done depth)
    (fun row : Tree .nested => row.spelling ++ [';']) fun row => done.reverse ++ row.meaning

variable {depth : Nat}

theorem GivesTo.angledRow (h : GivesTo depth) :
    Gives (optionalArguments depth) (fun as : Tree .arguments => angled as.spelling)
      Tree.meaning := by
  intro xs rest a hxs hread
  unfold optionalArguments at hread
  split at hread
  · next column xs =>
    have hopen := Taken.token hxs
    obtain ⟨⟨first, row⟩, rfl, hrow⟩ := h.argumentRow [] hopen.2 hread
    refine ⟨.argument first row, rfl, ?_⟩
    have hspelling : (Tree.argument first row).spelling ≠ [] := by
      simp [Tree.spelling, first.spelling_ne_nil_of_argument]
    show Taken _ (angled (Tree.argument first row).spelling) rest
    rw [angled_of_ne_nil hspelling, Tree.spelling, List.append_assoc]
    exact hopen.trans hrow
  · cases hread
    exact ⟨.noArguments, rfl, Taken.refl hxs⟩

theorem GivesTo.nestedRow_succ (h : GivesTo depth) (done : List NestedClass) :
    Gives (nestedClasses done (depth + 1)) (fun row : Tree .nested => row.spelling ++ [';'])
      fun row => done.reverse ++ row.meaning := by
  intro xs rest a hxs hread
  rcases xs with _ | ⟨⟨column, token⟩, xs⟩
  · cases hread
  · have htoken := Taken.token hxs
    cases token with
    | semicolon =>
      cases hread
      exact ⟨.noNested, List.append_nil _, htoken⟩
    | nested name =>
      obtain ⟨n, rfl⟩ : ∃ n : Identifier, n.text = name := hxs ⟨column, .nested name⟩ (by simp)
      rw [nestedClasses_nested] at hread
      obtain ⟨⟨args, xs₁⟩, hargs, hmore⟩ := bind_eq_ok_iff.mp hread
      obtain ⟨as, rfl, has⟩ := h.angledRow htoken.2 hargs
      obtain ⟨row, rfl, hrow⟩ := h.nestedRow _ has.2 hmore
      refine ⟨.nested n as row, ?_, ?_⟩
      · simp [Tree.meaning]
      · have htaken := htoken.trans (has.trans hrow)
        simpa [Tree.spelling, Token.spelling, Identifier.text] using htaken
    | _ => cases hread

theorem GivesTo.oneArgument (h : GivesTo depth) :
    Gives (argument depth) Tree.spelling (Tree.meaning : Tree .argument → TypeArgument) := by
  intro xs rest a hxs hread
  unfold argument at hread
  split at hread
  · cases hread
    exact ⟨.unbounded, rfl, Taken.token hxs⟩
  · next column variance xs =>
    obtain ⟨⟨t, xs₁⟩, htype, hend⟩ := bind_eq_ok_iff.mp hread
    have htoken := Taken.token hxs
    obtain ⟨bound, rfl, hbound⟩ := h.references 0 htoken.2 htype
    cases hend
    refine ⟨.bounded variance bound, ?_, htoken.trans hbound⟩
    simp only [under_zero]
    rfl
  · obtain ⟨⟨t, xs₁⟩, htype, hend⟩ := bind_eq_ok_iff.mp hread
    obtain ⟨bound, rfl, hbound⟩ := h.references 0 hxs htype
    cases hend
    refine ⟨.bounded .exact bound, ?_, hbound⟩
    simp only [under_zero]
    rfl

theorem GivesTo.argumentRow_succ (h : GivesTo depth) (done : List TypeArgument) :
    Gives (arguments done (depth + 1))
      (fun row : Tree .argument × Tree .arguments => row.1.spelling ++ (row.2.spelling ++ ['>']))
      fun row => done.reverse ++ row.1.meaning :: row.2.meaning := by
  intro xs rest a hxs hread
  rw [Signature.arguments_succ] at hread
  obtain ⟨⟨arg, xs₁⟩, harg, hmore⟩ := bind_eq_ok_iff.mp hread
  obtain ⟨first, rfl, hfirst⟩ := h.oneArgument hxs harg
  unfold moreArguments at hmore
  dsimp only at hmore
  split at hmore
  · next column xs₂ =>
    cases hmore
    refine ⟨(first, .noArguments), ?_, hfirst.trans (Taken.token hfirst.2)⟩
    rw [List.reverse_cons]
    rfl
  · obtain ⟨⟨second, row⟩, rfl, hrow⟩ := h.argumentRow _ hfirst.2 hmore
    refine ⟨(first, .argument second row), ?_, ?_⟩
    · simp [Tree.meaning]
    · have htaken := hfirst.trans hrow
      simpa only [Tree.spelling, List.append_assoc] using htaken

/-- A type is a reference type, or a primitive type where one may stand. -/
theorem GivesTo.type_succ (h : GivesTo depth) {reference : Bool} {dimensions : Nat}
    {xs rest : Rest} {t : GenericType} (hxs : Genuine xs)
    (hread : type reference dimensions (depth + 1) xs = .ok (t, rest)) :
    (∃ r : Tree .reference, under dimensions r.meaning = t ∧ Taken xs r.spelling rest) ∨
      reference = false ∧ ∃ b : BaseType, under dimensions (Tree.base b).meaning = t ∧
        Taken xs (Tree.base b).spelling rest := by
  rcases xs with _ | ⟨⟨column, token⟩, xs⟩
  · cases hread
  · have htoken := Taken.token hxs
    -- Case by case over the token in front; a type starts with no other.
    cases token with
    | bracket =>
      obtain ⟨element, rfl, helement⟩ := h.any (dimensions + 1) htoken.2 hread
      exact .inl ⟨.array element, (under_succ dimensions _).symm, htoken.trans helement⟩
    | base b =>
      cases reference with
      | true => cases hread
      | false =>
        cases hread
        exact .inr ⟨rfl, b, rfl, htoken⟩
    | typeVariable name =>
      obtain ⟨n, rfl⟩ : ∃ n : Identifier, n.text = name :=
        hxs ⟨column, .typeVariable name⟩ (by simp)
      cases hread
      refine .inl ⟨.typeVariable n, rfl, ?_⟩
      simpa [Tree.spelling, Token.spelling, Identifier.text] using htoken
    | object name =>
      obtain ⟨q, rfl⟩ : ∃ q : QualifiedName, q.text = name :=
        hxs ⟨column, .object name⟩ (by simp)
      cases hread
      refine .inl ⟨.cls (.whole q), rfl, ?_⟩
      simpa [Tree.spelling, Token.spelling, QualifiedName.text] using htoken
    | className name =>
      obtain ⟨q, rfl⟩ : ∃ q : QualifiedName, q.text = name :=
        hxs ⟨column, .className name⟩ (by simp)
      rw [type_className] at hread
      obtain ⟨⟨args, xs₁⟩, hargs, hnested⟩ := bind_eq_ok_iff.mp hread
      obtain ⟨⟨classes, xs₂⟩, hclasses, hend⟩ := bind_eq_ok_iff.mp hnested
      obtain ⟨as, rfl, has⟩ := h.angledRow htoken.2 hargs
      obtain ⟨row, rfl, hrow⟩ := h.nestedRow [] has.2 hclasses
      cases hend
      refine .inl ⟨.cls (.parted q as row), rfl, ?_⟩
      have htaken := htoken.trans (has.trans hrow)
      simpa [Tree.spelling, Token.spelling, QualifiedName.text] using htaken
    | _ => cases hread

/-- **What is read is a tree**, and what is given is its meaning. -/
theorem givesTo (depth : Nat) : GivesTo depth := by
  induction depth with
  | zero =>
    refine ⟨?_, ?_, ?_, ?_⟩
    all_goals
      intro _ xs _ _ _ hread
      cases hread
  | succ depth ih =>
    refine ⟨?_, ?_, ih.argumentRow_succ, ih.nestedRow_succ⟩
    · intro dimensions xs rest t hxs hread
      obtain ⟨r, hr, htaken⟩ | ⟨-, b, hb, htaken⟩ := ih.type_succ hxs hread
      · exact ⟨.reference r, hr, htaken⟩
      · exact ⟨.base b, hb, htaken⟩
    · intro dimensions xs rest t hxs hread
      obtain ⟨r, hr, htaken⟩ | ⟨hfalse, -⟩ := ih.type_succ hxs hread
      · exact ⟨r, hr, htaken⟩
      · cases hfalse

/-! ## §4. Declarations. -/

theorem gives_referenceType :
    Gives referenceType Tree.spelling (Tree.meaning : Tree .reference → GenericType) := by
  intro xs rest t hxs hread
  obtain ⟨r, rfl, htaken⟩ := (givesTo xs.length).references 0 hxs hread
  exact ⟨r, (under_zero _).symm, htaken⟩

theorem gives_anyType :
    Gives Signature.anyType Tree.spelling (Tree.meaning : Tree .anyType → GenericType) := by
  intro xs rest t hxs hread
  obtain ⟨r, rfl, htaken⟩ := (givesTo xs.length).any 0 hxs hread
  exact ⟨r, (under_zero _).symm, htaken⟩

theorem gives_classType :
    Gives classType Tree.spelling (Tree.meaning : Tree .cls → ClassType) := by
  intro xs rest t hxs hread
  unfold classType at hread
  split at hread
  case h_3 => cases hread
  all_goals
    obtain ⟨⟨t', xs₁⟩, htype, hend⟩ := bind_eq_ok_iff.mp hread
    obtain ⟨r, rfl, htaken⟩ := gives_referenceType hxs htype
    cases r with
    | cls type =>
      cases hend
      exact ⟨type, rfl, htaken⟩
    | typeVariable name => cases hend
    | array element =>
      -- The text starts with `L`, and an array does not.
      have hbracket := htaken.1
      cases hbracket

theorem gives_thrown :
    Gives thrown (fun t : ThrownTree => t.type.spelling) ThrownTree.meaning := by
  intro xs rest t hxs hread
  unfold thrown at hread
  split at hread
  · next column name xs =>
    obtain ⟨n, rfl⟩ : ∃ n : Identifier, n.text = name :=
      hxs ⟨column, .typeVariable name⟩ (by simp)
    cases hread
    refine ⟨.typeVariable n, rfl, ?_⟩
    simpa [ThrownTree.type, Tree.spelling, Token.spelling, Identifier.text] using Taken.token hxs
  · obtain ⟨⟨c, xs₁⟩, hclass, hend⟩ := bind_eq_ok_iff.mp hread
    obtain ⟨type, rfl, htaken⟩ := gives_classType hxs hclass
    cases hend
    exact ⟨.cls type, rfl, htaken⟩

/-- Values that are led are led in the text. -/
theorem gives_led {ι α : Type} {lead : Token} {reader : Rest → Except Rest (α × Rest)}
    {spelling : ι → List Char} {value : ι → α} (h : Gives reader spelling value) (done : List α)
    (count : Nat) :
    Gives (led lead reader done count)
      (fun items : List ι => items.flatMap fun i => lead.spelling ++ spelling i)
      fun items => done.reverse ++ items.map value := by
  induction count generalizing done with
  | zero =>
    intro xs rest a hxs hread
    have hread : (Except.ok (done.reverse, xs) : Except Rest (List α × Rest)) = .ok (a, rest) := by
      cases xs <;> exact hread
    cases hread
    exact ⟨[], List.append_nil _, Taken.refl hxs⟩
  | succ count ih =>
    intro xs rest a hxs hread
    rcases xs with _ | ⟨⟨column, token⟩, xs⟩
    · cases hread
      exact ⟨[], List.append_nil _, Taken.refl hxs⟩
    · rw [led] at hread
      split at hread
      · next hlead =>
        obtain rfl : token = lead := hlead
        obtain ⟨⟨v, xs₁⟩, hvalue, hmore⟩ := bind_eq_ok_iff.mp hread
        have htoken := Taken.token hxs
        obtain ⟨i, rfl, hi⟩ := h htoken.2 hvalue
        obtain ⟨items, rfl, hitems⟩ := ih _ hi.2 hmore
        exact ⟨i :: items, by simp, (htoken.trans hi).trans hitems⟩
      · cases hread
        exact ⟨[], List.append_nil _, Taken.refl hxs⟩

theorem gives_classBound :
    Gives classBound (fun bound : Option (Tree .reference) => bound.elim [] Tree.spelling)
      fun bound => bound.map Tree.meaning := by
  intro xs rest a hxs hread
  unfold classBound at hread
  split at hread
  · obtain ⟨⟨t, xs₁⟩, htype, hend⟩ := bind_eq_ok_iff.mp hread
    obtain ⟨r, rfl, htaken⟩ := gives_referenceType hxs htype
    cases hend
    exact ⟨some r, rfl, htaken⟩
  · cases hread
    exact ⟨none, rfl, Taken.refl hxs⟩

theorem gives_typeParameter (name : Identifier) :
    Gives (typeParameter name.text)
      (fun p : Option (Tree .reference) × List (Tree .reference) =>
        p.1.elim [] Tree.spelling ++ p.2.flatMap fun b => ':' :: b.spelling)
      fun p => (ParameterTree.mk name p.1 p.2).meaning := by
  intro xs rest a hxs hread
  obtain ⟨⟨first, xs₁⟩, hfirst, hmore⟩ := bind_eq_ok_iff.mp hread
  obtain ⟨⟨more, xs₂⟩, hled, hend⟩ := bind_eq_ok_iff.mp hmore
  obtain ⟨bound, rfl, hbound⟩ := gives_classBound hxs hfirst
  obtain ⟨bounds, rfl, hbounds⟩ := gives_led gives_referenceType [] _ hbound.2 hled
  cases hend
  exact ⟨(bound, bounds), rfl, hbound.trans hbounds⟩

theorem gives_typeParametersFrom (done : List TypeParameter) (count : Nat) :
    Gives (typeParametersFrom done count)
      (fun ps : ParameterTree × List ParameterTree =>
        ps.1.spelling ++ (ps.2.flatMap ParameterTree.spelling ++ ['>']))
      fun ps => done.reverse ++ ps.1.meaning :: ps.2.map ParameterTree.meaning := by
  induction count generalizing done with
  | zero =>
    intro xs rest a hxs hread
    cases hread
  | succ count ih =>
    intro xs rest a hxs hread
    rcases xs with _ | ⟨⟨column, token⟩, xs⟩
    · cases hread
    · cases token with
      | parameter name =>
        obtain ⟨n, rfl⟩ : ∃ n : Identifier, n.text = name :=
          hxs ⟨column, .parameter name⟩ (by simp)
        have htoken := Taken.token hxs
        rw [typeParametersFrom_parameter] at hread
        obtain ⟨⟨first, xs₁⟩, hfirst, hmore⟩ := bind_eq_ok_iff.mp hread
        obtain ⟨⟨bound, bounds⟩, rfl, hbounds⟩ := gives_typeParameter n htoken.2 hfirst
        have hspelling : Taken (⟨column, .parameter n.text⟩ :: xs)
            (ParameterTree.mk n bound bounds).spelling xs₁ := by
          simpa [ParameterTree.spelling, Token.spelling, Identifier.text] using htoken.trans hbounds
        unfold moreTypeParameters at hmore
        dsimp only at hmore
        split at hmore
        · cases hmore
          refine ⟨(⟨n, bound, bounds⟩, []), ?_, hspelling.trans (Taken.token hspelling.2)⟩
          rw [List.reverse_cons]
          rfl
        · obtain ⟨⟨second, ps⟩, rfl, hps⟩ := ih _ hspelling.2 hmore
          refine ⟨(⟨n, bound, bounds⟩, second :: ps), by simp, ?_⟩
          simpa only [List.flatMap_cons, List.append_assoc] using hspelling.trans hps
      | _ => cases hread

theorem gives_typeParameters :
    Gives typeParameters
      (fun ps : List ParameterTree => angled (ps.flatMap ParameterTree.spelling))
      fun ps => ps.map ParameterTree.meaning := by
  intro xs rest a hxs hread
  unfold typeParameters at hread
  split at hread
  · next column xs =>
    have hopen := Taken.token hxs
    obtain ⟨⟨p, ps⟩, rfl, hps⟩ := gives_typeParametersFrom [] xs.length hopen.2 hread
    refine ⟨p :: ps, rfl, ?_⟩
    have hspelling : (p :: ps).flatMap ParameterTree.spelling ≠ [] := by
      simp [ParameterTree.spelling]
    show Taken _ (angled ((p :: ps).flatMap ParameterTree.spelling)) rest
    rw [angled_of_ne_nil hspelling, List.flatMap_cons, List.append_assoc]
    exact hopen.trans hps
  · cases hread
    exact ⟨[], rfl, Taken.refl hxs⟩

theorem gives_parameters (done : List GenericType) (count : Nat) :
    Gives (parameters done count)
      (fun ps : List (Tree .anyType) => ps.flatMap Tree.spelling ++ [')'])
      fun ps => done.reverse ++ ps.map Tree.meaning := by
  induction count generalizing done with
  | zero =>
    intro xs rest a hxs hread
    rcases xs with _ | ⟨⟨column, token⟩, xs⟩
    · cases hread
    · cases token with
      | closeParen =>
        cases hread
        exact ⟨[], List.append_nil _, Taken.token hxs⟩
      | _ => cases hread
  | succ count ih =>
    intro xs rest a hxs hread
    rcases xs with _ | ⟨⟨column, token⟩, xs⟩
    · cases hread
    · cases token with
      | closeParen =>
        cases hread
        exact ⟨[], List.append_nil _, Taken.token hxs⟩
      | _ =>
        obtain ⟨⟨t, xs₁⟩, htype, hmore⟩ := bind_eq_ok_iff.mp hread
        obtain ⟨p, rfl, hp⟩ := gives_anyType hxs htype
        obtain ⟨ps, rfl, hps⟩ := ih _ hp.2 hmore
        refine ⟨p :: ps, by simp, ?_⟩
        simpa only [List.flatMap_cons, List.append_assoc] using hp.trans hps

theorem gives_result :
    Gives Signature.result (fun r : Option (Tree .anyType) => r.elim ['V'] Tree.spelling)
      fun r => r.map Tree.meaning := by
  intro xs rest a hxs hread
  unfold Signature.result at hread
  split at hread
  · cases hread
    exact ⟨none, rfl, Taken.token hxs⟩
  · obtain ⟨⟨t, xs₁⟩, htype, hend⟩ := bind_eq_ok_iff.mp hread
    obtain ⟨type, rfl, htaken⟩ := gives_anyType hxs htype
    cases hend
    exact ⟨some type, rfl, htaken⟩

theorem gives_classTypes (done : List ClassType) (count : Nat) :
    Gives (classTypes done count) (fun cs : List (Tree .cls) => cs.flatMap Tree.spelling)
      fun cs => done.reverse ++ cs.map Tree.meaning := by
  induction count generalizing done with
  | zero =>
    intro xs rest a hxs hread
    cases xs with
    | nil =>
      cases hread
      exact ⟨[], List.append_nil _, Taken.refl hxs⟩
    | cons x xs => cases hread
  | succ count ih =>
    intro xs rest a hxs hread
    cases xs with
    | nil =>
      cases hread
      exact ⟨[], List.append_nil _, Taken.refl hxs⟩
    | cons x xs =>
      obtain ⟨⟨t, xs₁⟩, htype, hmore⟩ := bind_eq_ok_iff.mp hread
      obtain ⟨c, rfl, hc⟩ := gives_classType hxs htype
      obtain ⟨cs, rfl, hcs⟩ := ih _ hc.2 hmore
      exact ⟨c :: cs, by simp, hc.trans hcs⟩

theorem gives_classSignature :
    Gives classSignature ClassTree.spelling ClassTree.meaning := by
  intro xs rest a hxs hread
  obtain ⟨⟨ps, xs₁⟩, hparameters, hread⟩ := bind_eq_ok_iff.mp hread
  obtain ⟨⟨c, xs₂⟩, hsuperclass, hread⟩ := bind_eq_ok_iff.mp hread
  obtain ⟨⟨cs, xs₃⟩, hinterfaces, hend⟩ := bind_eq_ok_iff.mp hread
  obtain ⟨typeParameters, rfl, htaken₁⟩ := gives_typeParameters hxs hparameters
  obtain ⟨superclass, rfl, htaken₂⟩ := gives_classType htaken₁.2 hsuperclass
  obtain ⟨interfaces, rfl, htaken₃⟩ := gives_classTypes [] _ htaken₂.2 hinterfaces
  cases hend
  exact ⟨⟨typeParameters, superclass, interfaces⟩, rfl, htaken₁.trans (htaken₂.trans htaken₃)⟩

theorem gives_methodSignature :
    Gives methodSignature MethodTree.spelling MethodTree.meaning := by
  intro xs rest a hxs hread
  obtain ⟨⟨tps, xs₁⟩, htypeParameters, hread⟩ := bind_eq_ok_iff.mp hread
  obtain ⟨typeParameters, rfl, htaken₁⟩ := gives_typeParameters hxs htypeParameters
  dsimp only at hread
  split at hread
  · next column xs₁ =>
    have hopen := Taken.token htaken₁.2
    obtain ⟨⟨ps, xs₂⟩, hparameters, hread⟩ := bind_eq_ok_iff.mp hread
    obtain ⟨⟨r, xs₃⟩, hresult, hread⟩ := bind_eq_ok_iff.mp hread
    obtain ⟨⟨ts, xs₄⟩, hthrows, hend⟩ := bind_eq_ok_iff.mp hread
    obtain ⟨parameters, rfl, htaken₂⟩ := gives_parameters [] _ hopen.2 hparameters
    obtain ⟨result, rfl, htaken₃⟩ := gives_result htaken₂.2 hresult
    obtain ⟨throws, rfl, htaken₄⟩ := gives_led gives_thrown [] _ htaken₃.2 hthrows
    have htaken₄ : Taken xs₃ (throws.flatMap ThrownTree.spelling) xs₄ := htaken₄
    cases hend
    refine ⟨⟨typeParameters, parameters, result, throws⟩, rfl, ?_⟩
    have htaken := htaken₁.trans (hopen.trans (htaken₂.trans (htaken₃.trans htaken₄)))
    simpa [MethodTree.spelling, Token.spelling] using htaken
  · cases hread

/-! ## §5. Signatures. -/

/-- A reader that takes all trees and gives nothing else reads the texts that they spell. -/
theorem readAll_iff_of_gives {ι α : Type} {reader : Rest → Except Rest (α × Rest)}
    {spelling : ι → List Char} {tokens : ι → List Token} {value : ι → α}
    (hcuts : ∀ i, ∃ later, Cuts next? .start (spelling i) (tokens i) later [])
    (htakes : ∀ i, Takes reader (tokens i) (value i) []) (hgives : Gives reader spelling value)
    {text : String} {a : α} :
    (Signature.tokens text).readAll reader = .ok a ↔
      ∃ i, spelling i = text.toList ∧ value i = a := by
  constructor
  · intro h
    obtain ⟨xs, htext, hxs, hread⟩ := exists_of_readAll next?_honest h
    obtain ⟨i, hi, htaken⟩ := hgives hxs hread
    have hspelled : spelled xs = spelling i := htaken.1.trans (List.append_nil _)
    exact ⟨i, hspelled.symm.trans htext.symm, hi⟩
  · rintro ⟨i, htext, rfl⟩
    obtain ⟨later, hcut⟩ := hcuts i
    rw [htext] at hcut
    refine readAll_of_cuts hcut fun xs hxs => ?_
    obtain ⟨rest, hrest, hread⟩ := htakes i xs (hxs.trans (List.append_nil _).symm)
    rw [hread, List.map_eq_nil_iff.mp hrest]

/-- What signatures of some kind declare. -/
def Declared : Kind → Type
  | .cls => ClassSignature
  | .method => MethodSignature
  | .field => GenericType

/-- A declaration as source code writes it. -/
def Declared.display : {kind : Kind} → Declared kind → String
  | .cls, s => ClassSignature.display s
  | .method, s => MethodSignature.display s
  | .field, t => GenericType.display t

/-- Read a signature. -/
def read : (kind : Kind) → String → Except Reason (Declared kind)
  | .cls, text => (Signature.tokens text).readAll classSignature
  | .method, text => (Signature.tokens text).readAll methodSignature
  | .field, text => (Signature.tokens text).readAll referenceType

theorem display_eq (kind : Kind) (text : String) :
    display kind text = reading text ((read kind text).map Declared.display) := by
  cases kind <;> rfl

namespace Derivation

variable {kind : Kind}

/-- What a derivation stands for. -/
def meaning : {kind : Kind} → Derivation kind → Declared kind
  | .cls, d => ClassTree.meaning d
  | .method, d => MethodTree.meaning d
  | .field, d => Tree.meaning d

theorem display_meaning (d : Derivation kind) : d.meaning.display = d.rendering := by
  cases kind with
  | cls => exact ClassTree.display_meaning d
  | method => exact MethodTree.display_meaning d
  | field => exact Tree.display_meaning d

theorem canonical_eq_of_meaning_eq {d d' : Derivation kind} (h : d.meaning = d'.meaning) :
    d.canonical = d'.canonical := by
  cases kind with
  | cls => exact ClassTree.canonical_eq_of_meaning_eq h
  | method => exact MethodTree.canonical_eq_of_meaning_eq h
  | field => exact Tree.canonical_eq_of_meaning_eq h

theorem spelling_ne_nil (d : Derivation kind) : d.spelling ≠ [] := by
  cases kind with
  | cls =>
    have hsuperclass := (Tree.cls (ClassTree.superclass d)).spelling_ne_nil_of_reference
    simp only [Tree.spelling] at hsuperclass
    simp [Derivation.spelling, ClassTree.spelling, hsuperclass]
  | method => simp [Derivation.spelling, MethodTree.spelling]
  | field => exact Tree.spelling_ne_nil_of_reference d

end Derivation

/-- A signature is read if it is derived, and then as what the derivation stands for. -/
theorem read_eq_ok_iff {kind : Kind} {text : String} {a : Declared kind} :
    read kind text = .ok a ↔
      ∃ d : Derivation kind, d.spelling = text.toList ∧ d.meaning = a := by
  cases kind with
  | cls => exact readAll_iff_of_gives ClassTree.cuts takes_classSignature gives_classSignature
  | method => exact readAll_iff_of_gives MethodTree.cuts takes_methodSignature gives_methodSignature
  | field =>
    refine readAll_iff_of_gives (fun t => ⟨.parameter, ?_⟩) (takes_referenceType · [])
      gives_referenceType
    have hcuts := Tree.cuts_reference t .start []
    rwa [List.append_nil] at hcuts

theorem display_eq_ok_iff {kind : Kind} {text shown : String} :
    display kind text = .ok shown ↔
      ∃ d : Derivation kind, d.spelling = text.toList ∧ d.rendering = shown := by
  rw [display_eq, reading_eq_ok_iff]
  constructor
  · rintro ⟨-, h⟩
    obtain ⟨a, ha, rfl⟩ : ∃ a, read kind text = .ok a ∧ a.display = shown := by
      cases hread : read kind text with
      | error reason =>
        rw [hread] at h
        cases h
      | ok a =>
        rw [hread] at h
        cases h
        exact ⟨a, rfl, rfl⟩
    obtain ⟨d, htext, rfl⟩ := read_eq_ok_iff.mp ha
    exact ⟨d, htext, d.display_meaning.symm⟩
  · rintro ⟨d, htext, rfl⟩
    refine ⟨?_, ?_⟩
    · rintro rfl
      exact d.spelling_ne_nil htext
    · rw [read_eq_ok_iff.mpr ⟨d, htext, rfl⟩, ← d.display_meaning]
      rfl

/-- The derivations of a text are the same but for the pieces of bare class types. -/
theorem spelling_eq_iff_canonical_eq {kind : Kind} (d d' : Derivation kind) :
    d'.spelling = d.spelling ↔ d'.canonical = d.canonical := by
  constructor
  · intro h
    -- Both stand for what the text of `d` is read as.
    have hread : ∀ d'' : Derivation kind, d''.spelling = d.spelling →
        read kind (String.ofList d.spelling) = .ok d''.meaning := fun d'' h'' =>
      read_eq_ok_iff.mpr ⟨d'', by rw [h'', String.toList_ofList], rfl⟩
    apply Derivation.canonical_eq_of_meaning_eq
    exact Except.ok.inj ((hread d' h).symm.trans (hread d rfl))
  · intro h
    rw [← d'.spelling_canonical, h, d.spelling_canonical]

/-- **Reading signatures accepts exactly what the grammar derives, and renders the derivation.**
    A text is displayed if it has a derivation of its kind; the derivations of a text differ only in
    the pieces of bare class types; and the text is displayed as its derivations are rendered. -/
theorem display_exact (kind : Kind) (text : String) :
    ((∃ shown, display kind text = .ok shown) ↔
      ∃ d : Derivation kind, d.spelling = text.toList) ∧
    ∀ d : Derivation kind, d.spelling = text.toList →
      display kind text = .ok d.rendering ∧
      ∀ d' : Derivation kind, d'.spelling = text.toList ↔ d'.canonical = d.canonical := by
  refine ⟨⟨?_, ?_⟩, ?_⟩
  · rintro ⟨shown, h⟩
    obtain ⟨d, htext, -⟩ := display_eq_ok_iff.mp h
    exact ⟨d, htext⟩
  · rintro ⟨d, htext⟩
    exact ⟨d.rendering, display_eq_ok_iff.mpr ⟨d, htext, rfl⟩⟩
  · intro d htext
    refine ⟨display_eq_ok_iff.mpr ⟨d, htext, rfl⟩, fun d' => ?_⟩
    rw [← htext]
    exact spelling_eq_iff_canonical_eq d d'

/-- A method with a type parameter called `(`, which is bounded by a bare class type in parts. -/
def crooked : MethodTree where
  typeParameters := [⟨.ofChars ['('] (by decide) (by decide),
    some (.cls (.parted ⟨.ofChars ['a'] (by decide) (by decide), []⟩ .noArguments .noNested)), []⟩]
  parameters := [.reference (.typeVariable (.ofChars ['('] (by decide) (by decide))),
    .reference (.array (.base .int))]
  result := none
  throws := []

/-- A parenthesis in the name of a type parameter opens no parameters. -/
theorem display_exact_crooked :
    display .method "<(:La;>(T(;[I)V" = .ok "<( extends a>((,int[]) : void" := by
  have hrendering : MethodTree.rendering crooked = "<( extends a>((,int[]) : void" := by decide
  rw [← hrendering]
  exact ((display_exact .method "<(:La;>(T(;[I)V").2 crooked (by decide)).1

end JavaClass.Signature
