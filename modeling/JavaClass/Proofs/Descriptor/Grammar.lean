/-
  JavaClass.Proofs.Descriptor.Grammar — which texts are descriptors, and what they are read as.

  A form is a way to write a descriptor: brackets and an element for a field, forms for the
  parameters and the result of a method.  Forms are data, so a text is a descriptor if it is the
  spelling of a form.

  Behind every form the text may go on in any way, since its tokens are told apart by their first
  characters: the text is cut into the tokens of the form, and the readers take them
  (`FieldForm.cuts`, `fieldType_of_tokens`).  What a reader takes is a form (`form_of_fieldType`).
  So reading succeeds on the forms and on nothing else (`FieldType.parse_eq_ok_iff`,
  `MethodType.parse_eq_ok_iff`), and a method descriptor has one split only.
-/
import JavaClass.Proofs.Descriptor.Lexeme
import JavaClass.Descriptor.Parser

namespace JavaClass

namespace Descriptor

/-! ## §1. Forms. -/

/-- A primitive type by its letter, or a class by its name. -/
inductive ElementForm where
  | base (type : BaseType)
  | object (name : QualifiedName)
deriving DecidableEq

/-- An element behind some brackets. -/
structure FieldForm where
  brackets : Nat
  element : ElementForm
deriving DecidableEq

/-- Parameters, and a result or none. -/
structure MethodForm where
  parameters : List FieldForm
  result : Option FieldForm
deriving DecidableEq

namespace ElementForm

/-- A letter, or a name between `L` and `;`. -/
def spelling : ElementForm → List Char
  | base type => [type.letter]
  | object name => 'L' :: (name.spelling ++ [';'])

/-- A keyword, or a name with points. -/
def display : ElementForm → String
  | base type => type.keyword
  | object name => name.dotted

/-- The name of a class, with its slashes. -/
def internalName? : ElementForm → Option String
  | base _ => none
  | object name => some name.text

/-- The type that is meant. -/
def type : ElementForm → ElementType
  | base type => .base type
  | object name => .object name.text

/-- The token of an element. -/
def token : ElementForm → Token
  | base type => .base type
  | object name => .object name.text

end ElementForm

namespace FieldForm

/-- The brackets and the element. -/
def spelling (f : FieldForm) : List Char := List.replicate f.brackets '[' ++ f.element.spelling

theorem spelling_ne_nil (f : FieldForm) : f.spelling ≠ [] := by
  obtain ⟨brackets, type | name⟩ := f
  all_goals simp [spelling, ElementForm.spelling]

/-- The descriptor. -/
def text (f : FieldForm) : String := String.ofList f.spelling

/-- The type that is meant. -/
def type (f : FieldForm) : FieldType := ⟨f.brackets, f.element.type⟩

/-- The tokens of a form. -/
def tokens (f : FieldForm) : List Token :=
  List.replicate f.brackets .bracket ++ [f.element.token]

end FieldForm

namespace MethodForm

/-- What stands behind the parameters. -/
def resultSpelling (m : MethodForm) : List Char := m.result.elim ['V'] FieldForm.spelling

/-- The parameters in parentheses, and the result. -/
def spelling (m : MethodForm) : List Char :=
  '(' :: (m.parameters.flatMap FieldForm.spelling ++ ')' :: m.resultSpelling)

/-- The type that is meant. -/
def type (m : MethodForm) : MethodType :=
  ⟨m.parameters.map FieldForm.type, m.result.map FieldForm.type⟩

/-- The tokens of a form. -/
def tokens (m : MethodForm) : List Token :=
  .openParen ::
    (m.parameters.flatMap FieldForm.tokens ++ .closeParen :: m.result.elim [.void] FieldForm.tokens)

end MethodForm

/-! ## §2. Forms are cut into their tokens. -/

theorem next?_letter (type : BaseType) (rest : List Char) :
    next? () (type.letter :: rest) = some ⟨.base type, (), [type.letter]⟩ := by
  cases type <;> rfl

theorem next?_object (name : QualifiedName) (rest : List Char) :
    next? () ((ElementForm.object name).spelling ++ rest) =
      some ⟨.object name.text, (), (ElementForm.object name).spelling⟩ := by
  obtain ⟨c, cs, hname⟩ := List.exists_cons_of_ne_nil name.spelling_ne_nil
  have hfound : qualified (name.spelling ++ ';' :: rest) = (name.spelling, ';' :: rest) :=
    qualified_append name rfl
  have htext : (ElementForm.object name).spelling ++ rest =
      'L' :: (name.spelling ++ ';' :: rest) := by
    simp [ElementForm.spelling]
  rw [htext, next?, object?, hfound]
  simp [hname, QualifiedName.text, ElementForm.spelling]

theorem ElementForm.cuts (e : ElementForm) (rest : List Char) :
    Cuts next? () (e.spelling ++ rest) [e.token] () rest := by
  cases e with
  | base type => exact Cuts.char (next?_letter type rest) (.nil () rest)
  | object name => exact Cuts.single (next?_object name rest) (by simp [spelling])

theorem FieldForm.cuts (f : FieldForm) (rest : List Char) :
    Cuts next? () (f.spelling ++ rest) f.tokens () rest := by
  obtain ⟨brackets, element⟩ := f
  induction brackets with
  | zero => exact element.cuts rest
  | succ n ih => exact Cuts.char rfl ih

theorem FieldForm.cuts_all (fs : List FieldForm) (rest : List Char) :
    Cuts next? () (fs.flatMap FieldForm.spelling ++ rest) (fs.flatMap FieldForm.tokens) ()
      rest := by
  induction fs with
  | nil => exact .nil () rest
  | cons f fs ih =>
    rw [List.flatMap_cons, List.append_assoc, List.flatMap_cons]
    exact (f.cuts _).append ih

theorem MethodForm.cuts (m : MethodForm) : Cuts next? () m.spelling m.tokens () [] := by
  have hresult : Cuts next? () m.resultSpelling (m.result.elim [.void] FieldForm.tokens) () [] := by
    rcases m with ⟨parameters, _ | result⟩
    · exact Cuts.char rfl (.nil () [])
    · have h := result.cuts []
      rwa [List.append_nil] at h
  exact Cuts.char rfl ((FieldForm.cuts_all m.parameters _).append (Cuts.char rfl hresult))

/-! ## §3. The tokens of a form are read as its type. -/

theorem fieldType_of_tokens (f : FieldForm) (n : Nat) {xs : Rest} {more : List Token}
    (h : xs.map Lexeme.token = f.tokens ++ more) :
    ∃ rest : Rest, rest.map Lexeme.token = more ∧
      fieldType n xs = .ok (⟨n + f.brackets, f.element.type⟩, rest) := by
  obtain ⟨brackets, element⟩ := f
  induction brackets generalizing n xs with
  | zero =>
    obtain ⟨column, rest, rfl, hrest⟩ := exists_of_map_token h
    refine ⟨rest, hrest, ?_⟩
    cases element <;> rfl
  | succ k ih =>
    obtain ⟨column, rest, rfl, hrest⟩ := exists_of_map_token h
    obtain ⟨rest', hrest', htype⟩ := ih (n + 1) hrest
    refine ⟨rest', hrest', ?_⟩
    rw [fieldType, htype]
    simp only [Nat.add_assoc, Nat.add_comm 1 k]

theorem parameters_of_tokens (f : FieldForm) (n : Nat) (done : List FieldType) {xs : Rest}
    {more : List Token} (h : xs.map Lexeme.token = f.tokens ++ more) :
    ∃ rest : Rest, rest.map Lexeme.token = more ∧
      parameters n done xs = parameters 0 (⟨n + f.brackets, f.element.type⟩ :: done) rest := by
  obtain ⟨brackets, element⟩ := f
  induction brackets generalizing n xs with
  | zero =>
    obtain ⟨column, rest, rfl, hrest⟩ := exists_of_map_token h
    refine ⟨rest, hrest, ?_⟩
    cases element <;> rfl
  | succ k ih =>
    obtain ⟨column, rest, rfl, hrest⟩ := exists_of_map_token h
    obtain ⟨rest', hrest', htype⟩ := ih (n + 1) hrest
    refine ⟨rest', hrest', ?_⟩
    rw [parameters]
    simp only [htype, Nat.add_assoc, Nat.add_comm 1 k]

theorem parameters_of_all_tokens (fs : List FieldForm) (done : List FieldType) {xs : Rest}
    {more : List Token}
    (h : xs.map Lexeme.token = fs.flatMap FieldForm.tokens ++ .closeParen :: more) :
    ∃ rest : Rest, rest.map Lexeme.token = more ∧
      parameters 0 done xs = .ok (done.reverse ++ fs.map FieldForm.type, rest) := by
  induction fs generalizing done xs with
  | nil =>
    obtain ⟨column, rest, rfl, hrest⟩ := exists_of_map_token h
    exact ⟨rest, hrest, by simp [parameters]⟩
  | cons f fs ih =>
    rw [List.flatMap_cons, List.append_assoc] at h
    obtain ⟨xs', hxs', hstep⟩ := parameters_of_tokens f 0 done h
    obtain ⟨rest, hrest, hparameters⟩ := ih (⟨0 + f.brackets, f.element.type⟩ :: done) hxs'
    refine ⟨rest, hrest, ?_⟩
    rw [hstep, hparameters]
    simp [FieldForm.type]

theorem methodType_of_tokens (m : MethodForm) {xs : Rest} (h : xs.map Lexeme.token = m.tokens) :
    methodType xs = .ok (m.type, []) := by
  obtain ⟨column, xs, rfl, hxs⟩ := exists_of_map_token h
  obtain ⟨rest, hrest, hparameters⟩ := parameters_of_all_tokens m.parameters [] hxs
  rw [methodType, hparameters]
  rcases m with ⟨ps, _ | f⟩
  · obtain ⟨column', rest, rfl, hnil⟩ := exists_of_map_token hrest
    cases List.map_eq_nil_iff.mp hnil
    rfl
  · obtain ⟨rest', hnil, htype⟩ := fieldType_of_tokens f 0 (hrest.trans (List.append_nil _).symm)
    cases List.map_eq_nil_iff.mp hnil
    -- No form starts like `V`, so the result is read as a field type.
    have hresult : ∀ ps' : List FieldType, (fieldType 0 rest >>= fun p =>
        pure (⟨ps', some p.1⟩, p.2)) = (Except.ok (⟨ps', some f.type⟩, []) :
          Except Rest (MethodType × Rest)) := by
      intro ps'
      rw [htype, Nat.zero_add]
      rfl
    rcases f with ⟨_ | k, type | name⟩
    all_goals
      obtain ⟨column', rest, rfl, -⟩ := exists_of_map_token hrest
      exact hresult _

/-! ## §4. What is read is a form. -/

/-- The characters of a token. -/
def Token.spelling : Token → List Char
  | bracket => ['[']
  | base type => [type.letter]
  | object name => 'L' :: (name.toList ++ [';'])
  | openParen => ['(']
  | closeParen => [')']
  | void => ['V']

/-- The name in a token is a name. -/
def Token.Genuine : Token → Prop
  | object name => ∃ q : QualifiedName, q.text = name
  | _ => True

theorem object?_eq_some {text : List Char} {found : Found Unit Token}
    (h : object? text = some found) :
    ∃ (q : QualifiedName) (rest : List Char), text = q.spelling ++ ';' :: rest ∧
      found = ⟨.object q.text, (), (ElementForm.object q).spelling⟩ := by
  unfold object? at h
  split at h
  · next c name rest hfound =>
    obtain ⟨q, hq, htext⟩ := exists_of_qualified hfound (List.cons_ne_nil c name)
    cases h
    exact ⟨q, rest, by rw [htext, hq], by simp [QualifiedName.text, ElementForm.spelling, hq]⟩
  · cases h

theorem next?_honest : Honest next? Token.spelling Token.Genuine := by
  intro _ text found h
  unfold next? at h
  split at h
  -- A class type, a letter, and the end of the text; all other tokens are single marks.
  case h_5 rest =>
    obtain ⟨q, rest, rfl, rfl⟩ := object?_eq_some h
    have htext : 'L' :: (q.spelling ++ ';' :: rest) = (ElementForm.object q).spelling ++ rest := by
      simp [ElementForm.spelling]
    refine ⟨?_, by simp [ElementForm.spelling], ⟨rest, htext.symm⟩, q, rfl⟩
    simp [ElementForm.spelling, Token.spelling, QualifiedName.text]
  case h_6 c rest _ _ _ _ _ =>
    obtain ⟨type, htype, rfl⟩ := Option.map_eq_some_iff.mp h
    rw [← BaseType.letter_of_ofLetter? htype]
    exact ⟨rfl, by simp, ⟨rest, rfl⟩, trivial⟩
  case h_7 => cases h
  all_goals
    cases h
    exact ⟨rfl, by simp, ⟨_, rfl⟩, trivial⟩

/-- The characters of what is left to read. -/
abbrev spelled (xs : Rest) : List Char := JavaClass.spelled Token.spelling xs

/-- All names in what is left to read are names. -/
def Rest.Genuine (xs : Rest) : Prop := ∀ x ∈ xs, x.token.Genuine

theorem form_of_fieldType {n : Nat} {xs rest : Rest} {t : FieldType} (hxs : Rest.Genuine xs)
    (h : fieldType n xs = .ok (t, rest)) :
    ∃ f : FieldForm, f.type = t ∧
      List.replicate n '[' ++ spelled xs = f.spelling ++ spelled rest ∧ rest <:+ xs := by
  -- The brackets that are read stand on the left, so the form behind them takes them in.
  fun_induction fieldType n xs with
  | case1 n column xs ih =>
    obtain ⟨f, htype, htext, hrest⟩ := ih (fun x hx => hxs x (by simp [hx])) h
    refine ⟨f, htype, ?_, hrest.trans (List.suffix_cons _ _)⟩
    rw [← htext, List.replicate_succ']
    simp [Token.spelling]
  | case2 n column type xs =>
    cases h
    exact ⟨⟨n, .base type⟩, rfl, by simp [FieldForm.spelling, ElementForm.spelling, Token.spelling],
      List.suffix_cons _ _⟩
  | case3 n column name xs =>
    obtain ⟨q, rfl⟩ : ∃ q : QualifiedName, q.text = name := hxs ⟨column, .object name⟩ (by simp)
    cases h
    refine ⟨⟨n, .object q⟩, rfl, ?_, List.suffix_cons _ _⟩
    simp [FieldForm.spelling, ElementForm.spelling, Token.spelling, QualifiedName.text]
  | case4 n xs => cases h

theorem forms_of_parameters {n : Nat} {done ps : List FieldType} {xs rest : Rest}
    (hxs : Rest.Genuine xs) (h : parameters n done xs = .ok (ps, rest)) :
    ∃ fs : List FieldForm, ps = done.reverse ++ fs.map FieldForm.type ∧
      List.replicate n '[' ++ spelled xs =
        fs.flatMap FieldForm.spelling ++ ')' :: spelled rest ∧ rest <:+ xs := by
  fun_induction parameters n done xs with
  | case1 n done => cases h
  | case2 n done lexeme xs htoken ih =>
    obtain ⟨fs, hps, htext, hrest⟩ := ih (fun x hx => hxs x (by simp [hx])) h
    refine ⟨fs, hps, ?_, hrest.trans (List.suffix_cons _ _)⟩
    rw [← htext, List.replicate_succ']
    simp [htoken, Token.spelling]
  | case3 n done lexeme xs type htoken ih =>
    obtain ⟨fs, hps, htext, hrest⟩ := ih (fun x hx => hxs x (by simp [hx])) h
    refine ⟨⟨n, .base type⟩ :: fs, ?_, ?_, hrest.trans (List.suffix_cons _ _)⟩
    · simp [hps, FieldForm.type, ElementForm.type]
    · simpa [htoken, FieldForm.spelling, ElementForm.spelling, Token.spelling] using htext
  | case4 n done lexeme xs name htoken ih =>
    obtain ⟨fs, hps, htext, hrest⟩ := ih (fun x hx => hxs x (by simp [hx])) h
    obtain ⟨q, rfl⟩ : ∃ q : QualifiedName, q.text = name := by
      have hgenuine := hxs lexeme (by simp)
      rwa [htoken] at hgenuine
    refine ⟨⟨n, .object q⟩ :: fs, ?_, ?_, hrest.trans (List.suffix_cons _ _)⟩
    · simp [hps, FieldForm.type, ElementForm.type]
    · simpa [htoken, FieldForm.spelling, ElementForm.spelling, Token.spelling,
        QualifiedName.text] using htext
  | case5 done lexeme xs htoken =>
    cases h
    exact ⟨[], by simp, by simp [htoken, Token.spelling], List.suffix_cons _ _⟩
  | case6 n done lexeme xs htoken hn => cases h
  | case7 n done lexeme xs => cases h

theorem form_of_methodType {xs rest : Rest} {t : MethodType} (hxs : Rest.Genuine xs)
    (h : methodType xs = .ok (t, rest)) :
    ∃ m : MethodForm, m.type = t ∧ spelled xs = m.spelling ++ spelled rest := by
  unfold methodType at h
  split at h
  · next column xs =>
    obtain ⟨⟨ps, xs'⟩, hparameters, hresult⟩ := bind_eq_ok_iff.mp h
    have hxs : Rest.Genuine xs := fun x hx => hxs x (by simp [hx])
    obtain ⟨fs, hps, htext, hxs'⟩ := forms_of_parameters hxs hparameters
    dsimp only at hresult
    split at hresult
    · next column' rest' =>
      cases hresult
      refine ⟨⟨fs, none⟩, by simp [MethodForm.type, hps], ?_⟩
      simpa [MethodForm.spelling, MethodForm.resultSpelling, Token.spelling] using htext
    · obtain ⟨⟨result, rest'⟩, hfield, hend⟩ := bind_eq_ok_iff.mp hresult
      obtain ⟨f, hf, hftext, -⟩ := form_of_fieldType (fun x hx => hxs x (hxs'.mem hx)) hfield
      cases hend
      refine ⟨⟨fs, some f⟩, by simp [MethodForm.type, hps, hf], ?_⟩
      have hftext : spelled xs' = f.spelling ++ spelled rest' := hftext
      rw [hftext] at htext
      simpa [MethodForm.spelling, MethodForm.resultSpelling, Token.spelling] using htext
  · cases h

/-! ## §5. Reading takes the forms and nothing else. -/

end Descriptor

open Descriptor

theorem FieldType.parse_eq_ok_iff {text : String} {t : FieldType} :
    FieldType.parse text = .ok t ↔ ∃ f : FieldForm, f.spelling = text.toList ∧ f.type = t := by
  unfold FieldType.parse
  rw [reading_eq_ok_iff]
  constructor
  · rintro ⟨-, h⟩
    obtain ⟨xs, htext, hxs, hreader⟩ := exists_of_readAll next?_honest h
    obtain ⟨f, hf, hspelling, -⟩ := form_of_fieldType hxs hreader
    exact ⟨f, by rw [htext]; simpa using hspelling.symm, hf⟩
  · rintro ⟨f, hspelling, rfl⟩
    have hcuts := f.cuts []
    rw [List.append_nil, hspelling] at hcuts
    refine ⟨?_, readAll_of_cuts hcuts fun xs hxs => ?_⟩
    · rintro rfl
      exact f.spelling_ne_nil hspelling
    · obtain ⟨rest, hrest, htype⟩ := fieldType_of_tokens f 0 (hxs.trans (List.append_nil _).symm)
      cases List.map_eq_nil_iff.mp hrest
      rw [htype, Nat.zero_add]
      rfl

theorem MethodType.parse_eq_ok_iff {text : String} {t : MethodType} :
    MethodType.parse text = .ok t ↔ ∃ m : MethodForm, m.spelling = text.toList ∧ m.type = t := by
  unfold MethodType.parse
  rw [reading_eq_ok_iff]
  constructor
  · rintro ⟨-, h⟩
    obtain ⟨xs, htext, hxs, hreader⟩ := exists_of_readAll next?_honest h
    obtain ⟨m, hm, hspelling⟩ := form_of_methodType hxs hreader
    exact ⟨m, by rw [htext]; simpa using hspelling.symm, hm⟩
  · rintro ⟨m, hspelling, rfl⟩
    refine ⟨?_, readAll_of_cuts (hspelling ▸ m.cuts) fun xs hxs => methodType_of_tokens m hxs⟩
    rintro rfl
    cases hspelling

namespace Descriptor

/-! ## §6. What a form says of its type. -/

/-- `t` is the type that the form `f` describes, part by part. -/
structure FieldForm.Describes (f : FieldForm) (t : FieldType) : Prop where
  descriptor : t.descriptor = f.text
  dimensions : t.dimensions = f.brackets
  binaryName? : t.binaryName? = f.element.internalName?
  kind : t.kind = "array" ↔ 0 < f.brackets
  display : t.display = f.element.display ++ String.join (List.replicate f.brackets "[]")

theorem ElementForm.descriptor_type (e : ElementForm) :
    e.type.descriptor = String.ofList e.spelling := by
  cases e with
  | base type => cases type <;> rfl
  | object name =>
    apply String.toList_inj.mp
    simp [type, spelling, ElementType.descriptor, QualifiedName.text]

theorem toList_repeatText_bracket (n : Nat) :
    (repeatText n "[").toList = List.replicate n '[' := by
  rw [repeatText, String.toList_join]
  induction n with
  | zero => rfl
  | succ n ih => rw [List.replicate_succ, List.flatMap_cons, ih, List.replicate_succ]; rfl

theorem FieldForm.descriptor_type (f : FieldForm) : f.type.descriptor = f.text := by
  apply String.toList_inj.mp
  rw [FieldType.descriptor, type, ElementForm.descriptor_type, String.toList_append,
    toList_repeatText_bracket]
  simp [text, spelling]

theorem FieldForm.describes_type (f : FieldForm) : f.Describes f.type where
  descriptor := f.descriptor_type
  dimensions := rfl
  binaryName? := by
    obtain ⟨brackets, base | name⟩ := f
    all_goals rfl
  kind := by
    obtain ⟨_ | n, base | name⟩ := f
    all_goals simp [type, FieldType.kind, ElementForm.type, ElementType.kind]
  display := by
    obtain ⟨brackets, base | name⟩ := f
    · rfl
    · simp only [FieldType.display, type, ElementForm.type, ElementType.display,
        ElementForm.display, QualifiedName.sourceName_text, repeatText]

/-! ## §7. Method descriptors split. -/

/-- The text is a field descriptor. -/
def IsField (text : String) : Prop := ∃ f : FieldForm, f.text = text

/-- The text is a pair of parentheses around `parameters`, one behind the other, and `result`. -/
structure Splits (text : String) (parameters : List String) (result : String) : Prop where
  text_eq : text = "(" ++ String.join parameters ++ ")" ++ result
  parameters_field : ∀ d ∈ parameters, IsField d
  result_field : IsField result ∨ result = "V"

/-- A row of field descriptors is the row of the texts of forms. -/
theorem exists_forms {ds : List String} (h : ∀ d ∈ ds, IsField d) :
    ∃ fs : List FieldForm, ds = fs.map FieldForm.text := by
  induction ds with
  | nil => exact ⟨[], rfl⟩
  | cons d ds ih =>
    obtain ⟨f, rfl⟩ := h d (by simp)
    obtain ⟨fs, rfl⟩ := ih fun d' hd' => h d' (by simp [hd'])
    exact ⟨f :: fs, rfl⟩

/-- What stands behind the parameters. -/
def MethodForm.resultText (m : MethodForm) : String := m.result.elim "V" FieldForm.text

theorem MethodForm.toList_split (m : MethodForm) :
    ("(" ++ String.join (m.parameters.map FieldForm.text) ++ ")" ++ m.resultText).toList =
      m.spelling := by
  have hparameters : (String.join (m.parameters.map FieldForm.text)).toList =
      m.parameters.flatMap FieldForm.spelling := by
    simp [String.toList_join, FieldForm.text, List.flatMap_map]
  have hresult : m.resultText.toList = m.resultSpelling := by
    rcases m with ⟨parameters, _ | f⟩
    all_goals simp [resultText, resultSpelling, FieldForm.text]
  simp [spelling, hparameters, hresult]

/-- The splits of a text are its forms. -/
theorem splits_iff {text result : String} {parameters : List String} :
    Splits text parameters result ↔ ∃ m : MethodForm, m.spelling = text.toList ∧
      parameters = m.parameters.map FieldForm.text ∧ result = m.resultText := by
  constructor
  · rintro ⟨rfl, hparameters, hresult⟩
    obtain ⟨fs, rfl⟩ := exists_forms hparameters
    obtain ⟨f, rfl⟩ | rfl := hresult
    · exact ⟨⟨fs, some f⟩, (MethodForm.toList_split ⟨fs, some f⟩).symm, rfl, rfl⟩
    · exact ⟨⟨fs, none⟩, (MethodForm.toList_split ⟨fs, none⟩).symm, rfl, rfl⟩
  · rintro ⟨m, hspelling, rfl, rfl⟩
    refine ⟨String.toList_inj.mp (by rw [m.toList_split, hspelling]), ?_, ?_⟩
    · intro d hd
      obtain ⟨f, -, rfl⟩ := List.mem_map.mp hd
      exact ⟨f, rfl⟩
    · rcases m with ⟨parameters, _ | f⟩
      · exact .inr rfl
      · exact .inl ⟨f, rfl⟩

theorem MethodForm.parameters_type (m : MethodForm) :
    m.type.parameters.map FieldType.descriptor = m.parameters.map FieldForm.text := by
  simp [type, FieldForm.descriptor_type]

theorem MethodForm.result_type (m : MethodForm) :
    m.type.result.elim "V" FieldType.descriptor = m.resultText := by
  rcases m with ⟨parameters, _ | f⟩
  · rfl
  · exact f.descriptor_type

theorem FieldForm.parse_text (f : FieldForm) : FieldType.parse f.text = .ok f.type :=
  FieldType.parse_eq_ok_iff.mpr ⟨f, String.toList_ofList.symm, rfl⟩

theorem parse_isOk_iff_isField {text : String} :
    (∃ t, FieldType.parse text = .ok t) ↔ IsField text := by
  constructor
  · rintro ⟨t, h⟩
    obtain ⟨f, hspelling, -⟩ := FieldType.parse_eq_ok_iff.mp h
    exact ⟨f, by rw [FieldForm.text, hspelling, String.ofList_toList]⟩
  · rintro ⟨f, rfl⟩
    exact ⟨f.type, f.parse_text⟩

/-- A method descriptor is read parameter by parameter. -/
theorem parse_of_splits {text result : String} {parameters : List String}
    (h : Splits text parameters result) :
    ∃ t, MethodType.parse text = .ok t ∧ t.parameters.map FieldType.descriptor = parameters ∧
      t.result.elim "V" FieldType.descriptor = result ∧
      parameters.map FieldType.parse = t.parameters.map .ok := by
  obtain ⟨m, hspelling, rfl, rfl⟩ := splits_iff.mp h
  refine ⟨m.type, MethodType.parse_eq_ok_iff.mpr ⟨m, hspelling, rfl⟩, m.parameters_type,
    m.result_type, ?_⟩
  -- Each parameter is the type that its own descriptor is read as.
  simp [MethodForm.type, FieldForm.parse_text]

theorem parse_isOk_iff_splits {text : String} :
    (∃ t, MethodType.parse text = .ok t) ↔ ∃ parameters result, Splits text parameters result := by
  constructor
  · rintro ⟨t, h⟩
    obtain ⟨m, hspelling, -⟩ := MethodType.parse_eq_ok_iff.mp h
    exact ⟨_, _, splits_iff.mpr ⟨m, hspelling, rfl, rfl⟩⟩
  · rintro ⟨parameters, result, h⟩
    obtain ⟨t, ht, -⟩ := parse_of_splits h
    exact ⟨t, ht⟩

/-- There is one split at most: it is found again in what the text is read as. -/
theorem splits_unique {text result result' : String} {parameters parameters' : List String}
    (h : Splits text parameters result) (h' : Splits text parameters' result') :
    parameters' = parameters ∧ result' = result := by
  obtain ⟨t, ht, rfl, rfl, -⟩ := parse_of_splits h
  obtain ⟨t', ht', rfl, rfl, -⟩ := parse_of_splits h'
  cases ht.symm.trans ht'
  exact ⟨rfl, rfl⟩

/-- **Reading descriptors is exact, and can be undone.**  A text is read as a field type if it is
    some brackets and an element, and the type says just that; it is read as a method type if it
    splits into field descriptors, in the one way there is, and the type has them as its parameters
    and result.  On any other text the answer is an error that names the text. -/
theorem parsing_exact (text : String) :
    ((∃ t, FieldType.parse text = .ok t) ↔ IsField text) ∧
    (∀ f : FieldForm, f.text = text → ∃ t, FieldType.parse text = .ok t ∧ f.Describes t) ∧
    (¬IsField text → ∃ reason, FieldType.parse text = .error ⟨text, reason⟩) ∧
    ((∃ t, MethodType.parse text = .ok t) ↔ ∃ parameters result, Splits text parameters result) ∧
    (∀ parameters result, Splits text parameters result →
      (∀ parameters' result', Splits text parameters' result' →
        parameters' = parameters ∧ result' = result) ∧
      ∃ t, MethodType.parse text = .ok t ∧ t.parameters.map FieldType.descriptor = parameters ∧
        t.result.elim "V" FieldType.descriptor = result ∧
        parameters.map FieldType.parse = t.parameters.map .ok) ∧
    ((¬∃ parameters result, Splits text parameters result) →
      ∃ reason, MethodType.parse text = .error ⟨text, reason⟩) := by
  refine ⟨parse_isOk_iff_isField, ?_, ?_, parse_isOk_iff_splits, ?_, ?_⟩
  · rintro f rfl
    exact ⟨f.type, f.parse_text, f.describes_type⟩
  · intro hfield
    exact (reading_ok_or_error text _).resolve_left (hfield ∘ parse_isOk_iff_isField.mp)
  · intro parameters result h
    exact ⟨fun _ _ h' => splits_unique h h', parse_of_splits h⟩
  · intro hsplits
    exact (reading_ok_or_error text _).resolve_left (hsplits ∘ parse_isOk_iff_splits.mp)

/-- Parentheses inside a name do not end the parameters. -/
theorem parsing_exact_parentheses :
    ∃ t, MethodType.parse "(La)b;[[I)V" = .ok t ∧
      t.parameters.map FieldType.descriptor = ["La)b;", "[[I"] ∧
      t.result.elim "V" FieldType.descriptor = "V" := by
  have hclass : IsField "La)b;" :=
    ⟨⟨0, .object ⟨.ofChars ['a', ')', 'b'] (by decide) (by decide), []⟩⟩, by decide⟩
  have harray : IsField "[[I" := ⟨⟨2, .base .int⟩, by decide⟩
  have hsplits : Splits "(La)b;[[I)V" ["La)b;", "[[I"] "V" :=
    ⟨by decide, by simpa using ⟨hclass, harray⟩, .inr rfl⟩
  obtain ⟨-, t, ht, hparameters, hresult, -⟩ :=
    (parsing_exact "(La)b;[[I)V").2.2.2.2.1 ["La)b;", "[[I"] "V" hsplits
  exact ⟨t, ht, hparameters, hresult⟩

end Descriptor

end JavaClass
