/-
  JavaClass.Proofs.Signature.Reading — the tokens of a tree are read as its meaning.

  `Takes` says that a reader takes some tokens for a value, whatever columns they stand in, and
  leaves the tokens behind them.  The readers of types go a level deeper for every token at most,
  so a depth of the number of tokens is enough: the induction is on the depth, over all trees at
  once (`ReadsTo`), and every case is one token or two readings one behind the other.
-/
import JavaClass.Proofs.Signature.Cutting

namespace JavaClass.Signature

/-! ## §1. Readers that take tokens. -/

section

variable {α β : Type}

/-- In front of the tokens `more`, the reader takes `tokens` for `value`. -/
def Takes (reader : Rest → Except Rest (α × Rest)) (tokens : List Token) (value : α)
    (more : List Token) : Prop :=
  ∀ xs : Rest, xs.map Lexeme.token = tokens ++ more →
    ∃ rest : Rest, rest.map Lexeme.token = more ∧ reader xs = .ok (value, rest)

theorem Takes.single {reader : Rest → Except Rest (α × Rest)} {token : Token} {value : α}
    (h : ∀ column rest, reader (⟨column, token⟩ :: rest) = .ok (value, rest))
    (more : List Token) : Takes reader [token] value more := by
  intro xs hxs
  obtain ⟨column, rest, rfl, hrest⟩ := exists_of_map_token hxs
  exact ⟨rest, hrest, h column rest⟩

theorem Takes.cons {reader reader' : Rest → Except Rest (α × Rest)} {token : Token}
    {tokens more : List Token} {value : α}
    (h : ∀ column rest, reader (⟨column, token⟩ :: rest) = reader' rest)
    (h' : Takes reader' tokens value more) : Takes reader (token :: tokens) value more := by
  intro xs hxs
  obtain ⟨column, xs', rfl, hxs'⟩ := exists_of_map_token hxs
  obtain ⟨rest, hrest, hread⟩ := h' xs' hxs'
  exact ⟨rest, hrest, (h column xs').trans hread⟩

theorem Takes.bind {reader : Rest → Except Rest (α × Rest)} {tokens tokens' more : List Token}
    {value : α} {value' : β} (reader' : α → Rest → Except Rest (β × Rest))
    (h : Takes reader tokens value (tokens' ++ more))
    (h' : Takes (reader' value) tokens' value' more) :
    Takes (fun xs => reader xs >>= fun p => reader' p.1 p.2) (tokens ++ tokens') value' more := by
  intro xs hxs
  obtain ⟨xs', hxs', hread⟩ := h xs (by rw [hxs, List.append_assoc])
  obtain ⟨rest, hrest, hread'⟩ := h' xs' hxs'
  refine ⟨rest, hrest, ?_⟩
  show reader xs >>= (fun p => reader' p.1 p.2) = _
  rw [hread]
  exact hread'

/-- What is read may be made into something else. -/
theorem Takes.map {reader : Rest → Except Rest (α × Rest)} {tokens more : List Token} {value : α}
    (h : Takes reader tokens value more) (f : α → β) :
    Takes (fun xs => reader xs >>= fun p => .ok (f p.1, p.2)) tokens (f value) more := by
  intro xs hxs
  obtain ⟨rest, hrest, hread⟩ := h xs hxs
  refine ⟨rest, hrest, ?_⟩
  show reader xs >>= (fun p => .ok (f p.1, p.2)) = _
  rw [hread]
  rfl

theorem Takes.congr {reader reader' : Rest → Except Rest (α × Rest)} {tokens more : List Token}
    {value : α} (h : Takes reader tokens value more)
    (heq : ∀ xs : Rest, xs.map Lexeme.token = tokens ++ more → reader' xs = reader xs) :
    Takes reader' tokens value more := by
  intro xs hxs
  obtain ⟨rest, hrest, hread⟩ := h xs hxs
  exact ⟨rest, hrest, (heq xs hxs).trans hread⟩

end

/-! ## §2. The parts of the readers of types. -/

/-- Read the arguments of a class, if there are any. -/
def optionalArguments (depth : Nat) : Rest → Except Rest (List TypeArgument × Rest)
  | ⟨_, .openAngle⟩ :: rest => arguments [] depth rest
  | rest => .ok ([], rest)

/-- Read the rest of a class type, behind its name and arguments. -/
def nestedIn (dimensions depth : Nat) (name : String) (args : List TypeArgument) (rest : Rest) :
    Except Rest (GenericType × Rest) :=
  nestedClasses [] depth rest >>= fun p => .ok (⟨dimensions, .cls ⟨name, args, p.1⟩⟩, p.2)

/-- Read one argument. -/
def argument (depth : Nat) : Rest → Except Rest (TypeArgument × Rest)
  | ⟨_, .star⟩ :: rest => .ok (.unbounded, rest)
  | ⟨_, .wildcard variance⟩ :: rest =>
    type true 0 depth rest >>= fun p => .ok (.bounded variance p.1, p.2)
  | rest => type true 0 depth rest >>= fun p => .ok (.bounded .exact p.1, p.2)

/-- Read the arguments behind one that is read. -/
def moreArguments (done : List TypeArgument) (depth : Nat) (first : TypeArgument) :
    Rest → Except Rest (List TypeArgument × Rest)
  | ⟨_, .closeAngle⟩ :: rest => .ok ((first :: done).reverse, rest)
  | rest => arguments (first :: done) depth rest

theorem type_className (reference : Bool) (dimensions depth column : Nat) (name : String)
    (rest : Rest) :
    type reference dimensions (depth + 1) (⟨column, .className name⟩ :: rest) =
      optionalArguments depth rest >>= fun p => nestedIn dimensions depth name p.1 p.2 := by
  rcases rest with _ | ⟨⟨column', token⟩, rest⟩
  · rfl
  · cases token <;> rfl

theorem nestedClasses_nested (done : List NestedClass) (depth column : Nat) (name : String)
    (rest : Rest) :
    nestedClasses done (depth + 1) (⟨column, .nested name⟩ :: rest) =
      optionalArguments depth rest >>= fun p =>
        nestedClasses (⟨name, p.1⟩ :: done) depth p.2 := by
  rcases rest with _ | ⟨⟨column', token⟩, rest⟩
  · rfl
  · cases token <;> rfl

theorem type_nil (reference : Bool) (dimensions depth : Nat) :
    type reference dimensions depth [] = .error [] := by
  cases depth <;> rfl

theorem arguments_succ (done : List TypeArgument) (depth : Nat) (xs : Rest) :
    arguments done (depth + 1) xs =
      argument depth xs >>= fun p => moreArguments done depth p.1 p.2 := by
  rcases xs with _ | ⟨⟨column, token⟩, xs⟩
  · rw [argument, type_nil]
    · rfl
    all_goals simp
  · rw [arguments]
    cases token
    case star => rfl
    case wildcard variance =>
      simp only [argument]
      cases type true 0 depth xs <;> rfl
    all_goals
      simp only [argument]
      generalize type true 0 depth _ = read
      cases read <;> rfl

/-! ## §3. First tokens. -/

/-- The tokens that reference types start with. -/
def Token.startsReference : Token → Bool
  | object _ | className _ | typeVariable _ | bracket => true
  | _ => false

theorem startsReference_cons (x : Lexeme Token) (xs : Rest) :
    Signature.startsReference (x :: xs) = x.token.startsReference := by
  obtain ⟨column, token⟩ := x
  cases token <;> rfl

theorem Tree.exists_first_of_cls (t : Tree .cls) :
    ∃ token tokens, t.tokens = token :: tokens ∧
      ((∃ name, token = .object name) ∨ ∃ name, token = .className name) := by
  cases t with
  | whole name => exact ⟨_, _, rfl, .inl ⟨name.text, rfl⟩⟩
  | parted name arguments inner =>
    rw [tokens]
    split
    · exact ⟨_, _, rfl, .inl ⟨name.text, rfl⟩⟩
    · exact ⟨_, _, rfl, .inr ⟨name.text, rfl⟩⟩

theorem Tree.exists_first_of_reference (t : Tree .reference) :
    ∃ token tokens, t.tokens = token :: tokens ∧ token.startsReference = true := by
  cases t with
  | cls type =>
    obtain ⟨token, tokens, htokens, ⟨name, rfl⟩ | ⟨name, rfl⟩⟩ := type.exists_first_of_cls
    all_goals exact ⟨_, tokens, htokens, rfl⟩
  | typeVariable name => exact ⟨_, _, rfl, rfl⟩
  | array element => exact ⟨_, _, rfl, rfl⟩

/-- The tokens that types start with. -/
def Token.startsType : Token → Bool
  | base _ => true
  | token => token.startsReference

theorem Tree.exists_first_of_anyType (t : Tree .anyType) :
    ∃ token tokens, t.tokens = token :: tokens ∧ token.startsType = true := by
  cases t with
  | base type => exact ⟨_, _, rfl, rfl⟩
  | reference type =>
    obtain ⟨token, tokens, htokens, hstart⟩ := type.exists_first_of_reference
    refine ⟨token, tokens, htokens, ?_⟩
    cases token with
    | object | className | typeVariable | bracket => rfl
    | _ => cases hstart

theorem Tree.exists_first_of_argument (t : Tree .argument) :
    ∃ token tokens, t.tokens = token :: tokens ∧ token ≠ .closeAngle := by
  cases t with
  | unbounded => exact ⟨_, _, rfl, by simp⟩
  | bounded variance bound =>
    obtain ⟨token, tokens, htokens, hstart⟩ := bound.exists_first_of_reference
    cases variance with
    | exact =>
      refine ⟨token, tokens, htokens, ?_⟩
      rintro rfl
      cases hstart
    | covariant | contravariant => exact ⟨_, _, rfl, by simp⟩

/-! ## §4. Types. -/

/-- A type under some more dimensions. -/
def under (dimensions : Nat) (t : GenericType) : GenericType :=
  ⟨dimensions + t.dimensions, t.core⟩

theorem under_zero (t : GenericType) : under 0 t = t := by
  obtain ⟨dimensions, core⟩ := t
  rw [under, Nat.zero_add]

theorem under_succ (dimensions : Nat) (t : GenericType) :
    under (dimensions + 1) t = under dimensions (arrayOf t) := by
  simp only [under, arrayOf, Nat.add_assoc, Nat.add_comm 1]

theorem length_le_angledTokens (row : List Token) : row.length ≤ (angledTokens row).length := by
  unfold angledTokens
  split
  · next h => simp [List.isEmpty_iff.mp h]
  · simp only [List.length_cons, List.length_append]
    omega

/-- Up to `depth` tokens are read right. -/
structure ReadsTo (depth : Nat) : Prop where
  any : ∀ (t : Tree .anyType) (dimensions : Nat) (more : List Token),
    t.tokens.length ≤ depth →
      Takes (type false dimensions depth) t.tokens (under dimensions t.meaning) more
  references : ∀ (t : Tree .reference) (reference : Bool) (dimensions : Nat) (more : List Token),
    t.tokens.length ≤ depth →
      Takes (type reference dimensions depth) t.tokens (under dimensions t.meaning) more
  argumentRow : ∀ (first : Tree .argument) (row : Tree .arguments) (done : List TypeArgument)
    (more : List Token), first.tokens.length + row.tokens.length < depth →
      Takes (arguments done depth) (first.tokens ++ (row.tokens ++ [.closeAngle]))
        (done.reverse ++ first.meaning :: row.meaning) more
  nestedRow : ∀ (row : Tree .nested) (done : List NestedClass) (more : List Token),
    row.tokens.length < depth →
      Takes (nestedClasses done depth) (row.tokens ++ [.semicolon])
        (done.reverse ++ row.meaning) more

/-- The row behind the arguments does not start like them. -/
theorem ReadsTo.angledRow {depth : Nat} (h : ReadsTo depth) (as : Tree .arguments)
    (row : Tree .nested) (more : List Token) (hdepth : as.tokens.length < depth) :
    Takes (optionalArguments depth) (angledTokens as.tokens) as.meaning
      (row.tokens ++ .semicolon :: more) := by
  cases as with
  | noArguments =>
    intro xs hxs
    refine ⟨xs, hxs, ?_⟩
    cases row with
    | noNested =>
      obtain ⟨column, rest, rfl, -⟩ := exists_of_map_token hxs
      rfl
    | nested name arguments row =>
      obtain ⟨column, rest, rfl, -⟩ := exists_of_map_token hxs
      rfl
  | argument first row' =>
    have htokens : (Tree.argument first row').tokens ≠ [] := by
      simp [Tree.tokens, first.tokens_ne_nil_of_argument]
    rw [Tree.tokens, List.length_append] at hdepth
    rw [angledTokens_of_ne_nil htokens, Tree.tokens, List.append_assoc]
    exact Takes.cons (fun _ _ => rfl) (h.argumentRow first row' [] _ hdepth)

theorem ReadsTo.nestedRow_succ {depth : Nat} (h : ReadsTo depth) (row : Tree .nested)
    (done : List NestedClass) (more : List Token) (hdepth : row.tokens.length < depth + 1) :
    Takes (nestedClasses done (depth + 1)) (row.tokens ++ [.semicolon])
      (done.reverse ++ row.meaning) more := by
  cases row with
  | noNested =>
    refine Takes.single (fun column rest => ?_) more
    rw [Tree.meaning, List.append_nil]
    rfl
  | nested name as row =>
    rw [Tree.tokens, List.length_cons, List.length_append] at hdepth
    have hlength := length_le_angledTokens as.tokens
    have hrow := h.nestedRow row (⟨name.text, as.meaning⟩ :: done) more (by omega)
    rw [List.reverse_cons, List.append_assoc, List.singleton_append] at hrow
    rw [Tree.tokens, List.cons_append, List.append_assoc]
    refine Takes.cons (nestedClasses_nested done depth · name.text ·)
      (Takes.bind (fun args => nestedClasses (⟨name.text, args⟩ :: done) depth) ?_ hrow)
    rw [List.append_assoc]
    exact h.angledRow as row more (by omega)

theorem ReadsTo.oneArgument {depth : Nat} (h : ReadsTo depth) (a : Tree .argument)
    (more : List Token) (hdepth : a.tokens.length ≤ depth) :
    Takes (argument depth) a.tokens a.meaning more := by
  cases a with
  | unbounded => exact Takes.single (fun _ _ => rfl) more
  | bounded variance bound =>
    rw [Tree.tokens, List.length_append] at hdepth
    have hbound := h.references bound true 0 more (by omega)
    rw [under_zero] at hbound
    cases variance with
    | exact =>
      -- No reference type starts like another argument, so the bound is read as it stands.
      refine (hbound.map (TypeArgument.bounded .exact)).congr fun xs hxs => ?_
      obtain ⟨token, tokens, htokens, hstart⟩ := bound.exists_first_of_reference
      rw [htokens] at hxs
      obtain ⟨column, rest, rfl, -⟩ := exists_of_map_token hxs
      cases token with
      | object | className | typeVariable | bracket => rfl
      | _ => cases hstart
    | covariant => exact Takes.cons (fun _ _ => rfl) (hbound.map (TypeArgument.bounded .covariant))
    | contravariant =>
      exact Takes.cons (fun _ _ => rfl) (hbound.map (TypeArgument.bounded .contravariant))

theorem ReadsTo.argumentRow_succ {depth : Nat} (h : ReadsTo depth) (first : Tree .argument)
    (row : Tree .arguments) (done : List TypeArgument) (more : List Token)
    (hdepth : first.tokens.length + row.tokens.length < depth + 1) :
    Takes (arguments done (depth + 1)) (first.tokens ++ (row.tokens ++ [.closeAngle]))
      (done.reverse ++ first.meaning :: row.meaning) more := by
  have hmore : Takes (moreArguments done depth first.meaning) (row.tokens ++ [.closeAngle])
      (done.reverse ++ first.meaning :: row.meaning) more := by
    cases row with
    | noArguments =>
      refine Takes.single (fun column rest => ?_) more
      rw [moreArguments, List.reverse_cons]
      rfl
    | argument second row =>
      have hfirst := List.length_pos_iff.mpr first.tokens_ne_nil_of_argument
      rw [Tree.tokens, List.length_append] at hdepth
      have hrow := h.argumentRow second row (first.meaning :: done) more (by omega)
      rw [List.reverse_cons, List.append_assoc, List.singleton_append] at hrow
      rw [Tree.tokens, List.append_assoc]
      refine hrow.congr fun xs hxs => ?_
      -- An argument does not start like the end of its row.
      obtain ⟨token, tokens, htokens, hne⟩ := second.exists_first_of_argument
      rw [htokens] at hxs
      obtain ⟨column, rest, rfl, -⟩ := exists_of_map_token hxs
      unfold moreArguments
      split
      · next heq =>
        cases heq
        exact absurd rfl hne
      · rfl
  refine (Takes.bind (moreArguments done depth) ?_ hmore).congr fun xs _ =>
    arguments_succ done depth xs
  exact h.oneArgument first _ (by omega)

theorem ReadsTo.references_succ {depth : Nat} (h : ReadsTo depth) (t : Tree .reference)
    (reference : Bool) (dimensions : Nat) (more : List Token)
    (hdepth : t.tokens.length ≤ depth + 1) :
    Takes (type reference dimensions (depth + 1)) t.tokens (under dimensions t.meaning) more := by
  cases t with
  | typeVariable name => exact Takes.single (fun _ _ => rfl) more
  | array element =>
    rw [Tree.tokens, List.length_cons] at hdepth
    have helement := h.any element (dimensions + 1) more (by omega)
    rw [under_succ] at helement
    exact Takes.cons (fun _ _ => rfl) helement
  | cls type =>
    cases type with
    | whole name => exact Takes.single (fun _ _ => rfl) more
    | parted name as row =>
      by_cases hbare : Tree.bare as row = true
      · obtain ⟨rfl, rfl⟩ := Tree.eq_of_bare hbare
        exact Takes.single (fun _ _ => rfl) more
      · rw [Tree.tokens, Tree.tokens, if_neg hbare, List.length_cons, List.length_append,
          List.length_append, List.length_singleton] at hdepth
        -- The name is a token of its own, so both rows behind it are within the depth.
        have hlength := length_le_angledTokens as.tokens
        have hrow := (h.nestedRow row [] more (by omega)).map fun classes =>
          (⟨dimensions, .cls ⟨name.text, as.meaning, classes⟩⟩ : GenericType)
        have has := h.angledRow as row more (by omega)
        rw [Tree.tokens, Tree.tokens, if_neg hbare]
        refine Takes.cons (type_className reference dimensions depth · name.text ·)
          (Takes.bind (nestedIn dimensions depth name.text) ?_ hrow)
        rw [List.append_assoc]
        exact has

theorem ReadsTo.any_succ {depth : Nat} (h : ReadsTo depth) (t : Tree .anyType) (dimensions : Nat)
    (more : List Token) (hdepth : t.tokens.length ≤ depth + 1) :
    Takes (type false dimensions (depth + 1)) t.tokens (under dimensions t.meaning) more := by
  cases t with
  | base type => exact Takes.single (fun _ _ => rfl) more
  | reference type => exact h.references_succ type false dimensions more hdepth

theorem Tree.tokens_ne_nil_of_anyType (t : Tree .anyType) : t.tokens ≠ [] := by
  cases t with
  | base type => simp [tokens]
  | reference type => exact type.tokens_ne_nil_of_reference

/-- **Trees are read as what they mean**, whatever stands behind them. -/
theorem readsTo (depth : Nat) : ReadsTo depth := by
  induction depth with
  | zero =>
    -- No tree is without tokens.
    refine ⟨?_, ?_, ?_, ?_⟩
    · intro t _ _ hdepth
      exact absurd (List.length_eq_zero_iff.mp (by omega)) t.tokens_ne_nil_of_anyType
    · intro t _ _ _ hdepth
      exact absurd (List.length_eq_zero_iff.mp (by omega)) t.tokens_ne_nil_of_reference
    · intro _ _ _ _ hdepth
      omega
    · intro _ _ _ hdepth
      omega
  | succ depth ih =>
    exact ⟨ih.any_succ, ih.references_succ, ih.argumentRow_succ, ih.nestedRow_succ⟩

/-! ## §5. The readers of declarations. -/

theorem length_le_of_map_token {xs : Rest} {tokens more : List Token}
    (h : xs.map Lexeme.token = tokens ++ more) : tokens.length ≤ xs.length := by
  rw [← List.length_map (f := Lexeme.token), h, List.length_append]
  omega

theorem takes_referenceType (t : Tree .reference) (more : List Token) :
    Takes referenceType t.tokens t.meaning more := by
  intro xs hxs
  have htakes := (readsTo xs.length).references t true 0 more (length_le_of_map_token hxs) xs hxs
  rwa [under_zero] at htakes

theorem takes_anyType (t : Tree .anyType) (more : List Token) :
    Takes Signature.anyType t.tokens t.meaning more := by
  intro xs hxs
  have htakes := (readsTo xs.length).any t 0 more (length_le_of_map_token hxs) xs hxs
  rwa [under_zero] at htakes

theorem takes_classType (t : Tree .cls) (more : List Token) :
    Takes classType t.tokens t.meaning more := by
  intro xs hxs
  obtain ⟨rest, hrest, hread⟩ := takes_referenceType (.cls t) more xs hxs
  refine ⟨rest, hrest, ?_⟩
  obtain ⟨token, tokens, htokens, hfirst⟩ := t.exists_first_of_cls
  rw [htokens] at hxs
  obtain ⟨column, xs', rfl, -⟩ := exists_of_map_token hxs
  obtain ⟨name, rfl⟩ | ⟨name, rfl⟩ := hfirst
  all_goals
    rw [classType, hread]
    rfl

theorem takes_thrown (t : ThrownTree) (more : List Token) :
    Takes thrown t.type.tokens t.meaning more := by
  cases t with
  | typeVariable name => exact Takes.single (fun _ _ => rfl) more
  | cls type =>
    refine ((takes_classType type more).map Thrown.cls).congr fun xs hxs => ?_
    obtain ⟨token, tokens, htokens, hfirst⟩ := type.exists_first_of_cls
    rw [htokens] at hxs
    obtain ⟨column, xs', rfl, -⟩ := exists_of_map_token hxs
    obtain ⟨name, rfl⟩ | ⟨name, rfl⟩ := hfirst
    all_goals rfl

/-- A row of values, each behind the token that leads it. -/
theorem takes_led {ι α : Type} {lead : Token} {reader : Rest → Except Rest (α × Rest)}
    {tokens : ι → List Token} {value : ι → α}
    (h : ∀ i more, Takes reader (tokens i) (value i) more) (items : List ι) (done : List α)
    {count : Nat} (hcount : items.length ≤ count) {more : List Token}
    (hmore : more.head? ≠ some lead) :
    Takes (led lead reader done count) (items.flatMap fun i => lead :: tokens i)
      (done.reverse ++ items.map value) more := by
  induction items generalizing done count with
  | nil =>
    intro xs hxs
    refine ⟨xs, hxs, ?_⟩
    rw [List.map_nil, List.append_nil]
    cases xs with
    | nil => cases count <;> rfl
    | cons x xs =>
      have hx : x.token ≠ lead := by
        rintro rfl
        rw [List.flatMap_nil, List.nil_append] at hxs
        exact hmore (by rw [← hxs]; rfl)
      cases count with
      | zero => rfl
      | succ count => rw [led, if_neg hx]
  | cons i items ih =>
    cases count with
    | zero => simp at hcount
    | succ count =>
      have hitems := ih (value i :: done) (Nat.le_of_succ_le_succ hcount)
      rw [List.reverse_cons, List.append_assoc, List.singleton_append] at hitems
      rw [List.flatMap_cons, List.cons_append]
      refine Takes.cons (fun column rest => ?_) (Takes.bind
        (fun v => led lead reader (v :: done) count) (h i _) hitems)
      rw [led, if_pos rfl]

/-- The class bound of a type parameter; what stands behind it is not taken for one. -/
theorem takes_classBound (bound : Option (Tree .reference)) {more : List Token}
    (hmore : ∀ token ∈ more.head?, token.startsReference = false) :
    Takes classBound (bound.elim [] Tree.tokens) (bound.map Tree.meaning) more := by
  cases bound with
  | none =>
    intro xs hxs
    refine ⟨xs, hxs, ?_⟩
    cases xs with
    | nil => rfl
    | cons x xs =>
      have hx : x.token ∈ more.head? := by
        rw [← show _ = more from hxs]
        rfl
      rw [classBound, startsReference_cons, hmore _ hx]
      rfl
  | some t =>
    refine ((takes_referenceType t more).map some).congr fun xs hxs => ?_
    obtain ⟨token, tokens, htokens, hstart⟩ := t.exists_first_of_reference
    rw [htokens] at hxs
    obtain ⟨column, rest, rfl, -⟩ := exists_of_map_token hxs
    rw [classBound, startsReference_cons, if_pos hstart]

/-- Read the interface bounds of a type parameter, behind its class bound. -/
def withInterfaceBounds (name : String) (bound : Option GenericType) (rest : Rest) :
    Except Rest (TypeParameter × Rest) :=
  led .colon referenceType [] rest.length rest >>= fun p => .ok (⟨name, bound, p.1⟩, p.2)

/-- Read the bounds of a type parameter. -/
def typeParameter (name : String) (rest : Rest) : Except Rest (TypeParameter × Rest) :=
  classBound rest >>= fun p => withInterfaceBounds name p.1 p.2

/-- Read the type parameters behind one that is read. -/
def moreTypeParameters (done : List TypeParameter) (count : Nat) (first : TypeParameter) :
    Rest → Except Rest (List TypeParameter × Rest)
  | ⟨_, .closeAngle⟩ :: rest => .ok ((first :: done).reverse, rest)
  | rest => typeParametersFrom (first :: done) count rest

theorem typeParametersFrom_parameter (done : List TypeParameter) (count column : Nat)
    (name : String) (rest : Rest) :
    typeParametersFrom done (count + 1) (⟨column, .parameter name⟩ :: rest) =
      typeParameter name rest >>= fun p => moreTypeParameters done count p.1 p.2 := by
  rw [typeParametersFrom, typeParameter]
  rcases classBound rest with _ | ⟨first, rest'⟩
  · rfl
  · show (led .colon referenceType [] rest'.length rest' >>= fun p => _) =
      withInterfaceBounds name first rest' >>= fun p => _
    rw [withInterfaceBounds]
    cases led .colon referenceType [] rest'.length rest' <;> rfl

theorem length_le_flatMap {ι : Type} {tokens : ι → List Token} (h : ∀ i, tokens i ≠ [])
    (items : List ι) : items.length ≤ (items.flatMap tokens).length := by
  induction items with
  | nil => exact Nat.le_refl 0
  | cons i items ih =>
    have hi := List.length_pos_iff.mpr (h i)
    rw [List.flatMap_cons, List.length_append, List.length_cons]
    omega

/-- As many values are led as there are tokens at most. -/
theorem takes_all_led {ι α : Type} {lead : Token} {reader : Rest → Except Rest (α × Rest)}
    {tokens : ι → List Token} {value : ι → α}
    (h : ∀ i more, Takes reader (tokens i) (value i) more) (items : List ι) {more : List Token}
    (hmore : more.head? ≠ some lead) :
    Takes (fun xs => led lead reader [] xs.length xs) (items.flatMap fun i => lead :: tokens i)
      (items.map value) more := by
  intro xs hxs
  have hlength : items.length ≤ xs.length :=
    Nat.le_trans (length_le_flatMap (fun i => List.cons_ne_nil lead (tokens i)) items)
      (length_le_of_map_token hxs)
  exact takes_led h items [] hlength hmore xs hxs

/-- Behind a type parameter its row ends, or the next one starts. -/
def EndsParameter (more : List Token) : Prop :=
  more.head? = some .closeAngle ∨ ∃ name, more.head? = some (.parameter name)

theorem takes_typeParameter (p : ParameterTree) {more : List Token} (hmore : EndsParameter more) :
    Takes (typeParameter p.name.text)
      (p.classBound.elim [] Tree.tokens ++ p.interfaceBounds.flatMap fun b => .colon :: b.tokens)
      p.meaning more := by
  have hcolon : more.head? ≠ some .colon := by
    obtain hhead | ⟨name, hhead⟩ := hmore
    all_goals simp [hhead]
  have hstart : ∀ token ∈ (p.interfaceBounds.flatMap (fun b => Token.colon :: b.tokens) ++
      more).head?, token.startsReference = false := by
    cases p.interfaceBounds with
    | nil =>
      obtain hhead | ⟨name, hhead⟩ := hmore
      all_goals simp [hhead, Token.startsReference]
    | cons b bounds => simp [Token.startsReference]
  have hbounds := (takes_all_led takes_referenceType p.interfaceBounds hcolon).map fun bounds =>
    (⟨p.name.text, p.classBound.map Tree.meaning, bounds⟩ : TypeParameter)
  exact Takes.bind (withInterfaceBounds p.name.text) (takes_classBound p.classBound hstart) hbounds

theorem takes_typeParametersFrom (p : ParameterTree) (ps : List ParameterTree)
    (done : List TypeParameter) {count : Nat} (hcount : ps.length < count) (more : List Token) :
    Takes (typeParametersFrom done count)
      (p.tokens ++ (ps.flatMap ParameterTree.tokens ++ [.closeAngle]))
      (done.reverse ++ p.meaning :: ps.map ParameterTree.meaning) more := by
  induction ps generalizing p done count with
  | nil =>
    cases count with
    | zero => cases hcount
    | succ count =>
      refine Takes.cons (typeParametersFrom_parameter done count · p.name.text ·)
        (Takes.bind (moreTypeParameters done count) (takes_typeParameter p (.inl rfl)) ?_)
      refine Takes.single (fun column rest => ?_) more
      rw [moreTypeParameters, List.reverse_cons]
      rfl
  | cons second ps ih =>
    cases count with
    | zero => cases hcount
    | succ count =>
      have hsecond := ih second (p.meaning :: done) (Nat.lt_of_succ_lt_succ hcount)
      rw [List.reverse_cons, List.append_assoc, List.singleton_append] at hsecond
      rw [List.flatMap_cons, List.append_assoc]
      refine Takes.cons (typeParametersFrom_parameter done count · p.name.text ·)
        (Takes.bind (moreTypeParameters done count)
          (takes_typeParameter p (.inr ⟨second.name.text, rfl⟩)) ?_)
      -- The row does not end in front of the second parameter.
      refine hsecond.congr fun xs hxs => ?_
      obtain ⟨column, rest, rfl, -⟩ := exists_of_map_token hxs
      rfl

theorem ParameterTree.tokens_ne_nil (p : ParameterTree) : p.tokens ≠ [] := by
  simp [tokens]

/-- Type parameters, if there are any; what stands behind them is not taken for one. -/
theorem takes_typeParameters (ps : List ParameterTree) {more : List Token}
    (hmore : more.head? ≠ some .openAngle) :
    Takes typeParameters (angledTokens (ps.flatMap ParameterTree.tokens))
      (ps.map ParameterTree.meaning) more := by
  cases ps with
  | nil =>
    intro xs hxs
    refine ⟨xs, hxs, ?_⟩
    unfold typeParameters
    split
    · rw [← show _ = more from hxs] at hmore
      exact absurd rfl hmore
    · rfl
  | cons p ps =>
    have htokens : (p :: ps).flatMap ParameterTree.tokens ≠ [] := by
      simp [p.tokens_ne_nil]
    rw [angledTokens_of_ne_nil htokens, List.flatMap_cons, List.append_assoc]
    refine Takes.cons (fun _ _ => rfl) fun xs hxs => ?_
    have hlength : ps.length < xs.length := by
      have hps := length_le_flatMap ParameterTree.tokens_ne_nil ps
      have hxs := length_le_of_map_token hxs
      simp only [List.length_append, List.length_singleton] at hxs
      omega
    exact takes_typeParametersFrom p ps [] hlength more xs hxs

theorem takes_parameters (ps : List (Tree .anyType)) (done : List GenericType) {count : Nat}
    (hcount : ps.length ≤ count) (more : List Token) :
    Takes (parameters done count) (ps.flatMap Tree.tokens ++ [.closeParen])
      (done.reverse ++ ps.map Tree.meaning) more := by
  induction ps generalizing done count with
  | nil =>
    refine Takes.single (fun column rest => ?_) more
    rw [List.map_nil, List.append_nil]
    cases count <;> rfl
  | cons p ps ih =>
    cases count with
    | zero => simp at hcount
    | succ count =>
      have hps := ih (p.meaning :: done) (Nat.le_of_succ_le_succ hcount)
      rw [List.reverse_cons, List.append_assoc, List.singleton_append] at hps
      rw [List.flatMap_cons, List.append_assoc]
      refine (Takes.bind (fun t => parameters (t :: done) count) (takes_anyType p _) hps).congr
        fun xs hxs => ?_
      -- A type does not start like the end of the parameters.
      obtain ⟨token, tokens, htokens, hstart⟩ := p.exists_first_of_anyType
      rw [htokens] at hxs
      obtain ⟨column, rest, rfl, -⟩ := exists_of_map_token hxs
      cases token with
      | base | object | className | typeVariable | bracket => rfl
      | _ => cases hstart

theorem takes_result (result : Option (Tree .anyType)) (more : List Token) :
    Takes Signature.result (result.elim [.void] Tree.tokens) (result.map Tree.meaning) more := by
  cases result with
  | none => exact Takes.single (fun _ _ => rfl) more
  | some t =>
    refine ((takes_anyType t more).map some).congr fun xs hxs => ?_
    obtain ⟨token, tokens, htokens, hstart⟩ := t.exists_first_of_anyType
    rw [htokens] at hxs
    obtain ⟨column, rest, rfl, -⟩ := exists_of_map_token hxs
    cases token with
    | base | object | className | typeVariable | bracket => rfl
    | _ => cases hstart

/-- Class types up to the end. -/
theorem takes_classTypes (cs : List (Tree .cls)) (done : List ClassType) {count : Nat}
    (hcount : cs.length ≤ count) :
    Takes (classTypes done count) (cs.flatMap Tree.tokens) (done.reverse ++ cs.map Tree.meaning)
      [] := by
  induction cs generalizing done count with
  | nil =>
    intro xs hxs
    cases List.map_eq_nil_iff.mp hxs
    refine ⟨[], rfl, ?_⟩
    rw [List.map_nil, List.append_nil]
    cases count <;> rfl
  | cons c cs ih =>
    cases count with
    | zero => simp at hcount
    | succ count =>
      have hcs := ih (c.meaning :: done) (Nat.le_of_succ_le_succ hcount)
      rw [List.reverse_cons, List.append_assoc, List.singleton_append] at hcs
      refine (Takes.bind (fun t => classTypes (t :: done) count) (takes_classType c _) hcs).congr
        fun xs hxs => ?_
      obtain ⟨token, tokens, htokens, -⟩ := c.exists_first_of_cls
      rw [htokens] at hxs
      obtain ⟨column, rest, rfl, -⟩ := exists_of_map_token hxs
      rfl

/-! ## §6. Signatures. -/

/-- The signature of a class is read as what it means. -/
theorem takes_classSignature (d : ClassTree) : Takes classSignature d.tokens d.meaning [] := by
  intro xs hxs
  rw [List.append_nil, ClassTree.tokens] at hxs
  have hmore : (d.superclass.tokens ++ d.interfaces.flatMap Tree.tokens).head? ≠
      some .openAngle := by
    obtain ⟨token, tokens, htokens, ⟨name, rfl⟩ | ⟨name, rfl⟩⟩ := d.superclass.exists_first_of_cls
    all_goals simp [htokens]
  obtain ⟨xs₁, hxs₁, hparameters⟩ := takes_typeParameters d.typeParameters hmore xs hxs
  obtain ⟨xs₂, hxs₂, hsuperclass⟩ := takes_classType d.superclass _ xs₁ hxs₁
  rw [← List.append_nil (d.interfaces.flatMap Tree.tokens)] at hxs₂
  obtain ⟨rest, hrest, hinterfaces⟩ := takes_classTypes d.interfaces []
    (Nat.le_trans (length_le_flatMap Tree.tokens_ne_nil_of_cls d.interfaces)
      (length_le_of_map_token hxs₂)) xs₂ hxs₂
  exact ⟨rest, hrest, bind_eq_ok_iff.mpr ⟨_, hparameters, bind_eq_ok_iff.mpr ⟨_, hsuperclass,
    bind_eq_ok_iff.mpr ⟨_, hinterfaces, rfl⟩⟩⟩⟩

/-- The signature of a method is read as what it means. -/
theorem takes_methodSignature (d : MethodTree) : Takes methodSignature d.tokens d.meaning [] := by
  intro xs hxs
  rw [List.append_nil, MethodTree.tokens] at hxs
  obtain ⟨xs₁, hxs₁, htypeParameters⟩ := takes_typeParameters d.typeParameters (by simp) xs hxs
  obtain ⟨column, xs₂, rfl, hxs₂⟩ := exists_of_map_token hxs₁
  obtain ⟨xs₃, hxs₃, hparameters⟩ := takes_parameters d.parameters []
    (Nat.le_trans (length_le_flatMap Tree.tokens_ne_nil_of_anyType d.parameters)
      (length_le_of_map_token hxs₂)) _ xs₂
    (by rw [hxs₂, List.append_assoc]; rfl)
  obtain ⟨xs₄, hxs₄, hresult⟩ := takes_result d.result _ xs₃ hxs₃
  have hled : Takes (fun xs => led .caret thrown [] xs.length xs)
      (d.throws.flatMap ThrownTree.tokens) (d.throws.map ThrownTree.meaning) [] :=
    takes_all_led takes_thrown d.throws (by simp)
  obtain ⟨rest, hrest, hthrows⟩ := hled xs₄ (by rw [hxs₄, List.append_nil])
  exact ⟨rest, hrest, bind_eq_ok_iff.mpr ⟨_, htypeParameters, bind_eq_ok_iff.mpr ⟨_, hparameters,
    bind_eq_ok_iff.mpr ⟨_, hresult, bind_eq_ok_iff.mpr ⟨_, hthrows, rfl⟩⟩⟩⟩⟩

end JavaClass.Signature
