/-
  JavaClass.Proofs.Descriptor.Lexeme — names as data, and what cutting a text does.

  A name is kept with the proof that it is one (`Identifier`, `QualifiedName`), so a tree that is
  made of names needs no side conditions.  A row of names is found again at the start of every text
  that goes on with a mark (`qualified_append`), and whatever is found is a row of names
  (`exists_of_qualified`).

  Cutting is stated without columns: `Cuts` says which tokens a text is cut into, state by state.  A
  text that is cut to its end gives a reader exactly these tokens (`readAll_of_cuts`).  The other
  way round, a text that is read is the row of its tokens, one behind the other
  (`exists_of_readAll`).
-/
import JavaClass.Descriptor.Basic

namespace JavaClass

theorem BaseType.letter_of_ofLetter? {c : Char} {type : BaseType}
    (h : BaseType.ofLetter? c = some type) : type.letter = c := by
  unfold BaseType.ofLetter? at h
  split at h
  all_goals cases h
  all_goals rfl

/-! ## §1. Names. -/

/-- One character or more, none of them a mark of descriptors and signatures. -/
structure Identifier where
  chars : List Char
  nonempty : chars ≠ []
  valid : ∀ c ∈ chars, c ≠ '.' ∧ c ≠ ';' ∧ c ≠ '[' ∧ c ≠ '/' ∧ c ≠ '<' ∧ c ≠ '>' ∧ c ≠ ':'
deriving DecidableEq

/-- Names with a slash between them. -/
structure QualifiedName where
  first : Identifier
  more : List Identifier
deriving DecidableEq

theorem isNameChar_iff {c : Char} : isNameChar c = true ↔
    c ≠ '.' ∧ c ≠ ';' ∧ c ≠ '[' ∧ c ≠ '/' ∧ c ≠ '<' ∧ c ≠ '>' ∧ c ≠ ':' := by
  simp only [isNameChar, List.all_cons, List.all_nil, Bool.and_true, Bool.and_eq_true,
    decide_eq_true_eq, ne_comm (b := c)]

/-- The name with these characters. -/
def Identifier.ofChars (chars : List Char) (nonempty : chars ≠ [])
    (valid : chars.all isNameChar = true) : Identifier :=
  ⟨chars, nonempty, fun c hc => isNameChar_iff.mp (List.all_eq_true.mp valid c hc)⟩

/-- The name as text. -/
def Identifier.text (n : Identifier) : String := String.ofList n.chars

namespace QualifiedName

/-- Names, each behind a slash. -/
def slashed (names : List Identifier) : List Char := names.flatMap fun n => '/' :: n.chars

/-- The characters of the names and of the slashes between them. -/
def spelling (q : QualifiedName) : List Char := q.first.chars ++ slashed q.more

/-- The names and slashes as text. -/
def text (q : QualifiedName) : String := String.ofList q.spelling

/-- The names with points between them. -/
def dotted (q : QualifiedName) : String :=
  ".".intercalate (q.first.text :: q.more.map Identifier.text)

end QualifiedName

theorem Identifier.text_inj {n n' : Identifier} (h : n.text = n'.text) : n = n' := by
  have hchars : n.chars = n'.chars := by
    rw [← String.toList_ofList (l := n.chars), ← String.toList_ofList (l := n'.chars)]
    exact congrArg String.toList h
  cases n
  cases n'
  simpa using hchars

theorem Identifier.isNameChar_of_mem (n : Identifier) : ∀ c ∈ n.chars, isNameChar c = true :=
  fun c hc => isNameChar_iff.mpr (n.valid c hc)

theorem Identifier.exists_cons (n : Identifier) : ∃ c rest, n.chars = c :: rest ∧ isNameChar c := by
  obtain ⟨c, rest, h⟩ := List.exists_cons_of_ne_nil n.nonempty
  exact ⟨c, rest, h, n.isNameChar_of_mem c (by simp [h])⟩

theorem Identifier.startsName_append (n : Identifier) (rest : List Char) :
    startsName (n.chars ++ rest) = true := by
  obtain ⟨c, cs, h, hc⟩ := n.exists_cons
  rw [h]
  exact hc

theorem QualifiedName.spelling_ne_nil (q : QualifiedName) : q.spelling ≠ [] := by
  obtain ⟨c, cs, h, -⟩ := q.first.exists_cons
  simp [spelling, h]

/-! ## §2. Names found in a text. -/

/-- No row of names goes on here. -/
def endsNames : List Char → Bool
  | c :: _ => !isNameChar c && c != '/'
  | [] => true

theorem startsName_slashed_append (names : List Identifier) {rest : List Char}
    (h : startsName rest = false) : startsName (QualifiedName.slashed names ++ rest) = false := by
  cases names with
  | nil => exact h
  | cons n names => rfl

theorem qualifiedFrom_of_chars {cs : List Char} (h : ∀ c ∈ cs, isNameChar c = true)
    (rest done : List Char) :
    qualifiedFrom (cs ++ rest) done = qualifiedFrom rest (cs.reverse ++ done) := by
  induction cs generalizing done with
  | nil => rfl
  | cons c cs ih =>
    have hc : isNameChar c = true := h c (by simp)
    rw [List.cons_append, qualifiedFrom, hc, Bool.true_or, if_pos rfl,
      ih (fun c' hc' => h c' (by simp [hc'])), List.reverse_cons, List.append_assoc]
    rfl

theorem qualifiedFrom_slashed (names : List Identifier) {rest : List Char}
    (h : endsNames rest = true) (done : List Char) :
    qualifiedFrom (QualifiedName.slashed names ++ rest) done =
      (done.reverse ++ QualifiedName.slashed names, rest) := by
  induction names generalizing done with
  | nil =>
    rw [QualifiedName.slashed, List.flatMap_nil, List.nil_append, List.append_nil]
    -- What follows is neither a character of a name nor a slash, so the row ends here.
    cases rest with
    | nil => rfl
    | cons c rest =>
      simp only [endsNames, Bool.and_eq_true, Bool.not_eq_true', bne_iff_ne, ne_eq] at h
      rw [qualifiedFrom, h.1, if_neg (by simp [h.2])]
  | cons n names ih =>
    have hstart : startsName (n.chars ++ (QualifiedName.slashed names ++ rest)) = true :=
      n.startsName_append _
    show qualifiedFrom ('/' :: (n.chars ++ QualifiedName.slashed names ++ rest)) done =
      (done.reverse ++ ('/' :: n.chars ++ QualifiedName.slashed names), rest)
    rw [List.append_assoc, qualifiedFrom, hstart, if_pos (by simp),
      qualifiedFrom_of_chars n.isNameChar_of_mem, ih]
    simp

/-- A row of names is found whole where a mark follows it. -/
theorem qualified_append (q : QualifiedName) {rest : List Char} (h : endsNames rest = true) :
    qualified (q.spelling ++ rest) = (q.spelling, rest) := by
  unfold qualified QualifiedName.spelling
  rw [List.append_assoc, q.first.startsName_append, if_pos rfl,
    qualifiedFrom_of_chars q.first.isNameChar_of_mem, qualifiedFrom_slashed q.more h]
  simp

/-- What is found is the rest of a name and names behind slashes, and no name goes on behind it. -/
theorem exists_of_qualifiedFrom (text done : List Char) :
    ∃ (cs : List Char) (names : List Identifier) (rest : List Char),
      (∀ c ∈ cs, isNameChar c = true) ∧ text = cs ++ QualifiedName.slashed names ++ rest ∧
      startsName rest = false ∧
      qualifiedFrom text done = (done.reverse ++ cs ++ QualifiedName.slashed names, rest) := by
  induction text generalizing done with
  | nil => exact ⟨[], [], [], by simp, rfl, rfl, by simp [qualifiedFrom, QualifiedName.slashed]⟩
  | cons c text ih =>
    rw [qualifiedFrom]
    by_cases hname : isNameChar c = true
    · obtain ⟨cs, names, rest, hcs, htext, hrest, hfound⟩ := ih (c :: done)
      refine ⟨c :: cs, names, rest, ?_, ?_, hrest, ?_⟩
      · intro c' hc'
        obtain rfl | hc' := List.mem_cons.mp hc'
        · exact hname
        · exact hcs c' hc'
      · rw [htext]
        rfl
      · rw [hname, Bool.true_or, if_pos rfl, hfound]
        simp
    · have hname : isNameChar c = false := by simpa using hname
      by_cases hslash : (c = '/' && startsName text) = true
      -- A slash goes on with a name, which is not empty because one starts behind the slash.
      · obtain ⟨cs, names, rest, hcs, htext, hrest, hfound⟩ := ih (c :: done)
        simp only [Bool.and_eq_true, decide_eq_true_eq] at hslash
        obtain ⟨rfl, hstart⟩ := hslash
        have hcs' : cs ≠ [] := by
          rintro rfl
          rw [htext, List.nil_append, startsName_slashed_append names hrest] at hstart
          cases hstart
        refine ⟨[], .ofChars cs hcs' (List.all_eq_true.mpr hcs) :: names, rest, by simp, ?_, hrest, ?_⟩
        · rw [htext]
          simp [QualifiedName.slashed, Identifier.ofChars]
        · rw [if_pos (by simp [hstart]), hfound]
          simp [QualifiedName.slashed, Identifier.ofChars]
      · refine ⟨[], [], c :: text, by simp, rfl, hname, ?_⟩
        rw [hname, Bool.false_or, if_neg hslash]
        simp [QualifiedName.slashed]

/-- What is found, if anything, is a row of names. -/
theorem exists_of_qualified {text found rest : List Char} (h : qualified text = (found, rest))
    (hne : found ≠ []) : ∃ q : QualifiedName, q.spelling = found ∧ text = found ++ rest := by
  unfold qualified at h
  by_cases hstart : startsName text = true
  · rw [if_pos hstart] at h
    obtain ⟨cs, names, rest', hcs, htext, hrest, hfound⟩ := exists_of_qualifiedFrom text []
    obtain ⟨rfl, rfl⟩ := Prod.mk.inj (h.symm.trans hfound)
    have hcs' : cs ≠ [] := by
      rintro rfl
      rw [htext, List.nil_append, startsName_slashed_append names hrest] at hstart
      cases hstart
    exact ⟨⟨.ofChars cs hcs' (List.all_eq_true.mpr hcs), names⟩, rfl, htext⟩
  · rw [if_neg hstart] at h
    exact absurd (Prod.mk.inj h).1.symm hne

/-- A name is found whole where no name goes on behind it. -/
theorem Identifier.takeWhile_append (n : Identifier) {rest : List Char}
    (h : startsName rest = false) : (n.chars ++ rest).takeWhile isNameChar = n.chars := by
  rw [List.takeWhile_append_of_pos n.isNameChar_of_mem]
  cases rest with
  | nil => simp
  | cons c rest =>
    have hc : isNameChar c = false := h
    simp [hc]

theorem Identifier.dropWhile_append (n : Identifier) {rest : List Char}
    (h : startsName rest = false) : (n.chars ++ rest).dropWhile isNameChar = rest := by
  rw [List.dropWhile_append_of_pos n.isNameChar_of_mem]
  cases rest with
  | nil => rfl
  | cons c rest =>
    have hc : isNameChar c = false := h
    simp [hc]

/-! ## §3. Names told apart, and written with points. -/

namespace QualifiedName

theorem inj_of_append_slashed {n n' : Identifier} {names names' : List Identifier}
    (h : n.chars ++ slashed names = n'.chars ++ slashed names') :
    n = n' ∧ slashed names = slashed names' := by
  -- The first name of either row ends where a slash or nothing follows.
  have hstop : ∀ names : List Identifier, startsName (slashed names) = false := by
    intro names
    cases names <;> rfl
  have htake := congrArg (List.takeWhile isNameChar) h
  have hdrop := congrArg (List.dropWhile isNameChar) h
  rw [n.takeWhile_append (hstop names), n'.takeWhile_append (hstop names')] at htake
  rw [n.dropWhile_append (hstop names), n'.dropWhile_append (hstop names')] at hdrop
  exact ⟨Identifier.text_inj (congrArg String.ofList htake), hdrop⟩

theorem slashed_inj {names names' : List Identifier} (h : slashed names = slashed names') :
    names = names' := by
  induction names generalizing names' with
  | nil =>
    cases names' with
    | nil => rfl
    | cons n' names' => cases h
  | cons n names ih =>
    cases names' with
    | nil => cases h
    | cons n' names' =>
      obtain ⟨rfl, hmore⟩ := inj_of_append_slashed (List.cons.inj h).2
      rw [ih hmore]

theorem spelling_inj {q q' : QualifiedName} (h : q.spelling = q'.spelling) : q = q' := by
  obtain ⟨hfirst, hmore⟩ := inj_of_append_slashed h
  cases q
  cases q'
  cases hfirst
  cases slashed_inj hmore
  rfl

theorem text_inj {q q' : QualifiedName} (h : q.text = q'.text) : q = q' := by
  apply spelling_inj
  rw [← String.toList_ofList (l := q.spelling), ← String.toList_ofList (l := q'.spelling)]
  exact congrArg String.toList h

/-- In source code the slashes of a name are points. -/
theorem sourceName_text (q : QualifiedName) : sourceName q.text = q.dotted := by
  -- A name holds no slash of its own, so only those between names become points.
  have hchars : ∀ n : Identifier, (n.chars.map fun c => if c = '/' then '.' else c) = n.chars := by
    intro n
    refine (List.map_congr_left fun c hc => if_neg ?_).trans (List.map_id _)
    rintro rfl
    exact absurd rfl (n.valid '/' hc).2.2.2.1
  have hmore : ∀ (n : Identifier) (names : List Identifier),
      ".".intercalate (n.text :: names.map Identifier.text) =
        String.ofList (n.chars ++ (slashed names).map fun c => if c = '/' then '.' else c) := by
    intro n names
    induction names generalizing n with
    | nil => simp [slashed, Identifier.text]
    | cons m names ih =>
      rw [List.map_cons, String.intercalate_cons_cons, ih m]
      apply String.toList_inj.mp
      simp [slashed, Identifier.text, hchars]
  unfold sourceName dotted
  rw [hmore]
  simp [text, spelling, hchars]

end QualifiedName

/-! ## §4. Cutting. -/

section

variable {σ τ α : Type} {next : σ → List Char → Option (Found σ τ)}

/-- From state `s`, `text` is cut into `tokens`; then the state is `s'`, and `rest` is left. -/
inductive Cuts (next : σ → List Char → Option (Found σ τ)) :
    σ → List Char → List τ → σ → List Char → Prop
  | nil (s : σ) (text : List Char) : Cuts next s text [] s text
  | cons {s s₁ s' : σ} {token : τ} {spelling text rest : List Char} {tokens : List τ}
      (hfound : next s (spelling ++ text) = some ⟨token, s₁, spelling⟩) (hne : spelling ≠ [])
      (h : Cuts next s₁ text tokens s' rest) :
      Cuts next s (spelling ++ text) (token :: tokens) s' rest

theorem Cuts.append {s s' s'' : σ} {text rest rest' : List Char} {tokens tokens' : List τ}
    (h : Cuts next s text tokens s' rest) (h' : Cuts next s' rest tokens' s'' rest') :
    Cuts next s text (tokens ++ tokens') s'' rest' := by
  induction h with
  | nil s text => exact h'
  | cons hfound hne _ ih => exact .cons hfound hne (ih h')

/-- One token. -/
theorem Cuts.single {s s' : σ} {token : τ} {spelling text : List Char}
    (hfound : next s (spelling ++ text) = some ⟨token, s', spelling⟩) (hne : spelling ≠ []) :
    Cuts next s (spelling ++ text) [token] s' text :=
  .cons hfound hne (.nil _ _)

/-- A token of one character, and what follows it. -/
theorem Cuts.char {s s₁ s' : σ} {token : τ} {c : Char} {text rest : List Char} {tokens : List τ}
    (hfound : next s (c :: text) = some ⟨token, s₁, [c]⟩)
    (h : Cuts next s₁ text tokens s' rest) :
    Cuts next s (c :: text) (token :: tokens) s' rest :=
  .cons hfound (List.cons_ne_nil c []) h

theorem cutFrom_of_found {s s' : σ} {token : τ} {spelling text : List Char}
    (hfound : next s (spelling ++ text) = some ⟨token, s', spelling⟩) (hne : spelling ≠ [])
    (column : Nat) (done : List (Lexeme τ)) :
    cutFrom next s column (spelling ++ text) done =
      cutFrom next s' (columnAfter column spelling) text (⟨column, token⟩ :: done) := by
  obtain ⟨c, cs, rfl⟩ := List.exists_cons_of_ne_nil hne
  rw [List.cons_append] at hfound ⊢
  rw [cutFrom, hfound]
  simp

/-- A text that is cut into tokens gives a lexeme for each. -/
theorem cutFrom_of_cuts {s s' : σ} {text rest : List Char} {tokens : List τ}
    (h : Cuts next s text tokens s' rest) (column : Nat) (done : List (Lexeme τ)) :
    ∃ (column' : Nat) (lexemes : List (Lexeme τ)), lexemes.map Lexeme.token = tokens ∧
      cutFrom next s column text done =
        cutFrom next s' column' rest (lexemes.reverse ++ done) := by
  induction h generalizing column done with
  | nil s text => exact ⟨column, [], rfl, rfl⟩
  | @cons _ _ _ token spelling _ _ _ hfound hne _ ih =>
    obtain ⟨column', lexemes, htokens, hcut⟩ :=
      ih (columnAfter column spelling) (⟨column, token⟩ :: done)
    refine ⟨column', ⟨column, token⟩ :: lexemes, by rw [List.map_cons, htokens], ?_⟩
    rw [cutFrom_of_found hfound hne, hcut]
    simp

/-- Every token that is found is genuine, and stands at the start of the text in the characters that
    it is spelled with, one at least. -/
def Honest (next : σ → List Char → Option (Found σ τ)) (spelling : τ → List Char)
    (genuine : τ → Prop) : Prop :=
  ∀ s text found, next s text = some found →
    found.spelling = spelling found.token ∧ found.spelling ≠ [] ∧ found.spelling <+: text ∧
      genuine found.token

variable {spelling : τ → List Char} {genuine : τ → Prop}

/-- The characters of tokens, one behind the other. -/
def spelled (spelling : τ → List Char) (lexemes : List (Lexeme τ)) : List Char :=
  lexemes.flatMap fun lexeme => spelling lexeme.token

@[simp] theorem spelled_nil : spelled spelling [] = [] := rfl

@[simp] theorem spelled_cons (lexeme : Lexeme τ) (lexemes : List (Lexeme τ)) :
    spelled spelling (lexeme :: lexemes) = spelling lexeme.token ++ spelled spelling lexemes := rfl

/-- Behind a token, the text is what is left when its characters are dropped. -/
theorem drop_spelling {c : Char} {rest spelling tail : List Char} (hne : spelling ≠ [])
    (h : spelling ++ tail = c :: rest) : rest.drop (spelling.length - 1) = tail := by
  obtain ⟨c', cs, rfl⟩ := List.exists_cons_of_ne_nil hne
  rw [List.cons_append] at h
  rw [← (List.cons.inj h).2]
  simp

/-- A text that is cut to its end is the row of its tokens. -/
theorem spelled_of_cutFrom (honest : Honest next spelling genuine) (s : σ) (column : Nat)
    (text : List Char) (done : List (Lexeme τ))
    (h : (cutFrom next s column text done).ending = .complete) :
    ∃ lexemes : List (Lexeme τ),
      (cutFrom next s column text done).lexemes = done.reverse ++ lexemes ∧
      text = spelled spelling lexemes ∧ ∀ lexeme ∈ lexemes, genuine lexeme.token := by
  fun_induction cutFrom next s column text done with
  | case1 s column done => exact ⟨[], (List.append_nil _).symm, rfl, by simp⟩
  | case2 s column done c rest hnone => cases h
  | case3 s column done c rest found hfound ih =>
    obtain ⟨lexemes, hlexemes, htext, hgenuine⟩ := ih h
    obtain ⟨hspelling, hne, ⟨tail, htail⟩, htoken⟩ := honest s (c :: rest) found hfound
    refine ⟨⟨column, found.token⟩ :: lexemes, by simp [hlexemes], ?_, ?_⟩
    · rw [spelled_cons, ← hspelling, ← htext, drop_spelling hne htail, htail]
    · simpa using ⟨htoken, hgenuine⟩

/-! ## §5. Reading what is cut. -/

variable {reader : List (Lexeme τ) → Except (List (Lexeme τ)) (α × List (Lexeme τ))}

/-- A reading in two steps succeeds if both do. -/
theorem bind_eq_ok_iff {ε β : Type} {x : Except ε α} {f : α → Except ε β} {b : β} :
    x >>= f = .ok b ↔ ∃ a, x = .ok a ∧ f a = .ok b := by
  constructor
  · intro h
    cases x with
    | error e => cases h
    | ok a => exact ⟨a, rfl, h⟩
  · rintro ⟨a, rfl, h⟩
    exact h

/-- Lexemes with a first token. -/
theorem exists_of_map_token {lexemes : List (Lexeme τ)} {token : τ} {tokens : List τ}
    (h : lexemes.map Lexeme.token = token :: tokens) :
    ∃ column rest, lexemes = ⟨column, token⟩ :: rest ∧ rest.map Lexeme.token = tokens := by
  obtain ⟨⟨column, _⟩, rest, rfl, rfl, htokens⟩ := List.map_eq_cons_iff.mp h
  exact ⟨column, rest, rfl, htokens⟩

theorem Lexed.readAll_eq_ok_iff {lexed : Lexed τ} {value : α} :
    lexed.readAll reader = .ok value ↔
      reader lexed.lexemes = .ok (value, []) ∧ lexed.ending = .complete := by
  unfold Lexed.readAll
  rcases reader lexed.lexemes with rest | ⟨value', _ | ⟨lexeme, rest⟩⟩
  · simp
  · rcases lexed.ending with _ | column
    · simp
    · simp
  · simp

/-- A text that is cut to its end is read as its tokens are. -/
theorem readAll_of_cuts {s s' : σ} {text : String} {tokens : List τ} {value : α}
    (h : Cuts next s text.toList tokens s' [])
    (hreader : ∀ lexemes, lexemes.map Lexeme.token = tokens → reader lexemes = .ok (value, [])) :
    (cut next s text).readAll reader = .ok value := by
  obtain ⟨column, lexemes, htokens, hcut⟩ := cutFrom_of_cuts h 1 []
  have hcut : cut next s text = ⟨lexemes, .complete⟩ := by
    unfold cut
    rw [hcut, cutFrom]
    simp
  rw [Lexed.readAll_eq_ok_iff, hcut]
  exact ⟨hreader lexemes htokens, rfl⟩

/-- A text that is read is the row of the tokens that are read. -/
theorem exists_of_readAll (honest : Honest next spelling genuine) {s : σ} {text : String}
    {value : α} (h : (cut next s text).readAll reader = .ok value) :
    ∃ lexemes, text.toList = spelled spelling lexemes ∧
      (∀ lexeme ∈ lexemes, genuine lexeme.token) ∧ reader lexemes = .ok (value, []) := by
  obtain ⟨hreader, hending⟩ := Lexed.readAll_eq_ok_iff.mp h
  obtain ⟨lexemes, hlexemes, htext, hgenuine⟩ :=
    spelled_of_cutFrom honest s 1 text.toList [] hending
  have hlexemes : (cut next s text).lexemes = lexemes := hlexemes
  exact ⟨lexemes, htext, hgenuine, hlexemes ▸ hreader⟩

theorem reading_eq_ok_iff {text : String} {result : Except Reason α} {value : α} :
    reading text result = .ok value ↔ text ≠ "" ∧ result = .ok value := by
  unfold reading
  by_cases h : text = ""
  · simp [h]
  · rw [if_neg (by simpa [String.isEmpty_iff] using h)]
    cases result with
    | error reason =>
      show Except.error (BadDescriptor.mk text reason) = Except.ok value ↔ _
      simp
    | ok value' =>
      show (Except.ok value' : Except BadDescriptor α) = .ok value ↔ _
      simp [h]

/-- Whatever is wrong with a text, the error names the text. -/
theorem reading_ok_or_error (text : String) (result : Except Reason α) :
    (∃ value, reading text result = .ok value) ∨
      ∃ reason, reading text result = .error ⟨text, reason⟩ := by
  unfold reading
  split
  · exact .inr ⟨.empty, rfl⟩
  · cases result with
    | error reason => exact .inr ⟨reason, rfl⟩
    | ok value => exact .inl ⟨value, rfl⟩

end

end JavaClass
