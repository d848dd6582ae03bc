/-
  JavaClass.Proofs.Descriptor.Blame — where a text stops being the start of a descriptor.

  What may come next in a descriptor depends on little: `State` has it, and `State.step` follows one
  token.  From every state a descriptor can be completed, so the tokens that can be followed are
  those that some descriptor starts with (`State.run_completion`).  The readers of descriptors follow
  the states: they stop in front of the first token that leads nowhere (`fieldType_reads`,
  `methodType_reads`).

  A text is cut in one way only, and each token stands in the column behind the tokens before it
  (`exists_cutting`).  So the column of an error lies behind the longest part of the text that is
  made of tokens and that a descriptor can start with (`Descriptor.errors_blame_longest_start`).
-/
import JavaClass.Proofs.Descriptor.Grammar

namespace JavaClass

/-! ## §1. Columns and cuttings. -/

section

variable {σ τ : Type} {next : σ → List Char → Option (Found σ τ)} {spelling : τ → List Char}
  {genuine : τ → Prop}

/-- The column behind a text is one more than the number of characters behind its last newline. -/
theorem columnAfter_one (text : List Char) :
    columnAfter 1 text = 1 + (text.reverse.takeWhile (· ≠ '\n')).length := by
  suffices h : ∀ reversed : List Char,
      columnAfter 1 reversed.reverse = 1 + (reversed.takeWhile (· ≠ '\n')).length by
    simpa using h text.reverse
  intro reversed
  induction reversed with
  | nil => rfl
  | cons c reversed ih =>
    have hstep : columnAfter 1 (c :: reversed).reverse =
        if c = '\n' then 1 else columnAfter 1 reversed.reverse + 1 := by
      simp [columnAfter]
    rw [hstep, ih]
    by_cases hc : c = '\n'
    · simp [hc]
    · rw [if_neg hc, List.takeWhile_cons_of_pos (by simp [hc]), List.length_cons]
      omega

theorem columnAfter_append (column : Nat) (first second : List Char) :
    columnAfter column (first ++ second) = columnAfter (columnAfter column first) second :=
  List.foldl_append ..

theorem spelled_eq_flatMap (xs : List (Lexeme τ)) :
    spelled spelling xs = (xs.map Lexeme.token).flatMap spelling := by
  rw [List.flatMap_map]
  rfl

/-- Each lexeme stands in the column behind those before it, the first in `column`. -/
def Placed (spelling : τ → List Char) : Nat → List (Lexeme τ) → Prop
  | _, [] => True
  | column, x :: xs => x.column = column ∧ Placed spelling (columnAfter column (spelling x.token)) xs

theorem Placed.column_eq {column : Nat} {before after : List (Lexeme τ)} {x : Lexeme τ}
    (h : Placed spelling column (before ++ x :: after)) :
    x.column = columnAfter column (spelled spelling before) := by
  induction before generalizing column with
  | nil => exact h.1
  | cons y before ih => rw [ih h.2, spelled_cons, columnAfter_append]

/-- How a text is cut from `column` on: into lexemes in their columns, up to `rest`, where no token
    is found. -/
structure Cutting (next : σ → List Char → Option (Found σ τ)) (spelling : τ → List Char) (s : σ)
    (column : Nat) (text : List Char) (lexed : Lexed τ) (rest : List Char) : Prop where
  text_eq : text = spelled spelling lexed.lexemes ++ rest
  placed : Placed spelling column lexed.lexemes
  ending : lexed.ending =
    if rest = [] then .complete else .stuck (columnAfter column (spelled spelling lexed.lexemes))
  cuts : ∃ s', Cuts next s text (lexed.lexemes.map Lexeme.token) s' rest ∧
    (rest = [] ∨ next s' rest = none)

theorem exists_cutting_of_cutFrom (honest : Honest next spelling genuine) (s : σ) (column : Nat)
    (text : List Char) (done : List (Lexeme τ)) :
    ∃ lexed rest, Cutting next spelling s column text lexed rest ∧
      (∀ x ∈ lexed.lexemes, genuine x.token) ∧
      cutFrom next s column text done = ⟨done.reverse ++ lexed.lexemes, lexed.ending⟩ := by
  fun_induction cutFrom next s column text done with
  | case1 s column done =>
    exact ⟨⟨[], .complete⟩, [], ⟨rfl, trivial, rfl, s, .nil s [], .inl rfl⟩, by simp, by simp⟩
  | case2 s column done c rest hnone =>
    exact ⟨⟨[], .stuck column⟩, c :: rest, ⟨rfl, trivial, rfl, s, .nil s _, .inr hnone⟩, by simp,
      by simp⟩
  | case3 s column done c rest found hfound ih =>
    obtain ⟨lexed, left, hcutting, hgenuine, hcut⟩ := ih
    obtain ⟨hspelling, hne, ⟨tail, htail⟩, htoken⟩ := honest s (c :: rest) found hfound
    rw [drop_spelling hne htail] at hcutting
    obtain ⟨htext, hplaced, hending, s', hcuts, hend⟩ := hcutting
    refine ⟨⟨⟨column, found.token⟩ :: lexed.lexemes, lexed.ending⟩, left, ⟨?_, ?_, ?_, s', ?_, hend⟩,
      ?_, ?_⟩
    · rw [spelled_cons, ← hspelling, List.append_assoc, ← htext, htail]
    · refine ⟨rfl, ?_⟩
      rw [← hspelling]
      exact hplaced
    · rw [spelled_cons, columnAfter_append, ← hspelling]
      exact hending
    · rw [← htail] at hfound ⊢
      exact .cons hfound hne hcuts
    · simpa using ⟨htoken, hgenuine⟩
    · rw [hcut]
      simp

theorem exists_cutting (honest : Honest next spelling genuine) (s : σ) (text : String) :
    ∃ rest, Cutting next spelling s 1 text.toList (cut next s text) rest ∧
      ∀ x ∈ (cut next s text).lexemes, genuine x.token := by
  obtain ⟨lexed, rest, hcutting, hgenuine, hcut⟩ :=
    exists_cutting_of_cutFrom honest s 1 text.toList []
  have hcut : cut next s text = lexed := hcut
  rw [hcut]
  exact ⟨rest, hcutting, hgenuine⟩

/-- A text is cut in one way: where one cutting finds no more tokens, no other has any. -/
theorem Cuts.isPrefix_of_end {s s' s'' : σ} {text rest rest' : List Char} {tokens tokens' : List τ}
    (h : Cuts next s text tokens s' rest) (h' : Cuts next s text tokens' s'' rest')
    (hend : rest' = [] ∨ next s'' rest' = none) : tokens <+: tokens' := by
  induction h generalizing tokens' with
  | nil s text => exact List.nil_prefix
  | @cons s s₁ s' token spelling text rest tokens hfound hne _ ih =>
    generalize htext : spelling ++ text = whole at h' hfound
    cases h' with
    | nil =>
      obtain hnil | hnone := hend
      · rw [hnil] at htext
        exact absurd (List.append_eq_nil_iff.mp htext).1 hne
      · rw [hnone] at hfound
        cases hfound
    | cons hfound' hne' h' =>
      cases hfound.symm.trans hfound'
      rw [List.append_cancel_left htext] at ih
      exact List.cons_prefix_cons.mpr ⟨rfl, ih h'⟩

end

namespace Descriptor

/-! ## §2. What may come next. -/

/-- What may come next in a descriptor. -/
inductive State where
  /-- The parenthesis in front of the parameters. -/
  | opening
  /-- A parameter, or the parenthesis behind the parameters; a parameter only, if a bracket stands
      before. -/
  | parameter (bracketed : Bool)
  /-- The result, a type or none; a type only, if a bracket stands before. -/
  | result (bracketed : Bool)
  /-- Nothing. -/
  | finished
deriving DecidableEq

namespace State

/-- A field descriptor is a type, as it stands behind a bracket. -/
def field : State := result true

/-- A method descriptor starts with its parameters. -/
def method : State := opening

/-- What may come behind a token, if it may come at all. -/
def step : State → Token → Option State
  | opening, .openParen => some (parameter false)
  | parameter _, .bracket => some (parameter true)
  | parameter _, .base _ | parameter _, .object _ => some (parameter false)
  | parameter false, .closeParen => some (result false)
  | result _, .bracket => some (result true)
  | result _, .base _ | result _, .object _ => some finished
  | result false, .void => some finished
  | _, _ => none

/-- What may come behind some tokens. -/
def run : State → List Token → Option State
  | s, [] => some s
  | s, t :: ts => (s.step t).bind fun s' => s'.run ts

/-- Tokens that complete a descriptor. -/
def completion : State → List Token
  | opening => [.openParen, .closeParen, .void]
  | parameter true => [.base .int, .closeParen, .void]
  | parameter false => [.closeParen, .void]
  | result _ => [.base .int]
  | finished => []

theorem run_append (s : State) (first second : List Token) :
    s.run (first ++ second) = (s.run first).bind fun s' => s'.run second := by
  induction first generalizing s with
  | nil => rfl
  | cons t ts ih =>
    show (s.step t).bind (fun s' => s'.run (ts ++ second)) = _
    simp only [run, Option.bind_assoc, ih]

theorem run_completion (s : State) : s.run s.completion = some finished := by
  rcases s with _ | (_ | _) | (_ | _) | _
  all_goals rfl

theorem completion_genuine (s : State) : ∀ t ∈ s.completion, t.Genuine := by
  rcases s with _ | (_ | _) | (_ | _) | _
  all_goals simp [completion, Token.Genuine]

end State

/-! ## §3. Readers follow the states. -/

/-- From `s`, the lexemes in front of `rest` lead to `s'`. -/
def Leads (s : State) (xs rest : Rest) (s' : State) : Prop :=
  ∃ before, xs = before ++ rest ∧ s.run (before.map Lexeme.token) = some s'

/-- The next lexeme, if there is one, leads nowhere. -/
def Blocked (s : State) (rest : Rest) : Prop := ∀ x after, rest = x :: after → s.step x.token = none

/-- What a reader does that is to get from `s` to `goal`: it gets there, or it stops in front of the
    first lexeme that leads nowhere, and not behind a whole descriptor. -/
def Reads {α : Type} (s goal : State) (xs : Rest) : Except Rest (α × Rest) → Prop
  | .ok (_, rest) => Leads s xs rest goal
  | .error rest => ∃ s', s' ≠ .finished ∧ Leads s xs rest s' ∧ Blocked s' rest

theorem Leads.here (s : State) (xs : Rest) : Leads s xs xs s := ⟨[], rfl, rfl⟩

theorem Leads.cons {s s₁ s' : State} {xs rest : Rest} {x : Lexeme Token}
    (hstep : s.step x.token = some s₁) (h : Leads s₁ xs rest s') : Leads s (x :: xs) rest s' := by
  obtain ⟨before, rfl, hrun⟩ := h
  refine ⟨x :: before, rfl, ?_⟩
  rw [List.map_cons, State.run, hstep]
  exact hrun

theorem Leads.trans {s s' s'' : State} {xs rest rest' : Rest} (h : Leads s xs rest s')
    (h' : Leads s' rest rest' s'') : Leads s xs rest' s'' := by
  obtain ⟨before, rfl, hrun⟩ := h
  obtain ⟨more, rfl, hrun'⟩ := h'
  refine ⟨before ++ more, (List.append_assoc ..).symm, ?_⟩
  rw [List.map_append, State.run_append, hrun]
  exact hrun'

section

variable {α : Type} {s s₁ goal : State} {xs rest : Rest} {outcome : Except Rest (α × Rest)}

/-- What is read behind some lexemes is read behind them from where they start. -/
theorem Reads.after (h : Leads s xs rest s₁) (hreads : Reads s₁ goal rest outcome) :
    Reads s goal xs outcome := by
  rcases outcome with rest' | ⟨value, rest'⟩
  · obtain ⟨s', hs', hleads, hblocked⟩ := hreads
    exact ⟨s', hs', h.trans hleads, hblocked⟩
  · exact h.trans hreads

theorem Reads.cons {x : Lexeme Token} (hstep : s.step x.token = some s₁)
    (h : Reads s₁ goal xs outcome) : Reads s goal (x :: xs) outcome :=
  .after (Leads.cons hstep (.here s₁ xs)) h

end

theorem fieldType_reads (n : Nat) (xs : Rest) (bracketed : Bool)
    (h : bracketed = false → ∀ x after, xs = x :: after → x.token ≠ .void) :
    Reads (.result bracketed) .finished xs (fieldType n xs) := by
  fun_induction fieldType n xs generalizing bracketed with
  | case1 n column xs ih => exact (ih true (by simp)).cons rfl
  | case2 n column type xs => exact Leads.cons rfl (.here _ xs)
  | case3 n column name xs => exact Leads.cons rfl (.here _ xs)
  | case4 n xs hbracket hbase hobject =>
    refine ⟨.result bracketed, by simp, .here _ xs, ?_⟩
    rintro ⟨column, token⟩ after rfl
    cases token with
    | bracket => exact absurd rfl (hbracket column after)
    | base type => exact absurd rfl (hbase column type after)
    | object name => exact absurd rfl (hobject column name after)
    | openParen => rfl
    | closeParen => rfl
    | void =>
      cases bracketed with
      | false => exact absurd rfl (h rfl _ after rfl)
      | true => rfl

/-- Brackets that are counted are brackets that stand before. -/
theorem parameters_reads (n : Nat) (done : List FieldType) (xs : Rest) :
    Reads (.parameter (decide (0 < n))) (.result false) xs (parameters n done xs) := by
  fun_induction parameters n done xs with
  | case1 n done => exact ⟨_, by simp, .here _ [], by simp [Blocked]⟩
  | case2 n done x xs htoken ih =>
    have hstep : (State.parameter (decide (0 < n))).step x.token = some (.parameter true) := by
      rw [htoken]
      rfl
    exact Reads.cons hstep (by simpa using ih)
  | case3 n done x xs type htoken ih =>
    have hstep : (State.parameter (decide (0 < n))).step x.token = some (.parameter false) := by
      rw [htoken]
      rfl
    exact Reads.cons hstep ih
  | case4 n done x xs name htoken ih =>
    have hstep : (State.parameter (decide (0 < n))).step x.token = some (.parameter false) := by
      rw [htoken]
      rfl
    exact Reads.cons hstep ih
  | case5 done x xs htoken => exact Leads.cons (by rw [htoken]; rfl) (.here _ xs)
  | case6 n done x xs htoken hn =>
    have hbracketed : decide (0 < n) = true := by simpa using Nat.pos_of_ne_zero hn
    refine ⟨_, by simp, .here _ (x :: xs), ?_⟩
    rintro _ _ ⟨⟩
    rw [hbracketed, htoken]
    rfl
  | case7 n done x xs hbracket hbase hobject hclose =>
    refine ⟨_, by simp, .here _ (x :: xs), ?_⟩
    rintro _ _ ⟨⟩
    cases htoken : x.token with
    | bracket => exact absurd htoken hbracket
    | base type => exact absurd htoken (hbase type)
    | object name => exact absurd htoken (hobject name)
    | closeParen => exact absurd htoken hclose
    | openParen => rfl
    | void => rfl

theorem methodType_reads (xs : Rest) : Reads .method .finished xs (methodType xs) := by
  unfold methodType
  split
  · next column xs =>
    refine Reads.cons (show State.method.step .openParen = some (.parameter false) from rfl) ?_
    have hparameters : Reads (.parameter false) (.result false) xs (parameters 0 [] xs) :=
      parameters_reads 0 [] xs
    generalize parameters 0 [] xs = outcome at hparameters ⊢
    rcases outcome with rest | ⟨ps, rest⟩
    · exact hparameters
    · refine Reads.after (show Leads (.parameter false) xs rest (.result false) from hparameters) ?_
      dsimp only [bind, Except.bind]
      split
      · next column rest => exact Leads.cons rfl (.here _ rest)
      · next hvoid =>
        have hresult : Reads (.result false) .finished rest (fieldType 0 rest) := by
          refine fieldType_reads 0 rest false ?_
          rintro - ⟨column, token⟩ after rfl rfl
          exact hvoid column after rfl
        generalize fieldType 0 rest = outcome at hresult ⊢
        rcases outcome with rest' | ⟨result, rest'⟩
        · exact hresult
        · exact hresult
  · next hopen =>
    refine ⟨.opening, by simp, .here _ xs, ?_⟩
    rintro ⟨column, token⟩ after rfl
    cases token with
    | openParen => exact absurd rfl (hopen column after)
    | _ => rfl

/-! ## §4. Which texts are read. -/

theorem next?_spelling {t : Token} (h : t.Genuine) (rest : List Char) :
    next? () (t.spelling ++ rest) = some ⟨t, (), t.spelling⟩ := by
  cases t with
  | base type => exact next?_letter type rest
  | object name =>
    obtain ⟨q, rfl⟩ := h
    have hspelling : Token.spelling (.object q.text) = (ElementForm.object q).spelling := by
      simp [Token.spelling, ElementForm.spelling, QualifiedName.text]
    rw [hspelling]
    exact next?_object q rest
  | _ => rfl

theorem Token.spelling_ne_nil (t : Token) : t.spelling ≠ [] := by
  cases t <;> simp [spelling]

/-- A row of tokens is cut into them, whatever follows. -/
theorem cuts_of_genuine {ts : List Token} (h : ∀ t ∈ ts, t.Genuine) (rest : List Char) :
    Cuts next? () (ts.flatMap Token.spelling ++ rest) ts () rest := by
  induction ts with
  | nil => exact .nil () rest
  | cons t ts ih =>
    rw [List.flatMap_cons, List.append_assoc]
    exact .cons (next?_spelling (h t (by simp)) _) t.spelling_ne_nil
      (ih fun t' ht' => h t' (by simp [ht']))

section

variable {α : Type} {s : State} {reader : Rest → Except Rest (α × Rest)}

theorem readAll_ok_iff (hreads : ∀ xs, Reads s .finished xs (reader xs)) (lexed : Lexed Token) :
    (∃ value, lexed.readAll reader = .ok value) ↔
      s.run (lexed.lexemes.map Lexeme.token) = some .finished ∧ lexed.ending = .complete := by
  have hread := hreads lexed.lexemes
  simp only [Lexed.readAll_eq_ok_iff]
  constructor
  · rintro ⟨value, hvalue, hending⟩
    rw [hvalue] at hread
    obtain ⟨before, hbefore, hrun⟩ := hread
    rw [List.append_nil] at hbefore
    exact ⟨hbefore ▸ hrun, hending⟩
  · rintro ⟨hrun, hending⟩
    -- Whatever stops the reader early is in the way of the whole row.
    have hnone : ∀ rest s', Leads s lexed.lexemes rest s' → Blocked s' rest →
        rest = [] ∧ s' = .finished := by
      rintro rest s' ⟨before, hbefore, hrun'⟩ hblocked
      rw [hbefore, List.map_append, State.run_append, hrun', Option.bind_some] at hrun
      cases rest with
      | nil => exact ⟨rfl, Option.some.inj hrun⟩
      | cons x after =>
        rw [List.map_cons, State.run, hblocked x after rfl] at hrun
        cases hrun
    generalize reader lexed.lexemes = outcome at hread ⊢
    rcases outcome with rest | ⟨value, rest⟩
    · obtain ⟨s', hs', hleads, hblocked⟩ := hread
      exact absurd (hnone rest s' hleads hblocked).2 hs'
    · obtain ⟨rfl, -⟩ := hnone rest .finished hread fun _ _ _ => rfl
      exact ⟨value, rfl, hending⟩

/-- The texts that are read are rows of tokens that lead to the end. -/
theorem reading_ok_iff (hreads : ∀ xs, Reads s .finished xs (reader xs)) (hs : s ≠ .finished)
    (text : String) :
    (∃ value, reading text ((tokens text).readAll reader) = .ok value) ↔
      ∃ ts : List Token, (∀ t ∈ ts, t.Genuine) ∧ text.toList = ts.flatMap Token.spelling ∧
        s.run ts = some .finished := by
  obtain ⟨rest, hcutting, hgenuine⟩ := exists_cutting next?_honest () text
  have hending := hcutting.ending
  have htext := hcutting.text_eq
  rw [spelled_eq_flatMap] at htext
  simp only [reading_eq_ok_iff, exists_and_left, readAll_ok_iff hreads]
  constructor
  · rintro ⟨-, hrun, hcomplete⟩
    have hrest : rest = [] := by
      by_cases hnil : rest = []
      · exact hnil
      · rw [if_neg hnil] at hending
        cases hcomplete.symm.trans hending
    rw [hrest, List.append_nil] at htext
    refine ⟨_, ?_, htext, hrun⟩
    intro t ht
    obtain ⟨x, hx, rfl⟩ := List.mem_map.mp ht
    exact hgenuine x hx
  · rintro ⟨ts, hts, hspelled, hrun⟩
    have hcuts := cuts_of_genuine hts []
    rw [List.append_nil, ← hspelled] at hcuts
    obtain ⟨s', hcuts', hend⟩ := hcutting.cuts
    -- The text is cut in one way, so the tokens are those of the row.
    have htokens : (tokens text).lexemes.map Lexeme.token = ts :=
      (hcuts'.isPrefix_of_end hcuts (.inl rfl)).eq_of_length_le
        (hcuts.isPrefix_of_end hcuts' hend).length_le
    have hrest : rest = [] := by
      have htext : text.toList = ts.flatMap Token.spelling ++ rest := htokens ▸ htext
      exact List.append_cancel_left ((List.append_nil _).trans (hspelled.symm.trans htext)).symm
    refine ⟨?_, htokens ▸ hrun, by rw [hrest] at hending; exact hending⟩
    rintro rfl
    cases ts with
    | nil => exact hs (Option.some.inj hrun)
    | cons t ts =>
      exact t.spelling_ne_nil (List.append_eq_nil_iff.mp hspelled.symm).1

/-- A text that is not read stops in front of some lexemes. -/
theorem exists_stop (hreads : ∀ xs, Reads s .finished xs (reader xs)) {lexed : Lexed Token}
    {reason : Reason} (h : lexed.readAll reader = .error reason) :
    ∃ before rest s', lexed.lexemes = before ++ rest ∧
      s.run (before.map Lexeme.token) = some s' ∧ Blocked s' rest ∧ reason = lexed.reason rest := by
  have hread := hreads lexed.lexemes
  unfold Lexed.readAll at h
  generalize reader lexed.lexemes = outcome at hread h
  rcases outcome with rest | ⟨value, rest⟩
  · obtain ⟨s', -, ⟨before, hbefore, hrun⟩, hblocked⟩ := hread
    exact ⟨before, rest, s', hbefore, hrun, hblocked, (Except.error.inj h).symm⟩
  · obtain ⟨before, hbefore, hrun⟩ := hread
    refine ⟨before, rest, .finished, hbefore, hrun, fun _ _ _ => rfl, ?_⟩
    unfold Lexed.reason
    cases rest with
    | nil =>
      rcases hending : lexed.ending with _ | column <;> rw [hending] at h
      · cases h
      · exact (Except.error.inj h).symm
    | cons x rest => exact (Except.error.inj h).symm

end

/-! ## §5. What is blamed. -/

/-- Complete tokens, one behind the other, that a text of the kind can start with, or is. -/
structure IsStart (Accepted : String → Prop) (q : String) : Prop where
  whole : ∃ ts : List Token, (∀ t ∈ ts, t.Genuine) ∧ q.toList = ts.flatMap Token.spelling
  extended : ∃ more, Accepted (q ++ more)

/-- The longest part of `text`, from its start on, with a property. -/
structure Longest (P : String → Prop) (text q : String) : Prop where
  leads : q.toList <+: text.toList
  holds : P q
  longest : ∀ p : String, p.toList <+: text.toList → P p → p.length ≤ q.length

theorem Longest.unique {P : String → Prop} {text q q' : String} (h : Longest P text q)
    (h' : Longest P text q') : q = q' := by
  have hlength : q.toList.length = q'.toList.length :=
    Nat.le_antisymm (h'.longest q h.leads h.holds) (h.longest q' h'.leads h'.holds)
  obtain ⟨rest, hrest⟩ := h.leads
  obtain ⟨rest', hrest'⟩ := h'.leads
  exact String.toList_inj.mp (List.append_inj_left (hrest.trans hrest'.symm) hlength)

/-- What is wrong with a text that goes wrong behind `q`: it ends there, or the next column is to
    blame, counted from the last newline. -/
def blame (text q : String) : String :=
  if q = text then "unexpected end of input"
  else "unexpected input at column " ++ toString (1 + (q.toList.reverse.takeWhile (· ≠ '\n')).length)

section

variable {α : Type} {s : State} {reader : Rest → Except Rest (α × Rest)}

/-- The reason to stop in front of `rest` says where the lexemes before it end. -/
theorem message_reason {text : String} {left : List Char} {lexed : Lexed Token} {before rest : Rest}
    (h : Cutting next? Token.spelling () 1 text.toList lexed left)
    (hsplit : lexed.lexemes = before ++ rest) :
    (lexed.reason rest).message =
      blame text (String.ofList (JavaClass.spelled Token.spelling before)) := by
  obtain ⟨htext, hplaced, hending, -⟩ := h
  rw [hsplit] at htext hending hplaced
  generalize hq : JavaClass.spelled Token.spelling before = q
  have hspelled : JavaClass.spelled Token.spelling (before ++ rest) =
      q ++ JavaClass.spelled Token.spelling rest := hq ▸ List.flatMap_append
  rw [hspelled, List.append_assoc] at htext
  -- The text ends behind the lexemes exactly if nothing follows them.
  have hwhole : String.ofList q = text ↔ JavaClass.spelled Token.spelling rest ++ left = [] := by
    rw [← String.toList_inj, String.toList_ofList, htext]
    exact List.self_eq_append_right
  have hunexpected : JavaClass.spelled Token.spelling rest ++ left ≠ [] →
      (Reason.unexpected (columnAfter 1 q)).message = blame text (String.ofList q) := by
    intro hne
    rw [blame, if_neg (hne ∘ hwhole.mp), String.toList_ofList, ← columnAfter_one]
    rfl
  unfold Lexed.reason
  cases rest with
  | cons x rest =>
    show (Reason.unexpected x.column).message = _
    rw [hplaced.column_eq, hq]
    apply hunexpected
    rw [spelled_cons, List.append_assoc]
    exact fun hnil => x.token.spelling_ne_nil (List.append_eq_nil_iff.mp hnil).1
  | nil =>
    by_cases hleft : left = []
    · rw [if_pos hleft] at hending
      rw [hending, blame, if_pos (hwhole.mpr (by rw [hleft]; rfl))]
      rfl
    · rw [if_neg hleft, List.append_nil, hq] at hending
      rw [hending]
      exact hunexpected hleft

/-- Tokens that both the lexemes and a whole descriptor start with end before the lexeme that leads
    nowhere. -/
theorem isPrefix_of_blocked {s' : State} {before rest : Rest} {ts us : List Token}
    (hrun : s.run (before.map Lexeme.token) = some s') (hblocked : Blocked s' rest)
    (htext : ts <+: (before ++ rest).map Lexeme.token) (hread : ts <+: us)
    (hfinished : s.run us = some .finished) : ts <+: before.map Lexeme.token := by
  rw [List.map_append] at htext
  obtain h | ⟨more, rfl⟩ := List.prefix_or_prefix_of_prefix htext (List.prefix_append _ _)
  · exact h
  obtain ⟨others, rfl⟩ := hread
  rw [List.append_assoc, State.run_append, hrun, Option.bind_some] at hfinished
  cases more with
  | nil => exact ⟨[], by simp⟩
  | cons t more =>
    -- The next token is the one that leads nowhere.
    have hnext : t :: more <+: rest.map Lexeme.token := (List.prefix_append_right_inj _).mp htext
    cases rest with
    | nil => exact absurd hnext (by simp)
    | cons x after =>
      obtain rfl : t = x.token := (List.cons_prefix_cons.mp hnext).1
      rw [List.cons_append, State.run, hblocked x after rfl] at hfinished
      cases hfinished

/-- The error for a text that is not empty gives the text and the reason of its tokens. -/
theorem reading_error {β : Type} {text : String} (hne : text ≠ "") {result : Except Reason β}
    {e : BadDescriptor} (h : reading text result = .error e) :
    ∃ reason, result = .error reason ∧ e = ⟨text, reason⟩ := by
  unfold reading at h
  rw [if_neg (by simpa using hne)] at h
  rcases result with reason | value
  · exact ⟨reason, rfl, (Except.error.inj h).symm⟩
  · cases h

/-- A text that is not read is blamed behind the longest start of texts that are. -/
theorem reading_blames (hreads : ∀ xs, Reads s .finished xs (reader xs)) (hs : s ≠ .finished)
    {text : String} (hne : text ≠ "") {e : BadDescriptor}
    (h : reading text ((tokens text).readAll reader) = .error e) :
    ∃ q, Longest (IsStart fun t => ∃ value, reading t ((tokens t).readAll reader) = .ok value)
      text q ∧ e.text = text ∧ e.reason.message = blame text q := by
  obtain ⟨reason, hreason, rfl⟩ := reading_error hne h
  obtain ⟨before, rest, s', hsplit, hrun, hblocked, rfl⟩ := exists_stop hreads hreason
  obtain ⟨left, hcutting, hgenuine⟩ := exists_cutting next?_honest () text
  refine ⟨_, ?_, rfl, message_reason hcutting hsplit⟩
  have hbefore : ∀ t ∈ before.map Lexeme.token, t.Genuine := by
    intro t ht
    obtain ⟨x, hx, rfl⟩ := List.mem_map.mp ht
    exact hgenuine x (hsplit ▸ List.mem_append_left rest hx)
  have hq : (String.ofList (JavaClass.spelled Token.spelling before)).toList =
      (before.map Lexeme.token).flatMap Token.spelling := by
    rw [String.toList_ofList, spelled_eq_flatMap]
  constructor
  case leads =>
    have htext := hcutting.text_eq
    rw [show (cut next? () text).lexemes = before ++ rest from hsplit] at htext
    rw [String.toList_ofList, htext]
    exact ⟨_, (List.append_assoc ..).symm.trans (congrArg (· ++ left) List.flatMap_append.symm)⟩
  case holds =>
    refine ⟨⟨_, hbefore, hq⟩, String.ofList (s'.completion.flatMap Token.spelling), ?_⟩
    refine (reading_ok_iff hreads hs _).mpr ⟨before.map Lexeme.token ++ s'.completion, ?_, ?_, ?_⟩
    · intro t ht
      exact (List.mem_append.mp ht).elim (hbefore t) (s'.completion_genuine t)
    · rw [String.toList_append, hq, String.toList_ofList, List.flatMap_append]
    · rw [State.run_append, hrun]
      exact s'.run_completion
  case longest =>
    rintro p ⟨tail, htail⟩ ⟨⟨ts, hts, hp⟩, more, haccepted⟩
    obtain ⟨us, hus, hmore, hfinished⟩ := (reading_ok_iff hreads hs _).mp haccepted
    -- The tokens of `p` are the first ones both of the text and of what is read.
    have hcuts : Cuts next? () text.toList ts () tail := by
      rw [← htail, hp]
      exact cuts_of_genuine hts tail
    obtain ⟨_, hcuts', hend⟩ := hcutting.cuts
    have htext : ts <+: (before ++ rest).map Lexeme.token := by
      rw [← hsplit]
      exact hcuts.isPrefix_of_end hcuts' hend
    have hread : ts <+: us := by
      have hall := cuts_of_genuine hus []
      rw [List.append_nil, ← hmore, String.toList_append, hp] at hall
      exact (cuts_of_genuine hts more.toList).isPrefix_of_end hall (.inl rfl)
    -- So they lead somewhere, and end where the reader stops at the latest.
    obtain ⟨others, hothers⟩ := isPrefix_of_blocked hrun hblocked htext hread hfinished
    show p.toList.length ≤ (String.ofList _).toList.length
    rw [hp, hq, ← hothers, List.flatMap_append, List.length_append]
    exact Nat.le_add_right _ _

end

/-- **Errors point behind the longest start of a descriptor.**  Let a text be no descriptor.  Of the
    parts that it starts with, some are rows of complete tokens that a descriptor of the kind can
    start with, and one of them is longest.  If that is the whole text, it ends too early; otherwise
    the column behind that part is blamed. -/
theorem errors_blame_longest_start (text : String) (hne : text ≠ "") :
    (∀ e, FieldType.parse text = .error e →
      (∃ q, Longest (IsStart fun t => ∃ type, FieldType.parse t = .ok type) text q) ∧
      ∀ q, Longest (IsStart fun t => ∃ type, FieldType.parse t = .ok type) text q →
        e.text = text ∧ e.reason.message = blame text q) ∧
    (∀ e, MethodType.parse text = .error e →
      (∃ q, Longest (IsStart fun t => ∃ type, MethodType.parse t = .ok type) text q) ∧
      ∀ q, Longest (IsStart fun t => ∃ type, MethodType.parse t = .ok type) text q →
        e.text = text ∧ e.reason.message = blame text q) := by
  constructor
  · intro e h
    have hreads : ∀ xs, Reads .field .finished xs (fieldType 0 xs) :=
      fun xs => fieldType_reads 0 xs true (by simp)
    obtain ⟨q, hq, htext, hreason⟩ := reading_blames hreads (by decide) hne h
    exact ⟨⟨q, hq⟩, fun q' hq' => hq.unique hq' ▸ ⟨htext, hreason⟩⟩
  · intro e h
    obtain ⟨q, hq, htext, hreason⟩ := reading_blames methodType_reads (by decide) hne h
    exact ⟨⟨q, hq⟩, fun q' hq' => hq.unique hq' ▸ ⟨htext, hreason⟩⟩

/-- A newline in a name starts the count again: behind it stand a semicolon and a bracket, and no
    result may stand behind a bracket. -/
theorem errors_blame_longest_start_newline :
    "(L\n;[V" ≠ "" ∧
    ∃ e q, MethodType.parse "(L\n;[V" = .error e ∧
      Longest (IsStart fun t => ∃ type, MethodType.parse t = .ok type) "(L\n;[V" q ∧
      e.reason.message = "unexpected input at column 3" ∧ blame "(L\n;[V" q = e.reason.message := by
  have hne : "(L\n;[V" ≠ "" := by decide
  have htokens : tokens "(L\n;[V" =
      ⟨[⟨1, .openParen⟩, ⟨2, .object "\n"⟩, ⟨2, .bracket⟩, ⟨3, .void⟩], .complete⟩ := by
    decide +kernel
  have herror : MethodType.parse "(L\n;[V" = .error ⟨"(L\n;[V", .unexpected 3⟩ := by
    unfold MethodType.parse
    rw [htokens]
    rfl
  obtain ⟨⟨q, hq⟩, hblame⟩ := (errors_blame_longest_start "(L\n;[V" hne).2 _ herror
  exact ⟨hne, _, q, herror, hq, rfl, (hblame q hq).2.symm⟩

end Descriptor

end JavaClass
