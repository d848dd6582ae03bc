/-
  JavaClass.Proofs.Constant.Description — what the table of descriptions holds.

  What a constant says can be worked out without a table, by following its references each time
  (`render`).  The table only saves work: every text in it is what its constant says (`Agrees`), so
  a description with the table is the one without (`Gives`).

  From this it is seen which slots cannot be described.  Only a four-byte number can fail, and no
  reference leads to one; so the slots are described unless one of them holds such a number
  (`all_result`).
-/
import JavaClass.Constant.Description

namespace JavaClass

namespace Description

/-! ## §1. Descriptions without a table. -/

/-- What a reference says that leads to a constant that `accepts`. -/
def reached (slots : Slots) (describe : Constant → Except Fault String)
    (accepts : Constant → Bool) (index : Nat) : Except Fault String :=
  match slots.constant? index with
  | none => .ok unresolvable
  | some c => if accepts c then describe c else .ok unresolvable

/-- What a constant says that refers to plain constants at most. -/
def renderCompound (slots : Slots) : Constant → Except Fault String
  | .member kind owner nameAndType =>
    (reached slots (plain slots) Constant.isClass owner.toNat).map fun owner =>
      memberText slots kind owner nameAndType
  | .dynamic bootstrap nameAndType =>
    (reached slots (plain slots) Constant.isNameAndType nameAndType.toNat).map
      (dynamicWords bootstrap)
  | .invokeDynamic bootstrap nameAndType =>
    (reached slots (plain slots) Constant.isNameAndType nameAndType.toNat).map
      (dynamicWords bootstrap)
  | c => plain slots c
where
  /-- A dynamic constant. -/
  dynamicWords (bootstrap : UInt16) (nameAndType : String) : String :=
    s!"bootstrap_method_attr_index={bootstrap} name_and_type_index={nameAndType}"

/-- What a constant says. -/
def render (slots : Slots) : Constant → Except Fault String
  | .methodHandle kind reference =>
    (reached slots (renderCompound slots) Constant.isMember reference.toNat).map fun member =>
      s!"reference_kind={referenceKindName kind.toNat} reference_index={member}"
  | c => renderCompound slots c

/-! ## §2. Following a reference with the table. -/

variable {α β : Type} {slots : Slots}

theorem bind_of_ok {σ : Type} {d : ExceptT Fault (StateM σ) α}
    {next : α → ExceptT Fault (StateM σ) β} {t t' : σ} {a : α} (h : d t = (.ok a, t')) :
    (d >>= next) t = next a t' := by
  show (ExceptT.bindCont next (d t).1) (d t).2 = _
  rw [h]
  rfl

theorem bind_of_error {σ : Type} {d : ExceptT Fault (StateM σ) α}
    {next : α → ExceptT Fault (StateM σ) β} {t t' : σ} {fault : Fault}
    (h : d t = (.error fault, t')) : (d >>= next) t = (.error fault, t') := by
  show (ExceptT.bindCont next (d t).1) (d t).2 = _
  rw [h]
  rfl

theorem get_apply (t : Table) : (get : Describing Table) t = (.ok t, t) := rfl

section

variable {describe : Constant → Describing String} {accepts : Constant → Bool} {index : Nat}
  {c : Constant} {t t' : Table} {text : String} {fault : Fault}

theorem follow_none (h : slots.constant? index = none) :
    follow slots describe accepts index t =
      (.ok unresolvable, { t with notices := .unresolvable index :: t.notices }) := by
  unfold follow
  rw [h]
  rfl

theorem follow_refused (h : slots.constant? index = some c) (ha : accepts c = false) :
    follow slots describe accepts index t =
      (.ok unresolvable, { t with notices := .unresolvable index :: t.notices }) := by
  unfold follow
  rw [h]
  dsimp only
  rw [ha]
  rfl

theorem follow_known (h : slots.constant? index = some c) (ha : accepts c = true)
    (hknown : t.known[index]? = some (some text)) :
    follow slots describe accepts index t = (.ok text, t) := by
  unfold follow
  rw [h]
  dsimp only
  rw [if_pos ha]
  refine (bind_of_ok (get_apply t)).trans ?_
  rw [hknown]
  rfl

theorem follow_unknown (h : slots.constant? index = some c) (ha : accepts c = true)
    (hunknown : ∀ text, t.known[index]? ≠ some (some text)) :
    follow slots describe accepts index t = (do
      let text ← describe c
      modify fun t => { t with known := t.known.setIfInBounds index (some text) }
      return text : Describing String) t := by
  unfold follow
  rw [h]
  dsimp only
  rw [if_pos ha]
  refine (bind_of_ok (get_apply t)).trans ?_
  rcases hknown : t.known[index]? with _ | _ | text
  · rfl
  · rfl
  · exact absurd hknown (hunknown text)

end

/-! ## §3. What a description does to the table. -/

/-- `t` becomes a table by notes of references that lead nowhere, and by texts that are learned. -/
inductive Table.Leads (t : Table) : Table → Prop
  | refl : t.Leads t
  | note {t' : Table} (h : t.Leads t') (index : Nat) :
    t.Leads { t' with notices := .unresolvable index :: t'.notices }
  | learn {t' : Table} (h : t.Leads t') (index : Nat) (text : String) :
    t.Leads { t' with known := t'.known.setIfInBounds index (some text) }

theorem Table.Leads.trans {t t' t'' : Table} (h : t.Leads t') (h' : t'.Leads t'') :
    t.Leads t'' := by
  induction h' with
  | refl => exact h
  | note _ index ih => exact .note ih index
  | learn _ index text ih => exact .learn ih index text

/-- All that a description does to the table is to note and to learn. -/
def Leads (d : Describing String) : Prop := ∀ t : Table, t.Leads (d t).2

theorem Leads.lift (result : Except Fault String) : Leads (compound.liftExcept result) :=
  fun _ => .refl

theorem Leads.map {d : Describing String} (f : String → String) (h : Leads d) :
    Leads (d >>= fun text => pure (f text)) := by
  intro t
  have hleads := h t
  rcases hrun : d t with ⟨fault | text, t'⟩ <;> rw [hrun] at hleads
  · rw [bind_of_error hrun]
    exact hleads
  · rw [bind_of_ok hrun]
    exact hleads

theorem Leads.follow {describe : Constant → Describing String} (h : ∀ c, Leads (describe c))
    (accepts : Constant → Bool) (index : Nat) : Leads (follow slots describe accepts index) := by
  intro t
  rcases hc : slots.constant? index with _ | c
  · rw [follow_none hc]
    exact .note .refl index
  cases ha : accepts c with
  | false =>
    rw [follow_refused hc ha]
    exact .note .refl index
  | true =>
    by_cases hknown : ∃ text, t.known[index]? = some (some text)
    · obtain ⟨text, hknown⟩ := hknown
      rw [follow_known hc ha hknown]
      exact .refl
    · rw [follow_unknown hc ha fun text htext => hknown ⟨text, htext⟩]
      have hleads := h c t
      rcases hrun : describe c t with ⟨fault | text, t'⟩ <;> rw [hrun] at hleads
      · rw [bind_of_error hrun]
        exact hleads
      · rw [bind_of_ok hrun]
        exact .learn hleads index text

theorem compound_leads (c : Constant) : Leads (compound slots c) := by
  have hplain : ∀ c, Leads ((compound.liftExcept ∘ plain slots) c) := fun c => .lift (plain slots c)
  cases c
  case member kind owner nameAndType => exact (Leads.follow hplain _ _).map _
  case dynamic bootstrap nameAndType => exact (Leads.follow hplain _ _).map _
  case invokeDynamic bootstrap nameAndType => exact (Leads.follow hplain _ _).map _
  all_goals exact .lift _

theorem any_leads (c : Constant) : Leads (any slots c) := by
  cases c
  case methodHandle kind reference => exact (Leads.follow compound_leads _ _).map _
  all_goals exact compound_leads _

/-- Describing slot after slot notes and learns as each description does. -/
theorem fill_leads (count index : Nat) (t : Table) : t.Leads (fill slots count index t).2 := by
  induction count generalizing index t with
  | zero => exact .refl
  | succ count ih =>
    have hleads : t.Leads (follow slots (any slots) (fun _ => true) index t).2 :=
      Leads.follow any_leads _ index t
    rw [fill]
    rcases hrun : follow slots (any slots) (fun _ => true) index t with ⟨fault | text, t'⟩ <;>
      rw [hrun] at hleads
    · exact hleads
    · exact hleads.trans (ih (index + 1) t')

theorem Table.Leads.notices {t t' : Table} (h : t.Leads t')
    (ht : ∀ n ∈ t.notices, ∃ slot, n = .unresolvable slot) :
    ∀ n ∈ t'.notices, ∃ slot, n = .unresolvable slot := by
  induction h with
  | refl => exact ht
  | note _ index ih =>
    intro n hn
    obtain rfl | hn := List.mem_cons.mp hn
    · exact ⟨index, rfl⟩
    · exact ih n hn
  | learn _ _ _ ih => exact ih

/-- Nothing is noted about slots but references that lead nowhere. -/
theorem all_notices (slots : Slots) : ∀ n ∈ (all slots).2, ∃ slot, n = .unresolvable slot := by
  have hleads : Table.Leads ⟨Array.replicate slots.size none, []⟩
      (fill slots (slots.size - 1) 1 ⟨Array.replicate slots.size none, []⟩).2 := fill_leads _ _ _
  have hnotices := hleads.notices fun _ hn => nomatch hn
  intro n hn
  refine hnotices n ?_
  unfold all at hn
  rcases hfill : fill slots (slots.size - 1) 1 ⟨Array.replicate slots.size none, []⟩ with
    ⟨fault | _, t⟩ <;> rw [hfill] at hn
  · exact List.mem_reverse.mp hn
  · exact List.mem_reverse.mp hn

/-! ## §4. The table agrees with the constants. -/

/-- Every text in the table is what its constant says. -/
def Agrees (slots : Slots) (t : Table) : Prop :=
  ∀ (index : Nat) (text : String), t.known[index]? = some (some text) →
    ∃ c, slots.constant? index = some c ∧ render slots c = .ok text

/-- Whatever a table knows that agrees, `d` gives `result`, and the table still agrees. -/
def Gives (slots : Slots) (d : Describing String) (result : Except Fault String) : Prop :=
  ∀ t, Agrees slots t → ∃ t', d t = (result, t') ∧ Agrees slots t'

theorem Gives.lift (result : Except Fault String) :
    Gives slots (compound.liftExcept result) result := fun t ht => ⟨t, rfl, ht⟩

theorem Gives.map {d : Describing String} {result : Except Fault String} (f : String → String)
    (h : Gives slots d result) : Gives slots (d >>= fun text => pure (f text)) (result.map f) := by
  intro t ht
  obtain ⟨t', hrun, ht'⟩ := h t ht
  refine ⟨t', ?_, ht'⟩
  cases result with
  | error fault => exact bind_of_error hrun
  | ok text => exact bind_of_ok hrun

theorem Agrees.learn {t : Table} (ht : Agrees slots t) {index : Nat} {c : Constant} {text : String}
    (h : slots.constant? index = some c) (htext : render slots c = .ok text) :
    Agrees slots { t with known := t.known.setIfInBounds index (some text) } := by
  intro i text' hknown
  have hset : (t.known.setIfInBounds index (some text))[i]? = some (some text') := hknown
  rw [Array.getElem?_setIfInBounds] at hset
  by_cases hi : index = i
  · subst hi
    rw [if_pos rfl] at hset
    by_cases hsize : index < t.known.size
    · rw [if_pos hsize] at hset
      obtain rfl : text = text' := Option.some.inj (Option.some.inj hset)
      exact ⟨c, h, htext⟩
    · rw [if_neg hsize] at hset
      cases hset
  · rw [if_neg hi] at hset
    exact ht i text' hset

/-- Following a reference gives what the constant says, from the table or not. -/
theorem Gives.follow {describe : Constant → Describing String} {accepts : Constant → Bool}
    (h : ∀ c, accepts c = true → Gives slots (describe c) (render slots c)) (index : Nat) :
    Gives slots (follow slots describe accepts index)
      (reached slots (render slots) accepts index) := by
  intro t ht
  unfold reached
  rcases hc : slots.constant? index with _ | c
  · exact ⟨_, follow_none hc, ht⟩
  dsimp only
  cases ha : accepts c with
  | false => exact ⟨_, follow_refused hc ha, ht⟩
  | true =>
    rw [if_pos rfl]
    by_cases hknown : ∃ text, t.known[index]? = some (some text)
    -- The table has a text, and it is what the constant says.
    · obtain ⟨text, hknown⟩ := hknown
      obtain ⟨c', hc', htext⟩ := ht index text hknown
      obtain rfl : c = c' := Option.some.inj (hc.symm.trans hc')
      exact ⟨t, by rw [htext]; exact follow_known hc ha hknown, ht⟩
    -- It has none: the text is worked out, and learned unless there is none.
    · rw [follow_unknown hc ha fun text htext => hknown ⟨text, htext⟩]
      obtain ⟨t', hrun, ht'⟩ := h c ha t ht
      rcases hresult : render slots c with fault | text <;> rw [hresult] at hrun
      · exact ⟨t', bind_of_error hrun, ht'⟩
      · exact ⟨_, bind_of_ok hrun, ht'.learn hc hresult⟩

theorem reached_congr {d d' : Constant → Except Fault String} {accepts : Constant → Bool}
    (h : ∀ c, accepts c = true → d c = d' c) (index : Nat) :
    reached slots d accepts index = reached slots d' accepts index := by
  unfold reached
  rcases slots.constant? index with _ | c
  · rfl
  · dsimp only
    by_cases ha : accepts c = true
    · rw [if_pos ha, if_pos ha, h c ha]
    · rw [if_neg ha, if_neg ha]

theorem Gives.follow_plain {accepts : Constant → Bool}
    (h : ∀ c, accepts c = true → plain slots c = render slots c) (index : Nat) :
    Gives slots (Description.follow slots (compound.liftExcept ∘ plain slots) accepts index)
      (reached slots (plain slots) accepts index) := by
  rw [reached_congr h]
  refine Gives.follow ?_ index
  intro c ha
  rw [← h c ha]
  exact .lift (plain slots c)

theorem plain_eq_render_of_isClass (c : Constant) (h : c.isClass = true) :
    plain slots c = render slots c := by
  cases c with
  | cls name => rfl
  | _ => cases h

theorem plain_eq_render_of_isNameAndType (c : Constant) (h : c.isNameAndType = true) :
    plain slots c = render slots c := by
  cases c with
  | nameAndType name descriptor => rfl
  | _ => cases h

theorem compound_gives (c : Constant) : Gives slots (compound slots c) (renderCompound slots c) := by
  cases c
  case member kind owner nameAndType =>
    exact (Gives.follow_plain plain_eq_render_of_isClass owner.toNat).map _
  case dynamic bootstrap nameAndType =>
    exact (Gives.follow_plain plain_eq_render_of_isNameAndType nameAndType.toNat).map _
  case invokeDynamic bootstrap nameAndType =>
    exact (Gives.follow_plain plain_eq_render_of_isNameAndType nameAndType.toNat).map _
  all_goals exact .lift _

theorem renderCompound_eq_render_of_isMember (c : Constant) (h : c.isMember = true) :
    renderCompound slots c = render slots c := by
  cases c with
  | member kind owner nameAndType => rfl
  | _ => cases h

/-- A description with the table is the one without. -/
theorem any_gives (c : Constant) : Gives slots (any slots c) (render slots c) := by
  have hcompound : Gives slots (compound slots c) (renderCompound slots c) := compound_gives c
  cases c
  case methodHandle kind reference =>
    have hmember : Gives slots
        (Description.follow slots (compound slots) Constant.isMember reference.toNat)
        (reached slots (renderCompound slots) Constant.isMember reference.toNat) := by
      rw [reached_congr renderCompound_eq_render_of_isMember]
      refine Gives.follow ?_ reference.toNat
      intro c hc
      rw [← renderCompound_eq_render_of_isMember c hc]
      exact compound_gives c
    exact hmember.map _
  all_goals exact hcompound

/-! ## §5. Which slots are described. -/

/-- The constant is a four-byte number that no text stands for. -/
def Overflows (c : Constant) : Prop :=
  ∃ number, c = .float number ∧ number.value.displaySingle? = none

theorem reached_ok {d : Constant → Except Fault String} {accepts : Constant → Bool}
    (h : ∀ c, accepts c = true → ∃ text, d c = .ok text) (index : Nat) :
    ∃ text, reached slots d accepts index = .ok text := by
  unfold reached
  rcases slots.constant? index with _ | c
  · exact ⟨_, rfl⟩
  · dsimp only
    by_cases ha : accepts c = true
    · rw [if_pos ha]
      exact h c ha
    · rw [if_neg ha]
      exact ⟨_, rfl⟩

/-- No reference leads to a number. -/
theorem renderCompound_of_isMember (c : Constant) (h : c.isMember = true) :
    ∃ text, renderCompound slots c = .ok text := by
  cases c with
  | member kind owner nameAndType =>
    have hclass : ∀ c : Constant, c.isClass = true → ∃ text, plain slots c = .ok text := by
      intro c hc
      cases c with
      | cls name => exact ⟨_, rfl⟩
      | _ => cases hc
    obtain ⟨text, htext⟩ := reached_ok hclass owner.toNat
    exact ⟨memberText slots kind text nameAndType, by rw [renderCompound, htext]; rfl⟩
  | _ => cases h

theorem plain_of_isNameAndType (c : Constant) (h : c.isNameAndType = true) :
    ∃ text, plain slots c = .ok text := by
  cases c with
  | nameAndType name descriptor => exact ⟨_, rfl⟩
  | _ => cases h

theorem renderCompound_of_no_overflow {c : Constant} (h : ¬ Overflows c) :
    ∃ text, renderCompound slots c = .ok text := by
  cases c
  case member kind owner nameAndType => exact renderCompound_of_isMember _ rfl
  case dynamic bootstrap nameAndType =>
    obtain ⟨text, htext⟩ := reached_ok plain_of_isNameAndType nameAndType.toNat
    exact ⟨_, by rw [renderCompound, htext]; rfl⟩
  case invokeDynamic bootstrap nameAndType =>
    obtain ⟨text, htext⟩ := reached_ok plain_of_isNameAndType nameAndType.toNat
    exact ⟨_, by rw [renderCompound, htext]; rfl⟩
  case float number =>
    rcases hdisplay : number.value.displaySingle? with _ | text
    · exact absurd ⟨number, rfl, hdisplay⟩ h
    · exact ⟨text, by simp only [renderCompound, plain, hdisplay, Option.elim]⟩
  all_goals exact ⟨_, rfl⟩

theorem render_of_no_overflow {c : Constant} (h : ¬ Overflows c) :
    ∃ text, render slots c = .ok text := by
  have hcompound : ∃ text, renderCompound slots c = .ok text := renderCompound_of_no_overflow h
  cases c
  case methodHandle kind reference =>
    obtain ⟨text, htext⟩ := reached_ok renderCompound_of_isMember reference.toNat
    exact ⟨_, by rw [render, htext]; rfl⟩
  all_goals exact hcompound

theorem render_of_overflow {c : Constant} (h : Overflows c) :
    render slots c = .error .tooLarge := by
  obtain ⟨number, rfl, hdisplay⟩ := h
  simp only [render, renderCompound, plain, hdisplay, Option.elim]

/-- A slot is described unless it holds a number that no text stands for. -/
theorem follow_any (index : Nat) {t : Table} (ht : Agrees slots t) :
    ∃ t', Agrees slots t' ∧
      (((∀ c, slots.constant? index = some c → ¬ Overflows c) ∧ ∃ text,
        follow slots (any slots) (fun _ => true) index t = (.ok text, t')) ∨
      ((∃ c, slots.constant? index = some c ∧ Overflows c) ∧
        follow slots (any slots) (fun _ => true) index t = (.error .tooLarge, t'))) := by
  obtain ⟨t', hrun, ht'⟩ := Gives.follow (fun c _ => any_gives c) index t ht
  refine ⟨t', ht', ?_⟩
  unfold reached at hrun
  rcases hc : slots.constant? index with _ | c <;> rw [hc] at hrun
  · exact .inl ⟨fun _ hsome => (nomatch hsome), unresolvable, hrun⟩
  · dsimp only at hrun
    rw [if_pos rfl] at hrun
    by_cases hoverflow : Overflows c
    · rw [render_of_overflow hoverflow] at hrun
      exact .inr ⟨⟨c, rfl, hoverflow⟩, hrun⟩
    · obtain ⟨text, htext⟩ := render_of_no_overflow hoverflow
      rw [htext] at hrun
      refine .inl ⟨?_, text, hrun⟩
      intro c' hc'
      obtain rfl : c = c' := Option.some.inj hc'
      exact hoverflow

/-- Slots are described one after the other, up to the first that cannot be. -/
theorem fill_result (count index : Nat) {t : Table} (ht : Agrees slots t) :
    ((∀ i c, index ≤ i → i < index + count → slots.constant? i = some c → ¬ Overflows c) ∧
      (fill slots count index t).1 = .ok ()) ∨
    ((∃ (i : Nat) (c : Constant), slots.constant? i = some c ∧ Overflows c) ∧
      (fill slots count index t).1 = .error .tooLarge) := by
  induction count generalizing index t with
  | zero =>
    refine .inl ⟨?_, rfl⟩
    intro i c hlo hhi
    omega
  | succ count ih =>
    rw [fill]
    obtain ⟨t', ht', ⟨hnone, text, hrun⟩ | ⟨⟨c, hc, hoverflow⟩, hrun⟩⟩ := follow_any index ht <;>
      rw [hrun]
    · obtain ⟨hrest, hresult⟩ | hfailed := ih (index + 1) ht'
      · refine .inl ⟨?_, hresult⟩
        intro i c hlo hhi hc
        by_cases hi : i = index
        · subst hi
          exact hnone c hc
        · exact hrest i c (by omega) (by omega) hc
      · exact .inr hfailed
    · exact .inr ⟨⟨index, c, hc, hoverflow⟩, rfl⟩

theorem size_of_constant? {index : Nat} {c : Constant} (h : slots.constant? index = some c) :
    index < slots.size := by
  by_cases hsize : index < slots.size
  · exact hsize
  · have hslot : slots[index]? = none := Array.getElem?_eq_none (by omega)
    simp [Slots.constant?, Slots.located?, hslot] at h

theorem agrees_empty (slots : Slots) (size : Nat) :
    Agrees slots ⟨Array.replicate size none, []⟩ := by
  intro index text hknown
  have hknown : (Array.replicate size (none : Option String))[index]? = some (some text) := hknown
  rw [Array.getElem?_replicate] at hknown
  split at hknown
  · cases hknown
  · cases hknown

/-- Slots are described unless one of them holds a number that no text stands for; slot 0 is left
    out. -/
theorem all_result (hzero : slots.constant? 0 = none) :
    ((∀ (index : Nat) (c : Constant), slots.constant? index = some c → ¬ Overflows c) ∧
      ∃ descriptions, (all slots).1 = .ok descriptions) ∨
    ((∃ (index : Nat) (c : Constant), slots.constant? index = some c ∧ Overflows c) ∧
      (all slots).1 = .error .tooLarge) := by
  unfold all
  rcases hfill : fill slots (slots.size - 1) 1 ⟨Array.replicate slots.size none, []⟩ with
    ⟨result, t⟩
  obtain ⟨hnone, hresult⟩ | ⟨hoverflow, hresult⟩ :=
    fill_result (slots.size - 1) 1 (agrees_empty slots slots.size) <;> rw [hfill] at hresult
  · obtain rfl : result = .ok () := hresult
    refine .inl ⟨?_, _, rfl⟩
    intro index c hc
    have hsize := size_of_constant? hc
    have hpos : index ≠ 0 := by
      rintro rfl
      rw [show slots.constant? (0 : Nat) = none from hzero] at hc
      cases hc
    exact hnone index c (by omega) (by omega) hc
  · obtain rfl : result = .error .tooLarge := hresult
    exact .inr ⟨hoverflow, rfl⟩

/-- The only fault of describing slots is a number that no text stands for. -/
theorem all_fault {fault : Fault} (h : (all slots).1 = .error fault) : fault = .tooLarge := by
  unfold all at h
  rcases hfill : fill slots (slots.size - 1) 1 ⟨Array.replicate slots.size none, []⟩ with
    ⟨fault' | _, t⟩ <;> rw [hfill] at h
  · obtain rfl : fault' = fault := Except.error.inj h
    obtain ⟨-, hresult⟩ | ⟨-, hresult⟩ :=
      fill_result (slots.size - 1) 1 (agrees_empty slots slots.size) <;> rw [hfill] at hresult
    · cases hresult
    · exact Except.error.inj hresult
  · cases h

end Description

end JavaClass
