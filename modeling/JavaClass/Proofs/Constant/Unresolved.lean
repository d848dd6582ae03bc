/-
  JavaClass.Proofs.Constant.Unresolved — the notes that a pool makes of references that lead nowhere.

  A constant that is described before its turn, because another one refers to it, is not described
  again when its turn comes.  So the notes of a table can be accounted for: each constant that the
  table knows has made its own notes once, and nothing else has made any (`Balanced`).  Every
  description keeps this account, whatever the table knows before, and adds the notes of the constant
  that is described (`Pays`).

  Main statement (`Pool.read_notices`): the notes that are made while a pool is read are, in some order,
  the numbers of the slots that cannot be referred to, and one number for each constant whose
  reference leads to no constant of the right kind.
-/
import JavaClass.Proofs.Constant.Walk

namespace JavaClass

/-! ## §1. What is to be noted. -/

/-- The number, if it does not lead to a constant that `accepts`. -/
def Slots.blind (slots : Slots) (accepts : Constant → Bool) (index : Nat) : List Nat :=
  if (slots.constant? index).any accepts then [] else [index]

section Blind

variable {slots : Slots} {accepts : Constant → Bool} {index : Nat}

theorem Slots.blind_of_accepted {c : Constant} (hc : slots.constant? index = some c)
    (ha : accepts c = true) : slots.blind accepts index = [] := by
  unfold blind
  rw [hc, Option.any_some, if_pos ha]

theorem Slots.blind_of_refused (h : ∀ c, slots.constant? index = some c → accepts c = false) :
    slots.blind accepts index = [index] := by
  unfold blind
  rcases hc : slots.constant? index with _ | c
  · rfl
  · rw [Option.any_some, h c hc]
    rfl

end Blind

/-- The reference that is followed to describe a constant, if it leads nowhere. -/
def Constant.dangling (slots : Slots) : Constant → List Nat
  | .member _ owner _ => slots.blind isClass owner.toNat
  | .methodHandle _ reference => slots.blind isMember reference.toNat
  | .dynamic _ reference | .invokeDynamic _ reference => slots.blind isNameAndType reference.toNat
  | _ => []

/-- The notes of numbers that lead nowhere. -/
def Notice.unresolvables (numbers : List Nat) : List Notice :=
  numbers.map fun n : Nat => .unresolvable n

theorem Notice.unresolvables_perm {first second : List Nat} (h : first.Perm second) :
    (Notice.unresolvables first).Perm (Notice.unresolvables second) := h.map _

namespace Description

variable {slots : Slots} {t t' : Table} {extra : List Nat} {index : Nat}

/-- The notes that the constant with a number makes. -/
def owed (slots : Slots) (index : Nat) : List Nat :=
  match slots.constant? index with
  | some c => c.dangling slots
  | none => []

theorem owed_of_constant {c : Constant} (h : slots.constant? index = some c) :
    owed slots index = c.dangling slots := by
  unfold owed
  rw [h]

/-! ## §2. The account of a table. -/

/-- A slot is known once its text is learned, and no other slot is. -/
theorem Table.knows_learn_iff (t : Table) {index : Nat} (text : String) (h : index < t.known.size)
    (i : Nat) :
    Knows { t with known := t.known.setIfInBounds index (some text) } i ↔ i = index ∨ t.Knows i := by
  constructor
  · rintro ⟨found, hfound⟩
    have hset : (t.known.setIfInBounds index (some text))[i]? = some (some found) := hfound
    by_cases hi : index = i
    · exact .inl hi.symm
    · rw [Array.getElem?_setIfInBounds_ne hi] at hset
      exact .inr ⟨found, hset⟩
  · rintro (rfl | hknown)
    · exact t.knows_learn text h
    · exact (t.grows_learn index text).knows i hknown

/-- The table has room for all slots, and its notes are those of the constants that it knows, each
    counted once, and `extra`. -/
structure Balanced (slots : Slots) (t : Table) (extra : List Nat) : Prop where
  size : t.known.size = slots.size
  account : ∃ known : List Nat, known.Nodup ∧ (∀ i, i ∈ known ↔ t.Knows i) ∧
    t.notices.Perm (Notice.unresolvables (known.flatMap (owed slots) ++ extra))

theorem Balanced.perm {extra' : List Nat} (h : Balanced slots t extra) (hperm : extra.Perm extra') :
    Balanced slots t extra' := by
  obtain ⟨hsize, known, hnodup, hknown, hnotices⟩ := h
  exact ⟨hsize, known, hnodup, hknown,
    hnotices.trans (Notice.unresolvables_perm (hperm.append_left _))⟩

theorem Balanced.note (h : Balanced slots t extra) (index : Nat) :
    Balanced slots { t with notices := .unresolvable index :: t.notices } (index :: extra) := by
  obtain ⟨hsize, known, hnodup, hknown, hnotices⟩ := h
  refine ⟨hsize, known, hnodup, hknown, ?_⟩
  have hmoved : (known.flatMap (owed slots) ++ index :: extra).Perm
      (index :: (known.flatMap (owed slots) ++ extra)) := List.perm_middle
  exact (hnotices.cons _).trans (Notice.unresolvables_perm hmoved).symm

/-- What a constant has noted is counted as its own when its text is learned. -/
theorem Balanced.learn {c : Constant} (hc : slots.constant? index = some c)
    (h : Balanced slots t (c.dangling slots ++ extra)) (hnew : ¬ t.Knows index) (text : String) :
    Balanced slots { t with known := t.known.setIfInBounds index (some text) } extra := by
  have howed := owed_of_constant hc
  have hlt := size_of_constant? hc
  obtain ⟨hsize, known, hnodup, hknown, hnotices⟩ := h
  refine ⟨Array.size_setIfInBounds.trans hsize, index :: known, ?_, ?_, ?_⟩
  · exact List.nodup_cons.mpr ⟨fun hmem => hnew ((hknown index).mp hmem), hnodup⟩
  · intro i
    rw [List.mem_cons, hknown, t.knows_learn_iff text (by omega)]
  · refine hnotices.trans (Notice.unresolvables_perm ?_)
    rw [List.flatMap_cons, howed, ← List.append_assoc]
    exact List.perm_append_comm.append_right extra

/-! ## §3. Descriptions keep the account. -/

/-- From a table that is balanced, `d` leads to one that is balanced as well, with the notes `own` more.
    It learns no constants but those of a rank below `r`. -/
def Pays (slots : Slots) (r : Nat) (own : List Nat) (d : Describing String) : Prop :=
  ∀ (t t' : Table) (text : String) (extra : List Nat), Balanced slots t extra →
    d t = (.ok text, t') →
    Balanced slots t' (own ++ extra) ∧
      ∀ (i : Nat) c, slots.constant? i = some c → r ≤ rank c → t'.Knows i → t.Knows i

theorem Pays.lift (r : Nat) (result : Except Fault String) :
    Pays slots r [] (compound.liftExcept result) := by
  intro t t' text extra hbalanced hrun
  obtain rfl : t = t' := (Prod.mk.inj hrun).2
  exact ⟨hbalanced, fun _ _ _ _ hknown => hknown⟩

theorem Pays.map {r : Nat} {own : List Nat} {d : Describing String} (f : String → String)
    (h : Pays slots r own d) : Pays slots r own (d >>= fun text => pure (f text)) := by
  intro t t' text extra hbalanced hrun
  rcases hd : d t with ⟨fault | found, t₁⟩
  · rw [bind_of_error hd] at hrun
    cases hrun
  · rw [bind_of_ok hd] at hrun
    obtain rfl : t₁ = t' := (Prod.mk.inj hrun).2
    exact h t t₁ found extra hbalanced hd

/-- A reference that is followed is noted if it leads nowhere.  Otherwise it adds no notes: the notes of
    the constant that it leads to are those of a constant that the table knows from then on. -/
theorem Pays.follow {describe : Constant → Describing String} {accepts : Constant → Bool} {r : Nat}
    (h : ∀ c, accepts c = true → Pays slots (rank c) (c.dangling slots) (describe c))
    (hr : ∀ c, accepts c = true → rank c < r) (index : Nat) :
    Pays slots r (slots.blind accepts index) (follow slots describe accepts index) := by
  intro t t' text extra hbalanced hrun
  rcases hc : slots.constant? index with _ | c
  · rw [follow_none hc] at hrun
    obtain rfl := (Prod.mk.inj hrun).2
    rw [Slots.blind_of_refused fun c hsome => nomatch hc.symm.trans hsome]
    exact ⟨hbalanced.note index, fun _ _ _ _ hknown => hknown⟩
  cases ha : accepts c with
  | false =>
    rw [follow_refused hc ha] at hrun
    obtain rfl := (Prod.mk.inj hrun).2
    have hrefused : ∀ d, slots.constant? index = some d → accepts d = false := by
      intro d hd
      obtain rfl : c = d := Option.some.inj (hc.symm.trans hd)
      exact ha
    rw [Slots.blind_of_refused hrefused]
    exact ⟨hbalanced.note index, fun _ _ _ _ hknown => hknown⟩
  | true =>
    rw [Slots.blind_of_accepted hc ha, List.nil_append]
    by_cases hknown : t.Knows index
    · obtain ⟨found, hfound⟩ := hknown
      rw [follow_known hc ha hfound] at hrun
      obtain rfl := (Prod.mk.inj hrun).2
      exact ⟨hbalanced, fun _ _ _ _ hknown => hknown⟩
    · rw [follow_unknown hc ha fun found hfound => hknown ⟨found, hfound⟩] at hrun
      rcases hd : describe c t with ⟨fault | found, t₁⟩
      · rw [bind_of_error hd] at hrun
        cases hrun
      rw [bind_of_ok hd] at hrun
      obtain rfl := (Prod.mk.inj hrun).2
      obtain ⟨hpaid, hlow⟩ := h c ha t t₁ found extra hbalanced hd
      -- The constant itself is not learned while it is described: its rank is not below its own.
      have hnew : ¬ t₁.Knows index := fun hnow => hknown (hlow index c hc (Nat.le_refl _) hnow)
      have hlt : index < t₁.known.size := by
        rw [hpaid.size]
        exact size_of_constant? hc
      refine ⟨hpaid.learn hc hnew found, ?_⟩
      intro i d hd' hrank hnow
      have hlower := hr c ha
      obtain rfl | hbefore := (t₁.knows_learn_iff found hlt i).mp hnow
      · obtain rfl : c = d := Option.some.inj (hc.symm.trans hd')
        omega
      · exact hlow i d hd' (by omega) hbefore

/-- Constants without references to follow note nothing. -/
theorem plain_pays {c : Constant} (h : rank c = 0) :
    Pays slots (rank c) (c.dangling slots) ((compound.liftExcept ∘ plain slots) c) := by
  cases c
  case member => cases h
  case methodHandle => cases h
  case dynamic => cases h
  case invokeDynamic => cases h
  all_goals exact .lift _ _

theorem compound_pays {c : Constant} (h : rank c ≤ 1) :
    Pays slots (rank c) (c.dangling slots) (compound slots c) := by
  have hclass : ∀ c : Constant, c.isClass = true →
      Pays slots (rank c) (c.dangling slots) ((compound.liftExcept ∘ plain slots) c) := by
    intro c hc
    have hrank := rank_lt_of_isClass c hc
    exact plain_pays (by omega)
  have hnameAndType : ∀ c : Constant, c.isNameAndType = true →
      Pays slots (rank c) (c.dangling slots) ((compound.liftExcept ∘ plain slots) c) := by
    intro c hc
    have hrank := rank_lt_of_isNameAndType c hc
    exact plain_pays (by omega)
  cases c
  case member kind owner nameAndType =>
    exact (Pays.follow hclass rank_lt_of_isClass owner.toNat).map _
  case dynamic bootstrap nameAndType =>
    exact (Pays.follow hnameAndType rank_lt_of_isNameAndType nameAndType.toNat).map _
  case invokeDynamic bootstrap nameAndType =>
    exact (Pays.follow hnameAndType rank_lt_of_isNameAndType nameAndType.toNat).map _
  case methodHandle kind reference =>
    have hrank : 2 ≤ 1 := h
    omega
  all_goals exact .lift _ _

/-- Every constant makes the notes that it owes, and no others. -/
theorem any_pays (c : Constant) : Pays slots (rank c) (c.dangling slots) (any slots c) := by
  have hmember : ∀ c : Constant, c.isMember = true →
      Pays slots (rank c) (c.dangling slots) (compound slots c) := by
    intro c hc
    have hrank := rank_lt_of_isMember c hc
    exact compound_pays (by omega)
  cases c
  case methodHandle kind reference =>
    exact (Pays.follow hmember rank_lt_of_isMember reference.toNat).map _
  all_goals exact compound_pays (by simp [rank])

/-- Slot after slot is described, and the account is kept: slots without a constant are noted. -/
theorem fill_balanced (count index : Nat) (h : Balanced slots t extra)
    (hrun : fill slots count index t = (.ok (), t')) :
    Balanced slots t'
      ((List.range' index count).flatMap (slots.blind fun _ => true) ++ extra) := by
  induction count generalizing index t extra with
  | zero =>
    obtain rfl : t = t' := (Prod.mk.inj hrun).2
    exact h
  | succ count ih =>
    rw [fill] at hrun
    rcases hfollow : follow slots (any slots) (fun _ => true) index t with ⟨fault | text, t₁⟩ <;>
      rw [hfollow] at hrun
    · cases hrun
    obtain ⟨hpaid, -⟩ := Pays.follow (fun c _ => any_pays c) (fun c _ => rank_lt_three c) index
      t t₁ text extra h hfollow
    refine (ih (index + 1) hpaid hrun).perm ?_
    rw [List.range'_succ, List.flatMap_cons, ← List.append_assoc]
    exact List.perm_append_comm.append_right extra

theorem balanced_empty (slots : Slots) : Balanced slots ⟨Array.replicate slots.size none, []⟩ [] := by
  refine ⟨Array.size_replicate, [], List.nodup_nil, ?_, .refl _⟩
  intro i
  constructor
  · intro hmem
    cases hmem
  · rintro ⟨text, hknown⟩
    simp [Array.getElem?_replicate] at hknown

/-- The table that is filled knows the slots with a constant. -/
theorem knows_of_fill (hzero : slots.constant? 0 = none)
    (h : fill slots (slots.size - 1) 1 ⟨Array.replicate slots.size none, []⟩ = (.ok (), t))
    (i : Nat) : t.Knows i ↔ (slots.constant? i).isSome = true := by
  obtain ⟨hagrees, -, hcomplete⟩ :=
    fill_complete _ _ (agrees_empty slots slots.size) Array.size_replicate h
  constructor
  · rintro ⟨text, htext⟩
    obtain ⟨c, hc, -⟩ := hagrees i text htext
    rw [hc]
    rfl
  · intro hsome
    obtain ⟨c, hc⟩ := Option.isSome_iff_exists.mp hsome
    have hlt := size_of_constant? hc
    have hpos : i ≠ 0 := by
      rintro rfl
      exact nomatch hzero.symm.trans hc
    exact hcomplete i c (by omega) (by omega) hc

end Description

/-! ## §4. Slots. -/

namespace Slots

/-- The constant in a slot, by the number of slots before it. -/
theorem constant?_append (before : List Slot) (slot : Slot) (after : List Slot) :
    Slots.constant? (before ++ slot :: after).toArray before.length =
      slot.located?.map (·.value) := by
  unfold constant? located?
  cases slot <;> simp [Slot.located?]

/-- Every slot that is read holds a constant or is the second slot of one. -/
theorem readAll_used (count : Nat) (slots : Slots) :
    (Decoder.repeated count readNext slots).Always fun slots' =>
      ∃ more : List Slot, slots'.toList = slots.toList ++ more ∧ ∀ slot ∈ more, slot ≠ .unused := by
  have hstep : ∀ slots : Slots, (readNext slots).Always fun slots' =>
      ∃ slot, slots' = slots.push slot ∧ slot ≠ .unused := by
    intro slots
    unfold readNext
    split
    · exact .bind fun p => .pure ⟨.upper p, rfl, fun h => nomatch h⟩
    · exact .bind fun c => .pure ⟨.constant c, rfl, fun h => nomatch h⟩
  induction count generalizing slots with
  | zero => exact .pure ⟨[], (List.append_nil _).symm, fun _ hmem => nomatch hmem⟩
  | succ count ih =>
    rw [Decoder.repeated_succ]
    refine .bind_of (hstep slots) ?_
    rintro _ ⟨slot, rfl, hslot⟩
    intro c after hresult
    obtain ⟨more, hafter, hmore⟩ := ih _ c after hresult
    refine ⟨slot :: more, ?_, ?_⟩
    · rw [hafter, Array.toList_push, List.append_assoc, List.singleton_append]
    · intro other hmem
      obtain rfl | hmem := List.mem_cons.mp hmem
      · exact hslot
      · exact hmore other hmem

/-- The slots without a constant are the second slots of constants that take two. -/
theorem blind_range' (before more : List Slot) (hmore : ∀ slot ∈ more, slot ≠ .unused) :
    (List.range' before.length more.length).flatMap
        (Slots.blind (before ++ more).toArray fun _ => true) =
      (numbered Slot.upper? before.length more).map Prod.fst := by
  induction more generalizing before with
  | nil => rfl
  | cons slot rest ih =>
    have hslot := constant?_append before slot rest
    have hrest := ih (before ++ [slot]) fun other hmem => hmore other (List.mem_cons_of_mem slot hmem)
    simp only [List.length_append, List.length_singleton, List.append_assoc,
      List.singleton_append] at hrest
    rw [List.length_cons, List.range'_succ, List.flatMap_cons, hrest]
    unfold blind
    rw [hslot]
    cases slot with
    | unused => exact absurd rfl (hmore .unused List.mem_cons_self)
    | constant c =>
      rw [numbered_cons_none (Slot.upper?_constant c)]
      rfl
    | upper position =>
      rw [numbered_cons_some (Slot.upper?_upper position)]
      rfl

end Slots

namespace Pool

variable {pool : Pool}

/-- The constants of a pool are those that can be referred to by a number. -/
theorem mem_constants {index : Nat} {c : Located Constant} :
    (index, c) ∈ pool.constants ↔ pool.slots.located? index = some c := by
  have hslot : pool.slots.located? index = pool.slots[index]?.bind Slot.located? := by
    unfold Slots.located?
    rw [if_neg (by omega), Int.toNat_natCast]
    rcases pool.slots[index]? with _ | (_ | _ | _) <;> rfl
  rw [constants_eq, hslot, Option.bind_eq_some_iff]
  unfold Slots.numbered
  rw [List.mem_filterMap]
  constructor
  · rintro ⟨⟨slot, i⟩, hmem, hfound⟩
    obtain ⟨d, hd, hpair⟩ := Option.map_eq_some_iff.mp hfound
    obtain ⟨rfl, rfl⟩ := Prod.mk.inj hpair
    refine ⟨slot, ?_, hd⟩
    rw [← Array.getElem?_toList]
    exact List.mk_mem_zipIdx_iff_getElem?.mp hmem
  · rintro ⟨slot, hat, hlocated⟩
    refine ⟨(slot, index), ?_, by rw [hlocated]; rfl⟩
    rw [List.mk_mem_zipIdx_iff_getElem?, Array.getElem?_toList]
    exact hat

theorem constant?_of_mem {e : Nat × Located Constant} (h : e ∈ pool.constants) :
    pool.slots.constant? e.1 = some e.2.value := by
  unfold Slots.constant?
  rw [mem_constants.mp h]
  rfl

/-- The notes of the slots that a table knows are those of the constants of the pool. -/
theorem owed_perm {known : List Nat} (hnodup : known.Nodup)
    (hknown : ∀ i : Nat, i ∈ known ↔ (pool.slots.constant? i).isSome = true) :
    (known.flatMap (Description.owed pool.slots)).Perm
      (pool.constants.flatMap fun e => e.2.value.dangling pool.slots) := by
  have hnumbers : (pool.constants.map Prod.fst).Nodup := by
    rw [constants_eq]
    refine List.pairwise_map.mpr (Slots.numbered_ascending.imp ?_)
    intro a b hlt
    exact Nat.ne_of_lt hlt
  have hsame : known.Perm (pool.constants.map Prod.fst) := by
    refine (List.perm_ext_iff_of_nodup hnodup hnumbers).mpr ?_
    intro i
    rw [hknown, List.mem_map]
    constructor
    · intro hsome
      obtain ⟨c, hc⟩ := Option.isSome_iff_exists.mp hsome
      obtain ⟨x, hx, -⟩ := Option.map_eq_some_iff.mp hc
      exact ⟨(i, x), mem_constants.mpr hx, rfl⟩
    · rintro ⟨e, he, rfl⟩
      rw [constant?_of_mem he]
      rfl
  have howed : (pool.constants.map Prod.fst).flatMap (Description.owed pool.slots) =
      pool.constants.flatMap fun e => e.2.value.dangling pool.slots := by
    rw [List.flatMap_map]
    refine List.flatMap_congr ?_
    intro e he
    exact Description.owed_of_constant (constant?_of_mem he)
  rw [← howed]
  exact hsame.flatMap_right _

end Pool

/-! ## §5. Reading makes no notes of its own. -/

namespace Decoder

variable {α β : Type}

/-- `d` makes no notes. -/
def Silent (d : Decoder α) : Prop := ∀ c, (d c).notices = []

theorem Silent.pure (a : α) : (Pure.pure a : Decoder α).Silent := fun _ => rfl

theorem Silent.position : position.Silent := fun _ => rfl

theorem Silent.spanFrom (start : Int) : (spanFrom start).Silent := fun _ => rfl

theorem Silent.reject (cause : Malformation) (offset : Int) :
    (Decoder.reject cause offset : Decoder α).Silent := fun _ => rfl

theorem Silent.bind {d : Decoder α} {next : α → Decoder β} (hd : d.Silent)
    (hn : ∀ a, (next a).Silent) : (d >>= next).Silent := by
  intro c
  have hfirst := hd c
  rcases hrun : d c with ⟨fault | a, c₁, notices⟩ <;> rw [hrun] at hfirst
  · rw [bind_of_error hrun]
    exact hfirst
  · rw [bind_of_ok hrun]
    show notices ++ (next a c₁).notices = []
    rw [hn a c₁, List.append_nil]
    exact hfirst

theorem Silent.u1 (what : String) : (u1 what).Silent := natural_silent what 1 UInt8.ofNat

theorem Silent.u2 (what : String) : (u2 what).Silent := natural_silent what 2 UInt16.ofNat

theorem Silent.u4 (what : String) : (u4 what).Silent := natural_silent what 4 UInt32.ofNat

theorem Silent.u8 (what : String) : (u8 what).Silent := natural_silent what 8 UInt64.ofNat

theorem Silent.bytes (what : String) (n : Nat) : (bytes what n).Silent :=
  taking_silent what n fun c => c.slice n

theorem Silent.located {d : Decoder α} (h : d.Silent) : (located d).Silent :=
  Silent.position.bind fun start => h.bind fun _ => (Silent.spanFrom start).bind fun _ => .pure _

theorem Silent.repeated {step : α → Decoder α} (h : ∀ a, (step a).Silent) (count : Nat) (a : α) :
    (repeated count step a).Silent := by
  induction count generalizing a with
  | zero => exact .pure a
  | succ count ih =>
    rw [repeated_succ]
    exact (h a).bind ih

end Decoder

namespace Constant

open Decoder

theorem readUtf8_silent (start : Int) : (readUtf8 start).Silent := by
  refine (Silent.u2 _).bind fun size => (Silent.bytes _ size.toNat).bind fun raw => ?_
  cases Text.ModifiedUtf8.decode? raw with
  | none => exact .reject _ _
  | some text => exact .pure _

theorem read_silent (slot : Nat) : (read slot).Silent := by
  refine Silent.position.bind fun start => (Silent.u1 _).bind fun tag => ?_
  have hword : ∀ (what : String) (f : UInt16 → Constant),
      (u2 what >>= fun n => Pure.pure (f n)).Silent := fun what f => (Silent.u2 what).bind fun _ => .pure _
  have hwords : ∀ (first second : String) (f : UInt16 → UInt16 → Constant),
      (u2 first >>= fun m => u2 second >>= fun n => Pure.pure (f m n)).Silent :=
    fun first second f => (Silent.u2 first).bind fun m => hword second (f m)
  generalize tag.toNat = n
  -- One case for each tag, in the order in which they are told apart.
  split
  · exact readUtf8_silent start
  · exact ((Silent.u4 _).bind fun _ => .pure _).bind fun _ => .pure _
  · exact ((Silent.u4 _).bind fun _ => .pure _).bind fun _ => .pure _
  · exact ((Silent.u8 _).bind fun _ => .pure _).bind fun _ => .pure _
  · exact ((Silent.u8 _).bind fun _ => .pure _).bind fun _ => .pure _
  · exact hword _ cls
  · exact hword _ string
  · exact hwords _ _ (member .field)
  · exact hwords _ _ (member .method)
  · exact hwords _ _ (member .interfaceMethod)
  · exact hwords _ _ nameAndType
  · exact (Silent.u1 _).bind fun kind => hword _ (methodHandle kind)
  · exact hword _ methodType
  · exact hwords _ _ dynamic
  · exact hwords _ _ invokeDynamic
  · exact hword _ moduleName
  · exact hword _ packageName
  · exact .reject _ _

end Constant

theorem Slots.readNext_silent (slots : Slots) : (readNext slots).Silent := by
  unfold readNext
  split
  · exact Decoder.Silent.position.bind fun _ => .pure _
  · exact (Constant.read_silent slots.size).located.bind fun _ => .pure _

/-! ## §6. Pools. -/

namespace Pool

variable {pool : Pool}

open Decoder

/-- All notes of a pool are made while its slots are described. -/
theorem notices_of_read {c : Cursor} {count : Int} (h : (read count c).result = .ok pool) :
    (read count c).notices = (Description.all pool.slots).2 := by
  obtain ⟨notices, more, hslots, hall, -⟩ := read_cases h
  have hsilent := Silent.repeated Slots.readNext_silent (count - 1).toNat #[.unused] c
  rw [hslots] at hsilent
  obtain rfl : notices = [] := hsilent
  have hread : read count c = (repeated (count - 1).toNat Slots.readNext #[.unused] >>= fun slots =>
      spanFrom c.pos >>= fun span => describeSlots slots >>= fun descriptions =>
      pure ⟨span, slots, descriptions⟩) c := rfl
  have hdescribe : describeSlots pool.slots (read count c).cursor =
      ⟨.ok pool.descriptions, (read count c).cursor, more⟩ := by
    simp only [describeSlots, hall]
  rw [bind_of_ok hslots, bind_of_ok (show spanFrom c.pos (read count c).cursor =
    ⟨.ok ⟨c.pos, (read count c).cursor.pos - c.pos⟩, (read count c).cursor, []⟩ from rfl),
    bind_of_ok hdescribe] at hread
  rw [hread, hall]
  exact List.append_nil more

/-- The slots of a pool behind slot 0. -/
theorem slots_of_read {c : Cursor} {count : Int} (h : (read count c).result = .ok pool) :
    ∃ more : List Slot, pool.slots = (Slot.unused :: more).toArray ∧
      ∀ slot ∈ more, slot ≠ .unused := by
  obtain ⟨notices, -, hslots, -, -⟩ := read_cases h
  obtain ⟨more, hlist, hmore⟩ :=
    Slots.readAll_used (count - 1).toNat #[.unused] c pool.slots (by rw [hslots])
  exact ⟨more, Array.toList_inj.mp hlist, hmore⟩

/-- Slots without a constant are noted, once each. -/
theorem blind_eq_uppers {more : List Slot} (hslots : pool.slots = (Slot.unused :: more).toArray)
    (hmore : ∀ slot ∈ more, slot ≠ .unused) :
    (List.range' 1 (pool.slots.size - 1)).flatMap (pool.slots.blind fun _ => true) =
      pool.uppers.map Prod.fst := by
  have hrange := Slots.blind_range' [.unused] more hmore
  rw [uppers_eq, hslots]
  exact hrange

/-- A reference that leads nowhere is noted once for the constant that makes it.

    The notes that are made while a pool is read are, in some order: the number of each slot that
    cannot be referred to, because the constant before it takes two; the class of each member, if this
    is no class; the member of each method handle, if this is no member; and the name and type of each
    dynamic constant and call site, if this is none.  It does not matter how many constants refer to
    the one that makes the note, nor whether they come before it or behind it. -/
theorem read_notices (c : Cursor) (count : Int) (pool : Pool)
    (h : (read count c).result = .ok pool) :
    (read count c).notices.Perm (Notice.unresolvables (pool.uppers.map Prod.fst ++
      pool.constants.flatMap fun e => e.2.value.dangling pool.slots)) := by
  obtain ⟨notices, noted, -, hall, -⟩ := read_cases h
  obtain ⟨more, hslots, hmore⟩ := slots_of_read h
  obtain ⟨t, hfill, -⟩ := Description.fill_of_all hall
  obtain ⟨-, known, hnodup, hknown, hnotices⟩ :=
    Description.fill_balanced _ _ (Description.balanced_empty pool.slots) hfill
  have hknown' : ∀ i : Nat, i ∈ known ↔ (pool.slots.constant? i).isSome = true := by
    intro i
    rw [hknown]
    exact Description.knows_of_fill (constant?_zero h) hfill i
  rw [List.append_nil, blind_eq_uppers hslots hmore] at hnotices
  rw [notices_of_read h, Description.all, hfill]
  have hconstants : (known.flatMap (Description.owed pool.slots) ++ pool.uppers.map Prod.fst).Perm
      (pool.uppers.map Prod.fst ++
        pool.constants.flatMap fun e => e.2.value.dangling pool.slots) :=
    ((owed_perm hnodup hknown').append_right _).trans List.perm_append_comm
  exact (List.reverse_perm _).trans (hnotices.trans (Notice.unresolvables_perm hconstants))

/-- A handle of the member in slot 2, whose class is slot 9; a handle of slot 1; another handle of the
    same member; an integer of two slots; and a dynamic constant of slot 6. -/
def shortsighted : Array UInt8 :=
  #[15, 1, 0, 2, 9, 0, 9, 0, 9, 15, 1, 0, 1, 15, 1, 0, 2, 5, 0, 0, 0, 0, 0, 0, 0, 0, 17, 0, 0, 0, 6]

theorem read_notices_shortsighted :
    ∃ pool, (read 8 (Cursor.ofBytes shortsighted)).result = .ok pool ∧
      (read 8 (Cursor.ofBytes shortsighted)).notices.Perm
        [.unresolvable 6, .unresolvable 9, .unresolvable 1, .unresolvable 6] := by
  have hread : (read 8 (Cursor.ofBytes shortsighted)).result.toOption.map (fun pool =>
      pool.uppers.map Prod.fst ++ pool.constants.flatMap fun e => e.2.value.dangling pool.slots) =
      some [6, 9, 1, 6] := by
    decide +kernel
  rcases hpool : (read 8 (Cursor.ofBytes shortsighted)).result with fault | pool <;>
    rw [hpool] at hread
  · cases hread
  have hnumbers : pool.uppers.map Prod.fst ++
      (pool.constants.flatMap fun e => e.2.value.dangling pool.slots) = [6, 9, 1, 6] :=
    Option.some.inj hread
  have hperm := read_notices _ _ pool hpool
  rw [hnumbers] at hperm
  exact ⟨pool, rfl, hperm⟩

end Pool

end JavaClass
