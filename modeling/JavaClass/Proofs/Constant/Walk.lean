/-
  JavaClass.Proofs.Constant.Walk — describing slots by a walk over their references.

  References can form any graph: they can lead forward and backward, to the slot that they come from,
  and to slots of the wrong kind.  A walk over such a graph has to watch for cycles, and keeps the set
  of slots that it is in the middle of (`resolve`).  But every reference asks for a kind, and kinds
  have ranks: a constant is followed to constants of lower rank only.  So the walk never comes back to
  a slot that it is in the middle of, and it is the description of slots by layers that the table is
  filled with (`resolve_eq`).

  `Pool.describe_eq_reference` draws the conclusion for pools: whatever order slots are described in,
  and whatever is known before, their texts are those that the constants alone decide.
-/
import JavaClass.Proofs.Constant.Reference
import Mathlib.Data.Finset.Card
import Mathlib.Data.Finset.Range

namespace JavaClass

namespace Description

/-! ## §1. The walk. -/

/-- The table, and the slots at which the walk came back to a slot that it is in the middle of. -/
structure Trail where
  table : Table
  cycles : List Nat

/-- A walk that leaves a trail. -/
abbrev Walking := ExceptT Fault (StateM Trail)

/-- A description that meets no cycle. -/
def ofDescribing {α : Type} (d : Describing α) : Walking α := fun s =>
  ((d s.table).1, ⟨(d s.table).2, s.cycles⟩)

/-- A constant, where `ref` describes the constants that it refers to. -/
def constantBy (slots : Slots) (ref : (Constant → Bool) → Nat → Walking String) :
    Constant → Walking String
  | .member kind owner nameAndType =>
    return memberText slots kind (← ref Constant.isClass owner.toNat) nameAndType
  | .methodHandle kind reference => do
    let member ← ref Constant.isMember reference.toNat
    return s!"reference_kind={referenceKindName kind.toNat} reference_index={member}"
  | .dynamic bootstrap nameAndType | .invokeDynamic bootstrap nameAndType => do
    let nameAndType ← ref Constant.isNameAndType nameAndType.toNat
    return s!"bootstrap_method_attr_index={bootstrap} name_and_type_index={nameAndType}"
  | c => ofDescribing (compound.liftExcept (plain slots c))

/-- The text that the table has for a slot, or else what `otherwise` gives. -/
def remembered (index : Nat) (otherwise : Walking String) : Walking String := fun s =>
  match s.table.known[index]? with
  | some (some text) => (.ok text, s)
  | _ => otherwise s

/-- Note that the walk came back to a slot that it is in the middle of. -/
def noteCycle (index : Nat) : Walking String := fun s =>
  (.ok unresolvable, { s with cycles := index :: s.cycles })

/-- Describe a slot, and put its text into the table. -/
def learning (index : Nat) (describe : Walking String) : Walking String := do
  let text ← describe
  ofDescribing (modify fun t => { t with known := t.known.setIfInBounds index (some text) })
  return text

/-- Describe a slot, if it holds a constant that `accepts`, in the middle of describing the slots in
    `visiting`. -/
def resolve (slots : Slots) (visiting : Finset Nat) (accepts : Constant → Bool) (index : Nat) :
    Walking String :=
  match _hc : slots.constant? index with
  | none => ofDescribing (follow.missing index)
  | some c =>
    if accepts c then remembered index <|
      if _h : index ∈ visiting then noteCycle index
      else learning index (constantBy slots (resolve slots (insert index visiting)) c)
    else ofDescribing (follow.missing index)
termination_by (Finset.range slots.size \ visiting).card
decreasing_by
  rw [Finset.sdiff_insert]
  refine Finset.card_erase_lt_of_mem (Finset.mem_sdiff.mpr ⟨?_, _h⟩)
  exact Finset.mem_range.mpr (size_of_constant? _hc)

/-- Describe slots in the given order. -/
def visit (slots : Slots) : List Nat → Walking (List String)
  | [] => return []
  | index :: rest => do
    let text ← resolve slots ∅ (fun _ => true) index
    return text :: (← visit slots rest)

/-! ## §2. Ranks. -/

/-- References lead from constants of higher rank to constants of lower rank. -/
def rank : Constant → Nat
  | .methodHandle .. => 2
  | .member .. | .dynamic .. | .invokeDynamic .. => 1
  | _ => 0

variable {slots : Slots}

theorem rank_lt_three (c : Constant) : rank c < 3 := by
  cases c <;> simp [rank]

theorem rank_lt_of_isClass (c : Constant) (h : c.isClass = true) : rank c < 1 := by
  cases c with
  | cls name => exact Nat.zero_lt_one
  | _ => cases h

theorem rank_lt_of_isNameAndType (c : Constant) (h : c.isNameAndType = true) : rank c < 1 := by
  cases c with
  | nameAndType name descriptor => exact Nat.zero_lt_one
  | _ => cases h

theorem rank_lt_of_isMember (c : Constant) (h : c.isMember = true) : rank c < 2 := by
  cases c with
  | member kind owner nameAndType => exact Nat.one_lt_two
  | _ => cases h

/-! ## §3. The walk is the description by layers. -/

theorem ofDescribing_bind {α β : Type} (d : Describing α) (next : α → Describing β) :
    ofDescribing (d >>= next) = ofDescribing d >>= fun a => ofDescribing (next a) := by
  funext s
  rcases hrun : d s.table with ⟨fault | a, t⟩
  · have hwalk : ofDescribing d s = (.error fault, ⟨t, s.cycles⟩) := by rw [ofDescribing, hrun]
    rw [bind_of_error hwalk, ofDescribing, bind_of_error hrun]
  · have hwalk : ofDescribing d s = (.ok a, ⟨t, s.cycles⟩) := by rw [ofDescribing, hrun]
    rw [bind_of_ok hwalk, ofDescribing, bind_of_ok hrun]
    rfl

theorem follow_congr {d d' : Constant → Describing String} {accepts : Constant → Bool}
    (h : ∀ c, accepts c = true → d c = d' c) (index : Nat) :
    follow slots d accepts index = follow slots d' accepts index := by
  unfold follow
  rcases slots.constant? index with _ | c
  · rfl
  · dsimp only
    by_cases ha : accepts c = true
    · rw [if_pos ha, if_pos ha, h c ha]
    · rw [if_neg ha, if_neg ha]

theorem plain_eq_any_of_isClass (c : Constant) (h : c.isClass = true) :
    (compound.liftExcept ∘ plain slots) c = any slots c := by
  cases c with
  | cls name => rfl
  | _ => cases h

theorem plain_eq_any_of_isNameAndType (c : Constant) (h : c.isNameAndType = true) :
    (compound.liftExcept ∘ plain slots) c = any slots c := by
  cases c with
  | nameAndType name descriptor => rfl
  | _ => cases h

theorem compound_eq_any_of_isMember (c : Constant) (h : c.isMember = true) :
    compound slots c = any slots c := by
  cases c with
  | member kind owner nameAndType => rfl
  | _ => cases h

/-- A reference that is followed with any description of what is accepted. -/
theorem reference_eq {ref : (Constant → Bool) → Nat → Walking String} {accepts : Constant → Bool}
    {index : Nat} {d : Constant → Describing String}
    (href : ref accepts index = ofDescribing (follow slots (any slots) accepts index))
    (hd : ∀ c, accepts c = true → d c = any slots c) (f : String → String) :
    (ref accepts index >>= fun text => pure (f text)) =
      ofDescribing (follow slots d accepts index >>= fun text => pure (f text)) := by
  rw [href, ← follow_congr hd, ofDescribing_bind]
  rfl

/-- A constant is described by layers as the walk does it: by its kind, and by the descriptions of what
    it refers to. -/
theorem constantBy_eq {c : Constant} {ref : (Constant → Bool) → Nat → Walking String}
    (href : ∀ accepts index, (∀ d, accepts d = true → rank d < rank c) →
      ref accepts index = ofDescribing (follow slots (any slots) accepts index)) :
    constantBy slots ref c = ofDescribing (any slots c) := by
  cases c
  case member kind owner nameAndType =>
    exact reference_eq (href _ _ rank_lt_of_isClass) plain_eq_any_of_isClass
      fun owner => memberText slots kind owner nameAndType
  case methodHandle kind reference =>
    exact reference_eq (href _ _ rank_lt_of_isMember) compound_eq_any_of_isMember _
  case dynamic bootstrap nameAndType =>
    exact reference_eq (href _ _ rank_lt_of_isNameAndType) plain_eq_any_of_isNameAndType _
  case invokeDynamic bootstrap nameAndType =>
    exact reference_eq (href _ _ rank_lt_of_isNameAndType) plain_eq_any_of_isNameAndType _
  all_goals rfl

section

variable {visiting : Finset Nat} {accepts : Constant → Bool} {index : Nat} {c : Constant}

theorem resolve_missing (h : ∀ c, slots.constant? index = some c → accepts c = false) :
    resolve slots visiting accepts index = ofDescribing (follow.missing index) := by
  rw [resolve]
  split
  · rfl
  · rename_i c hc
    rw [h c hc]
    rfl

theorem resolve_fresh (hc : slots.constant? index = some c) (ha : accepts c = true)
    (h : index ∉ visiting) :
    resolve slots visiting accepts index = remembered index
      (learning index (constantBy slots (resolve slots (insert index visiting)) c)) := by
  rw [resolve]
  split
  · rename_i hnone
    rw [hc] at hnone
    cases hnone
  · rename_i c' hc'
    obtain rfl : c = c' := Option.some.inj (hc.symm.trans hc')
    rw [if_pos ha, dif_neg h]

theorem remembered_of_known {s : Trail} {text : String} (otherwise : Walking String)
    (h : s.table.known[index]? = some (some text)) : remembered index otherwise s = (.ok text, s) := by
  unfold remembered
  rw [h]

theorem remembered_of_unknown {s : Trail} (otherwise : Walking String)
    (h : ∀ text, s.table.known[index]? ≠ some (some text)) :
    remembered index otherwise s = otherwise s := by
  unfold remembered
  rcases hknown : s.table.known[index]? with _ | _ | text
  · rfl
  · rfl
  · exact absurd hknown (h text)

/-- What is learned in a walk without cycles is learned by the layers. -/
theorem learning_ofDescribing (d : Describing String) :
    learning index (ofDescribing d) = ofDescribing (do
      let text ← d
      modify fun t => { t with known := t.known.setIfInBounds index (some text) }
      return text : Describing String) := by
  rw [ofDescribing_bind]
  rfl

end

/-- A walk in the middle of slots of higher rank meets none of them again. -/
theorem resolve_eq (r : Nat) (visiting : Finset Nat) (accepts : Constant → Bool) (index : Nat)
    (haccepts : ∀ c, accepts c = true → rank c < r)
    (hvisiting : ∀ i ∈ visiting, ∀ c, slots.constant? i = some c → r ≤ rank c) :
    resolve slots visiting accepts index =
      ofDescribing (follow slots (any slots) accepts index) := by
  induction r using Nat.strongRecOn generalizing visiting accepts index with
  | ind r ih =>
    funext s
    rcases hc : slots.constant? index with _ | c
    · rw [resolve_missing fun c hsome => (nomatch hc.symm.trans hsome), ofDescribing, ofDescribing,
        follow_none hc]
      rfl
    cases ha : accepts c with
    | false =>
      have hmissing : ∀ d, slots.constant? index = some d → accepts d = false := by
        intro d hd
        obtain rfl : c = d := Option.some.inj (hc.symm.trans hd)
        exact ha
      rw [resolve_missing hmissing, ofDescribing, ofDescribing, follow_refused hc ha]
      rfl
    | true =>
      have hlt : rank c < r := haccepts c ha
      have hfresh : index ∉ visiting := by
        intro hmem
        have := hvisiting index hmem c hc
        omega
      rw [resolve_fresh hc ha hfresh]
      by_cases hknown : ∃ text, s.table.known[index]? = some (some text)
      · obtain ⟨text, hknown⟩ := hknown
        rw [remembered_of_known _ hknown, ofDescribing, follow_known hc ha hknown]
      · have hunknown : ∀ text, s.table.known[index]? ≠ some (some text) :=
          fun text htext => hknown ⟨text, htext⟩
        -- The constant refers to constants of lower rank; the slots in the middle of which it is
        -- described are itself and slots of higher rank.
        have hconstant : constantBy slots (resolve slots (insert index visiting)) c =
            ofDescribing (any slots c) := by
          refine constantBy_eq fun accepts' index' haccepts' => ih (rank c) hlt _ _ _ haccepts' ?_
          intro i hi d hd
          obtain rfl | hi := Finset.mem_insert.mp hi
          · obtain rfl : c = d := Option.some.inj (hc.symm.trans hd)
            exact Nat.le_refl _
          · have := hvisiting i hi d hd
            omega
        rw [remembered_of_unknown _ hunknown, hconstant, learning_ofDescribing, ofDescribing,
          ofDescribing, follow_unknown hc ha hunknown]

/-- A walk that starts anywhere goes as the description by layers does, and meets no cycle. -/
theorem resolve_of_follow {index : Nat} {t t₁ : Table} {result : Except Fault String}
    (cycles : List Nat)
    (h : follow slots (any slots) (fun _ => true) index t = (result, t₁)) :
    resolve slots ∅ (fun _ => true) index ⟨t, cycles⟩ = (result, ⟨t₁, cycles⟩) := by
  have hstart : resolve slots ∅ (fun _ => true) index =
      ofDescribing (follow slots (any slots) (fun _ => true) index) :=
    resolve_eq 3 ∅ _ index (fun c _ => rank_lt_three c) fun i hi => absurd hi (Finset.notMem_empty i)
  rw [hstart, ofDescribing, h]

/-! ## §4. Walks over many slots. -/

/-- Slots are described in any order, with any table that agrees with the constants. -/
theorem visit_eq (hnone : ∀ (index : Nat) (c : Constant), slots.constant? index = some c →
      ¬ Overflows c) (order : List Nat) {t : Table} (ht : Agrees slots t) (cycles : List Nat) :
    ∃ t', visit slots order ⟨t, cycles⟩ =
      (.ok (order.map fun index => Reference.describe slots index), ⟨t', cycles⟩) := by
  induction order generalizing t with
  | nil => exact ⟨t, rfl⟩
  | cons index rest ih =>
    obtain ⟨t₁, hrun, ht₁⟩ := Gives.follow (fun c _ => any_gives c) index t ht
    obtain ⟨t', hrest⟩ := ih ht₁
    have hreached : reached slots (render slots) (fun _ => true) index =
        .ok (Reference.describe slots index) := by
      unfold reached Reference.describe
      rcases hc : slots.constant? index with _ | c
      · rfl
      · exact render_eq (hnone index c hc)
    rw [hreached] at hrun
    refine ⟨t', ?_⟩
    rw [visit, bind_of_ok (resolve_of_follow cycles hrun), bind_of_ok hrest]
    rfl

/-- Slots are described in the order of their numbers as the table is filled. -/
theorem visit_range' (count index : Nat) (t : Table) (cycles : List Nat) :
    (visit slots (List.range' index count) ⟨t, cycles⟩).1.map (fun _ => ()) =
        (fill slots count index t).1 ∧
      (visit slots (List.range' index count) ⟨t, cycles⟩).2 =
        ⟨(fill slots count index t).2, cycles⟩ := by
  induction count generalizing index t with
  | zero => exact ⟨rfl, rfl⟩
  | succ count ih =>
    rw [List.range'_succ, visit, fill]
    rcases hrun : follow slots (any slots) (fun _ => true) index t with ⟨fault | text, t₁⟩
    · rw [bind_of_error (resolve_of_follow cycles hrun)]
      exact ⟨rfl, rfl⟩
    · rw [bind_of_ok (resolve_of_follow cycles hrun)]
      obtain ⟨hresult, htrail⟩ := ih (index + 1) t₁
      rcases hrest : visit slots (List.range' (index + 1) count) ⟨t₁, cycles⟩ with
        ⟨fault | texts, s⟩ <;>
        rw [hrest] at hresult htrail
      · rw [bind_of_error hrest]
        exact ⟨hresult, htrail⟩
      · rw [bind_of_ok hrest]
        exact ⟨hresult, htrail⟩

end Description

/-! ## §5. Pools. -/

namespace Pool

open Description

/-- What a pool says of its slots is decided by its constants.

    Of every number it says what the constant with this number says, by its kind and by the kinds of
    the constants that it refers to, and nothing else of numbers without a constant.  A walk over the
    references gives the same texts, in whatever order slots are described, and whatever true texts
    the table has before; it never comes back to a slot that it is in the middle of.  The table of the
    pool is the one that is left by the walk in the order of the numbers. -/
theorem describe_eq_reference (c : Cursor) (count : Int) (pool : Pool)
    (h : (read count c).result = .ok pool) :
    (∀ index : Int, pool.describe index = Reference.describe pool.slots index) ∧
    (∀ index : Int, pool.isValid index = false → pool.describe index = unresolvable) ∧
    (∀ (order : List Nat) (t : Table),
      (∀ (index : Nat) (text : String), t.known[index]? = some (some text) →
        pool.isValid index = true ∧ text = pool.describe index) →
      ∃ t', visit pool.slots order ⟨t, []⟩ =
        (.ok (order.map fun index => pool.describe index), ⟨t', []⟩)) ∧
    ∃ texts t, visit pool.slots (List.range' 1 (pool.size - 1))
        ⟨⟨Array.replicate pool.size none, []⟩, []⟩ = (.ok texts, ⟨t, []⟩) ∧
      pool.descriptions = t.known.map (·.getD unresolvable) := by
  obtain ⟨notices, more, -, hall, -⟩ := read_cases h
  have hdescribe := describe_eq h
  have hnone : ∀ (index : Nat) (c : Constant), pool.slots.constant? index = some c →
      ¬ Overflows c := fun index c hc => not_overflows_of_all (constant?_zero h) hall hc
  refine ⟨hdescribe, ?_, ?_, ?_⟩
  · intro index hinvalid
    have hconstant : pool.slots.constant? index = none := by simpa [isValid] using hinvalid
    rw [hdescribe, Reference.describe, hconstant]
  · intro order t ht
    have hagrees : Agrees pool.slots t := by
      intro index text hknown
      obtain ⟨hvalid, rfl⟩ := ht index text hknown
      obtain ⟨d, hd⟩ := Option.isSome_iff_exists.mp hvalid
      refine ⟨d, hd, ?_⟩
      rw [render_eq (hnone index d hd), hdescribe, Reference.describe, hd]
    simp only [hdescribe]
    exact visit_eq hnone order hagrees []
  · obtain ⟨t, hfill, hdescriptions⟩ := fill_of_all hall
    obtain ⟨hresult, htrail⟩ :=
      visit_range' (pool.slots.size - 1) 1 ⟨Array.replicate pool.slots.size none, []⟩ []
    rw [hfill] at hresult htrail
    rcases hvisit : visit pool.slots (List.range' 1 (pool.slots.size - 1))
      ⟨⟨Array.replicate pool.slots.size none, []⟩, []⟩ with ⟨fault | texts, s⟩ <;>
      rw [hvisit] at hresult htrail
    · cases hresult
    · obtain rfl : s = ⟨t, []⟩ := htrail
      exact ⟨texts, t, hvisit, hdescriptions⟩

/-- A handle of the field behind it, of the class behind that, whose name is the class itself; the
    field has another field for its name and type, and the constant behind them refers to itself.  Then
    a text that is no descriptor, a class and a method type by it, and a field of that class and type. -/
def tangle : Array UInt8 :=
  #[15, 1, 0, 2, 9, 0, 3, 0, 9, 7, 0, 3, 17, 0, 0, 0, 4,
    1, 0, 2, 0x5B, 0x51, 7, 0, 5, 16, 0, 5, 12, 0, 5, 0, 5, 9, 0, 6, 0, 8]

theorem describe_eq_reference_tangle :
    ∃ pool, (read 10 (Cursor.ofBytes tangle)).result = .ok pool ∧
      [1, 6, 7, 9].map pool.describe =
        ["reference_kind=REF_getField reference_index=<unresolvable>.<unresolvable>",
          "[unrecognized] [Q", "[unrecognized] [Q", "[unrecognized] [Q.[Q : [unrecognized] [Q"] ∧
      (∀ index : Int, pool.describe index = Reference.describe pool.slots index) ∧
      ∀ order : List Nat, ∃ t', visit pool.slots order ⟨⟨#[], []⟩, []⟩ =
        (.ok (order.map fun index => pool.describe index), ⟨t', []⟩) := by
  have hread : (read 10 (Cursor.ofBytes tangle)).result.toOption.map ([1, 6, 7, 9].map ·.describe) =
      some ["reference_kind=REF_getField reference_index=<unresolvable>.<unresolvable>",
        "[unrecognized] [Q", "[unrecognized] [Q", "[unrecognized] [Q.[Q : [unrecognized] [Q"] := by
    decide +kernel
  rcases hpool : (read 10 (Cursor.ofBytes tangle)).result with fault | pool <;> rw [hpool] at hread
  · cases hread
  obtain ⟨hdescribe, -, hvisit, -⟩ := describe_eq_reference _ _ pool hpool
  exact ⟨pool, rfl, Option.some.inj hread, hdescribe,
    fun order => hvisit order ⟨#[], []⟩ fun index text hknown => by simp at hknown⟩

end Pool

end JavaClass
