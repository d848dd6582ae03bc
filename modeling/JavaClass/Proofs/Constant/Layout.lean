/-
  JavaClass.Proofs.Constant.Layout — where the constants of a pool stand.

  A constant takes up a number of bytes that its kind decides, text apart (`Constant.extent`).  Slots
  are read one behind the other: a slot with a constant takes up the constant's bytes, the second slot
  of a constant takes up none (`Slot.Settled`).  So the constants of a pool tile its place, in the
  order of their numbers.
-/
import JavaClass.Proofs.Serial.Account
import JavaClass.Proofs.Serial.Constant

namespace JavaClass

open Decoder

variable {p : Int}

/-! ## §1. Constants. -/

namespace Constant

/-- The number of bytes that a constant takes up. -/
def extent : Constant → Nat
  | utf8 _ raw => 3 + raw.length
  | integer _ | float _ => 5
  | long _ | double _ => 9
  | cls _ | string _ | methodType _ | moduleName _ | packageName _ => 3
  | member .. | nameAndType .. | dynamic .. | invokeDynamic .. => 5
  | methodHandle .. => 4

theorem readUtf8_extent (start : Int) :
    (readUtf8 start).YieldsAt p fun c bytes => 1 + bytes.length = c.extent := by
  refine (u2_yieldsAt _).bind fun size b₁ h₁ => (bytes_yieldsAt _ size.toNat).bind fun raw b₂ h₂ => ?_
  obtain ⟨-, rfl⟩ := h₂
  cases Text.ModifiedUtf8.decode? b₂ with
  | none => exact .reject _ _
  | some text =>
    refine .pure ?_
    simp only [extent, h₁, List.length_append, List.length_nil, Serial.length_u2]
    omega

theorem readMember_extent (kind : MemberKind) :
    (readMember kind).YieldsAt p fun c bytes => 1 + bytes.length = c.extent := by
  refine (u2_yieldsAt _).bind fun owner b₁ h₁ => (u2_yieldsAt _).bind fun reference b₂ h₂ => .pure ?_
  simp [extent, h₁, h₂]

/-- A constant takes up the bytes that its kind says. -/
theorem read_extent (slot : Nat) :
    (read slot).YieldsAt p fun c bytes => bytes.length = c.extent := by
  refine .position_bind ((u1_yieldsAt _).bind fun tag b₀ h₀ => ?_)
  have hone : b₀.length = 1 := by rw [h₀, Serial.length_u1]
  have hrest : ∀ {d : Decoder Constant} {q : Int},
      (d.YieldsAt q fun c bytes => 1 + bytes.length = c.extent) →
      d.YieldsAt q fun c more => (b₀ ++ more).length = c.extent := by
    intro d q h
    refine h.mono fun c bytes hc => ?_
    rw [List.length_append, hone, hc]
  apply hrest
  generalize tag.toNat = n
  -- One case for each tag, in the order in which they are told apart.
  split
  · exact readUtf8_extent p
  · exact (s4_yieldsAt _).bind fun _ _ h => .pure (by simp [extent, h])
  · exact (f4_yieldsAt _).bind fun _ _ h => .pure (by simp [extent, h])
  · exact (s8_yieldsAt _).bind fun _ _ h => .pure (by simp [extent, h])
  · exact (f8_yieldsAt _).bind fun _ _ h => .pure (by simp [extent, h])
  · exact (u2_yieldsAt _).bind fun _ _ h => .pure (by simp [extent, h])
  · exact (u2_yieldsAt _).bind fun _ _ h => .pure (by simp [extent, h])
  · exact readMember_extent .field
  · exact readMember_extent .method
  · exact readMember_extent .interfaceMethod
  · exact (u2_yieldsAt _).bind fun _ _ h => (u2_yieldsAt _).bind fun _ _ h' =>
      .pure (by simp [extent, h, h'])
  · exact (u1_yieldsAt _).bind fun _ _ h => (u2_yieldsAt _).bind fun _ _ h' =>
      .pure (by simp [extent, h, h'])
  · exact (u2_yieldsAt _).bind fun _ _ h => .pure (by simp [extent, h])
  · exact (u2_yieldsAt _).bind fun _ _ h => (u2_yieldsAt _).bind fun _ _ h' =>
      .pure (by simp [extent, h, h'])
  · exact (u2_yieldsAt _).bind fun _ _ h => (u2_yieldsAt _).bind fun _ _ h' =>
      .pure (by simp [extent, h, h'])
  · exact (u2_yieldsAt _).bind fun _ _ h => .pure (by simp [extent, h])
  · exact (u2_yieldsAt _).bind fun _ _ h => .pure (by simp [extent, h])
  · exact .reject _ _

end Constant

/-! ## §2. Slots. -/

/-- The constant in a slot, with its place. -/
def Slot.located? : Slot → Option (Located Constant)
  | .constant c => some c
  | _ => none

/-- The slot takes up these bytes from `p` on: those of its constant, or none. -/
def Slot.Settled (p : Int) : Slot → List UInt8 → Prop
  | .unused, _ => False
  | .constant c, bytes => c.span = ⟨p, bytes.length⟩ ∧ bytes.length = c.value.extent
  | .upper position, bytes => position = p ∧ bytes = []

namespace Slots

theorem readNext_pushes (slots : Slots) :
    (readNext slots).Always fun slots' => ∃ slot, slots' = slots.push slot := by
  unfold readNext
  split
  · exact .bind fun p => .pure ⟨.upper p, rfl⟩
  · exact .bind fun c => .pure ⟨.constant c, rfl⟩

/-- Slot 0 stays as it is while slots are read. -/
theorem readAll_first (count : Nat) (slots : Slots) (h : slots[0]? = some .unused) :
    (repeated count readNext slots).Always fun slots' => slots'[0]? = some .unused := by
  induction count generalizing slots with
  | zero => exact .pure h
  | succ count ih =>
    rw [repeated_succ]
    refine .bind_of (readNext_pushes slots) ?_
    rintro _ ⟨slot, rfl⟩
    apply ih
    have hsize : 0 < slots.size := (Array.getElem?_eq_some_iff.mp h).1
    rw [Array.getElem?_push, if_neg (by omega)]
    exact h

/-- There are as many more slots as steps. -/
theorem readAll_size (count : Nat) (slots : Slots) :
    (repeated count readNext slots).Always fun slots' => slots'.size = slots.size + count := by
  induction count generalizing slots with
  | zero => exact .pure rfl
  | succ count ih =>
    rw [repeated_succ]
    refine .bind_of (readNext_pushes slots) ?_
    rintro _ ⟨slot, rfl⟩
    intro c after hresult
    rw [ih _ c after hresult, Array.size_push]
    omega

theorem mem_of_constant? {slots : Slots} {index : Int} {c : Constant}
    (h : slots.constant? index = some c) :
    ∃ x ∈ slots.toList.filterMap Slot.located?, x.value = c := by
  obtain ⟨x, hx, rfl⟩ := Option.map_eq_some_iff.mp h
  refine ⟨x, ?_, rfl⟩
  unfold located? at hx
  split at hx
  · cases hx
  split at hx
  · rename_i d hslot
    obtain rfl : d = x := Option.some.inj hx
    have hmem : Slot.constant d ∈ slots := Array.mem_of_getElem? hslot
    exact List.mem_filterMap.mpr ⟨_, hmem.val, rfl⟩
  · cases hx

/-- One step reads one slot, where the cursor stands. -/
theorem readNext_settles (slots : Slots) :
    (readNext slots).YieldsAt p fun after bytes =>
      ∃ slot, after = slots.push slot ∧ slot.Settled p bytes := by
  unfold readNext
  split
  · exact .position_bind (.pure ⟨_, rfl, rfl, rfl⟩)
  · refine (Constant.read_extent slots.size).located.bind fun c bytes hc => .pure ?_
    rw [List.append_nil]
    exact ⟨.constant c, rfl, hc⟩

/-- All slots stand one behind the other. -/
theorem readAll_settles (count : Nat) (slots : Slots) :
    (repeated count readNext slots).YieldsAt p fun after bytes =>
      ∃ more : List Slot, after.toList = slots.toList ++ more ∧ more.length = count ∧
        Series Slot.Settled p more bytes := by
  induction count generalizing slots p with
  | zero =>
    rw [repeated_zero]
    exact .pure ⟨[], (List.append_nil _).symm, rfl, rfl⟩
  | succ count ih =>
    rw [repeated_succ]
    refine (readNext_settles slots).bind fun next first hnext => (ih next).mono ?_
    obtain ⟨slot, rfl, hslot⟩ := hnext
    rintro after rest ⟨more, hafter, hlength, hseries⟩
    refine ⟨slot :: more, ?_, by rw [List.length_cons, hlength], first, rest, rfl, hslot, hseries⟩
    rw [hafter, Array.toList_push, List.append_assoc, List.singleton_append]

/-- The constants of slots that stand one behind the other are tiles: the slots between them take up
    no bytes. -/
theorem tiles_of_series {slots : List Slot} {content : List UInt8}
    (h : Series Slot.Settled p slots content) :
    Tiles Located.span p (slots.filterMap Slot.located?) (p + content.length) := by
  induction slots generalizing p content with
  | nil =>
    obtain rfl : content = [] := h
    exact (Int.add_zero p).symm
  | cons slot rest ih =>
    obtain ⟨first, more, rfl, hslot, hrest⟩ := h
    have htiles := ih hrest
    have hend : p + first.length + more.length = p + (first ++ more).length := by
      rw [List.length_append]
      omega
    rw [hend] at htiles
    cases slot with
    | unused => exact absurd hslot id
    | constant c =>
      show Tiles Located.span p (c :: rest.filterMap Slot.located?) _
      refine ⟨by rw [hslot.1], ?_⟩
      rw [hslot.1]
      exact htiles
    | upper position =>
      -- The slot took no bytes, so the rest starts where the slot stands.
      obtain ⟨-, rfl⟩ := hslot
      show Tiles Located.span p (rest.filterMap Slot.located?) _
      exact htiles.cast (Int.add_zero p) rfl

/-- Constants in slots that stand one behind the other take up what their kinds say. -/
theorem extent_of_series {slots : List Slot} {content : List UInt8}
    (h : Series Slot.Settled p slots content) {c : Located Constant}
    (hc : c ∈ slots.filterMap Slot.located?) : c.span.length = c.value.extent := by
  obtain ⟨slot, hslot, hlocated⟩ := List.mem_filterMap.mp hc
  refine h.all (Q := fun slot => ∀ c, slot.located? = some c → c.span.length = c.value.extent) ?_
    slot hslot c hlocated
  intro q slot bytes hsettled c hc
  cases slot with
  | constant d =>
    obtain rfl : d = c := Option.some.inj hc
    rw [hsettled.1, ← hsettled.2]
  | unused => cases hc
  | upper position => cases hc

end Slots

/-! ## §3. Pools. -/

/-- The position of a slot that holds nothing, because the constant before it takes two. -/
def Slot.upper? : Slot → Option Int
  | .upper position => some position
  | _ => none

namespace Slot

theorem located?_constant (c : Located Constant) : (constant c).located? = some c := rfl
theorem located?_upper (position : Int) : (upper position).located? = none := rfl
theorem upper?_constant (c : Located Constant) : (constant c).upper? = none := rfl
theorem upper?_upper (position : Int) : (upper position).upper? = some position := rfl

end Slot

section

variable {α : Type} {f : Slot → Option α} {index : Nat} {slots more : List Slot}

/-- What slots hold, with the numbers of the slots, counted from `index` on. -/
def Slots.numbered (f : Slot → Option α) (index : Nat) (slots : List Slot) : List (Nat × α) :=
  (slots.zipIdx index).filterMap fun e => (f e.1).map (e.2, ·)

theorem Slots.numbered_append :
    numbered f index (slots ++ more) =
      numbered f index slots ++ numbered f (index + slots.length) more := by
  simp only [numbered, List.zipIdx_append, List.filterMap_append]

theorem Slots.numbered_cons_some {slot : Slot} {a : α} (h : f slot = some a) :
    numbered f index (slot :: more) = (index, a) :: numbered f (index + 1) more := by
  simp [numbered, List.zipIdx_cons, h]

theorem Slots.numbered_cons_none {slot : Slot} (h : f slot = none) :
    numbered f index (slot :: more) = numbered f (index + 1) more := by
  simp [numbered, List.zipIdx_cons, h]

theorem Slots.map_snd_numbered : (numbered f index slots).map Prod.snd = slots.filterMap f := by
  induction slots generalizing index with
  | nil => rfl
  | cons slot rest ih =>
    rcases h : f slot with _ | a
    · rw [numbered_cons_none h, List.filterMap_cons_none h, ih]
    · rw [numbered_cons_some h, List.filterMap_cons_some h, List.map_cons, ih]

/-- Numbers ascend. -/
theorem Slots.numbered_ascending : (numbered f index slots).Pairwise fun a b => a.1 < b.1 := by
  have hnumbers : (slots.zipIdx index).Pairwise fun e f => e.2 < f.2 := by
    rw [← List.pairwise_map (R := (· < ·)), List.zipIdx_map_snd]
    exact List.pairwise_lt_range' 1
  unfold numbered
  rw [List.pairwise_filterMap]
  refine hnumbers.imp ?_
  intro e f hlt a ha b hb
  obtain ⟨-, -, rfl⟩ := Option.map_eq_some_iff.mp ha
  obtain ⟨-, -, rfl⟩ := Option.map_eq_some_iff.mp hb
  exact hlt

end

namespace Pool

theorem constants_eq (pool : Pool) :
    pool.constants = Slots.numbered Slot.located? 0 pool.slots.toList := by
  unfold constants Slots.numbered
  congr 1
  funext ⟨slot, index⟩
  cases slot <;> rfl

theorem uppers_eq (pool : Pool) :
    pool.uppers = Slots.numbered Slot.upper? 0 pool.slots.toList := by
  unfold uppers Slots.numbered
  congr 1
  funext ⟨slot, index⟩
  cases slot <;> rfl

/-- A pool is read slot by slot, and described when its slots are read. -/
theorem read_cases {c : Cursor} {count : Int} {pool : Pool}
    (h : (read count c).result = .ok pool) :
    ∃ notices more,
      repeated (count - 1).toNat Slots.readNext #[.unused] c =
        ⟨.ok pool.slots, (read count c).cursor, notices⟩ ∧
      Description.all pool.slots = (.ok pool.descriptions, more) ∧
      pool.span = ⟨c.pos, (read count c).cursor.pos - c.pos⟩ := by
  have hread : read count c = (repeated (count - 1).toNat Slots.readNext #[.unused] >>= fun slots =>
      spanFrom c.pos >>= fun span => describeSlots slots >>= fun descriptions =>
      pure ⟨span, slots, descriptions⟩) c := rfl
  rcases hslots : repeated (count - 1).toNat Slots.readNext #[.unused] c with
    ⟨fault | slots, c₁, notices⟩
  · rw [hread, bind_of_error hslots] at h
    cases h
  rw [bind_of_ok hslots, bind_of_ok (show spanFrom c.pos c₁ = ⟨.ok ⟨c.pos, c₁.pos - c.pos⟩, c₁, []⟩
    from rfl)] at hread
  rcases hall : Description.all slots with ⟨fault | descriptions, more⟩
  · have hdescribe : describeSlots slots c₁ = ⟨.error fault, c₁, more⟩ := by
      simp only [describeSlots, hall]
    rw [hread, bind_of_error hdescribe] at h
    cases h
  · have hdescribe : describeSlots slots c₁ = ⟨.ok descriptions, c₁, more⟩ := by
      simp only [describeSlots, hall]
    rw [bind_of_ok hdescribe] at hread
    rw [hread] at h ⊢
    obtain rfl : ⟨⟨c.pos, c₁.pos - c.pos⟩, slots, descriptions⟩ = pool := Except.ok.inj h
    exact ⟨notices, more, rfl, hall, rfl⟩

/-- The constants of a pool, in the order of their numbers, take up its place. -/
structure Tiled (pool : Pool) : Prop where
  ascending : pool.constants.Pairwise fun a b => a.1 < b.1
  tiles : Tiles (fun e => e.2.span) pool.span.start pool.constants
    (pool.span.start + pool.span.length)
  extent : ∀ e ∈ pool.constants, e.2.span.length = e.2.value.extent

/-- A pool whose slots stand one behind the other. -/
theorem Tiled.of_series {pool : Pool} {slots : List Slot} {content : List UInt8}
    (hslots : pool.slots.toList = .unused :: slots) (hspan : pool.span = ⟨p, content.length⟩)
    (h : Series Slot.Settled p slots content) : pool.Tiled := by
  have hvalues : pool.constants.map Prod.snd = slots.filterMap Slot.located? := by
    rw [constants_eq, Slots.map_snd_numbered, hslots]
    rfl
  refine ⟨by rw [constants_eq]; exact Slots.numbered_ascending, ?_, ?_⟩
  · rw [hspan]
    refine Tiles.of_map (f := Prod.snd) ?_
    rw [hvalues]
    exact Slots.tiles_of_series h
  · intro e he
    refine Slots.extent_of_series h ?_
    rw [← hvalues]
    exact List.mem_map_of_mem he

end Pool

end JavaClass
