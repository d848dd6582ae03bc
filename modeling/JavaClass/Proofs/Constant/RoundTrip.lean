/-
  JavaClass.Proofs.Constant.RoundTrip — reading a pool undoes writing one.

  Constants are written one behind the other, and numbered from 1 on; a constant of eight bytes takes
  two numbers, and the second of them holds nothing (`Slots.laid`).  The last number may be left out
  if it would hold nothing.  Whatever stands before and behind the bytes, reading them gives the
  constants back, each with its number and its place (`Pool.read_serializeAll`).
-/
import JavaClass.Proofs.Constant.Description
import JavaClass.Proofs.Constant.Layout

namespace JavaClass

open Decoder

variable {p : Int}

/-! ## §1. Single constants. -/

namespace Constant

/-- The constant can be written, read and described: its text is the one that its raw bytes stand for,
    and its number is a number with a text. -/
def Writable : Constant → Prop
  | utf8 text raw => raw.length ≤ 65535 ∧ Text.ModifiedUtf8.decode? raw = some text
  | float x => x.value ≠ .nan ∧ x.value.displaySingle? ≠ none
  | double x => x.value ≠ .nan
  | _ => True

theorem Writable.not_overflows {c : Constant} (h : c.Writable) : ¬ Description.Overflows c := by
  rintro ⟨x, rfl, hnone⟩
  exact h.2 hnone

theorem readUtf8_recovers (start : Int) {text : String} {raw : List UInt8}
    (hlength : raw.length ≤ 65535) (htext : Text.ModifiedUtf8.decode? raw = some text) :
    (readUtf8 start).Recovers p (Serial.shortBlock raw) (utf8 text raw) := by
  have hsize : (UInt16.ofNat raw.length).toNat = raw.length := by
    rw [UInt16.toNat_ofNat']
    omega
  refine (Recovers.u2 _ (UInt16.ofNat raw.length)).bind ?_
  rw [hsize]
  refine (Recovers.bytes _ raw).bind_nil ?_
  rw [htext]
  exact .pure _

theorem readMember_recovers (kind : MemberKind) (owner nameAndType : UInt16) :
    (readMember kind).Recovers p (Serial.u2 owner ++ Serial.u2 nameAndType)
      (member kind owner nameAndType) :=
  (Recovers.u2 _ owner).bind ((Recovers.u2 _ nameAndType).map (member kind owner))

/-- A constant is recovered from its bytes. -/
theorem read_recovers (slot : Nat) {c : Constant} (h : c.Writable) :
    (read slot).Recovers p c.serialize c := by
  have hpair : ∀ {q : Int} (first second : String) (a b : UInt16) (f : UInt16 → UInt16 → Constant),
      (do let x ← u2 first; return f x (← u2 second)).Recovers q (Serial.u2 a ++ Serial.u2 b)
        (f a b) := by
    intro q first second a b f
    exact (Recovers.u2 first a).bind ((Recovers.u2 second b).map (f a))
  refine .position_bind ?_
  cases c <;> simp only [serialize, List.append_assoc]
  case utf8 text raw => exact (Recovers.u1 _ 1).bind (readUtf8_recovers p h.1 h.2)
  case integer value => exact (Recovers.u1 _ 3).bind ((Recovers.s4 _ value).map integer)
  case float value =>
    rw [Number.Single.pattern_value h.1]
    exact (Recovers.u1 _ 4).bind ((Recovers.f4 _ value).map float)
  case long value => exact (Recovers.u1 _ 5).bind ((Recovers.s8 _ value).map long)
  case double value =>
    rw [Number.Double.pattern_value h]
    exact (Recovers.u1 _ 6).bind ((Recovers.f8 _ value).map double)
  case cls name => exact (Recovers.u1 _ 7).bind ((Recovers.u2 _ name).map cls)
  case string text => exact (Recovers.u1 _ 8).bind ((Recovers.u2 _ text).map string)
  case member kind owner reference =>
    cases kind with
    | field => exact (Recovers.u1 _ 9).bind (readMember_recovers .field owner reference)
    | method => exact (Recovers.u1 _ 10).bind (readMember_recovers .method owner reference)
    | interfaceMethod =>
      exact (Recovers.u1 _ 11).bind (readMember_recovers .interfaceMethod owner reference)
  case nameAndType name descriptor =>
    exact (Recovers.u1 _ 12).bind (hpair _ _ name descriptor nameAndType)
  case methodHandle kind reference =>
    exact (Recovers.u1 _ 15).bind ((Recovers.u1 _ kind).bind
      ((Recovers.u2 _ reference).map (methodHandle kind)))
  case methodType descriptor =>
    exact (Recovers.u1 _ 16).bind ((Recovers.u2 _ descriptor).map methodType)
  case dynamic bootstrap reference =>
    exact (Recovers.u1 _ 17).bind (hpair _ _ bootstrap reference dynamic)
  case invokeDynamic bootstrap reference =>
    exact (Recovers.u1 _ 18).bind (hpair _ _ bootstrap reference invokeDynamic)
  case moduleName name => exact (Recovers.u1 _ 19).bind ((Recovers.u2 _ name).map moduleName)
  case packageName name => exact (Recovers.u1 _ 20).bind ((Recovers.u2 _ name).map packageName)

/-! ## §2. Constants one behind the other. -/

/-- The bytes of constants. -/
def serializeAll (cs : List Constant) : List UInt8 := cs.flatMap serialize

/-- The number of slots that constants take. -/
def widthAll : List Constant → Nat
  | [] => 0
  | c :: rest => c.width + widthAll rest

/-- Constants numbered from `index` on, whose bytes stand from `p` on: each behind the slots and the
    bytes of the ones before it. -/
def placed (index : Nat) (p : Int) (cs : List Constant) : List (Nat × Located Constant) :=
  cs.mapIdx fun k c => (index + widthAll (cs.take k),
    ⟨⟨p + (serializeAll (cs.take k)).length, c.serialize.length⟩, c⟩)

variable {c : Constant} {cs rest : List Constant}

theorem width_cases (c : Constant) : c.width = 1 ∨ c.width = 2 := by
  cases c <;> simp [width]

theorem serializeAll_cons : serializeAll (c :: rest) = c.serialize ++ serializeAll rest :=
  List.flatMap_cons

theorem widthAll_concat : widthAll (cs ++ [c]) = widthAll cs + c.width := by
  induction cs with
  | nil => exact Nat.add_comm _ _
  | cons d rest ih => rw [List.cons_append, widthAll, widthAll, ih, Nat.add_assoc]

theorem placed_cons (index : Nat) :
    placed index p (c :: rest) = (index, ⟨⟨p, c.serialize.length⟩, c⟩) ::
      placed (index + c.width) (p + c.serialize.length) rest := by
  unfold placed
  rw [List.mapIdx_cons]
  congr 1
  · simp [widthAll, serializeAll]
  · congr 1
    funext k d
    rw [List.take_succ_cons, widthAll, serializeAll_cons, List.length_append, Int.natCast_add,
      Nat.add_assoc, Int.add_assoc]

theorem placed_append (index : Nat) {first second : List Constant} :
    placed index p (first ++ second) = placed index p first ++
      placed (index + widthAll first) (p + (serializeAll first).length) second := by
  induction first generalizing index p with
  | nil => simp [placed, widthAll, serializeAll]
  | cons c rest ih =>
    rw [List.cons_append, placed_cons, placed_cons, ih, widthAll, serializeAll_cons,
      List.length_append, Int.natCast_add, List.cons_append, Nat.add_assoc, Int.add_assoc]

/-- Constants take the numbers from the first one on. -/
theorem number_of_mem_placed {index : Nat} {e : Nat × Located Constant}
    (h : e ∈ placed index p cs) : e.1 + e.2.value.width ≤ index + widthAll cs := by
  induction cs generalizing index p with
  | nil => cases h
  | cons c rest ih =>
    rw [placed_cons] at h
    rw [widthAll]
    obtain rfl | h := List.mem_cons.mp h
    · show index + c.width ≤ _
      omega
    · have := ih h
      omega

theorem value_of_mem_placed {index : Nat} {e : Nat × Located Constant}
    (h : e ∈ placed index p cs) : e.2.value ∈ cs := by
  obtain ⟨k, hk, rfl⟩ := List.mem_mapIdx.mp h
  exact List.getElem_mem hk

/-- The count that is declared for constants: one more than the slots that they take, or as many as
    these if the last of them would hold nothing. -/
def Declared (cs : List Constant) (count : Int) : Prop :=
  count = 1 + widthAll cs ∨
    count = widthAll cs ∧ ∃ last, cs.getLast? = some last ∧ last.width = 2

end Constant

/-! ## §3. Slots. -/

namespace Slots

/-- The slots of constants whose bytes stand from `p` on. -/
def laid (p : Int) : List Constant → List Slot
  | [] => []
  | c :: rest =>
    .constant ⟨⟨p, c.serialize.length⟩, c⟩ ::
      (List.replicate (c.width - 1) (.upper (p + c.serialize.length)) ++
        laid (p + c.serialize.length) rest)

variable {slots : Slots} {cs rest : List Constant} {c : Constant}

theorem laid_cons_one (h : c.width = 1) :
    laid p (c :: rest) =
      .constant ⟨⟨p, c.serialize.length⟩, c⟩ :: laid (p + c.serialize.length) rest := by
  rw [laid, h]
  rfl

theorem laid_cons_two (h : c.width = 2) :
    laid p (c :: rest) = .constant ⟨⟨p, c.serialize.length⟩, c⟩ ::
      .upper (p + c.serialize.length) :: laid (p + c.serialize.length) rest := by
  rw [laid, h]
  rfl

theorem readNext_recovers (hslots : slots.isHalfway = false) (hc : c.Writable) :
    (readNext slots).Recovers p c.serialize
      (slots.push (.constant ⟨⟨p, c.serialize.length⟩, c⟩)) := by
  unfold readNext
  rw [hslots, if_neg Bool.false_ne_true]
  exact (Constant.read_recovers slots.size hc).located.map fun c => slots.push (.constant c)

theorem readNext_recovers_upper (hslots : slots.isHalfway = true) :
    (readNext slots).Recovers p [] (slots.push (.upper p)) := by
  unfold readNext
  rw [if_pos hslots]
  exact .position_bind (.pure _)

theorem isHalfway_push_constant (slots : Slots) (c : Located Constant) :
    isHalfway (slots.push (.constant c)) = decide (c.value.width = 2) := by
  simp [isHalfway]

theorem isHalfway_push_upper (q : Int) : isHalfway (slots.push (.upper q)) = false := by
  simp [isHalfway]

/-- A constant is read with all of its slots, and then whatever follows them. -/
theorem readConstant_recovers (count : Nat) {content : List UInt8} {result : Slots}
    (hslots : slots.isHalfway = false) (hc : c.Writable)
    (hrest : ∀ after : Slots, after.isHalfway = false →
      after.toList = slots.toList ++ laid p [c] →
      (repeated count readNext after).Recovers (p + c.serialize.length) content result) :
    (repeated (c.width + count) readNext slots).Recovers p (c.serialize ++ content) result := by
  have hpush := isHalfway_push_constant slots ⟨⟨p, c.serialize.length⟩, c⟩
  obtain hwidth | hwidth := c.width_cases
  · rw [hwidth, Nat.add_comm, repeated_succ]
    refine (readNext_recovers hslots hc).bind (hrest _ ?_ ?_)
    · rw [hpush, hwidth]
      rfl
    · rw [Array.toList_push, laid_cons_one hwidth, laid]
  · rw [hwidth, Nat.add_comm, repeated_succ]
    refine (readNext_recovers hslots hc).bind ?_
    -- The second slot is read without any bytes.
    rw [repeated_succ]
    refine (readNext_recovers_upper ?_).nil_bind (hrest _ (isHalfway_push_upper _) ?_)
    · rw [hpush, hwidth]
      rfl
    · rw [Array.toList_push, Array.toList_push, List.append_assoc, laid_cons_two hwidth, laid]
      rfl

/-- As many slots as constants take are read from the bytes of the constants, and then whatever
    follows them. -/
theorem readAll_recovers (count : Nat) {content : List UInt8} {result : Slots}
    (hslots : slots.isHalfway = false) (hcs : ∀ c ∈ cs, c.Writable)
    (hrest : ∀ after : Slots, after.isHalfway = false →
      after.toList = slots.toList ++ laid p cs →
      (repeated count readNext after).Recovers (p + (Constant.serializeAll cs).length) content
        result) :
    (repeated (Constant.widthAll cs + count) readNext slots).Recovers p
      (Constant.serializeAll cs ++ content) result := by
  -- The slots that are there already grow with each constant, and what follows all of them is fixed.
  induction cs generalizing slots p with
  | nil =>
    have h := hrest slots hslots (by rw [laid, List.append_nil])
    rw [show p + ((Constant.serializeAll []).length : Int) = p from Int.add_zero p] at h
    rw [show Constant.widthAll [] + count = count from Nat.zero_add count]
    exact h
  | cons c rest ih =>
    rw [Constant.widthAll, Nat.add_assoc, Constant.serializeAll_cons, List.append_assoc]
    refine readConstant_recovers _ hslots (hcs c List.mem_cons_self) ?_
    intro next hnext hlist
    refine ih hnext (fun d hd => hcs d (List.mem_cons_of_mem c hd)) ?_
    intro after hafter hlist'
    rw [Int.add_assoc, ← Int.natCast_add, ← List.length_append, ← Constant.serializeAll_cons]
    refine hrest after hafter ?_
    rw [hlist', hlist, List.append_assoc]
    simp [laid]

theorem length_laid : (laid p cs).length = Constant.widthAll cs := by
  induction cs generalizing p with
  | nil => rfl
  | cons c rest ih =>
    rw [Constant.widthAll]
    obtain hwidth | hwidth := c.width_cases
    · rw [laid_cons_one hwidth, List.length_cons, ih, hwidth, Nat.add_comm]
    · rw [laid_cons_two hwidth, List.length_cons, List.length_cons, ih, hwidth]
      omega

/-- The slots of constants hold the constants. -/
theorem numbered_laid (index : Nat) :
    numbered Slot.located? index (laid p cs) = Constant.placed index p cs := by
  induction cs generalizing index p with
  | nil => rfl
  | cons c rest ih =>
    rw [Constant.placed_cons]
    obtain hwidth | hwidth := c.width_cases
    · rw [laid_cons_one hwidth, numbered_cons_some (Slot.located?_constant _), ih, hwidth]
    · rw [laid_cons_two hwidth, numbered_cons_some (Slot.located?_constant _),
        numbered_cons_none (Slot.located?_upper _), ih, hwidth]

/-- The number behind the one of a constant, and the place behind it. -/
def behind (e : Nat × Located Constant) : Nat × Int :=
  (e.1 + 1, e.2.span.start + e.2.span.length)

/-- The other slots stand behind the constants that take two. -/
theorem numbered_upper_laid (index : Nat) :
    numbered Slot.upper? index (laid p cs) =
      ((Constant.placed index p cs).filter fun e => e.2.value.width = 2).map behind := by
  induction cs generalizing index p with
  | nil => rfl
  | cons c rest ih =>
    rw [Constant.placed_cons]
    obtain hwidth | hwidth := c.width_cases
    · rw [laid_cons_one hwidth, numbered_cons_none (Slot.upper?_constant _), ih, hwidth,
        List.filter_cons_of_neg (by simp [hwidth])]
    · rw [laid_cons_two hwidth, numbered_cons_none (Slot.upper?_constant _),
        numbered_cons_some (Slot.upper?_upper _), ih, hwidth,
        List.filter_cons_of_pos (by simp [hwidth]), List.map_cons]
      rfl

/-- The slots below `count`, slot 0 apart, are those of constants whose bytes stand from `p` on. -/
structure Carries (p : Int) (cs : List Constant) (count : Int) (slots : List Slot) : Prop where
  length : (slots.length : Int) + 1 = count
  constants : numbered Slot.located? 1 slots = Constant.placed 1 p cs
  uppers : numbered Slot.upper? 1 slots =
    ((Constant.placed 1 p cs).filter fun e => e.2.value.width = 2 ∧ (e.1 : Int) + 1 < count).map behind

/-- A constant below the last number of other constants has a slot behind it. -/
theorem filter_placed {count : Int} (h : 1 + (Constant.widthAll cs : Int) ≤ count) :
    (Constant.placed 1 p cs).filter (fun e => e.2.value.width = 2 ∧ (e.1 : Int) + 1 < count) =
      (Constant.placed 1 p cs).filter fun e => e.2.value.width = 2 := by
  refine List.filter_congr fun e he => ?_
  have hnumber := Constant.number_of_mem_placed he
  simp only [decide_eq_decide, and_iff_left_iff_imp]
  intro hwidth
  omega

theorem carries_laid : Carries p cs (1 + Constant.widthAll cs) (laid p cs) := by
  refine ⟨?_, numbered_laid 1, ?_⟩
  · rw [length_laid, Int.add_comm]
  · rw [numbered_upper_laid, filter_placed (Int.le_refl _)]

/-- The second slot of the last constant is left out. -/
theorem carries_laid_short (hwidth : c.width = 2) :
    Carries p (cs ++ [c]) (Constant.widthAll (cs ++ [c])) (laid p cs ++
      [.constant ⟨⟨p + (Constant.serializeAll cs).length, c.serialize.length⟩, c⟩]) := by
  have hcount : Constant.widthAll (cs ++ [c]) = Constant.widthAll cs + 2 := by
    rw [Constant.widthAll_concat, hwidth]
  have hplaced : Constant.placed 1 p (cs ++ [c]) = Constant.placed 1 p cs ++
      [(1 + Constant.widthAll cs,
        ⟨⟨p + (Constant.serializeAll cs).length, c.serialize.length⟩, c⟩)] := by
    rw [Constant.placed_append, Constant.placed_cons]
    rfl
  refine ⟨?_, ?_, ?_⟩
  · rw [List.length_append, length_laid, hcount]
    simp only [List.length_singleton]
    omega
  · rw [numbered_append, numbered_laid, length_laid, numbered_cons_some (Slot.located?_constant _),
      hplaced]
    rfl
  · rw [numbered_append, numbered_upper_laid, numbered_cons_none (Slot.upper?_constant _), hplaced,
      List.filter_append, filter_placed (by omega), List.filter_cons_of_neg (by simp [hcount]; omega)]
    simp [numbered]

theorem readAll_laid (hcs : ∀ c ∈ cs, c.Writable) (p : Int) :
    (repeated (Constant.widthAll cs) readNext #[.unused]).Recovers p (Constant.serializeAll cs)
      (Slot.unused :: laid p cs).toArray := by
  have hread : (repeated (Constant.widthAll cs + 0) readNext #[.unused]).Recovers p
      (Constant.serializeAll cs ++ []) (Slot.unused :: laid p cs).toArray := by
    refine readAll_recovers 0 rfl hcs ?_
    intro after _ hafter
    obtain rfl : after = (Slot.unused :: laid p cs).toArray := Array.toList_inj.mp hafter
    exact .pure _
  rwa [List.append_nil] at hread

theorem readAll_laid_short (hcs : ∀ c ∈ cs, c.Writable) (hc : c.Writable) (p : Int) :
    (repeated (Constant.widthAll cs + 1) readNext #[.unused]).Recovers p
      (Constant.serializeAll cs ++ c.serialize)
      (Slot.unused :: (laid p cs ++
        [.constant ⟨⟨p + (Constant.serializeAll cs).length, c.serialize.length⟩, c⟩])).toArray := by
  refine readAll_recovers 1 rfl hcs ?_
  intro after hafter hlist
  rw [repeated_succ]
  refine (readNext_recovers hafter hc).bind_nil ?_
  rw [repeated_zero, ← List.cons_append, ← List.push_toArray]
  obtain rfl : after = (Slot.unused :: laid p cs).toArray := Array.toList_inj.mp hlist
  exact .pure _

/-- The slots of constants are recovered from the bytes of the constants. -/
theorem readAll_carries {count : Int} (hcs : ∀ c ∈ cs, c.Writable)
    (hcount : Constant.Declared cs count) (p : Int) :
    ∃ slots : List Slot, Carries p cs count slots ∧
      (repeated (count - 1).toNat readNext #[.unused]).Recovers p (Constant.serializeAll cs)
        (Slot.unused :: slots).toArray := by
  obtain rfl | ⟨rfl, last, hlast, hwidth⟩ := hcount
  · refine ⟨laid p cs, carries_laid, ?_⟩
    rw [show (1 + (Constant.widthAll cs : Int) - 1).toNat = Constant.widthAll cs by omega]
    exact readAll_laid hcs p
  · obtain ⟨init, rfl⟩ := List.getLast?_eq_some_iff.mp hlast
    refine ⟨_, carries_laid_short hwidth, ?_⟩
    have hcount : ((Constant.widthAll (init ++ [last]) : Int) - 1).toNat =
        Constant.widthAll init + 1 := by
      rw [Constant.widthAll_concat, hwidth]
      omega
    have hbytes : Constant.serializeAll (init ++ [last]) =
        Constant.serializeAll init ++ last.serialize := by
      simp [Constant.serializeAll]
    rw [hcount, hbytes]
    exact readAll_laid_short (fun c hc => hcs c (List.mem_append_left _ hc))
      (hcs last (by simp)) p

end Slots

/-! ## §4. Pools. -/

namespace Pool

variable {slots : List Slot} {cs : List Constant} {count : Int}

/-- Slots whose constants can be written are described. -/
theorem all_of_carries (h : Slots.Carries p cs count slots) (hcs : ∀ c ∈ cs, c.Writable) :
    ∃ descriptions, (Description.all (Slot.unused :: slots).toArray).1 = .ok descriptions := by
  have hzero : Slots.constant? (Slot.unused :: slots).toArray 0 = none := rfl
  obtain ⟨-, hok⟩ | ⟨⟨index, c, hc, hoverflow⟩, -⟩ := Description.all_result hzero
  · exact hok
  exfalso
  obtain ⟨x, hx, rfl⟩ := Slots.mem_of_constant? hc
  have hplaced : x ∈ (Constant.placed 1 p cs).map Prod.snd := by
    rw [← h.constants, Slots.map_snd_numbered]
    exact hx
  obtain ⟨e, he, rfl⟩ := List.mem_map.mp hplaced
  exact (hcs _ (Constant.value_of_mem_placed he)).not_overflows hoverflow

theorem describeSlots_recovers {slots : Slots} {descriptions : Array String}
    (h : (Description.all slots).1 = .ok descriptions) :
    (describeSlots slots).Recovers p [] descriptions := by
  intro c _ hpos
  refine ⟨(Description.all slots).2, ?_⟩
  show (⟨(Description.all slots).1, c, (Description.all slots).2⟩ : Outcome (Array String)) =
    ⟨.ok descriptions, c.goto (p + 0), (Description.all slots).2⟩
  rw [h, Int.add_zero, ← hpos, Cursor.goto_self]

/-- A pool is recovered from the bytes of its constants. -/
theorem read_recovers (hcs : ∀ c ∈ cs, c.Writable) (hcount : Constant.Declared cs count) (p : Int) :
    ∃ slots descriptions, Slots.Carries p cs count slots ∧
      (read count).Recovers p (Constant.serializeAll cs)
        ⟨⟨p, (Constant.serializeAll cs).length⟩, (Slot.unused :: slots).toArray, descriptions⟩ := by
  obtain ⟨slots, hcarries, hslots⟩ := Slots.readAll_carries hcs hcount p
  obtain ⟨descriptions, hall⟩ := all_of_carries hcarries hcs
  refine ⟨slots, descriptions, hcarries, ?_⟩
  refine .position_bind (hslots.bind_nil ((Recovers.spanFrom p).nil_bind ?_))
  rw [show p + ((Constant.serializeAll cs).length : Int) - p = (Constant.serializeAll cs).length by
    omega]
  exact (describeSlots_recovers hall).map _

/-- A pool knows how many slots it has and which bytes it took up. -/
theorem read_accounts (c : Cursor) (count : Int) (pool : Pool)
    (h : (read count c).result = .ok pool) :
    (pool.size : Int) = max count 1 ∧ pool.span = ⟨c.pos, (read count c).cursor.pos - c.pos⟩ := by
  obtain ⟨notices, more, hslots, -, hspan⟩ := read_cases h
  refine ⟨?_, hspan⟩
  have hsize : pool.slots.size = 1 + (count - 1).toNat :=
    Slots.readAll_size _ _ c pool.slots (by rw [hslots])
  show (pool.slots.size : Int) = max count 1
  omega

/-- Reading a pool undoes writing one.

    The constants, with any bytes before and behind theirs, come back in their order, each with its
    number and its place.  The slots behind the constants that take two hold nothing, apart from one
    that is not declared, and reading ends behind the last constant.  Whatever a pool is read from, it
    has as many slots as declared, and at least slot 0, and it takes up the bytes that are read. -/
theorem read_serializeAll :
    (∀ (before after : List UInt8) (cs : List Constant) (count : Int),
      (∀ c ∈ cs, c.Writable) → Constant.Declared cs count →
      let content := Constant.serializeAll cs
      let c := (Cursor.ofBytes (before ++ content ++ after).toArray).goto before.length
      ∃ pool, (read count c).result = .ok pool ∧
        (read count c).cursor = c.goto (before.length + content.length) ∧
        pool.span = ⟨before.length, content.length⟩ ∧ pool.size = count ∧
        pool.constants = Constant.placed 1 before.length cs ∧
        pool.uppers = (pool.constants.filter fun e =>
          e.2.value.width = 2 ∧ (e.1 : Int) + 1 < count).map Slots.behind) ∧
    ∀ (c : Cursor) (count : Int) (pool : Pool), (read count c).result = .ok pool →
      (pool.size : Int) = max count 1 ∧
        pool.span = ⟨c.pos, (read count c).cursor.pos - c.pos⟩ := by
  refine ⟨?_, read_accounts⟩
  intro before after cs count hcs hcount content c
  obtain ⟨slots, descriptions, hcarries, hread⟩ := read_recovers hcs hcount before.length
  have hgoes := hread c (.middle before content after) rfl
  refine ⟨_, hgoes.result_eq, hgoes.cursor_eq, rfl, ?_, ?_, ?_⟩
  · exact hcarries.length
  · rw [constants_eq]
    exact hcarries.constants
  · rw [constants_eq, uppers_eq]
    show Slots.numbered Slot.upper? 1 slots =
      ((Slots.numbered Slot.located? 1 slots).filter _).map Slots.behind
    rw [hcarries.constants]
    exact hcarries.uppers

/-- A text, an integer of two slots, the number 1 in four bytes, and the number 1 in eight. -/
def specimen : List Constant :=
  [.utf8 "A" [0x41], .long 9, .float ⟨0x3F800000⟩, .double ⟨0x3FF0000000000000⟩]

theorem read_serializeAll_specimen :
    ∃ pool, (read 6 ((Cursor.ofBytes ([9] ++ Constant.serializeAll specimen ++ [8, 8]).toArray).goto
        1)).result = .ok pool ∧ pool.size = (6 : Int) ∧
      pool.constants = [(1, ⟨⟨1, 4⟩, .utf8 "A" [0x41]⟩), (2, ⟨⟨5, 9⟩, .long 9⟩),
        (4, ⟨⟨14, 5⟩, .float ⟨0x3F800000⟩⟩), (5, ⟨⟨19, 9⟩, .double ⟨0x3FF0000000000000⟩⟩)] ∧
      pool.uppers = [(3, 14)] := by
  have hwritable : ∀ c ∈ specimen, c.Writable := by
    intro c hc
    simp only [specimen, List.mem_cons, List.not_mem_nil, or_false] at hc
    obtain rfl | rfl | rfl | rfl := hc
    · exact ⟨by decide, by decide +kernel⟩
    · trivial
    · exact ⟨by decide +kernel, by decide +kernel⟩
    · show _ ≠ _
      decide +kernel
  obtain ⟨pool, hresult, -, -, hsize, hconstants, huppers⟩ := read_serializeAll.1 [9] [8, 8] specimen 6
    hwritable (.inr ⟨rfl, _, rfl, rfl⟩)
  have hplaced : Constant.placed 1 1 specimen = [(1, ⟨⟨1, 4⟩, .utf8 "A" [0x41]⟩),
      (2, ⟨⟨5, 9⟩, .long 9⟩), (4, ⟨⟨14, 5⟩, .float ⟨0x3F800000⟩⟩),
      (5, ⟨⟨19, 9⟩, .double ⟨0x3FF0000000000000⟩⟩)] := by
    decide +kernel
  rw [hconstants] at huppers
  exact ⟨pool, hresult, hsize, hconstants.trans hplaced, huppers.trans (by decide +kernel)⟩

end Pool

end JavaClass
