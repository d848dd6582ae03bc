/-
  JavaClass.Proofs.Instruction.Width — how many bytes one instruction takes.

  The width of an instruction is set by its operation, but for two kinds.  A switch takes the bytes up
  to the next multiple of four and then as many as its bounds or its pairs ask for; a widened operation
  takes two bytes for each number.  `Instruction.width` says so without a look at the code, and every
  instruction that is read has this width (`ReadAt.measured`).

  Code may end before the bytes that say how wide its last instruction is.  With zeros behind the end
  there is always an instruction, because some number of bytes is enough for any (`Suffices`).  A read
  depends on the bytes that it passes over and on nothing else, so the code itself gives that
  instruction or, if it is too short for the width, lacks bytes (`Instruction.read_exact_width`).
-/
import JavaClass.Proofs.Instruction.Course

namespace JavaClass

open Decoder

/-! ## §1. Bytes enough. -/

namespace Decoder

variable {α β : Type} {m n : Nat}

/-- With `n` bytes left, `d` gives a value, and it passes over no more than these. -/
def Suffices (n : Nat) (d : Decoder α) : Prop :=
  ∀ c : Cursor, c.InBounds → c.pos + n ≤ c.stop → ∃ a q, d.Goes c a q ∧ c.pos ≤ q ∧ q ≤ c.pos + n

theorem Suffices.mono {d : Decoder α} (h : d.Suffices m) (hmn : m ≤ n) : d.Suffices n := by
  intro c hc hroom
  obtain ⟨a, q, hgoes, hle, hend⟩ := h c hc (by omega)
  exact ⟨a, q, hgoes, hle, by omega⟩

theorem Suffices.bind {d : Decoder α} {next : α → Decoder β} (hd : d.Suffices m)
    (hn : ∀ a, (next a).Suffices n) : (d >>= next).Suffices (m + n) := by
  intro c hc hroom
  obtain ⟨a, q, hfirst, hle, hend⟩ := hd c hc (by omega)
  have hin : (c.goto q).InBounds := hc.goto hle (by omega)
  have hleft : q + n ≤ c.stop := by omega
  obtain ⟨b, r, hsecond, hle', hend'⟩ := hn a (c.goto q) hin hleft
  have hle' : q ≤ r := hle'
  have hend' : r ≤ q + n := hend'
  exact ⟨b, r, hfirst.bind hsecond, by omega, by omega⟩

theorem Suffices.still {d : Decoder α} (v : Cursor → α) (h : ∀ c, d c = ⟨.ok (v c), c, []⟩) :
    d.Suffices 0 := by
  intro c _ _
  exact ⟨v c, c.pos, ⟨[], h c⟩, Int.le_refl _, by omega⟩

theorem Suffices.pure (a : α) : (pure a : Decoder α).Suffices 0 := .still (fun _ => a) fun _ => rfl

theorem Suffices.map {d : Decoder α} (h : d.Suffices n) (f : α → β) :
    (d >>= fun a => Pure.pure (f a)).Suffices n := .bind h fun a => .pure (f a)

theorem Suffices.position : position.Suffices 0 := .still Cursor.pos fun _ => rfl

theorem Suffices.spanFrom (start : Int) : (spanFrom start).Suffices 0 :=
  .still (fun c => ⟨start, c.pos - start⟩) fun _ => rfl

theorem Suffices.taking (what : String) {size : Int} (v : Cursor → α) (hsize : 0 ≤ size)
    (hn : size ≤ n) : (taking what size v).Suffices n := by
  intro c _ hroom
  refine ⟨v c, c.pos + size, ⟨[], ?_⟩, by omega, by omega⟩
  exact taking_of_enough (by omega)

theorem Suffices.skip (what : String) {size : Int} (hsize : 0 ≤ size) (hn : size ≤ n) :
    (skip what size).Suffices n := .taking what _ hsize hn

theorem Suffices.natural (what : String) (width : Nat) : (natural what width).Suffices width :=
  .taking what _ (Int.natCast_nonneg width) (Int.le_refl _)

theorem Suffices.u1 (what : String) : (u1 what).Suffices 1 := .map (.natural what 1) _

theorem Suffices.u2 (what : String) : (u2 what).Suffices 2 := .map (.natural what 2) _

theorem Suffices.u4 (what : String) : (u4 what).Suffices 4 := .map (.natural what 4) _

theorem Suffices.s1 (what : String) : (s1 what).Suffices 1 := .map (.u1 what) _

theorem Suffices.s2 (what : String) : (s2 what).Suffices 2 := .map (.u2 what) _

theorem Suffices.s4 (what : String) : (s4 what).Suffices 4 := .map (.u4 what) _

theorem Suffices.many {d : Decoder α} {count bound : Nat} (h : d.Suffices n)
    (hcount : count ≤ bound) : (many count d).Suffices (bound * n) := by
  refine .mono (m := count * n) ?_ (Nat.mul_le_mul_right n hcount)
  clear hcount
  induction count with
  | zero =>
    rw [many_zero, Nat.zero_mul]
    exact .pure []
  | succ count ih =>
    rw [many_succ, Nat.succ_mul, Nat.add_comm]
    exact .bind h fun _ => .bind ih fun _ => .pure _

end Decoder

namespace Operand

/-- The padding is the one number from 0 to 3 that leads to a multiple of four, also before the start of
    the code. -/
theorem eq_padding_iff (offset pad : Int) :
    0 ≤ pad ∧ pad ≤ 3 ∧ 4 ∣ offset + 1 + pad ↔ pad = padding offset := by
  unfold padding
  omega

theorem padding_le (offset : Int) : padding offset ≤ 3 := ((eq_padding_iff offset _).mpr rfl).2.1

/-- Bytes enough for any operand: a switch over a range has at most as many keys as there are numbers
    of four bytes, and four bytes for each. -/
def enough : Nat := 15 + 4 * 0x100000000

theorem readTableSwitch_suffices (offset : Int) : (readTableSwitch offset).Suffices enough := by
  have hcount : ∀ low high : Int32, (high.toInt - low.toInt + 1).toNat ≤ 0x100000000 := by
    intro low high
    have hlow := low.le_toInt
    have hhigh := high.toInt_lt
    omega
  exact .mono (.bind (.skip _ (padding_nonneg offset) (padding_le offset)) fun _ =>
    .bind (.s4 _) fun _ => .bind (.s4 _) fun low => .bind (.s4 _) fun high =>
    .map (.many (.map (.s4 _) _) (hcount low high)) _) (by decide)

theorem readLookupSwitch_suffices (offset : Int) : (readLookupSwitch offset).Suffices enough := by
  have hcount : ∀ count : Int32, count.toInt.toNat ≤ 0x80000000 := by
    intro count
    have hlt := count.toInt_lt
    omega
  exact .mono (.bind (.skip _ (padding_nonneg offset) (padding_le offset)) fun _ =>
    .bind (.s4 _) fun _ => .bind (.s4 _) fun count =>
    .map (.many (.bind (.s4 _) fun _ => .map (.s4 _) _) (hcount count)) _) (by decide)

theorem read_suffices (offset : Int) (layout : Opcode.Layout) :
    (read offset layout).Suffices enough := by
  cases layout with
  | bare | wide => exact .mono (.pure none) (by decide)
  | immediate1 => exact .mono (.map (.s1 _) _) (by decide)
  | immediate2 | branch2 => exact .mono (.map (.s2 _) _) (by decide)
  | branch4 => exact .mono (.map (.s4 _) _) (by decide)
  | constant1 | localSlot | arrayCode => exact .mono (.map (.u1 _) _) (by decide)
  | constant2 => exact .mono (.map (.u2 _) _) (by decide)
  | increment => exact .mono (.bind (.u1 _) fun _ => .map (.s1 _) _) (by decide)
  | interfaceCall =>
    exact .mono (.bind (.u2 _) fun _ => .bind (.u1 _) fun _ =>
      .map (.skip (n := 1) _ (by decide) (by decide)) _) (by decide)
  | dynamicCall =>
    exact .mono (.bind (.u2 _) fun _ => .map (.skip (n := 2) _ (by decide) (by decide)) _)
      (by decide)
  | multiArray => exact .mono (.bind (.u2 _) fun _ => .map (.u1 _) _) (by decide)
  | tableSwitch => exact .map (readTableSwitch_suffices offset) some
  | lookupSwitch => exact .map (readLookupSwitch_suffices offset) some

end Operand

namespace Instruction

theorem readWidened_suffices (offset : Int) : (readWidened offset).Suffices 5 := by
  refine .bind (m := 1) (n := 4) (.u1 _) fun target => ?_
  split
  · refine .bind (m := 2) (n := 2) (.u2 _) fun index => ?_
    split
    · exact .map (.s2 _) _
    · exact .mono (.pure _) (by decide)
  · exact .mono (.pure _) (by decide)

/-- Some number of bytes is enough for any instruction.  Which one does not matter, and it is not
    computed with. -/
theorem exists_suffices (codeStart : Int) : ∃ n, (read codeStart).Suffices n := by
  refine ⟨_, .bind .position fun start => .bind (n := Operand.enough) (.u1 _) fun opcode => ?_⟩
  split
  · exact .mono (readWidened_suffices _) (by decide)
  · exact .mono (.bind (Operand.read_suffices _ _) fun operand => .map (.spanFrom start) _)
      (Nat.le_refl _)

end Instruction

/-! ## §2. Zeros behind the end. -/

namespace Cursor

/-- The same bytes up to the bound, with zeros behind it. -/
def extended (c : Cursor) (zeros : Nat) : Cursor :=
  ⟨c.data.extract 0 c.stop.toNat ++ Array.replicate zeros 0, c.pos, c.stop + zeros⟩

variable {c : Cursor}

@[simp] theorem extended_pos (c : Cursor) (zeros : Nat) : (c.extended zeros).pos = c.pos := rfl

@[simp] theorem extended_stop (c : Cursor) (zeros : Nat) :
    (c.extended zeros).stop = c.stop + zeros := rfl

theorem InBounds.extended (hc : c.InBounds) (zeros : Nat) : (c.extended zeros).InBounds := by
  obtain ⟨h₀, h₁, h₂⟩ := hc
  refine ⟨h₀, ?_, ?_⟩
  · show c.pos ≤ c.stop + zeros
    omega
  · show c.stop + zeros ≤ ((c.data.extract 0 c.stop.toNat ++ Array.replicate zeros 0).size : Nat)
    rw [Array.size_append, Array.size_extract, Array.size_replicate]
    omega

theorem byte?_extended (hc : c.InBounds) (zeros : Nat) {i : Int} (hi : 0 ≤ i) :
    (c.extended zeros).byte? i =
      if i < c.stop then c.byte? i else if i < c.stop + zeros then some 0 else none := by
  obtain ⟨h₀, h₁, h₂⟩ := hc
  have hsize : (c.data.extract 0 c.stop.toNat).size = c.stop.toNat := by
    rw [Array.size_extract]
    omega
  show (c.data.extract 0 c.stop.toNat ++ Array.replicate zeros 0)[i.toNat]? = _
  rw [Array.getElem?_append, hsize]
  split
  · rw [if_pos (by omega), Array.getElem?_extract, if_pos (by omega), Nat.zero_add, byte?]
  · rw [if_neg (by omega), Array.getElem?_replicate]
    split
    · rw [if_pos (by omega)]
    · rw [if_neg (by omega)]

/-- Code is a cut of itself with zeros behind it. -/
theorem InBounds.cuts_extended (hc : c.InBounds) (zeros : Nat) : c.Cuts (c.extended zeros) := by
  refine ⟨hc, hc.extended zeros, rfl, ?_, ?_⟩
  · rw [extended_stop]
    omega
  · intro i hi hstop
    rw [byte?_extended hc zeros (Int.le_trans hc.1 hi), if_pos hstop]

/-- Fewer zeros are a cut of more. -/
theorem InBounds.extended_cuts (hc : c.InBounds) {zeros more : Nat} (hle : zeros ≤ more) :
    (c.extended zeros).Cuts (c.extended more) := by
  refine ⟨hc.extended zeros, hc.extended more, rfl, ?_, ?_⟩
  · rw [extended_stop, extended_stop]
    omega
  · intro i hi hstop
    have hi : 0 ≤ i := Int.le_trans hc.1 hi
    rw [extended_stop] at hstop
    rw [byte?_extended hc zeros hi, byte?_extended hc more hi]
    split
    · rfl
    · rw [if_pos (by omega)]

end Cursor

/-! ## §3. Widths. -/

/-- The number of bytes behind an operation, for operands of a fixed size. -/
def Opcode.Layout.fixedSize : Opcode.Layout → Int
  | .immediate1 | .constant1 | .localSlot | .arrayCode => 1
  | .immediate2 | .constant2 | .increment | .branch2 => 2
  | .multiArray => 3
  | .branch4 | .interfaceCall | .dynamicCall => 4
  | .bare | .tableSwitch | .lookupSwitch | .wide => 0

/-- The number of bytes behind an operation at `offset`. -/
def Operand.size (offset : Int) (layout : Opcode.Layout) : Option Operand → Int
  | some (.tableSwitch _ low high _) => padding offset + 12 + 4 * max 0 (high - low + 1)
  | some (.lookupSwitch _ pairs) => padding offset + 8 + 8 * pairs.length
  | _ => layout.fixedSize

/-- The number of bytes of an instruction.  A widened operation takes two bytes for a local variable,
    and two more for an increment. -/
def Instruction.width (i : Instruction) : Int :=
  if i.wide then
    if i.opcode = Opcode.widener then 2 else if i.form = .increment then 6 else 4
  else 1 + Operand.size i.offset i.form i.operand

namespace Operand

theorem length_tableSwitch {blank : List UInt8} {count default low high : Int} {offsets : List Int}
    (hlength : (offsets.length : Int) = max 0 (high - low + 1)) :
    ((assemble blank count .tableSwitch (some (.tableSwitch default low high offsets))).length : Int) =
      blank.length + 12 + 4 * max 0 (high - low + 1) := by
  simp only [assemble, List.length_append, Serial.length_s4,
    Serial.length_flatMap Serial.length_s4]
  omega

theorem length_lookupSwitch {blank : List UInt8} {count default : Int} {pairs : List (Int × Int)} :
    ((assemble blank count .lookupSwitch (some (.lookupSwitch default pairs))).length : Int) =
      blank.length + 8 + 8 * pairs.length := by
  have hpair : ∀ e : Int × Int, (Serial.s4 e.1 ++ Serial.s4 e.2).length = 8 := fun _ => rfl
  simp only [assemble, List.length_append, Serial.length_s4, Serial.length_flatMap hpair]
  omega

/-- An operand is written as so many bytes as its layout and its values ask for. -/
theorem Takes.size_eq {layout : Opcode.Layout} {operand : Option Operand} (h : Takes layout operand)
    (offset : Int) {blank : List UInt8} (hblank : blank.length = blankSize offset layout)
    (count : Int) :
    ((assemble blank count layout operand).length : Int) = size offset layout operand := by
  unfold Takes at h
  -- Four layouts have blanks: the two calls and the two switches.
  split at h
  case h_10 | h_11 =>
    simp only [assemble, List.length_append, Serial.length_natural, hblank]
    rfl
  case h_14 default low high offsets =>
    rw [length_tableSwitch h.2.2.2.1, hblank, size, padding_eq]
    rfl
  case h_15 default pairs =>
    rw [length_lookupSwitch, hblank, size, padding_eq]
    rfl
  case h_16 => exact absurd h id
  all_goals rfl

theorem TakesWide.size_eq {layout : Opcode.Layout} {operand : Option Operand}
    (h : TakesWide layout operand) :
    ((assembleWide operand).length : Int) = if layout = .increment then 4 else 2 := by
  unfold TakesWide at h
  split at h
  · rfl
  · rfl
  · exact absurd h id

end Operand

namespace Instruction

variable {codeStart : Int} {c : Cursor} {i : Instruction}

/-- An instruction with the operand that its operation takes is written as so many bytes as it is
    wide. -/
theorem Fits.width_eq (h : i.Fits) : (i.assemble.length : Int) = i.width := by
  unfold Fits at h
  unfold assemble assembleWith blankSize width
  -- A widener without an operation, a widened operation, or an operation by itself.
  cases hwide : i.wide with
  | true =>
    rw [hwide, if_pos rfl] at h
    simp only [if_pos]
    by_cases hwidener : i.opcode = Opcode.widener
    · simp only [if_pos hwidener]
      rfl
    · rw [if_neg hwidener] at h
      have hsize := h.size_eq
      simp only [if_neg hwidener, List.length_cons]
      split at hsize
      · rw [if_pos ‹_›]
        omega
      · rw [if_neg ‹_›]
        omega
  | false =>
    rw [hwide, if_neg Bool.false_ne_true] at h
    have hsize := h.2.size_eq i.offset (List.length_replicate (a := 0))
      (Operand.pairCount i.operand)
    simp only [if_neg Bool.false_ne_true, List.length_cons]
    omega

/-! ## §4. One instruction. -/

/-- From `c` on, `i` is read.  It has the operand that its operation takes and is written as the bytes
    there, and its length is its width. -/
structure Measured (codeStart : Int) (c : Cursor) (i : Instruction) : Prop
    extends ReadAt codeStart c i where
  fits : i.Fits
  written : i.WrittenAs (c.peek i.length.toNat)
  width : i.length = i.width

/-- The code ends within the instruction at `c`: bytes are lacking where the cursor is left. -/
def EndsWithin (codeStart : Int) (c : Cursor) : Prop :=
  ∃ what size left q notices, c.pos ≤ q ∧ q ≤ c.stop ∧
    read codeStart c = ⟨.error (.truncated what size left q), c.goto q, notices⟩

/-- Every instruction that is read is as long as it is wide. -/
theorem ReadAt.measured (hc : c.InBounds) (h : ReadAt codeStart c i) : Measured codeStart c i := by
  obtain ⟨notices, hrun⟩ := h.goes
  obtain ⟨bytes, -, -, hpeek, hassemblable, -, hwritten⟩ := read_settles.of_run hc hrun
  have hlength : i.length = bytes.length := by rw [hassemblable.length, hwritten.length_eq]
  refine ⟨h, hassemblable.fits, ?_, ?_⟩
  · rw [hlength, Int.toNat_natCast, ← hpeek]
    exact hwritten
  · rw [hassemblable.length, hassemblable.fits.width_eq]

/-- Reading gives an instruction, or the code ends within it. -/
theorem measured_or_endsWithin (codeStart : Int) (hc : c.InBounds) :
    (∃ i, Measured codeStart c i) ∨ EndsWithin codeStart c := by
  obtain ⟨i, hi⟩ | hends := read_cases codeStart hc
  · exact .inl ⟨i, hi.measured hc⟩
  · exact .inr hends

theorem Measured.result_eq (h : Measured codeStart c i) : (read codeStart c).result = .ok i :=
  h.goes.result_eq

theorem EndsWithin.result_ne (h : EndsWithin codeStart c) (i : Instruction) :
    (read codeStart c).result ≠ .ok i := by
  obtain ⟨what, size, left, q, notices, -, -, hrun⟩ := h
  rw [hrun]
  intro hok
  cases hok

theorem measured_of_result (hc : c.InBounds) (h : (read codeStart c).result = .ok i) :
    Measured codeStart c i := by
  obtain ⟨j, hj⟩ | hends := measured_or_endsWithin codeStart hc
  · obtain rfl : i = j := Except.ok.inj (h.symm.trans hj.result_eq)
    exact hj
  · exact absurd h (hends.result_ne i)

/-- What cut code gives, the whole gives. -/
theorem Measured.of_cuts {short long : Cursor} (h : Measured codeStart short i)
    (hcut : short.Cuts long) : Measured codeStart long i :=
  measured_of_result hcut.whole ((read_stable codeStart).goes_of_cut hcut h.goes).result_eq

/-- Cut code gives the instruction of the whole, exactly if it leaves room for it. -/
theorem Measured.result_of_cuts {short long : Cursor} (h : Measured codeStart long i)
    (hcut : short.Cuts long) (j : Instruction) :
    (read codeStart short).result = .ok j ↔ j = i ∧ i.width ≤ short.remaining := by
  have hpos := hcut.pos
  have hwidth := h.width
  unfold Cursor.remaining
  constructor
  · intro hresult
    have hj := measured_of_result hcut.inBounds hresult
    -- The whole gives what the cut gives, and it gives one instruction only.
    obtain rfl : j = i := Except.ok.inj ((hj.of_cuts hcut).result_eq.symm.trans h.result_eq)
    have hroom := hj.room
    exact ⟨rfl, by omega⟩
  · rintro ⟨rfl, hroom⟩
    exact ((read_stable codeStart).goes_of_whole hcut h.goes (by omega)).result_eq

/-- `i` is the instruction at `c` with zeros behind the end: as soon as there are enough of them to fill
    its width it is read, and nothing else is ever read. -/
def Completes (codeStart : Int) (c : Cursor) (i : Instruction) : Prop :=
  ∀ zeros j, (read codeStart (c.extended zeros)).result = .ok j ↔
    j = i ∧ i.width ≤ c.remaining + zeros

theorem Measured.completes {zeros : Nat} (hc : c.InBounds)
    (h : Measured codeStart (c.extended zeros) i) : Completes codeStart c i := by
  intro more j
  -- Both numbers of zeros are cuts of their sum.
  have hboth := h.of_cuts (hc.extended_cuts (Nat.le_add_right zeros more))
  rw [hboth.result_of_cuts (hc.extended_cuts (Nat.le_add_left more zeros)) j]
  have hremaining : (c.extended more).remaining = c.remaining + more := by
    simp only [Cursor.remaining, Cursor.extended_pos, Cursor.extended_stop]
    omega
  rw [hremaining]

/-- With zeros enough behind the end, there is always an instruction. -/
theorem exists_measured_extended (codeStart : Int) (hc : c.InBounds) :
    ∃ zeros i, Measured codeStart (c.extended zeros) i := by
  obtain ⟨zeros, hsuffices⟩ := exists_suffices codeStart
  have hin := hc.extended zeros
  obtain ⟨i, q, hgoes, -⟩ := hsuffices (c.extended zeros) hin (Int.add_le_add_right hc.2.1 zeros)
  exact ⟨zeros, i, measured_of_result hin hgoes.result_eq⟩

/-- **The exact width of an instruction.**  Put zeros behind the end of the code, and there is an
    instruction `i` at `c`.  The code itself gives `i`, and the cursor moves on by its length, which is
    its width; or the code ends within it, and bytes are lacking between the start and the end, where
    the cursor is left.  It ends within `i` exactly if fewer bytes are left than `i` is wide.  The
    padding that switches count is the one number from 0 to 3 that leads to a multiple of four. -/
theorem read_exact_width (codeStart : Int) (hc : c.InBounds) :
    ∃ i, Completes codeStart c i ∧ (Measured codeStart c i ∨ EndsWithin codeStart c) ∧
      (EndsWithin codeStart c ↔ c.remaining < i.width) ∧
      ∀ pad : Int, 0 ≤ pad ∧ pad ≤ 3 ∧ 4 ∣ i.offset + 1 + pad ↔ pad = Operand.padding i.offset := by
  obtain ⟨zeros, i, hi⟩ := exists_measured_extended codeStart hc
  -- The code is a cut of itself with zeros, so it gives `i` or nothing.
  have hresult := hi.result_of_cuts (hc.cuts_extended zeros)
  refine ⟨i, hi.completes hc, ?_⟩
  obtain ⟨j, hj⟩ | hends := measured_or_endsWithin codeStart hc
  · obtain ⟨rfl, hroom⟩ := (hresult j).mp hj.result_eq
    refine ⟨.inl hj, ⟨fun hends => ?_, fun hshort => ?_⟩, Operand.eq_padding_iff _⟩
    · exact absurd hj.result_eq (hends.result_ne j)
    · omega
  · have hshort : c.remaining < i.width := by
      refine Int.not_le.mp fun hroom => ?_
      exact hends.result_ne i ((hresult i).mpr ⟨rfl, hroom⟩)
    exact ⟨.inr hends, ⟨fun _ => hshort, fun _ => hends⟩, Operand.eq_padding_iff _⟩

/-- A switch before the start of its code, cut within its upper bound. -/
def cutSwitch : Cursor :=
  ⟨#[0, 0xAA, 7, 0, 0, 0, 9, 0xFF, 0xFF, 0xFF, 0xFE, 0, 0, 0x7F, 0xFF], 1, 13⟩

/-- That switch, with zeros for the bytes that it lacks. -/
def filledSwitch : Instruction :=
  ⟨-6, 0xAA, "tableswitch", 26, some (.tableSwitch 9 (-2) 0 [0, 0, 0]), false, false⟩

theorem read_exact_width_cut :
    cutSwitch.InBounds ∧ Completes 7 cutSwitch filledSwitch ∧ EndsWithin 7 cutSwitch ∧
      (read 7 cutSwitch).result = .error (.truncated "tableswitch high" 4 2 11) ∧
      cutSwitch.remaining = 12 ∧ filledSwitch.width = 26 := by
  have hc : cutSwitch.InBounds := ⟨by decide, by decide, by decide⟩
  obtain ⟨i, hcompletes, -, hends, -⟩ := read_exact_width 7 hc
  -- Fourteen zeros fill the switch up.
  have hfilled : (read 7 (cutSwitch.extended 14)).result = .ok filledSwitch := by
    set_option maxRecDepth 2000 in rfl
  obtain rfl : filledSwitch = i := ((hcompletes 14 filledSwitch).mp hfilled).1
  exact ⟨hc, hcompletes, hends.mpr (by decide), rfl, rfl, rfl⟩

end Instruction

end JavaClass
