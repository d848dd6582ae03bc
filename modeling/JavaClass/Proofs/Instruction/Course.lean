/-
  JavaClass.Proofs.Instruction.Course — the course of a disassembly, also over code that is cut.

  Reading an instruction can do two things (`Instruction.read_cases`): it gives an instruction that
  ends behind its own length, or it lacks bytes.  It rejects nothing, because every byte is an
  operation and every operand is a number (`Tolerant`).

  A disassembly takes such steps until the code ends, or until it ends within an instruction.  Its
  `Course` is this walk as a relation between the cursor, the listing and the cursor afterwards,
  free of the count and of the instructions held in reverse.  Everything about listings is then by
  induction on the course: they tile the code, each instruction can be read alone, and code that is
  cut keeps the instructions that still fit (`Listing.read_cut`).
-/
import JavaClass.Proofs.Instruction.Disassembly
import JavaClass.Proofs.Relocation.Stable

namespace JavaClass

open Decoder

/-! ## §1. Decoders that reject nothing. -/

namespace Decoder

variable {α β : Type}

/-- A run of `d` gives a value or lacks bytes. -/
def Tolerant (d : Decoder α) : Prop := ∀ c fault, (d c).result = .error fault → (d c).Starved

theorem Tolerant.bind {d : Decoder α} {next : α → Decoder β} (hd : d.Tolerant)
    (hn : ∀ a, (next a).Tolerant) : (d >>= next).Tolerant := by
  intro c fault hfault
  rcases hrun : d c with ⟨first | a, c₁, notices⟩
  · have hstarved : (d c).Starved := hd c first (by rw [hrun])
    rw [hrun] at hstarved
    rw [bind_of_error hrun]
    obtain ⟨what, size, left, offset, hresult⟩ := hstarved
    cases hresult
    exact ⟨what, size, left, offset, rfl⟩
  · rw [bind_of_ok hrun] at hfault ⊢
    exact hn a c₁ fault hfault

theorem Tolerant.still {d : Decoder α} (v : Cursor → α) (h : ∀ c, d c = ⟨.ok (v c), c, []⟩) :
    d.Tolerant := by
  intro c fault hfault
  rw [h c] at hfault
  cases hfault

theorem Tolerant.pure (a : α) : (pure a : Decoder α).Tolerant := .still (fun _ => a) fun _ => rfl

theorem Tolerant.position : position.Tolerant := .still Cursor.pos fun _ => rfl

theorem Tolerant.spanFrom (start : Int) : (spanFrom start).Tolerant :=
  .still (fun c => ⟨start, c.pos - start⟩) fun _ => rfl

theorem Tolerant.taking (what : String) (n : Int) (v : Cursor → α) :
    (taking what n v).Tolerant := by
  intro c fault hfault
  by_cases hshort : c.stop < c.pos + n
  · rw [taking_of_short hshort]
    exact ⟨what, n, _, c.pos, rfl⟩
  · rw [taking_of_enough (by omega)] at hfault
    cases hfault

theorem Tolerant.skip (what : String) (n : Int) : (skip what n).Tolerant := .taking what n _

theorem Tolerant.u1 (what : String) : (u1 what).Tolerant :=
  .bind (.taking what 1 _) fun _ => .pure _

theorem Tolerant.u2 (what : String) : (u2 what).Tolerant :=
  .bind (.taking what 2 _) fun _ => .pure _

theorem Tolerant.u4 (what : String) : (u4 what).Tolerant :=
  .bind (.taking what 4 _) fun _ => .pure _

theorem Tolerant.s1 (what : String) : (s1 what).Tolerant := .bind (.u1 what) fun _ => .pure _

theorem Tolerant.s2 (what : String) : (s2 what).Tolerant := .bind (.u2 what) fun _ => .pure _

theorem Tolerant.s4 (what : String) : (s4 what).Tolerant := .bind (.u4 what) fun _ => .pure _

theorem Tolerant.many {d : Decoder α} (count : Nat) (h : d.Tolerant) : (many count d).Tolerant := by
  induction count with
  | zero =>
    rw [many_zero]
    exact .pure []
  | succ count ih =>
    rw [many_succ]
    exact .bind h fun _ => .bind ih fun _ => .pure _

/-- A tolerant run that fails is short of bytes at the place where it leaves the cursor. -/
theorem Tolerant.fault_eq {d : Decoder α} (h : d.Tolerant) (hs : d.Stable) {c : Cursor}
    (hc : c.InBounds) {fault : Fault} (hfault : (d c).result = .error fault) :
    ∃ what size left, fault = .truncated what size left (d c).cursor.pos := by
  obtain ⟨what, size, left, offset, hresult⟩ := h c fault hfault
  obtain rfl : fault = .truncated what size left offset :=
    Except.error.inj (hfault.symm.trans hresult)
  obtain ⟨q, hq, -, -, hwithin⟩ := hs.orderly hc
  have hoffset : offset = q := (hwithin _ hresult).2
  rw [hq, hoffset]
  exact ⟨what, size, left, rfl⟩

end Decoder

/-! ## §2. One instruction. -/

namespace Operand

theorem readTableSwitch_tolerant (offset : Int) : (readTableSwitch offset).Tolerant :=
  .bind (.skip _ _) fun _ => .bind (.s4 _) fun _ => .bind (.s4 _) fun _ => .bind (.s4 _) fun _ =>
    .bind (.many _ (.bind (.s4 _) fun _ => .pure _)) fun _ => .pure _

theorem readLookupSwitch_tolerant (offset : Int) : (readLookupSwitch offset).Tolerant :=
  .bind (.skip _ _) fun _ => .bind (.s4 _) fun _ => .bind (.s4 _) fun _ =>
    .bind (.many _ (.bind (.s4 _) fun _ => .bind (.s4 _) fun _ => .pure _)) fun _ => .pure _

theorem read_tolerant (offset : Int) (layout : Opcode.Layout) : (read offset layout).Tolerant := by
  cases layout with
  | bare | wide => exact .pure none
  | immediate1 => exact .bind (.s1 _) fun _ => .pure _
  | immediate2 | branch2 => exact .bind (.s2 _) fun _ => .pure _
  | branch4 => exact .bind (.s4 _) fun _ => .pure _
  | constant1 | localSlot | arrayCode => exact .bind (.u1 _) fun _ => .pure _
  | constant2 => exact .bind (.u2 _) fun _ => .pure _
  | increment => exact .bind (.u1 _) fun _ => .bind (.s1 _) fun _ => .pure _
  | interfaceCall =>
    exact .bind (.u2 _) fun _ => .bind (.u1 _) fun _ => .bind (.skip _ _) fun _ => .pure _
  | dynamicCall => exact .bind (.u2 _) fun _ => .bind (.skip _ _) fun _ => .pure _
  | multiArray => exact .bind (.u2 _) fun _ => .bind (.u1 _) fun _ => .pure _
  | tableSwitch => exact .bind (readTableSwitch_tolerant offset) fun _ => .pure _
  | lookupSwitch => exact .bind (readLookupSwitch_tolerant offset) fun _ => .pure _

end Operand

namespace Instruction

variable {codeStart : Int}

theorem readWidened_tolerant (offset : Int) : (readWidened offset).Tolerant := by
  refine .bind (.u1 _) fun target => ?_
  split
  · refine .bind (.u2 _) fun index => ?_
    split
    · exact .bind (.s2 _) fun _ => .pure _
    · exact .pure _
  · exact .pure _

theorem read_tolerant (codeStart : Int) : (read codeStart).Tolerant := by
  refine .bind .position fun start => .bind (.u1 _) fun opcode => ?_
  split
  · exact readWidened_tolerant _
  · exact .bind (Operand.read_tolerant _ _) fun _ => .bind (.spanFrom start) fun _ => .pure _

theorem read_stable (codeStart : Int) : (read codeStart).Stable := by
  intro lo l r
  have h : Relocates lo ⟨0, l, r⟩ id (read codeStart) (read (codeStart + 0)) :=
    read_relocates codeStart
  rwa [Int.add_zero] at h

/-- From `c` on, `i` is read, and it ends behind its own length. -/
structure ReadAt (codeStart : Int) (c : Cursor) (i : Instruction) : Prop where
  goes : (read codeStart).Goes c i (c.pos + i.length)
  offset : i.offset = c.pos - codeStart
  pos : 1 ≤ i.length
  room : c.pos + i.length ≤ c.stop

/-- What reading an instruction can do: it gives one, or its code ends within it. -/
theorem read_cases (codeStart : Int) {c : Cursor} (hc : c.InBounds) :
    (∃ i, ReadAt codeStart c i) ∨
      ∃ what size left q notices, c.pos ≤ q ∧ q ≤ c.stop ∧
        read codeStart c = ⟨.error (.truncated what size left q), c.goto q, notices⟩ := by
  rcases hrun : read codeStart c with ⟨fault | i, c₁, notices⟩
  · right
    obtain ⟨q, hq, hle, hstop, -⟩ := (read_stable codeStart).orderly hc
    obtain ⟨what, size, left, hfault⟩ :=
      (read_tolerant codeStart).fault_eq (read_stable codeStart) hc (by rw [hrun])
    rw [hq] at hfault
    rw [hrun] at hq
    obtain rfl : c₁ = c.goto q := hq
    exact ⟨what, size, left, q, notices, hle, hstop, by rw [hfault]; rfl⟩
  · left
    obtain ⟨bytes, rfl, hroom, -, hsettled, hoffset, hwritten⟩ := read_settles.of_run hc hrun
    -- The length that an instruction records is that of the bytes that it was read from.
    have hlength : i.length = bytes.length := by rw [hsettled.length, hwritten.length_eq]
    have hpos := hwritten.length_pos
    refine ⟨i, ⟨notices, ?_⟩, hoffset, by omega, by omega⟩
    rw [hrun, hlength]

end Instruction

/-! ## §3. The course of a disassembly. -/

namespace Listing

/-- The lengths of all instructions, added up. -/
def total (l : Listing) : Int := Span.total Instruction.place l.instructions

theorem total_nil (stopped : Option Fault) : total ⟨[], stopped⟩ = 0 := rfl

theorem total_cons (i : Instruction) (rest : List Instruction) (stopped : Option Fault) :
    total ⟨i :: rest, stopped⟩ = i.length + total ⟨rest, stopped⟩ := rfl

/-- From `c` on, code that starts at `codeStart` is listed, and the cursor is left at `after`: -/
inductive Course (codeStart : Int) : Cursor → Listing → Cursor → Prop
  /-- nothing is left of the code, -/
  | ended {c : Cursor} (hend : c.pos = c.stop) : Course codeStart c ⟨[], none⟩ c
  /-- or the code ends within an instruction, -/
  | cut {c after : Cursor} {fault : Fault} {notices : List Notice} (hmore : c.pos < c.stop)
      (hrun : Instruction.read codeStart c = ⟨.error fault, after, notices⟩) :
      Course codeStart c ⟨[], some fault⟩ after
  /-- or an instruction is read, and the code behind it is listed. -/
  | step {c after : Cursor} {i : Instruction} {rest : List Instruction} {stopped : Option Fault}
      (hi : Instruction.ReadAt codeStart c i)
      (hrest : Course codeStart (c.goto (c.pos + i.length)) ⟨rest, stopped⟩ after) :
      Course codeStart c ⟨i :: rest, stopped⟩ after

variable {codeStart : Int}

/-- A count that covers the bytes left reads on to the end of the course. -/
theorem readFrom_course (codeStart : Int) {count : Nat} (done : List Instruction) {c : Cursor}
    (hc : c.InBounds) (hcount : c.stop - c.pos ≤ count) :
    ∃ rest stopped, (readFrom codeStart count done c).result = .ok ⟨done.reverse ++ rest, stopped⟩ ∧
      Course codeStart c ⟨rest, stopped⟩ (readFrom codeStart count done c).cursor := by
  have hle := hc.2.1
  induction count generalizing done c with
  | zero =>
    rw [readFrom]
    exact ⟨[], none, by rw [List.append_nil], .ended (by omega)⟩
  | succ count ih =>
    by_cases hend : c.stop ≤ c.pos
    · rw [readFrom_atEnd _ _ _ (c.atEnd_iff.mpr hend)]
      exact ⟨[], none, by rw [List.append_nil], .ended (by omega)⟩
    rw [readFrom, if_neg fun h => hend (c.atEnd_iff.mp h)]
    obtain ⟨i, hi⟩ | ⟨what, size, left, q, notices, -, -, hrun⟩ :=
      Instruction.read_cases codeStart hc
    · have hpos := hi.pos
      have hroom := hi.room
      obtain ⟨notices, hrun⟩ := hi.goes
      rw [hrun]
      -- An instruction takes up a byte, so the count still covers what is left.
      have hleft : c.stop - (c.pos + i.length) ≤ count := by omega
      obtain ⟨rest, stopped, hresult, hcourse⟩ :=
        ih (i :: done) (hc.goto (by omega) hroom) hleft hroom
      rw [List.reverse_cons, List.append_assoc] at hresult
      exact ⟨i :: rest, stopped, hresult, .step hi hcourse⟩
    · rw [hrun]
      exact ⟨[], _, by rw [List.append_nil], .cut (by omega) hrun⟩

/-- Every disassembly takes its course. -/
theorem read_course {c : Cursor} (hc : c.InBounds) :
    ∃ listing, (read c).result = .ok listing ∧ Course c.pos c listing (read c).cursor := by
  obtain ⟨rest, stopped, hresult, hcourse⟩ :=
    readFrom_course c.pos [] hc (Int.self_le_toNat c.remaining)
  exact ⟨⟨rest, stopped⟩, hresult, hcourse⟩

/-! ## §4. What a course passes. -/

variable {c after : Cursor} {l : Listing}

theorem Course.tiles (h : Course codeStart c l after) :
    Tiles Instruction.place (c.pos - codeStart) l.instructions (c.pos - codeStart + l.total) := by
  induction h with
  | ended | cut => exact (Int.add_zero _).symm
  | @step c after i rest stopped hi hrest ih =>
    refine ⟨hi.offset, ih.cast ?_ ?_⟩
    · show c.pos + i.length - codeStart = c.pos - codeStart + i.length
      omega
    · rw [total_cons]
      show c.pos + i.length - codeStart + _ = _
      omega

/-- Each instruction on the course is read at its offset, from the same code. -/
theorem Course.readAt (h : Course codeStart c l after) :
    ∀ i ∈ l.instructions, c.pos - codeStart ≤ i.offset ∧
      Instruction.ReadAt codeStart (c.goto (codeStart + i.offset)) i := by
  induction h with
  | ended | cut => exact fun i hi => absurd hi List.not_mem_nil
  | @step c after first rest stopped hfirst hrest ih =>
    intro i hi
    have hoffset := hfirst.offset
    have hpos := hfirst.pos
    obtain rfl | hi := List.mem_cons.mp hi
    · have hstart : codeStart + i.offset = c.pos := by omega
      rw [hstart]
      exact ⟨by omega, hfirst⟩
    · obtain ⟨hbehind, hread⟩ := ih i hi
      have hbehind : c.pos + first.length - codeStart ≤ i.offset := hbehind
      exact ⟨by omega, hread⟩

/-- A course that is not cut goes to the end of the code. -/
theorem Course.total_of_ended (h : Course codeStart c l after) (hstopped : l.stopped = none) :
    c.pos + l.total = c.stop := by
  induction h with
  | ended hend => rw [total_nil, Int.add_zero, hend]
  | cut => cases hstopped
  | step hi hrest ih =>
    rw [total_cons, ← Int.add_assoc]
    exact ih hstopped

/-- A course that is cut goes up to the instruction within which the code ends. -/
theorem Course.cut_of_stopped (h : Course codeStart c l after) {fault : Fault}
    (hstopped : l.stopped = some fault) :
    c.pos + l.total < c.stop ∧ ∃ notices,
      Instruction.read codeStart (c.goto (c.pos + l.total)) = ⟨.error fault, after, notices⟩ := by
  induction h with
  | ended => cases hstopped
  | cut hmore hrun =>
    cases hstopped
    rw [total_nil, Int.add_zero, Cursor.goto_self]
    exact ⟨hmore, _, hrun⟩
  | step hi hrest ih =>
    rw [total_cons, ← Int.add_assoc]
    exact ih hstopped

theorem Course.total_nonneg (h : Course codeStart c l after) : 0 ≤ l.total := by
  induction h with
  | ended | cut => exact Int.le_refl 0
  | step hi hrest ih =>
    have hpos := hi.pos
    rw [total_cons]
    omega

/-- Within which instruction the code ends, and where it lacks bytes. -/
theorem Course.fault_eq (h : Course codeStart c l after) (hc : c.InBounds) {fault : Fault}
    (hstopped : l.stopped = some fault) :
    c.pos + l.total < c.stop ∧ c.pos + l.total ≤ after.pos ∧ after.pos ≤ c.stop ∧
      ∃ what size left, fault = .truncated what size left after.pos := by
  obtain ⟨hmore, notices, hrun⟩ := h.cut_of_stopped hstopped
  have htotal := h.total_nonneg
  have hin : (c.goto (c.pos + l.total)).InBounds := hc.goto (by omega) (by omega)
  obtain ⟨i, hi⟩ | ⟨what, size, left, q, notices', hle, hstop, hrun'⟩ :=
    Instruction.read_cases codeStart hin
  · have hok := hi.goes.result_eq
    rw [hrun] at hok
    cases hok
  · rw [hrun] at hrun'
    obtain ⟨hfault, rfl, -⟩ := Outcome.mk.inj hrun'
    exact ⟨hmore, hle, hstop, what, size, left, Except.error.inj hfault⟩

/-! ## §5. Code that is cut. -/

/-- No instruction fits before the place where the course starts. -/
theorem Course.filter_eq_nil (h : Course codeStart c l after) {stop : Int} (hstop : stop ≤ c.pos) :
    l.instructions.filter (fun i => codeStart + i.offset + i.length ≤ stop) = [] := by
  rw [List.filter_eq_nil_iff]
  intro i hi
  obtain ⟨hbehind, hread⟩ := h.readAt i hi
  have hpos := hread.pos
  rw [decide_eq_true_iff]
  omega

/-- Code that is cut keeps the instructions that fit before the cut. -/
theorem Course.filter_of_cuts {short long last : Cursor} {cut whole : Listing}
    (h : Course codeStart short cut after) (hwhole : Course codeStart long whole last)
    (hcut : short.Cuts long) :
    cut.instructions =
      whole.instructions.filter fun i => codeStart + i.offset + i.length ≤ short.stop := by
  -- Along the course over the cut code; the other one is followed a step at a time.
  induction h generalizing long whole with
  | @ended short hend =>
    have hpos := hcut.pos
    exact (hwhole.filter_eq_nil (by omega)).symm
  | @cut short after fault notices hmore hrun =>
    have hpos := hcut.pos
    cases hwhole with
    | ended | cut => rfl
    | @step _ _ i rest stopped hi hrest =>
      -- The instruction reaches behind the cut: otherwise the cut code would have it as well.
      have hover : short.stop < long.pos + i.length := by
        refine Int.not_le.mp fun hfits => ?_
        have hok := ((Instruction.read_stable codeStart).goes_of_whole hcut hi.goes hfits).result_eq
        rw [hrun] at hok
        cases hok
      have hoffset := hi.offset
      have hout : ¬ codeStart + i.offset + i.length ≤ short.stop := by omega
      rw [List.filter_cons_of_neg (by rw [decide_eq_true_iff]; exact hout)]
      exact (hrest.filter_eq_nil (Int.le_of_lt hover)).symm
  | @step short after i rest stopped hi hrest ih =>
    have hpos := hcut.pos
    have hstop := hcut.stop
    have hlength := hi.pos
    have hroom := hi.room
    have hoffset := hi.offset
    -- The whole goes on with the same instruction.
    have hgoes := (Instruction.read_stable codeStart).goes_of_cut hcut hi.goes
    cases hwhole with
    | ended hend => omega
    | cut hmore hrun =>
      have hok := hgoes.result_eq
      rw [hrun] at hok
      cases hok
    | @step _ _ i' rest' stopped' hi' hrest' =>
      obtain rfl : i = i' := Except.ok.inj (hgoes.result_eq.symm.trans hi'.goes.result_eq)
      have hin : codeStart + i.offset + i.length ≤ short.stop := by omega
      rw [List.filter_cons_of_pos (by rw [decide_eq_true_iff]; exact hin)]
      rw [← hpos] at hrest'
      exact congrArg (i :: ·) (ih hrest' (hcut.goto (by omega) hroom))

/-- **Code that is cut.**  Code that is cut after `k` bytes has those instructions of the whole that
    end before the cut, in their order, also if the whole was cut already.  It ends within an
    instruction unless they make up all of it, and is then short of bytes there. -/
theorem read_cut (code : Array UInt8) {k : Nat} (hk : k ≤ code.size) :
    ∃ whole cut, (read (.ofBytes code)).result = .ok whole ∧
      (read (.ofBytes (code.extract 0 k))).result = .ok cut ∧
      cut.instructions =
        whole.instructions.filter (fun i : Instruction => i.offset + i.length ≤ k) ∧
      (cut.stopped = none ↔ cut.total = k) ∧
      ∀ fault, cut.stopped = some fault → ∃ what size left offset,
        fault = .truncated what size left offset ∧ cut.total ≤ offset ∧ offset ≤ k := by
  have hcut := Cursor.Cuts.ofBytes code hk
  have hstop : (Cursor.ofBytes (code.extract 0 k)).stop = k := by
    show ((code.extract 0 k).size : Int) = k
    rw [Array.size_extract]
    omega
  obtain ⟨whole, hwhole, hlong⟩ := read_course hcut.whole
  obtain ⟨cut, hresult, hshort⟩ := read_course hcut.inBounds
  have hfilter := hshort.filter_of_cuts hlong hcut
  have hstart : ∀ n : Int, (Cursor.ofBytes (code.extract 0 k)).pos + n = n := Int.zero_add
  simp only [hstop, hstart] at hfilter
  refine ⟨whole, cut, hwhole, hresult, hfilter, ⟨fun hnone => ?_, fun htotal => ?_⟩,
    fun fault hfault => ?_⟩
  · rw [← hstop, ← hshort.total_of_ended hnone, hstart]
  · -- A listing that is stopped leaves bytes over.
    cases hstopped : cut.stopped with
    | none => rfl
    | some fault =>
      have hless := (hshort.fault_eq hcut.inBounds hstopped).1
      rw [hstop, hstart, htotal] at hless
      omega
  · obtain ⟨-, hle, hend, what, size, left, heq⟩ := hshort.fault_eq hcut.inBounds hfault
    rw [hstart] at hle
    exact ⟨what, size, left, _, heq, hle, hstop ▸ hend⟩

/-- Code that is cut in the blanks of a switch. -/
theorem read_cut_odd :
    3 ≤ oddCode.size ∧ (read (.ofBytes oddCode)).result = .ok ⟨oddList, none⟩ ∧
      (read (.ofBytes (oddCode.extract 0 3))).result =
        .ok ⟨oddList.take 1, some (.truncated "switch padding" 1 0 3)⟩ ∧
      oddList.take 1 = oddList.filter (fun i : Instruction => i.offset + i.length ≤ (3 : Nat)) ∧
      ∃ what size left offset, Fault.truncated "switch padding" 1 0 3 =
        .truncated what size left offset ∧ 2 ≤ offset ∧ offset ≤ 3 := by
  have hk : 3 ≤ oddCode.size := by decide
  obtain ⟨whole, cut, hwhole, hcut, hfilter, -, hfault⟩ := read_cut oddCode hk
  obtain rfl : ⟨oddList, none⟩ = whole := Except.ok.inj (read_oddCode.symm.trans hwhole)
  obtain rfl := Except.ok.inj (read_oddCode_cut.symm.trans hcut)
  exact ⟨hk, read_oddCode, read_oddCode_cut, hfilter, hfault _ rfl⟩

end Listing

end JavaClass
