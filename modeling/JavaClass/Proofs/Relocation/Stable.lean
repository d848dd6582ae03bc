/-
  JavaClass.Proofs.Relocation.Stable — decoders at the place where they stand.

  Without a move, to relocate is to depend on the bytes passed over and on nothing else.  Decoders
  with this property (`Stable`) give the same on any data that shows them the same bytes.  Recursive
  ones satisfy the equation that they are given by: how often it is unrolled does not matter.  Over
  data that is cut, a stable run lacks bytes or does what it does over the whole (`Stable.of_cut`).
-/
import JavaClass.Proofs.Relocation.Attribute

namespace JavaClass

open Decoder

/-! ## §1. Decoders that depend on the bytes they pass over. -/

namespace Decoder

variable {α β : Type}

/-- `d` is orderly, and its outcome depends on the bytes that it passes over and on nothing else. -/
def Stable (d : Decoder α) : Prop := ∀ lo l r, Relocates lo ⟨0, l, r⟩ id d d

/-- A decoder that relocates without moving anything is stable. -/
theorem Stable.of_relocates {d : Decoder α} {f : α → α} (hf : ∀ a, f a = a)
    (h : ∀ lo l r, Relocates lo ⟨0, l, r⟩ f d d) : d.Stable := by
  obtain rfl : f = id := funext hf
  exact h

theorem Stable.bind {d : Decoder α} {next : α → Decoder β} (hd : d.Stable)
    (hn : ∀ a, (next a).Stable) : (d >>= next).Stable :=
  fun lo l r => .bind (hd lo l r) fun a => hn a lo l r

theorem Stable.pure (a : α) : (pure a : Decoder α).Stable := fun _ _ _ => .pure rfl

/-- What reads nothing and makes a value of the position is stable. -/
theorem Stable.still {d : Decoder α} (v : Int → α) (h : ∀ c, d c = ⟨.ok (v c.pos), c, []⟩) :
    d.Stable := fun _ _ _ =>
  .still h h fun _ _ hpos => by rw [hpos, Int.add_zero, id_eq]

theorem Stable.u2 (what : String) : (u2 what).Stable := fun _ _ _ => .u2 what

theorem Stable.u4 (what : String) : (u4 what).Stable := fun _ _ _ => .u4 what

theorem Stable.many {d : Decoder α} (count : Nat) (h : d.Stable) : (many count d).Stable :=
  fun lo l r => .many_id count (h lo l r)

theorem Stable.position : position.Stable := .still id fun _ => rfl

theorem Stable.spanFrom (start : Int) : (spanFrom start).Stable :=
  .still (fun p => ⟨start, p - start⟩) fun _ => rfl

/-- What a stable run does, told by its cursor. -/
theorem Stable.orderly {d : Decoder α} (h : d.Stable) {c : Cursor} (hc : c.InBounds) :
    ∃ q, (d c).cursor = c.goto q ∧ c.pos ≤ q ∧ q ≤ c.stop ∧
      ∀ fault, (d c).result = .error fault → fault.Within c.pos q :=
  (h c.pos 0 0).orderly c hc (Int.le_refl _)

/-- A stable run that fails blames a place that it was allowed to read. -/
theorem Stable.fault_offset {d : Decoder α} (h : d.Stable) {c : Cursor} (hc : c.InBounds)
    {fault : Fault} (hfault : (d c).result = .error fault) :
    ∃ offset, fault.offset? = some offset ∧ c.pos ≤ offset ∧ offset ≤ c.stop := by
  obtain ⟨q, -, -, hstop, hwithin⟩ := h.orderly hc
  have hfault := hwithin fault hfault
  cases fault with
  | truncated what size left offset => exact ⟨offset, rfl, hfault.1, hfault.2 ▸ hstop⟩
  | malformed cause offset => exact ⟨offset, rfl, hfault.1, Int.le_trans hfault.2 hstop⟩
  | tooLarge => exact absurd hfault id

/-- A cursor at the same position with the same bytes, as far as the first run goes, gives the same
    outcome, unless the bound cut the first run short. -/
theorem Stable.same {d : Decoder α} (h : d.Stable) {c₁ c₂ : Cursor} (h₁ : c₁.InBounds)
    (h₂ : c₂.InBounds) (hpos : c₂.pos = c₁.pos) (hfed : ¬ (d c₁).Starved)
    (hroom : (d c₁).cursor.pos ≤ c₂.stop)
    (hbytes : ∀ i, c₁.pos ≤ i → i < (d c₁).cursor.pos → c₂.byte? i = c₁.byte? i) :
    d c₂ = ⟨(d c₁).result, c₂.goto (d c₁).cursor.pos, (d c₁).notices⟩ := by
  -- How far structures inside structures are followed is set by the two bounds.
  have hpair : Paired ⟨0, c₁.remaining.toNat + 1, c₂.remaining.toNat + 1⟩ c₁ c₂ := by
    refine ⟨h₁, h₂, ?_, ?_⟩
    · show c₁.remaining < ((c₁.remaining.toNat + 1 : Nat) : Int)
      omega
    · show c₂.remaining < ((c₂.remaining.toNat + 1 : Nat) : Int)
      omega
  have hshow : Shows ⟨0, c₁.remaining.toNat + 1, c₂.remaining.toNat + 1⟩ c₁ c₂ (d c₁) := by
    refine ⟨?_, ?_, ?_, fun hstarved => absurd hstarved hfed⟩
    · show c₂.pos = c₁.pos + 0
      omega
    · intro i hi hiq
      show c₂.byte? (i + 0) = c₁.byte? i
      rw [Int.add_zero]
      exact hbytes i hi hiq
    · show (d c₁).cursor.pos + 0 ≤ c₂.stop
      omega
  have hmoved := (h c₁.pos _ _).moves c₁ c₂ hpair (Int.le_refl _) hshow
  exact hmoved.trans (Outcome.moved_zero (fun _ => rfl) c₂ (d c₁))

theorem Stable.goes_le {d : Decoder α} (h : d.Stable) {c : Cursor} (hc : c.InBounds) {a : α} {q : Int}
    (hgoes : d.Goes c a q) : c.pos ≤ q ∧ q ≤ c.stop := by
  obtain ⟨r, hr, hle, hstop, -⟩ := h.orderly hc
  have hq : q = r := by
    rw [hgoes.cursor_eq] at hr
    exact congrArg Cursor.pos hr
  rw [hq]
  exact ⟨hle, hstop⟩

/-- The parts of a sequence that gives a value. -/
theorem Stable.goes_bind {d : Decoder α} {next : α → Decoder β} (hd : d.Stable) {c : Cursor}
    (hc : c.InBounds) {b : β} {r : Int} (h : (d >>= next).Goes c b r) :
    ∃ a q, d.Goes c a q ∧ (next a).Goes (c.goto q) b r := by
  obtain ⟨q, hq, -⟩ := hd.orderly hc
  obtain ⟨notices, hrun⟩ := h
  rcases hfirst : d c with ⟨fault | a, c₁, first⟩
  · rw [bind_of_error hfirst] at hrun
    cases hrun
  · rw [hfirst] at hq
    obtain rfl : c₁ = c.goto q := hq
    rw [bind_of_ok hfirst] at hrun
    refine ⟨a, q, ⟨first, hfirst⟩, (next a (c.goto q)).notices, ?_⟩
    have hresult : (next a (c.goto q)).result = .ok b := congrArg Outcome.result hrun
    have hcursor : (next a (c.goto q)).cursor = c.goto r := congrArg Outcome.cursor hrun
    rw [← hresult, Cursor.goto_goto, ← hcursor]

/-- The same bytes give the same value. -/
theorem Stable.goes_same {d : Decoder α} (h : d.Stable) {c₁ c₂ : Cursor} (h₁ : c₁.InBounds)
    (h₂ : c₂.InBounds) (hpos : c₂.pos = c₁.pos) {a : α} {q : Int} (hgoes : d.Goes c₁ a q)
    (hroom : q ≤ c₂.stop) (hbytes : ∀ i, c₁.pos ≤ i → i < q → c₂.byte? i = c₁.byte? i) :
    d.Goes c₂ a q := by
  obtain ⟨notices, hrun⟩ := hgoes
  have hsame := h.same h₁ h₂ hpos (by rw [hrun]; exact Outcome.not_starved_ok)
    (by rw [hrun]; exact hroom) (by rw [hrun]; exact hbytes)
  rw [hrun] at hsame
  exact ⟨notices, hsame⟩

/-! ## §2. Recursion. -/

/-- Without a move, two decoders that relocate do the same from one cursor. -/
theorem Relocates.apply_eq {l r : Nat} {d e : Decoder α} {c : Cursor}
    (h : Relocates c.pos ⟨0, l, r⟩ id d e) (hc : c.InBounds) (hl : c.remaining < l)
    (hr : c.remaining < r) : e c = d c := by
  obtain ⟨q, hq, hle, hstop, -⟩ := h.orderly c hc (Int.le_refl _)
  have hmoved := h.moves c c ⟨hc, hc, hl, hr⟩ (Int.le_refl _)
    ⟨(Int.add_zero _).symm, fun i _ _ => by rw [Int.add_zero], by rw [hq, Int.add_zero]; exact hstop,
      fun _ => (Int.add_zero _).symm⟩
  rw [hmoved.trans (Outcome.moved_zero (fun _ => rfl) c _)]
  rcases hrun : d c with ⟨result, c₁, notices⟩
  rw [hrun] at hq
  obtain rfl : c₁ = c.goto q := hq
  rfl

/-- `body` depends on the bytes that it passes over, if what it turns to does, and it turns to that
    with fewer bytes left. -/
def Recurs (body : Decoder α → Decoder α) : Prop :=
  ∀ l r i i', (∀ lo, Relocates lo ⟨0, l, r⟩ id i i') →
    ∀ lo, Relocates lo ⟨0, l + 1, r + 1⟩ id (body i) (body i')

variable {body : Decoder α → Decoder α}

/-- A body that relocates without moving anything recurs. -/
theorem Recurs.of_relocates {f : α → α} (hf : ∀ a, f a = a)
    (h : ∀ l r i i', (∀ lo, Relocates lo ⟨0, l, r⟩ f i i') →
      ∀ lo, Relocates lo ⟨0, l + 1, r + 1⟩ f (body i) (body i')) : Recurs body := by
  obtain rfl : f = id := funext hf
  exact h

theorem remaining_lt (c : Cursor) : c.remaining < ((c.remaining.toNat + 1 : Nat) : Int) := by
  omega

/-- A structure inside itself satisfies its equation. -/
theorem fix_eq (h : Recurs body) {c : Cursor} (hc : c.InBounds) :
    fix body c = body (fix body) c := by
  have hinner : ∀ k lo, Relocates lo ⟨0, k, k⟩ id (unroll body k) (fix body) := by
    intro k lo
    refine ⟨(Relocates.unroll h k k lo).orderly, ?_⟩
    intro c₁ c₂ hpair hlo hshow
    exact (Relocates.unroll h k (c₂.remaining.toNat + 1) lo).moves c₁ c₂
      ⟨hpair.left, hpair.right, hpair.leftLess, remaining_lt c₂⟩ hlo
      ⟨hshow.pos, hshow.bytes, hshow.room, hshow.bound⟩
  -- One equation is the first step of both sides; the structures inside have fewer bytes.
  have hbody := h _ _ _ _ (hinner c.remaining.toNat) c.pos
  exact (hbody.apply_eq hc (remaining_lt c) (remaining_lt c)).symm

/-- From `c` on, a structure is followed into itself with fewer and fewer bytes left: what comes of
    `c` is settled by the cursors with fewer bytes, and the limit on the depth is never met. -/
structure Descends (body : Decoder α → Decoder α) (c : Cursor) : Prop where
  smaller : ∀ inner : Decoder α, (∀ c' : Cursor, c'.InBounds → c'.remaining < c.remaining →
    inner c' = fix body c') → body inner c = fix body c
  depth : ∀ depth : Nat, c.remaining < depth → unroll body depth c = fix body c

/-- What is asked for with fewer bytes left may be asked of anything that gives the same there. -/
theorem Recurs.body_eq_fix (h : Recurs body) {c : Cursor} (hc : c.InBounds) {inner : Decoder α}
    (hinner : ∀ c' : Cursor, c'.InBounds → c'.remaining < c.remaining → inner c' = fix body c') :
    body inner c = fix body c := by
  have hbound := hc.2.1
  have hsame : ∀ lo, Relocates lo ⟨0, c.remaining.toNat, c.remaining.toNat⟩ id (fix body) inner := by
    intro lo
    have hfix : Relocates lo ⟨0, c.remaining.toNat, c.remaining.toNat⟩ id (fix body) (fix body) :=
      .fix h
    refine ⟨hfix.orderly, ?_⟩
    intro c₁ c₂ hpair hlo hshow
    have hless : c₂.remaining < c.remaining.toNat := hpair.rightLess
    have hnonneg : 0 ≤ c.remaining := Int.sub_nonneg_of_le hbound
    rw [hinner c₂ hpair.right (by omega)]
    exact hfix.moves c₁ c₂ hpair hlo hshow
  rw [fix_eq h hc]
  exact (h _ _ _ _ hsame c.pos).apply_eq hc (remaining_lt c) (remaining_lt c)

/-- By induction on the depth. -/
theorem Recurs.unroll_eq_fix (h : Recurs body) {depth : Nat} {c : Cursor} (hc : c.InBounds)
    (hdepth : c.remaining < depth) : unroll body depth c = fix body c := by
  induction depth generalizing c with
  | zero =>
    have hnonneg : 0 ≤ c.remaining := Int.sub_nonneg_of_le hc.2.1
    omega
  | succ depth ih => exact h.body_eq_fix hc fun c' hc' hless => ih hc' (by omega)

theorem Recurs.descends (h : Recurs body) {c : Cursor} (hc : c.InBounds) : Descends body c :=
  ⟨fun _ => h.body_eq_fix hc, fun _ => h.unroll_eq_fix hc⟩

end Decoder

/-! ## §3. Cut data. -/

/-- `short` shows what `long` shows, as far as its own bound. -/
structure Cursor.Cuts (short long : Cursor) : Prop where
  inBounds : short.InBounds
  whole : long.InBounds
  pos : short.pos = long.pos
  stop : short.stop ≤ long.stop
  bytes : ∀ i, short.pos ≤ i → i < short.stop → short.byte? i = long.byte? i

theorem Cursor.Cuts.goto {short long : Cursor} (h : short.Cuts long) {q : Int}
    (hle : short.pos ≤ q) (hstop : q ≤ short.stop) : (short.goto q).Cuts (long.goto q) := by
  have hpos := h.pos
  refine ⟨h.inBounds.goto hle hstop, h.whole.goto (by omega) ?_, rfl, h.stop, ?_⟩
  · exact Int.le_trans hstop h.stop
  · intro i hi his
    exact h.bytes i (Int.le_trans hle hi) his

theorem Cursor.Cuts.ofBytes (data : Array UInt8) {k : Nat} (hk : k ≤ data.size) :
    (Cursor.ofBytes (data.extract 0 k)).Cuts (Cursor.ofBytes data) := by
  have hsize : (data.extract 0 k).size = k := by
    rw [Array.size_extract]
    omega
  refine ⟨InBounds.ofBytes _, InBounds.ofBytes _, rfl, ?_, ?_⟩
  · show ((data.extract 0 k).size : Int) ≤ data.size
    omega
  · intro i hi his
    have hi : 0 ≤ i := hi
    have hik : i < ((data.extract 0 k).size : Int) := his
    show (data.extract 0 k)[i.toNat]? = data[i.toNat]?
    rw [Array.getElem?_extract, if_pos (by omega), Nat.zero_add]

/-- A run over cut data lacks bytes, or it is the run over the whole. -/
theorem Decoder.Stable.of_cut {α : Type} {d : Decoder α} (h : d.Stable) {short long : Cursor}
    (hcut : short.Cuts long) :
    (d short).Starved ∨
      d long = ⟨(d short).result, long.goto (d short).cursor.pos, (d short).notices⟩ := by
  by_cases hstarved : (d short).Starved
  · exact .inl hstarved
  · right
    obtain ⟨q, hq, -, hstop, -⟩ := h.orderly hcut.inBounds
    have hend : (d short).cursor.pos ≤ short.stop := by
      rw [hq]
      exact hstop
    apply h.same hcut.inBounds hcut.whole hcut.pos.symm hstarved (Int.le_trans hend hcut.stop)
    intro i hi hie
    exact (hcut.bytes i hi (Int.lt_of_lt_of_le hie hend)).symm

/-- What cut data gives, the whole gives. -/
theorem Decoder.Stable.goes_of_cut {α : Type} {d : Decoder α} (h : d.Stable) {short long : Cursor}
    (hcut : short.Cuts long) {a : α} {q : Int} (hgoes : d.Goes short a q) : d.Goes long a q := by
  have hend : q ≤ short.stop := (h.goes_le hcut.inBounds hgoes).2
  apply h.goes_same hcut.inBounds hcut.whole hcut.pos.symm hgoes (Int.le_trans hend hcut.stop)
  intro i hi hiq
  exact (hcut.bytes i hi (Int.lt_of_lt_of_le hiq hend)).symm

/-- What the whole gives before the cut, cut data gives. -/
theorem Decoder.Stable.goes_of_whole {α : Type} {d : Decoder α} (h : d.Stable)
    {short long : Cursor} (hcut : short.Cuts long) {a : α} {q : Int} (hgoes : d.Goes long a q)
    (hend : q ≤ short.stop) : d.Goes short a q := by
  apply h.goes_same hcut.whole hcut.inBounds hcut.pos hgoes hend
  intro i hi hiq
  have hi : short.pos ≤ i := by
    rw [hcut.pos]
    exact hi
  exact hcut.bytes i hi (Int.lt_of_lt_of_le hiq hend)

/-- A lack of bytes is blamed on a place inside the data. -/
theorem Decoder.Stable.starved_offset {α : Type} {d : Decoder α} (h : d.Stable) {c : Cursor}
    (hc : c.InBounds) (hstarved : (d c).Starved) :
    ∃ what size left offset, (d c).result = .error (.truncated what size left offset) ∧
      c.pos ≤ offset ∧ offset ≤ c.stop := by
  obtain ⟨what, size, left, offset, hresult⟩ := hstarved
  obtain ⟨offset', hoffset, hle, hstop⟩ := h.fault_offset hc hresult
  obtain rfl : offset = offset' := Option.some.inj hoffset
  exact ⟨what, size, left, offset, hresult, hle, hstop⟩

/-! ## §4. Attributes. -/

theorem ElementValue.body_recurs : Recurs body :=
  .of_relocates shift_zero fun l r _ _ h _ => body_relocates (S := ⟨0, l, r⟩) h

theorem ExceptionHandler.readRows_stable (what : String) : (readRows what read).Stable :=
  .of_relocates Located.map_shift_zero_id fun _ _ _ => readRows_relocates _ read_relocates

theorem Code.array_stable (disassemble : Bool) (n : Nat) :
    (window "code array" n >>= ofArray disassemble n).Stable := by
  have hzero : ∀ array, shiftArray 0 array = array := by
    rintro ⟨start, content, listing⟩
    simp only [shiftArray, Int.add_zero, Listing.shift_zero]
  exact .of_relocates hzero fun _ _ _ => array_relocates disassemble n

variable {inner : Decoder Attribute}

theorem readAttributes_stable (h : inner.Stable) : (readAttributes inner).Stable :=
  .bind (.u2 _) fun count => .many count.toNat h

theorem Code.read_stable (disassemble : Bool) (hs : inner.Stable) :
    (Code.read disassemble inner).Stable := by
  rw [Code.read_eq]
  exact .bind (.u2 _) fun _ => .bind (.u2 _) fun _ => .bind (.u4 _) fun length =>
    .bind (Code.array_stable disassemble length.toNat) fun _ =>
    .bind (ExceptionHandler.readRows_stable _) fun _ => .bind (readAttributes_stable hs) fun _ =>
    .pure _

theorem RecordComponent.read_stable (hs : inner.Stable) : (RecordComponent.read inner).Stable :=
  .bind .position fun start => .bind (.u2 _) fun _ => .bind (.u2 _) fun _ =>
    .bind (readAttributes_stable hs) fun _ => .bind (.spanFrom start) fun _ => .pure _

namespace Attribute

theorem read_stable (pool : Pool) (disassemble : Bool) : (read pool disassemble).Stable :=
  .of_relocates shift_zero fun _ _ _ => read_relocates pool disassemble

theorem body_recurs (pool : Pool) (disassemble : Bool) : Recurs (body pool disassemble) :=
  .of_relocates shift_zero fun l r _ _ h _ => body_relocates (S := ⟨0, l, r⟩) pool disassemble h

/-- Attributes are read by their equation. -/
theorem read_eq_body (pool : Pool) (disassemble : Bool) {c : Cursor} (hc : c.InBounds) :
    read pool disassemble c = body pool disassemble (read pool disassemble) c :=
  fix_eq (body_recurs pool disassemble) hc

theorem readAll_stable (pool : Pool) (disassemble : Bool) : (readAll pool disassemble).Stable :=
  readAttributes_stable (read_stable pool disassemble)

end Attribute

end JavaClass
