/-
  JavaClass.Proofs.Byte.Run — runs of decoders, step by step.

  What the parts of a sequence give decides what the sequence gives, and a read (`taking`) gives
  something of the cursor if its bytes are there.
-/
import JavaClass.Byte.Decoder

namespace JavaClass

/-! ## §1. Cursors. -/

namespace Cursor

/-- The same cursor at position `q`. -/
def goto (c : Cursor) (q : Int) : Cursor := { c with pos := q }

/-- The byte at a position. -/
def byte? (c : Cursor) (i : Int) : Option UInt8 := c.data[i.toNat]?

@[simp] theorem goto_pos (c : Cursor) (q : Int) : (c.goto q).pos = q := rfl
@[simp] theorem goto_stop (c : Cursor) (q : Int) : (c.goto q).stop = c.stop := rfl
@[simp] theorem goto_data (c : Cursor) (q : Int) : (c.goto q).data = c.data := rfl
@[simp] theorem goto_byte? (c : Cursor) (q i : Int) : (c.goto q).byte? i = c.byte? i := rfl
@[simp] theorem goto_goto (c : Cursor) (q r : Int) : (c.goto q).goto r = c.goto r := rfl
@[simp] theorem goto_self (c : Cursor) : c.goto c.pos = c := rfl
@[simp] theorem part_pos (c : Cursor) (n : Int) : (c.part n).pos = c.pos := rfl
@[simp] theorem part_stop (c : Cursor) (n : Int) : (c.part n).stop = c.pos + n := rfl
@[simp] theorem part_byte? (c : Cursor) (n i : Int) : (c.part n).byte? i = c.byte? i := rfl

theorem InBounds.goto {c : Cursor} (h : c.InBounds) {q : Int} (hq : c.pos ≤ q)
    (hs : q ≤ c.stop) : (c.goto q).InBounds :=
  ⟨Int.le_trans h.1 hq, hs, h.2.2⟩

theorem InBounds.part {c : Cursor} (h : c.InBounds) {n : Int} (hn : 0 ≤ n)
    (hs : c.pos + n ≤ c.stop) : (c.part n).InBounds := by
  obtain ⟨h₀, h₁, h₂⟩ := h
  refine ⟨h₀, ?_, ?_⟩
  · show c.pos ≤ c.pos + n
    omega
  · show c.pos + n ≤ c.data.size
    omega

theorem InBounds.ofBytes (data : Array UInt8) : (Cursor.ofBytes data).InBounds := by
  refine ⟨Int.le_refl 0, ?_, Int.le_refl _⟩
  show (0 : Int) ≤ data.size
  omega

theorem atEnd_iff (c : Cursor) : c.atEnd = true ↔ c.stop ≤ c.pos := by
  unfold atEnd
  exact decide_eq_true_iff

/-- Whether anything is left does not depend on where the cursor and its bound stand. -/
theorem atEnd_congr {c₁ c₂ : Cursor} (h : c₂.remaining = c₁.remaining) : c₂.atEnd = c₁.atEnd := by
  rw [Bool.eq_iff_iff, atEnd_iff, atEnd_iff]
  simp only [remaining] at h
  omega

theorem index_of_nonneg (c : Cursor) {i : Int} (h : 0 ≤ i) : c.index i = i.toNat := by
  unfold index
  rw [if_neg (by omega)]

/-- The next bytes, as a list that starts at the position. -/
theorem peek_eq {c : Cursor} (h : c.InBounds) (n : Nat) :
    c.peek n = (c.data.toList.drop c.pos.toNat).take n := by
  unfold peek
  rw [index_of_nonneg c h.1, Array.toList_extract, List.extract_eq_take_drop]
  congr 1
  omega

theorem getElem?_peek {c : Cursor} (h : c.InBounds) (n i : Nat) (hi : i < n) :
    (c.peek n)[i]? = c.byte? (c.pos + i) := by
  have hpos : (c.pos + i).toNat = c.pos.toNat + i := by
    have := h.1
    omega
  rw [peek_eq h, List.getElem?_take_of_lt hi, List.getElem?_drop, byte?, hpos]
  simp

theorem length_peek {c : Cursor} (h : c.InBounds) {n : Nat} (hn : c.pos + n ≤ c.stop) :
    (c.peek n).length = n := by
  obtain ⟨h₀, h₁, h₂⟩ := h
  rw [peek_eq ⟨h₀, h₁, h₂⟩]
  simp only [List.length_take, List.length_drop, Array.length_toList]
  omega

/-- Cursors that show the same next bytes peek the same. -/
theorem peek_congr {p : Int} {c₁ c₂ : Cursor} (h₁ : c₁.InBounds) (h₂ : c₂.InBounds) (n : Nat)
    (hpos : c₂.pos = c₁.pos + p)
    (hb : ∀ i, c₁.pos ≤ i → i < c₁.pos + n → c₂.byte? (i + p) = c₁.byte? i) :
    c₂.peek n = c₁.peek n := by
  apply List.ext_getElem?
  intro i
  by_cases hi : i < n
  · rw [getElem?_peek h₁ n i hi, getElem?_peek h₂ n i hi, ← hb (c₁.pos + i) (by omega) (by omega),
      hpos]
    congr 1
    omega
  · rw [List.getElem?_eq_none, List.getElem?_eq_none]
    · rw [peek_eq h₁, List.length_take]
      omega
    · rw [peek_eq h₂, List.length_take]
      omega

/-- A slice is what a peek of its size gives. -/
theorem slice_eq_peek {c : Cursor} (h : c.InBounds) (n : Nat) : c.slice n = c.peek n := by
  have h₀ := h.1
  have hn : (c.pos + (n : Int)).toNat = c.pos.toNat + n := by omega
  unfold slice peek
  rw [index_of_nonneg c h.1, index_of_nonneg c (by omega), hn]

end Cursor

namespace Decoder

variable {α β : Type}

/-! ## §2. Sequences. -/

theorem bind_of_ok {d : Decoder α} {next : α → Decoder β} {c c₁ : Cursor} {a : α}
    {notices : List Notice} (h : d c = ⟨.ok a, c₁, notices⟩) :
    (d >>= next) c = (next a c₁).behind notices := by
  show Decoder.bind d next c = _
  simp only [Decoder.bind, h]

theorem bind_of_error {d : Decoder α} {next : α → Decoder β} {c c₁ : Cursor} {fault : Fault}
    {notices : List Notice} (h : d c = ⟨.error fault, c₁, notices⟩) :
    (d >>= next) c = ⟨.error fault, c₁, notices⟩ := by
  show Decoder.bind d next c = _
  simp only [Decoder.bind, h]

/-! ## §3. Reads. -/

theorem taking_of_short {what : String} {n : Int} {v : Cursor → α} {c : Cursor}
    (h : c.stop < c.pos + n) : taking what n v c = ⟨.error (shortage c what n), c, []⟩ := by
  have hrequire : require what n c = ⟨.error (shortage c what n), c, []⟩ := if_pos h
  exact bind_of_error hrequire

theorem taking_of_enough {what : String} {n : Int} {v : Cursor → α} {c : Cursor}
    (h : c.pos + n ≤ c.stop) : taking what n v c = ⟨.ok (v c), c.goto (c.pos + n), []⟩ := by
  have hrequire : require what n c = ⟨.ok (), c, []⟩ := if_neg (Int.not_lt.mpr h)
  exact bind_of_ok hrequire

theorem window_bind_of_short {what : String} {n : Int} {next : Cursor → Decoder β} {c : Cursor}
    (h : c.stop < c.pos + n) : (window what n >>= next) c = ⟨.error (shortage c what n), c, []⟩ := by
  apply bind_of_error
  rw [Decoder.window, taking_of_short h]

theorem window_bind_of_enough {what : String} {n : Int} {next : Cursor → Decoder β} {c : Cursor}
    (h : c.pos + n ≤ c.stop) :
    (window what n >>= next) c = next (c.part n) (c.goto (c.pos + n)) := by
  have hwindow : window what n c = ⟨.ok (c.part n), c.goto (c.pos + n), []⟩ := by
    rw [Decoder.window, taking_of_enough h]
  rw [bind_of_ok hwindow, Outcome.behind_nil]

/-! ## §4. Runs that give a value. -/

/-- From `c`, `d` gives `a` and leaves the cursor at `q`. -/
def Goes (d : Decoder α) (c : Cursor) (a : α) (q : Int) : Prop :=
  ∃ notices, d c = ⟨.ok a, c.goto q, notices⟩

/-- Every value that `d` gives satisfies `Q`. -/
def Always (Q : α → Prop) (d : Decoder α) : Prop := ∀ c a, (d c).result = .ok a → Q a

theorem Goes.bind {d : Decoder α} {next : α → Decoder β} {c : Cursor} {a : α} {b : β} {q r : Int}
    (hd : d.Goes c a q) (hn : (next a).Goes (c.goto q) b r) : (d >>= next).Goes c b r := by
  obtain ⟨notices, hrun⟩ := hd
  obtain ⟨more, hrun'⟩ := hn
  refine ⟨notices ++ more, ?_⟩
  rw [bind_of_ok hrun, hrun']
  rfl

theorem Goes.pure (a : α) (c : Cursor) : (pure a : Decoder α).Goes c a c.pos := ⟨[], rfl⟩

theorem Goes.of_result {d : Decoder α} {c : Cursor} {a : α} {q : Int}
    (hresult : (d c).result = .ok a) (hcursor : (d c).cursor = c.goto q) : d.Goes c a q :=
  ⟨(d c).notices, by rw [← hresult, ← hcursor]⟩

theorem Goes.result_eq {d : Decoder α} {c : Cursor} {a : α} {q : Int} (h : d.Goes c a q) :
    (d c).result = .ok a := by
  obtain ⟨notices, hrun⟩ := h
  rw [hrun]

theorem Goes.cursor_eq {d : Decoder α} {c : Cursor} {a : α} {q : Int} (h : d.Goes c a q) :
    (d c).cursor = c.goto q := by
  obtain ⟨notices, hrun⟩ := h
  rw [hrun]

/-- A number ends where its bytes end. -/
theorem Goes.natural_end {what : String} {width : Nat} {f : Nat → α} {c : Cursor} {a : α} {q : Int}
    (h : (natural what width >>= fun v => Pure.pure (f v)).Goes c a q) : q = c.pos + width := by
  obtain ⟨notices, hrun⟩ := h
  by_cases hshort : c.stop < c.pos + width
  · rw [bind_of_error (by rw [Decoder.natural, taking_of_short hshort])] at hrun
    cases hrun
  · rw [bind_of_ok (by rw [Decoder.natural, taking_of_enough (by omega)])] at hrun
    exact (congrArg (fun o : Outcome α => o.cursor.pos) hrun).symm

theorem Always.bind_of {P : α → Prop} {Q : β → Prop} {d : Decoder α} {next : α → Decoder β}
    (hd : d.Always P) (hn : ∀ a, P a → (next a).Always Q) : (d >>= next).Always Q := by
  intro c b hresult
  rcases hrun : d c with ⟨fault | a, c₁, notices⟩
  · rw [bind_of_error hrun] at hresult
    cases hresult
  · have ha : P a := hd c a (by rw [hrun])
    rw [bind_of_ok hrun] at hresult
    exact hn a ha c₁ b hresult

theorem Always.bind {Q : β → Prop} {d : Decoder α} {next : α → Decoder β}
    (h : ∀ a, (next a).Always Q) : (d >>= next).Always Q :=
  .bind_of (P := fun _ => True) (fun _ _ _ => trivial) fun a _ => h a

theorem Always.pure {Q : α → Prop} {a : α} (h : Q a) : (pure a : Decoder α).Always Q := by
  intro c b hresult
  cases hresult
  exact h

end Decoder

end JavaClass
