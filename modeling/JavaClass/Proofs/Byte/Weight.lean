/-
  JavaClass.Proofs.Byte.Weight — what is read weighs no more than the bytes that were read.

  `Affords` says that the weight of what a decoder gives is covered by the bytes that it passes, and
  by a credit from before.  A sequence hands the bytes of its first part to the second as credit, so
  the relation is closed under sequencing, and with it under repetition and recursion, whatever
  counts the data declare.
-/
import JavaClass.Proofs.Byte.Run

namespace JavaClass

variable {α β : Type}

/-- The number of values, each with the records inside it. -/
def recordsIn (inside : α → Nat) : List α → Nat
  | [] => 0
  | a :: rest => 1 + inside a + recordsIn inside rest

@[simp] theorem recordsIn_zero (values : List α) :
    recordsIn (fun _ => 0) values = values.length := by
  induction values with
  | nil => rfl
  | cons a rest ih =>
    rw [recordsIn, ih, List.length_cons]
    omega

namespace Decoder

/-- From a cursor in bounds, `d` moves forward and stays in bounds, and what it gives weighs at most
    as much as the bytes that it passes and the credit together. -/
def Affords (credit : Nat) (weight : α → Nat) (d : Decoder α) : Prop :=
  ∀ c : Cursor, c.InBounds → ∀ a, (d c).result = .ok a →
    ∃ q, (d c).cursor = c.goto q ∧ c.pos ≤ q ∧ q ≤ c.stop ∧ c.pos + weight a ≤ q + credit

variable {credit : Nat} {v : α → Nat} {w : β → Nat}

/-- The bytes of the first part are credit for the second. -/
theorem Affords.bind {d : Decoder α} {next : α → Decoder β} (hd : d.Affords 0 v)
    (hn : ∀ a, (next a).Affords (credit + v a) w) : (d >>= next).Affords credit w := by
  intro c hc b hresult
  rcases hrun : d c with ⟨fault | a, c₁, notices⟩
  · rw [bind_of_error hrun] at hresult
    cases hresult
  · obtain ⟨q, hq, hle, hstop, hweight⟩ := hd c hc a (by rw [hrun])
    rw [hrun] at hq
    obtain rfl : c₁ = c.goto q := hq
    rw [bind_of_ok hrun] at hresult ⊢
    obtain ⟨q', hq', hle', hstop', hweight'⟩ := hn a (c.goto q) (hc.goto hle hstop) b hresult
    have hle' : q ≤ q' := hle'
    have hweight' : q + w b ≤ q' + (credit + v a : Nat) := hweight'
    exact ⟨q', hq', by omega, hstop', by omega⟩

theorem Affords.pure {a : α} (h : v a ≤ credit) : (pure a : Decoder α).Affords credit v := by
  intro c hc b hresult
  cases hresult
  exact ⟨c.pos, rfl, Int.le_refl _, hc.2.1, by omega⟩

/-- A last part may spend the credit. -/
theorem Affords.last {v' : α → Nat} {d : Decoder α} (h : d.Affords 0 v)
    (hv : ∀ a, v' a ≤ credit + v a) : d.Affords credit v' := by
  intro c hc a hresult
  obtain ⟨q, hq, hle, hstop, hweight⟩ := h c hc a hresult
  have hv := hv a
  exact ⟨q, hq, hle, hstop, by omega⟩

/-- What is made of a value alone. -/
theorem Affords.map {d : Decoder α} {f : α → β} (hd : d.Affords 0 v) (hf : ∀ a, w (f a) ≤ v a) :
    (d >>= fun a => Pure.pure (f a)).Affords 0 w :=
  .bind hd fun a => .pure (Nat.le_trans (hf a) (Nat.le_add_left _ _))

theorem Affords.fail (fault : Fault) : (fail fault : Decoder α).Affords credit v := by
  intro c _ a hresult
  cases hresult

theorem Affords.still {d : Decoder α} (h : ∀ c, (d c).cursor = c) : d.Affords 0 fun _ => 0 := by
  intro c hc a _
  exact ⟨c.pos, h c, Int.le_refl _, hc.2.1, Int.le_refl _⟩

theorem Affords.position : position.Affords 0 fun _ => 0 := .still fun _ => rfl

theorem Affords.spanFrom (start : Int) : (spanFrom start).Affords 0 fun _ => 0 := .still fun _ => rfl

theorem Affords.taking (what : String) (n : Nat) (value : Cursor → α) :
    (taking what n value).Affords 0 fun _ => n := by
  intro c hc a hresult
  by_cases hshort : c.stop < c.pos + n
  · rw [taking_of_short hshort] at hresult
    cases hresult
  · rw [taking_of_enough (by omega)]
    refine ⟨c.pos + n, rfl, by omega, by omega, ?_⟩
    show c.pos + n ≤ c.pos + n + ((0 : Nat) : Int)
    omega

theorem Affords.u1 (what : String) : (u1 what).Affords 0 fun _ => 1 :=
  .map (.taking what 1 _) fun _ => Nat.le_refl 1

theorem Affords.u2 (what : String) : (u2 what).Affords 0 fun _ => 2 :=
  .map (.taking what 2 _) fun _ => Nat.le_refl 2

theorem Affords.u4 (what : String) : (u4 what).Affords 0 fun _ => 4 :=
  .map (.taking what 4 _) fun _ => Nat.le_refl 4

theorem Affords.s1 (what : String) : (s1 what).Affords 0 fun _ => 1 :=
  .map (.u1 what) fun _ => Nat.le_refl 1

theorem Affords.s2 (what : String) : (s2 what).Affords 0 fun _ => 2 :=
  .map (.u2 what) fun _ => Nat.le_refl 2

theorem Affords.s4 (what : String) : (s4 what).Affords 0 fun _ => 4 :=
  .map (.u4 what) fun _ => Nat.le_refl 4

theorem Affords.bytes (what : String) (n : Nat) : (bytes what n).Affords 0 fun _ => n :=
  .taking what n _

theorem Affords.skip (what : String) {n : Int} (hn : 0 ≤ n) : (skip what n).Affords 0 fun _ => 0 := by
  obtain ⟨n, rfl⟩ := Int.eq_ofNat_of_zero_le hn
  intro c hc a hresult
  obtain ⟨q, hq, hle, hstop, -⟩ := Affords.taking what n (fun _ => ()) c hc a hresult
  refine ⟨q, hq, hle, hstop, ?_⟩
  show c.pos + ((0 : Nat) : Int) ≤ q + ((0 : Nat) : Int)
  omega

/-- However many values are read, each brings the bytes for itself. -/
theorem Affords.many {d : Decoder α} {inside : α → Nat} (count : Nat)
    (h : d.Affords 0 fun a => 1 + inside a) : (many count d).Affords 0 (recordsIn inside) := by
  induction count with
  | zero =>
    rw [many_zero]
    exact .pure (Nat.le_refl 0)
  | succ count ih =>
    rw [many_succ]
    exact .bind h fun a => .bind ih fun rest => .pure (by simp only [recordsIn]; omega)

/-- Values with nothing to count inside them. -/
theorem Affords.rows {d : Decoder α} (count : Nat) (h : d.Affords 0 fun _ => 1) :
    (Decoder.many count d).Affords 0 List.length := by
  rw [← funext recordsIn_zero]
  exact .many count h

theorem Affords.located {d : Decoder α} (h : d.Affords 0 v) :
    (located d).Affords 0 fun x => v x.value :=
  .bind .position fun start => .bind h fun a => .bind (.spanFrom start) fun _ =>
    .pure (by dsimp only; omega)

/-- By induction on the depth to which a structure is followed into itself. -/
theorem Affords.fix {body : Decoder α → Decoder α}
    (h : ∀ inner : Decoder α, inner.Affords 0 v → (body inner).Affords 0 v) :
    (fix body).Affords 0 v := by
  have hunroll : ∀ depth, (unroll body depth).Affords 0 v := by
    intro depth
    induction depth with
    | zero =>
      intro c _ a hresult
      cases hresult
    | succ depth ih => exact h _ ih
  intro c hc
  exact hunroll (c.remaining.toNat + 1) c hc

/-- What is read inside a window weighs at most as much as the window. -/
theorem Affords.weight_le {d : Decoder α} (h : d.Affords 0 v) {c : Cursor} (hc : c.InBounds) {a : α}
    (hresult : (d c).result = .ok a) : v a ≤ c.remaining := by
  obtain ⟨q, -, -, hstop, hweight⟩ := h c hc a hresult
  simp only [Cursor.remaining]
  omega

end Decoder

end JavaClass
