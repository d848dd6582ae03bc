/-
  JavaClass.Proofs.Serial.Account — values, and the bytes at the place where they stand.

  Two relations between a decoder, a position and bytes, one for each direction.

    * `YieldsAt`: whatever a decoder gives at a position is in a given relation to the bytes that it
      passed over there.  Positions are told by the lengths of these bytes, so the relation can speak
      of the places that values record.
    * `Recovers`: wherever given bytes stand at a position, a decoder gives a certain value, and
      passes over exactly these bytes.

  Both are closed under sequencing and repetition, and the position moves on with the bytes.
-/
import JavaClass.Proofs.Serial.Basic

namespace JavaClass

open Decoder

/-! ## §1. Bytes at a cursor. -/

namespace Serial

@[simp] theorem length_u1 (n : UInt8) : (u1 n).length = 1 := length_natural 1 _
@[simp] theorem length_u2 (n : UInt16) : (u2 n).length = 2 := length_natural 2 _
@[simp] theorem length_u4 (n : UInt32) : (u4 n).length = 4 := length_natural 4 _
@[simp] theorem length_u8 (n : UInt64) : (u8 n).length = 8 := length_natural 8 _

end Serial

namespace Cursor

/-- The bytes from the cursor on are `content`, and the bound leaves room for them. -/
structure Holds (c : Cursor) (content : List UInt8) : Prop where
  inBounds : c.InBounds
  room : c.pos + content.length ≤ c.stop
  bytes : c.peek content.length = content

variable {c : Cursor} {first second : List UInt8}

theorem Holds.nil (h : c.InBounds) : c.Holds [] := by
  have hroom : c.pos + (0 : Nat) ≤ c.stop := by
    have := h.2.1
    omega
  exact ⟨h, hroom, List.length_eq_zero_iff.mp (length_peek h hroom)⟩

theorem Holds.left (h : c.Holds (first ++ second)) : c.Holds first := by
  obtain ⟨hin, hroom, hbytes⟩ := h
  rw [List.length_append] at hroom hbytes
  refine ⟨hin, by omega, ?_⟩
  have hsplit := peek_append hin (n := first.length) (by omega) second.length
  rw [hbytes] at hsplit
  exact List.append_inj_left hsplit (length_peek hin (by omega))

theorem Holds.right (h : c.Holds (first ++ second)) :
    (c.goto (c.pos + first.length)).Holds second := by
  obtain ⟨hin, hroom, hbytes⟩ := h
  rw [List.length_append] at hroom hbytes
  refine ⟨hin.goto (by omega) (by omega), ?_, ?_⟩
  · show c.pos + first.length + second.length ≤ c.stop
    omega
  · have hsplit := peek_append hin (n := first.length) (by omega) second.length
    rw [hbytes] at hsplit
    exact List.append_inj_right hsplit (length_peek hin (by omega))

theorem Holds.append (hfirst : c.Holds first)
    (hsecond : (c.goto (c.pos + first.length)).Holds second) : c.Holds (first ++ second) := by
  have hroom : c.pos + first.length + second.length ≤ c.stop := hsecond.room
  refine ⟨hfirst.inBounds, ?_, ?_⟩
  · rw [List.length_append]
    omega
  · rw [List.length_append, ← peek_append hfirst.inBounds hfirst.room, hfirst.bytes, hsecond.bytes]

/-- All bytes of data. -/
theorem Holds.eq_toList {data : Array UInt8} {content : List UInt8}
    (h : (ofBytes data).Holds content) (hsize : data.size = content.length) :
    content = data.toList := by
  have hbytes := h.bytes
  rw [peek_eq h.inBounds, ← hsize] at hbytes
  rw [← hbytes]
  exact List.take_length

/-- Bytes in the middle of data. -/
theorem Holds.middle (before content after : List UInt8) :
    ((ofBytes (before ++ content ++ after).toArray).goto before.length).Holds content := by
  have hin : ((ofBytes (before ++ content ++ after).toArray).goto before.length).InBounds := by
    refine (InBounds.ofBytes _).goto (Int.natCast_nonneg _) ?_
    show (before.length : Int) ≤ ((before ++ content ++ after).length : Nat)
    simp only [List.length_append]
    omega
  refine ⟨hin, ?_, ?_⟩
  · show (before.length : Int) + content.length ≤ ((before ++ content ++ after).length : Nat)
    simp only [List.length_append]
    omega
  · rw [peek_eq hin]
    show ((before ++ content ++ after).drop (before.length : Int).toNat).take content.length = content
    rw [Int.toNat_natCast, List.append_assoc, List.drop_left, List.take_left]

end Cursor

namespace Decoder

variable {α β : Type} {p : Int} {P : α → List UInt8 → Prop} {R : β → List UInt8 → Prop}

/-! ## §2. From bytes to values. -/

/-- At position `p`, `P` holds of each value that `d` gives and the bytes that it passed over. -/
def YieldsAt (d : Decoder α) (p : Int) (P : α → List UInt8 → Prop) : Prop :=
  ∀ c : Cursor, c.InBounds → c.pos = p → ∀ a, (d c).result = .ok a →
    ∃ n : Nat, (d c).cursor = c.goto (p + n) ∧ p + n ≤ c.stop ∧ P a (c.peek n)

theorem YieldsAt.mono {Q : α → List UInt8 → Prop} {d : Decoder α} (h : d.YieldsAt p P)
    (hPQ : ∀ a bytes, P a bytes → Q a bytes) : d.YieldsAt p Q := by
  intro c hc hpos a hresult
  obtain ⟨n, hcursor, hstop, hP⟩ := h c hc hpos a hresult
  exact ⟨n, hcursor, hstop, hPQ a _ hP⟩

/-- What one run tells. -/
theorem YieldsAt.of_run {d : Decoder α} {c c₁ : Cursor} {a : α} {notices : List Notice}
    (h : d.YieldsAt c.pos P) (hc : c.InBounds) (hrun : d c = ⟨.ok a, c₁, notices⟩) :
    ∃ bytes, c₁ = c.goto (c.pos + bytes.length) ∧ c.pos + bytes.length ≤ c.stop ∧
      bytes = c.peek bytes.length ∧ P a bytes := by
  obtain ⟨n, hcursor, hstop, hP⟩ := h c hc rfl a (by rw [hrun])
  have hlength : (c.peek n).length = n := Cursor.length_peek hc hstop
  rw [hrun] at hcursor
  exact ⟨c.peek n, by rw [hlength]; exact hcursor, by rw [hlength]; exact hstop, by rw [hlength], hP⟩

theorem YieldsAt.bind {d : Decoder α} {next : α → Decoder β} (hd : d.YieldsAt p P)
    (hn : ∀ a bytes, P a bytes →
      (next a).YieldsAt (p + bytes.length) fun b more => R b (bytes ++ more)) :
    (d >>= next).YieldsAt p R := by
  intro c hc hpos b hresult
  rcases hrun : d c with ⟨fault | a, c₁, notices⟩
  · rw [bind_of_error hrun] at hresult
    cases hresult
  rw [bind_of_ok hrun] at hresult ⊢
  subst hpos
  obtain ⟨first, rfl, hstop, hpeek, hP⟩ := hd.of_run hc hrun
  obtain ⟨k, hcursor, hstop', hR⟩ :=
    hn a first hP _ (hc.goto (by omega) hstop) rfl b hresult
  -- The bytes of the two parts stand one behind the other.
  refine ⟨first.length + k, ?_, ?_, ?_⟩
  · show (next a (c.goto (c.pos + first.length))).cursor = _
    rw [hcursor, Cursor.goto_goto]
    congr 1
    omega
  · have hbound : c.pos + first.length + k ≤ c.stop := hstop'
    omega
  · rw [← Cursor.peek_append hc hstop, ← hpeek]
    exact hR

theorem YieldsAt.still {d : Decoder α} (hd : d.Still)
    (h : ∀ c a, c.pos = p → (d c).result = .ok a → P a []) : d.YieldsAt p P := by
  intro c hc hpos a hresult
  have hP : P a [] := h c a hpos hresult
  have hnil := Cursor.Holds.nil hc
  have hnone : c.peek 0 = [] := hnil.bytes
  subst hpos
  refine ⟨0, ?_, hnil.room, by rw [hnone]; exact hP⟩
  rw [hd c, Int.natCast_zero, Int.add_zero, Cursor.goto_self]

theorem YieldsAt.pure {a : α} (h : P a []) : (pure a : Decoder α).YieldsAt p P := by
  refine .still (fun _ => rfl) ?_
  intro c b _ hresult
  obtain rfl : a = b := Except.ok.inj hresult
  exact h

/-- The position is noted, and used from there on. -/
theorem YieldsAt.position_bind {next : Int → Decoder β} (h : (next p).YieldsAt p R) :
    (Decoder.position >>= next).YieldsAt p R := by
  intro c hc hpos
  subst hpos
  exact h c hc rfl

/-- The place from `start` to here, of `n` bytes, is noted, and used from there on. -/
theorem YieldsAt.spanFrom_bind {start n : Int} {next : Span → Decoder β} (hn : p = start + n)
    (h : (next ⟨start, n⟩).YieldsAt p R) : (Decoder.spanFrom start >>= next).YieldsAt p R := by
  intro c hc hpos
  have hlength : c.pos - start = n := by omega
  subst hlength
  exact h c hc hpos

theorem YieldsAt.fail (fault : Fault) : (fail fault : Decoder α).YieldsAt p P := by
  intro c _ _ a hresult
  cases hresult

theorem YieldsAt.reject (cause : Malformation) (offset : Int) :
    (reject cause offset : Decoder α).YieldsAt p P := .fail _

/-- What a silent decoder yields anywhere, it yields here. -/
theorem Yields.at {d : Decoder α} (h : d.Yields P) (hsilent : ∀ c, (d c).notices = []) :
    d.YieldsAt p P := by
  intro c hc hpos a hresult
  have hthorough : (d c).Thorough := by
    intro n hn
    rw [hsilent c] at hn
    cases hn
  subst hpos
  exact h c hc a hresult hthorough

theorem taking_silent (what : String) (n : Int) (v : Cursor → α) (c : Cursor) :
    (taking what n v c).notices = [] := by
  by_cases hshort : c.stop < c.pos + n
  · rw [taking_of_short hshort]
  · rw [taking_of_enough (Int.not_lt.mp hshort)]

theorem natural_silent (what : String) (width : Nat) (f : Nat → α) (c : Cursor) :
    ((natural what width >>= fun n => Pure.pure (f n)) c).notices = [] := by
  have hsilent := taking_silent what width (fun c => bigEndian (c.peek width)) c
  rcases hrun : natural what width c with ⟨fault | n, c₁, notices⟩ <;>
    rw [← Decoder.natural, hrun] at hsilent
  · rw [bind_of_error hrun]
    exact hsilent
  · rw [bind_of_ok hrun]
    show notices ++ [] = []
    rw [List.append_nil]
    exact hsilent

theorem u1_yieldsAt (what : String) : (u1 what).YieldsAt p fun n bytes => bytes = Serial.u1 n :=
  (u1_inverts what).at (natural_silent what 1 UInt8.ofNat)

theorem u2_yieldsAt (what : String) : (u2 what).YieldsAt p fun n bytes => bytes = Serial.u2 n :=
  (u2_inverts what).at (natural_silent what 2 UInt16.ofNat)

theorem u4_yieldsAt (what : String) : (u4 what).YieldsAt p fun n bytes => bytes = Serial.u4 n :=
  (u4_inverts what).at (natural_silent what 4 UInt32.ofNat)

theorem u8_yieldsAt (what : String) : (u8 what).YieldsAt p fun n bytes => bytes = Serial.u8 n :=
  (u8_inverts what).at (natural_silent what 8 UInt64.ofNat)

theorem s4_yieldsAt (what : String) :
    (s4 what).YieldsAt p fun n bytes => bytes = Serial.u4 n.toUInt32 :=
  (u4_yieldsAt what).bind fun _ _ h => .pure (by rw [h, List.append_nil]; rfl)

theorem s8_yieldsAt (what : String) :
    (s8 what).YieldsAt p fun n bytes => bytes = Serial.u8 n.toUInt64 :=
  (u8_yieldsAt what).bind fun _ _ h => .pure (by rw [h, List.append_nil]; rfl)

theorem f4_yieldsAt (what : String) : (f4 what).YieldsAt p fun x bytes => bytes = Serial.u4 x.bits :=
  (u4_yieldsAt what).bind fun _ _ h => .pure (by rw [h, List.append_nil])

theorem f8_yieldsAt (what : String) : (f8 what).YieldsAt p fun x bytes => bytes = Serial.u8 x.bits :=
  (u8_yieldsAt what).bind fun _ _ h => .pure (by rw [h, List.append_nil])

theorem bytes_yieldsAt (what : String) (n : Nat) :
    (bytes what n).YieldsAt p fun content bytes => content.length = n ∧ bytes = content :=
  (bytes_yields what n).at (taking_silent what n fun c => c.slice n)

theorem skip_yieldsAt (what : String) (n : Nat) :
    (skip what n).YieldsAt p fun _ bytes => bytes.length = n := by
  intro c hc hpos _ hresult
  subst hpos
  by_cases hshort : c.stop < c.pos + n
  · rw [Decoder.skip, taking_of_short hshort] at hresult
    cases hresult
  · have henough : c.pos + n ≤ c.stop := by omega
    rw [Decoder.skip, taking_of_enough henough]
    exact ⟨n, rfl, henough, Cursor.length_peek hc henough⟩

/-- A value records the place of its bytes. -/
theorem YieldsAt.located {d : Decoder α} (h : d.YieldsAt p P) :
    (located d).YieldsAt p fun x bytes => x.span = ⟨p, bytes.length⟩ ∧ P x.value bytes := by
  refine .position_bind (h.bind fun value bytes hvalue => .spanFrom_bind rfl (.pure ?_))
  rw [List.append_nil]
  exact ⟨rfl, hvalue⟩

/-- The values of a repeated read and all their bytes: each value stands with its own bytes behind
    those before it. -/
def Series (P : Int → α → List UInt8 → Prop) : Int → List α → List UInt8 → Prop
  | _, [], content => content = []
  | p, a :: rest, content => ∃ first more,
      content = first ++ more ∧ P p a first ∧ Series P (p + first.length) rest more

theorem YieldsAt.many {P : Int → α → List UInt8 → Prop} {d : Decoder α} (count : Nat)
    (h : ∀ p, d.YieldsAt p (P p)) (p : Int) :
    (many count d).YieldsAt p fun values content =>
      values.length = count ∧ Series P p values content := by
  induction count generalizing p with
  | zero =>
    rw [many_zero]
    exact .pure ⟨rfl, rfl⟩
  | succ count ih =>
    rw [many_succ]
    refine (h p).bind fun a first hfirst => (ih _).bind fun rest more hrest => .pure ?_
    obtain ⟨hlength, hseries⟩ := hrest
    exact ⟨by rw [List.length_cons, hlength], first, more, by rw [List.append_nil], hfirst, hseries⟩

/-- What holds of each value that is read holds of all of them. -/
theorem Series.all {P : Int → α → List UInt8 → Prop} {Q : α → Prop}
    (hQ : ∀ p a bytes, P p a bytes → Q a) {values : List α} {content : List UInt8}
    (h : Series P p values content) : ∀ a ∈ values, Q a := by
  induction values generalizing p content with
  | nil =>
    intro a ha
    cases ha
  | cons value rest ih =>
    obtain ⟨first, more, -, hfirst, hrest⟩ := h
    intro a ha
    obtain rfl | ha := List.mem_cons.mp ha
    · exact hQ _ _ _ hfirst
    · exact ih hrest a ha

/-- Values that are read from their own bytes are read from all of these. -/
theorem Series.eq_flatMap {P : Int → α → List UInt8 → Prop} {f : α → List UInt8}
    (hf : ∀ p a bytes, P p a bytes → bytes = f a) {values : List α} {content : List UInt8}
    (h : Series P p values content) : content = values.flatMap f := by
  induction values generalizing p content with
  | nil => exact h
  | cons value rest ih =>
    obtain ⟨first, more, rfl, hfirst, hrest⟩ := h
    rw [hf _ _ _ hfirst, ih hrest, List.flatMap_cons]

/-- Values that take up bytes are not more than their bytes. -/
theorem Series.length_le {P : Int → α → List UInt8 → Prop}
    (hpos : ∀ p a bytes, P p a bytes → 0 < bytes.length) {values : List α} {content : List UInt8}
    (h : Series P p values content) : values.length ≤ content.length := by
  induction values generalizing p content with
  | nil => exact Nat.zero_le _
  | cons value rest ih =>
    obtain ⟨first, more, rfl, hfirst, hrest⟩ := h
    have := hpos _ _ _ hfirst
    have := ih hrest
    rw [List.length_cons, List.length_append]
    omega

/-- Values that take up `size` bytes each. -/
theorem Series.length_eq {P : Int → α → List UInt8 → Prop} {size : Nat}
    (hsize : ∀ p a bytes, P p a bytes → bytes.length = size) {values : List α}
    {content : List UInt8} (h : Series P p values content) :
    content.length = size * values.length := by
  induction values generalizing p content with
  | nil =>
    obtain rfl : content = [] := h
    rfl
  | cons value rest ih =>
    obtain ⟨first, more, rfl, hfirst, hrest⟩ := h
    rw [List.length_append, hsize _ _ _ hfirst, ih hrest, List.length_cons, Nat.mul_succ]
    omega

/-- A structure inside itself is as its equation makes it. -/
theorem YieldsAt.fix {P : Int → α → List UInt8 → Prop} {body : Decoder α → Decoder α}
    (h : ∀ inner : Decoder α, (∀ p, inner.YieldsAt p (P p)) → ∀ p, (body inner).YieldsAt p (P p))
    (p : Int) : (fix body).YieldsAt p (P p) := by
  have hunroll : ∀ depth p, (unroll body depth).YieldsAt p (P p) := by
    intro depth
    induction depth with
    | zero =>
      intro p c _ _ a hresult
      cases hresult
    | succ depth ih => exact h _ ih
  intro c
  exact hunroll (c.remaining.toNat + 1) p c

end Decoder

/-! ## §3. Places one behind the other. -/

/-- The lengths of parts, added up. -/
def Span.total {α : Type} (span : α → Span) : List α → Int
  | [] => 0
  | x :: rest => (span x).length + Span.total span rest

/-- Parts from `lo` to `hi`, one behind the other. -/
def Tiles {α : Type} (span : α → Span) : Int → List α → Int → Prop
  | lo, [], hi => lo = hi
  | lo, x :: rest, hi => (span x).start = lo ∧ Tiles span (lo + (span x).length) rest hi

section

variable {α : Type} {span : α → Span} {lo hi : Int} {parts : List α}

/-- Tiles end behind the sum of their lengths. -/
theorem Tiles.end_eq (h : Tiles span lo parts hi) :
    hi = lo + Span.total span parts := by
  induction parts generalizing lo with
  | nil =>
    obtain rfl : lo = hi := h
    rw [Span.total, Int.add_zero]
  | cons x rest ih =>
    rw [ih h.2, Span.total, Int.add_assoc]

theorem Tiles.cast {lo' hi' : Int} (h : Tiles span lo parts hi) (hlo : lo = lo') (hhi : hi = hi') :
    Tiles span lo' parts hi' := by
  subst hlo hhi
  exact h

theorem Tiles.of_map {β : Type} {f : β → α} {parts : List β}
    (h : Tiles span lo (parts.map f) hi) : Tiles (fun x => span (f x)) lo parts hi := by
  induction parts generalizing lo with
  | nil => exact h
  | cons x rest ih => exact ⟨h.1, ih h.2⟩

/-- Values that are read one behind the other, and record their places, are tiles. -/
theorem Tiles.of_series {P : Int → α → List UInt8 → Prop}
    (hspan : ∀ p a bytes, P p a bytes → span a = ⟨p, bytes.length⟩) {content : List UInt8}
    (h : Series P lo parts content) : Tiles span lo parts (lo + content.length) := by
  induction parts generalizing lo content with
  | nil =>
    obtain rfl : content = [] := h
    exact (Int.add_zero lo).symm
  | cons x rest ih =>
    obtain ⟨first, later, rfl, hfirst, hrest⟩ := h
    have htiles := ih hrest
    rw [Int.add_assoc, ← Int.natCast_add, ← List.length_append] at htiles
    refine ⟨by rw [hspan _ _ _ hfirst], ?_⟩
    rw [hspan _ _ _ hfirst]
    exact htiles

end

namespace Decoder

variable {α β : Type} {p : Int}

/-! ## §4. From values to bytes. -/

/-- Wherever `content` stands at position `p`, `d` gives `a` and passes over exactly these bytes. -/
def Recovers (d : Decoder α) (p : Int) (content : List UInt8) (a : α) : Prop :=
  ∀ c : Cursor, c.Holds content → c.pos = p → d.Goes c a (p + content.length)

variable {first second : List UInt8} {a : α} {b : β}

theorem Recovers.bind {d : Decoder α} {next : α → Decoder β} (hd : d.Recovers p first a)
    (hn : (next a).Recovers (p + first.length) second b) :
    (d >>= next).Recovers p (first ++ second) b := by
  intro c hc hpos
  have hgoes := hn (c.goto (p + first.length)) (hpos ▸ hc.right) rfl
  rw [Int.add_assoc, ← Int.natCast_add, ← List.length_append] at hgoes
  exact (hd c hc.left hpos).bind hgoes

theorem Recovers.still {d : Decoder α} (v : Int → α) (hd : ∀ c, d c = ⟨.ok (v c.pos), c, []⟩) :
    d.Recovers p [] (v p) := by
  intro c _ hpos
  refine ⟨[], ?_⟩
  rw [hd c, hpos]
  show _ = (⟨.ok (v p), c.goto (p + ((0 : Nat) : Int)), []⟩ : Outcome α)
  rw [Int.natCast_zero, Int.add_zero, ← hpos, Cursor.goto_self]

theorem Recovers.pure (a : α) : (pure a : Decoder α).Recovers p [] a :=
  .still (fun _ => a) fun _ => rfl

/-- Nothing is read behind `d`. -/
theorem Recovers.bind_nil {d : Decoder α} {next : α → Decoder β} (hd : d.Recovers p first a)
    (hn : (next a).Recovers (p + first.length) [] b) : (d >>= next).Recovers p first b := by
  have h := hd.bind hn
  rwa [List.append_nil] at h

theorem Recovers.map {d : Decoder α} (f : α → β) (hd : d.Recovers p first a) :
    (d >>= fun a => Pure.pure (f a)).Recovers p first (f a) :=
  hd.bind_nil (Recovers.pure (f a))

/-- Nothing is read before `next`. -/
theorem Recovers.nil_bind {d : Decoder α} {next : α → Decoder β} (hd : d.Recovers p [] a)
    (hn : (next a).Recovers p second b) : (d >>= next).Recovers p second b := by
  have hstart : p + (([] : List UInt8).length : Int) = p := Int.add_zero p
  have h := hd.bind (hstart ▸ hn)
  rwa [List.nil_append] at h

theorem Recovers.spanFrom (start : Int) : (spanFrom start).Recovers p [] ⟨start, p - start⟩ :=
  Recovers.still (fun q => (⟨start, q - start⟩ : Span)) fun _ => rfl

theorem Recovers.position_bind {next : Int → Decoder β} (h : (next p).Recovers p first b) :
    (Decoder.position >>= next).Recovers p first b :=
  .nil_bind (.still id fun _ => rfl) h

theorem Recovers.taking {what : String} {v : Cursor → α}
    (h : ∀ c : Cursor, c.Holds first → v c = a) : (taking what first.length v).Recovers p first a := by
  intro c hc hpos
  have hrun : Decoder.taking what first.length v c =
      ⟨.ok (v c), c.goto (c.pos + first.length), []⟩ := taking_of_enough hc.room
  rw [h c hc, hpos] at hrun
  exact ⟨[], hrun⟩

end Decoder

theorem Serial.bigEndian_natural {width n : Nat} (h : n < Nat.pow 256 width) :
    bigEndian (natural width n) = n := by
  induction width generalizing n with
  | zero =>
    obtain rfl : n = 0 := Nat.lt_one_iff.mp h
    rfl
  | succ width ih =>
    -- The last digit is the remainder, the digits before it write the quotient.
    have hquotient : n / 256 < Nat.pow 256 width := by
      rw [Nat.div_lt_iff_lt_mul (by decide)]
      exact h
    rw [natural, bigEndian_append, ih hquotient, UInt8.toNat_ofNat']
    omega

namespace Decoder

variable {α β : Type} {p : Int}

theorem Recovers.natural (what : String) {width n : Nat} (h : n < Nat.pow 256 width) :
    (natural what width).Recovers p (Serial.natural width n) n := by
  have hlength := Serial.length_natural width n
  have htaking : (Decoder.natural what width) =
      Decoder.taking what (Serial.natural width n).length fun c => bigEndian (c.peek width) := by
    rw [hlength, Decoder.natural]
  rw [htaking]
  refine .taking fun c hc => ?_
  have hpeek := hc.bytes
  rw [hlength] at hpeek
  rw [hpeek, Serial.bigEndian_natural h]

theorem Recovers.u1 (what : String) (n : UInt8) : (u1 what).Recovers p (Serial.u1 n) n := by
  have hroom : n.toNat < Nat.pow 256 1 := n.toNat_lt
  have h := (Recovers.natural (p := p) what hroom).map UInt8.ofNat
  rwa [UInt8.ofNat_toNat] at h

theorem Recovers.u2 (what : String) (n : UInt16) : (u2 what).Recovers p (Serial.u2 n) n := by
  have hroom : n.toNat < Nat.pow 256 2 := n.toNat_lt
  have h := (Recovers.natural (p := p) what hroom).map UInt16.ofNat
  rwa [UInt16.ofNat_toNat] at h

theorem Recovers.u4 (what : String) (n : UInt32) : (u4 what).Recovers p (Serial.u4 n) n := by
  have hroom : n.toNat < Nat.pow 256 4 := n.toNat_lt
  have h := (Recovers.natural (p := p) what hroom).map UInt32.ofNat
  rwa [UInt32.ofNat_toNat] at h

theorem Recovers.u8 (what : String) (n : UInt64) : (u8 what).Recovers p (Serial.u8 n) n := by
  have hroom : n.toNat < Nat.pow 256 8 := n.toNat_lt
  have h := (Recovers.natural (p := p) what hroom).map UInt64.ofNat
  rwa [UInt64.ofNat_toNat] at h

theorem Recovers.s4 (what : String) (n : Int32) :
    (s4 what).Recovers p (Serial.u4 n.toUInt32) n :=
  (Recovers.u4 what n.toUInt32).map UInt32.toInt32

theorem Recovers.s8 (what : String) (n : Int64) :
    (s8 what).Recovers p (Serial.u8 n.toUInt64) n :=
  (Recovers.u8 what n.toUInt64).map UInt64.toInt64

theorem Recovers.f4 (what : String) (x : Number.Single) :
    (f4 what).Recovers p (Serial.u4 x.bits) x :=
  (Recovers.u4 what x.bits).map fun bits => (⟨bits⟩ : Number.Single)

theorem Recovers.f8 (what : String) (x : Number.Double) :
    (f8 what).Recovers p (Serial.u8 x.bits) x :=
  (Recovers.u8 what x.bits).map fun bits => (⟨bits⟩ : Number.Double)

theorem Recovers.bytes (what : String) (content : List UInt8) :
    (bytes what content.length).Recovers p content content := by
  rw [Decoder.bytes]
  refine .taking fun c hc => ?_
  rw [Cursor.slice_eq_peek hc.inBounds, hc.bytes]

theorem Recovers.skip (what : String) (content : List UInt8) :
    (skip what content.length).Recovers p content () := by
  rw [Decoder.skip]
  exact .taking fun _ _ => rfl

/-- Values one behind the other, each with its bytes. -/
theorem Recovers.many {d : Decoder α} {f : α → List UInt8} (values : List α)
    (h : ∀ a ∈ values, ∀ p, d.Recovers p (f a) a) (p : Int) :
    (many values.length d).Recovers p (values.flatMap f) values := by
  induction values generalizing p with
  | nil => exact .pure []
  | cons a rest ih =>
    rw [List.length_cons, many_succ, List.flatMap_cons]
    refine (h a List.mem_cons_self p).bind ?_
    exact (ih (fun b hb => h b (List.mem_cons_of_mem a hb)) _).map (a :: ·)

/-- A value is recovered with its place. -/
theorem Recovers.located {d : Decoder α} {content : List UInt8} {a : α}
    (h : d.Recovers p content a) :
    (located d).Recovers p content ⟨⟨p, content.length⟩, a⟩ := by
  have hlength : p + content.length - p = content.length := by omega
  have hspan := Recovers.spanFrom (p := p + content.length) p
  rw [hlength] at hspan
  exact .position_bind (h.bind_nil (hspan.map fun span => (⟨span, a⟩ : Located α)))

end Decoder

end JavaClass
