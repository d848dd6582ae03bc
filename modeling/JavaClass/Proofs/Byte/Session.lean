/-
  JavaClass.Proofs.Byte.Session — cursors and their windows over whole sessions.

  A request asks its cursor for a number of bytes.  With these before the bound it takes just them,
  and its reply is made of them; without them it changes nothing (`Request.answer_of_enough`,
  `Request.answer_of_short`).  So a turn moves one cursor forward and opens at most one other, over
  the bytes that were passed (`Session.step_of_enough`).

  Two facts hold at the start and are kept by every turn: all cursors stand inside the data, and what
  two cursors may still read has no byte in common (`Sound`).  By induction on the turns they hold at
  every moment (`Sound.moment`), and no cursor ever goes back (`Sound.moment_extends`).  The main
  statement (`Session.run_isolated`) puts together what follows for any session that starts from one
  cursor.
-/
import JavaClass.Byte.Session
import JavaClass.Proofs.Serial.Basic

namespace JavaClass

open Decoder

/-! ## §1. What a request is for. -/

/-- The next `n` bytes, or those that there are. -/
def Cursor.ahead (c : Cursor) (n : Nat) : List UInt8 := (c.data.toList.drop c.pos.toNat).take n

/-- The number that the bytes of a primitive write: unsigned, in two's complement, or by the fields
    of a floating-point format. -/
def Primitive.decode (kind : Primitive) (content : List UInt8) : Numeral :=
  let n := bigEndian content
  match kind with
  | u1 | u2 | u4 | u8 => .integer n
  | s1 | s2 | s4 | s8 => .integer (Int.bmod n (Nat.pow 256 kind.width))
  | f4 => .real (Number.Single.toDouble ⟨UInt32.ofNat n⟩)
  | f8 => .real ⟨UInt64.ofNat n⟩

namespace Request

/-- How many bytes a request asks for. -/
def size : Request → Int
  | number kind _ => kind.width
  | bytes size _ | skip size _ | window size _ => size
  | describe => 0

/-- What the bytes are called if they are lacking. -/
def label : Request → String
  | number kind what? => what?.getD kind.label
  | bytes _ what? => what?.getD "bytes"
  | skip _ what? => what?.getD "padding"
  | window _ what? => what?.getD "window"
  | describe => ""

/-- What a request makes of the bytes ahead of a cursor. -/
def reply (c : Cursor) : Request → Reply
  | number kind _ => .number (kind.decode (c.ahead kind.width))
  | bytes size _ => .bytes (c.ahead size.toNat)
  | skip _ _ => .skipped
  | window size _ => .opened ⟨c.data, c.pos, c.pos + size⟩
  | describe => .described c.describe

/-- The cursors that a request opens: a window has one, over the bytes that it passes. -/
def opens (c : Cursor) : Request → Array Cursor
  | window size _ => #[⟨c.data, c.pos, c.pos + size⟩]
  | _ => #[]

end Request

/-! ## §2. Answers. -/

namespace Primitive

/-- What a primitive makes of the number that its bytes write. -/
def ofNatural : Primitive → Nat → Numeral
  | u1, n => .integer (UInt8.ofNat n).toNat
  | s1, n => .integer (UInt8.ofNat n).toInt8.toInt
  | u2, n => .integer (UInt16.ofNat n).toNat
  | s2, n => .integer (UInt16.ofNat n).toInt16.toInt
  | u4, n => .integer (UInt32.ofNat n).toNat
  | s4, n => .integer (UInt32.ofNat n).toInt32.toInt
  | u8, n => .integer (UInt64.ofNat n).toNat
  | s8, n => .integer (UInt64.ofNat n).toInt64.toInt
  | f4, n => .real (Number.Single.toDouble ⟨UInt32.ofNat n⟩)
  | f8, n => .real ⟨UInt64.ofNat n⟩

theorem read_eq (what : String) (kind : Primitive) :
    kind.read what = natural what kind.width >>= fun n => pure (kind.ofNatural n) := by
  cases kind <;>
    simp [read, Decoder.u1, Decoder.s1, Decoder.u2, Decoder.s2, Decoder.u4, Decoder.s4, Decoder.u8,
      Decoder.s8, Decoder.f4, Decoder.f8, width, ofNatural]

/-- Fixed-width arithmetic loses nothing of a number with so many bytes. -/
theorem ofNatural_bigEndian (kind : Primitive) {content : List UInt8}
    (h : content.length = kind.width) : kind.ofNatural (bigEndian content) = kind.decode content := by
  have hlt : bigEndian content < Nat.pow 256 kind.width := Serial.bigEndian_lt h
  have hsigned : ∀ w n : Nat, n < 2 ^ w → (BitVec.ofNat w n).toInt = Int.bmod n (2 ^ w) := by
    intro w n hn
    rw [BitVec.toInt_eq_toNat_bmod, BitVec.toNat_ofNat, Nat.mod_eq_of_lt hn]
  unfold decode
  generalize bigEndian content = n at hlt ⊢
  cases kind with
  | u1 => exact congrArg (fun m : Nat => Numeral.integer m) (Nat.mod_eq_of_lt hlt)
  | u2 => exact congrArg (fun m : Nat => Numeral.integer m) (Nat.mod_eq_of_lt hlt)
  | u4 => exact congrArg (fun m : Nat => Numeral.integer m) (Nat.mod_eq_of_lt hlt)
  | u8 => exact congrArg (fun m : Nat => Numeral.integer m) (Nat.mod_eq_of_lt hlt)
  | s1 => exact congrArg Numeral.integer (hsigned 8 n hlt)
  | s2 => exact congrArg Numeral.integer (hsigned 16 n hlt)
  | s4 => exact congrArg Numeral.integer (hsigned 32 n hlt)
  | s8 => exact congrArg Numeral.integer (hsigned 64 n hlt)
  | f4 => rfl
  | f8 => rfl

end Primitive

namespace Request

variable {c : Cursor}

/-- A request with enough bytes ahead takes them, and makes its reply of them. -/
theorem answer_of_enough (r : Request) (hc : c.InBounds) (hsize : 0 ≤ r.size)
    (h : r.size ≤ c.stop - c.pos) :
    r.answer c = ⟨.ok (r.reply c), c.goto (c.pos + r.size), []⟩ := by
  cases r with
  | number kind what? =>
    have hfits : c.pos + (kind.width : Int) ≤ c.stop := Int.add_le_of_le_sub_left h
    have hread : natural (what?.getD kind.label) kind.width c =
        ⟨.ok (bigEndian (c.peek kind.width)), c.goto (c.pos + kind.width), []⟩ := by
      rw [Decoder.natural, taking_of_enough hfits]
    have hnumber : kind.ofNatural (bigEndian (c.peek kind.width)) =
        kind.decode (c.ahead kind.width) := by
      rw [kind.ofNatural_bigEndian (Cursor.length_peek hc hfits), Cursor.peek_eq hc, Cursor.ahead]
    rw [answer, Primitive.read_eq, bind_assoc, bind_of_ok hread]
    show (⟨.ok (.number _), _, _⟩ : Outcome Reply) = _
    rw [hnumber]
    rfl
  | bytes size what? =>
    obtain ⟨n, rfl⟩ : ∃ n : Nat, size = n := Int.eq_ofNat_of_zero_le hsize
    have hfits : c.pos + (n : Int) ≤ c.stop := Int.add_le_of_le_sub_left h
    have hread : Decoder.bytes (what?.getD "bytes") n c =
        ⟨.ok (c.ahead n), c.goto (c.pos + n), []⟩ := by
      rw [Decoder.bytes, taking_of_enough hfits, Cursor.slice_eq_peek hc, Cursor.peek_eq hc]
      rfl
    exact bind_of_ok hread
  | skip size what? =>
    have hfits : c.pos + size ≤ c.stop := Int.add_le_of_le_sub_left h
    have hread : Decoder.skip (what?.getD "padding") size c =
        ⟨.ok (), c.goto (c.pos + size), []⟩ := by
      rw [Decoder.skip, taking_of_enough hfits]
    exact bind_of_ok hread
  | window size what? =>
    have hfits : c.pos + size ≤ c.stop := Int.add_le_of_le_sub_left h
    exact window_bind_of_enough hfits
  | describe =>
    have hstay : c.goto (c.pos + 0) = c := by rw [Int.add_zero, Cursor.goto_self]
    show (⟨.ok (.described c.describe), c, []⟩ : Outcome Reply) = ⟨_, c.goto (c.pos + 0), _⟩
    rw [hstay]
    rfl

/-- A request with too few bytes ahead names them and its place, and takes nothing. -/
theorem answer_of_short (r : Request) (hc : c.InBounds) (h : c.stop - c.pos < r.size) :
    r.answer c = ⟨.error (.truncated r.label r.size (c.stop - c.pos) c.pos), c, []⟩ := by
  have hleft : max c.remaining 0 = c.stop - c.pos := Int.max_eq_left (Int.sub_nonneg.mpr hc.2.1)
  rw [← hleft]
  cases r with
  | number kind what? =>
    have hshort : c.stop < c.pos + (kind.width : Int) := Int.lt_add_of_sub_left_lt h
    rw [answer, Primitive.read_eq, bind_assoc]
    apply bind_of_error
    rw [Decoder.natural, taking_of_short hshort]
    rfl
  | bytes size what? =>
    have hshort : c.stop < c.pos + size := Int.lt_add_of_sub_left_lt h
    apply bind_of_error
    rw [Decoder.bytes, taking_of_short hshort]
    rfl
  | skip size what? =>
    have hshort : c.stop < c.pos + size := Int.lt_add_of_sub_left_lt h
    apply bind_of_error
    rw [Decoder.skip, taking_of_short hshort]
    rfl
  | window size what? =>
    have hshort : c.stop < c.pos + size := Int.lt_add_of_sub_left_lt h
    exact window_bind_of_short hshort
  | describe =>
    have hbound : c.pos ≤ c.stop := hc.2.1
    have hshort : c.stop - c.pos < 0 := h
    omega

end Request

/-! ## §3. One turn. -/

/-- A request for the cursor with number `on`. -/
structure Turn where
  on : Nat
  request : Request
deriving DecidableEq, Repr

/-- What two cursors may still read has no byte in common. -/
def Cursor.Apart (a b : Cursor) : Prop := a.stop ≤ b.pos ∨ b.stop ≤ a.pos

theorem Cursor.Apart.symm {a b : Cursor} (h : a.Apart b) : b.Apart a := Or.symm h

/-- Part of what a cursor may read is apart from whatever the whole is apart from. -/
theorem Cursor.Apart.part {a a' b : Cursor} (h : a.Apart b) (hpos : a.pos ≤ a'.pos)
    (hstop : a'.stop ≤ a.stop) : a'.Apart b := by
  unfold Apart at h ⊢
  omega

namespace Session

variable {s : Session} {on k : Nat} {r : Request} {a b : Cursor} {data : Array UInt8}

/-- The session after `r` was granted on cursor `on`, which stood as `a`: the cursor has moved past
    its bytes, and a window stands behind the other cursors. -/
def granted (s : Session) (on : Nat) (a : Cursor) (r : Request) : Session :=
  ⟨s.cursors.setIfInBounds on (a.goto (a.pos + r.size)) ++ r.opens a⟩

theorem step_of_enough (ha : s.cursors[on]? = some a) (hin : a.InBounds) (hsize : 0 ≤ r.size)
    (h : r.size ≤ a.stop - a.pos) :
    s.step on r = (s.granted on a r, some (.ok (r.reply a), a.goto (a.pos + r.size))) := by
  unfold step granted
  rw [ha]
  dsimp only
  rw [r.answer_of_enough hin hsize h]
  cases r <;> simp [Request.reply, Request.opens]

theorem step_of_short (ha : s.cursors[on]? = some a) (hin : a.InBounds)
    (h : a.stop - a.pos < r.size) :
    s.step on r =
      (s, some (.error (.truncated r.label r.size (a.stop - a.pos) a.pos), a)) := by
  obtain ⟨hon, hget⟩ := Array.getElem?_eq_some_iff.mp ha
  have hsame : s.cursors.setIfInBounds on a = s.cursors := by
    subst hget
    simp [Array.setIfInBounds, hon]
  unfold step
  rw [ha]
  dsimp only
  rw [r.answer_of_short hin h, hsame]

theorem step_of_none (h : s.cursors[on]? = none) : s.step on r = (s, none) := by
  unfold step
  rw [h]

/-- The cursors of a session after a request was granted: the one that has moved, those that have
    not, and the window. -/
theorem granted_cases (h : (s.granted on a r).cursors[k]? = some b) :
    (k = on ∧ b = a.goto (a.pos + r.size)) ∨ (k ≠ on ∧ s.cursors[k]? = some b) ∨
      (k = s.cursors.size ∧ b = ⟨a.data, a.pos, a.pos + r.size⟩) := by
  unfold granted at h
  rw [Array.getElem?_append] at h
  simp only [Array.size_setIfInBounds, Array.getElem?_setIfInBounds] at h
  by_cases hk : k < s.cursors.size
  · rw [if_pos hk] at h
    by_cases hon : on = k
    · rw [if_pos hon, if_pos (hon ▸ hk)] at h
      exact .inl ⟨hon.symm, (Option.some.inj h).symm⟩
    · rw [if_neg hon] at h
      exact .inr (.inl ⟨fun hk => hon hk.symm, h⟩)
  · rw [if_neg hk] at h
    cases r with
    | window size what? =>
      obtain ⟨hlt, hget⟩ := Array.getElem?_eq_some_iff.mp h
      have hlt : k - s.cursors.size < 1 := hlt
      have hk : k = s.cursors.size := by omega
      subst hk
      simp only [Nat.sub_self] at hget
      exact .inr (.inr ⟨rfl, hget.symm⟩)
    | _ => simp [Request.opens] at h

theorem getElem?_granted_on (ha : s.cursors[on]? = some a) :
    (s.granted on a r).cursors[on]? = some (a.goto (a.pos + r.size)) := by
  obtain ⟨hon, -⟩ := Array.getElem?_eq_some_iff.mp ha
  unfold granted
  rw [Array.getElem?_append, if_pos (by simpa using hon)]
  simp [hon]

theorem getElem?_granted_ne (hne : k ≠ on) (hb : s.cursors[k]? = some b) :
    (s.granted on a r).cursors[k]? = some b := by
  obtain ⟨hk, -⟩ := Array.getElem?_eq_some_iff.mp hb
  unfold granted
  rw [Array.getElem?_append, if_pos (by simpa using hk)]
  simp [Ne.symm hne, hb]

/-! ## §4. What every turn keeps. -/

/-- All cursors stand inside the same data, and no two of them may still read the same byte. -/
structure Sound (data : Array UInt8) (s : Session) : Prop where
  inBounds : ∀ (k : Nat) (a : Cursor), s.cursors[k]? = some a → a.InBounds ∧ a.data = data
  apart : ∀ (k l : Nat) (a b : Cursor), k ≠ l → s.cursors[k]? = some a → s.cursors[l]? = some b →
    a.Apart b

/-- Every cursor of `s` is a cursor of `s'`, there or further on, and not behind its bound. -/
def Extends (s s' : Session) : Prop :=
  ∀ (k : Nat) (a : Cursor), s.cursors[k]? = some a →
    ∃ q, s'.cursors[k]? = some (a.goto q) ∧ a.pos ≤ q ∧ q ≤ a.stop

theorem Sound.extends_self (h : s.Sound data) : s.Extends s :=
  fun k a ha => ⟨a.pos, ha, Int.le_refl _, (h.inBounds k a ha).1.2.1⟩

theorem Extends.trans {s' s'' : Session} (h : s.Extends s') (h' : s'.Extends s'') :
    s.Extends s'' := by
  intro k a ha
  obtain ⟨q, hq, hle, -⟩ := h k a ha
  obtain ⟨q', hq', hle', hstop⟩ := h' k _ hq
  exact ⟨q', hq', Int.le_trans hle hle', hstop⟩

theorem Sound.start {c : Cursor} (hc : c.InBounds) : (start c).Sound c.data := by
  have honly : ∀ (k : Nat) (a : Cursor), (Session.start c).cursors[k]? = some a → k = 0 ∧ a = c := by
    intro k a ha
    obtain ⟨hk, hget⟩ := Array.getElem?_eq_some_iff.mp ha
    have hk : k = 0 := Nat.lt_one_iff.mp hk
    subst hk
    exact ⟨rfl, hget.symm⟩
  refine ⟨?_, ?_⟩
  · intro k a ha
    obtain ⟨-, rfl⟩ := honly k a ha
    exact ⟨hc, rfl⟩
  · intro k l a b hne ha hb
    exact absurd ((honly k a ha).1.trans (honly l b hb).1.symm) hne

/-- A request that is granted splits what its cursor may read: the cursor keeps what lies behind the
    bytes that are taken, and a window gets these. -/
theorem Sound.granted (hs : s.Sound data) (ha : s.cursors[on]? = some a) (hsize : 0 ≤ r.size)
    (h : r.size ≤ a.stop - a.pos) : (s.granted on a r).Sound data := by
  obtain ⟨hin, hdata⟩ := hs.inBounds on a ha
  refine ⟨?_, ?_⟩
  · intro k b hb
    obtain ⟨-, rfl⟩ | ⟨-, hb⟩ | ⟨-, rfl⟩ := granted_cases hb
    · exact ⟨hin.goto (by omega) (by omega), hdata⟩
    · exact hs.inBounds k b hb
    · exact ⟨hin.part hsize (by omega), hdata⟩
  -- Only the two parts of the split are new to each other.
  · have hsplit : Cursor.Apart (a.goto (a.pos + r.size)) ⟨a.data, a.pos, a.pos + r.size⟩ :=
      .inr (Int.le_refl _)
    have hmoved : ∀ (l : Nat) (b : Cursor), l ≠ on → s.cursors[l]? = some b →
        (a.goto (a.pos + r.size)).Apart b := fun l b hne hb =>
      (hs.apart on l a b hne.symm ha hb).part (Int.le_add_of_nonneg_right hsize) (Int.le_refl _)
    have hwindow : ∀ (l : Nat) (b : Cursor), l ≠ on → s.cursors[l]? = some b →
        Cursor.Apart ⟨a.data, a.pos, a.pos + r.size⟩ b := fun l b hne hb =>
      (hs.apart on l a b hne.symm ha hb).part (Int.le_refl _) (by simp only; omega)
    intro k l b b' hne hb hb'
    obtain ⟨hk, rfl⟩ | ⟨hk, hold⟩ | ⟨hk, rfl⟩ := granted_cases hb <;>
      obtain ⟨hl, rfl⟩ | ⟨hl, hold'⟩ | ⟨hl, rfl⟩ := granted_cases hb'
    · exact absurd (hk.trans hl.symm) hne
    · exact hmoved l b' hl hold'
    · exact hsplit
    · exact (hmoved k b hk hold).symm
    · exact hs.apart k l b b' hne hold hold'
    · exact (hwindow k b hk hold).symm
    · exact hsplit.symm
    · exact hwindow l b' hl hold'
    · exact absurd (hk.trans hl.symm) hne

theorem Sound.extends_granted (hs : s.Sound data) (ha : s.cursors[on]? = some a)
    (hsize : 0 ≤ r.size) (h : r.size ≤ a.stop - a.pos) : s.Extends (s.granted on a r) := by
  intro k b hb
  by_cases hk : k = on
  · subst hk
    obtain rfl : a = b := Option.some.inj (ha.symm.trans hb)
    exact ⟨a.pos + r.size, getElem?_granted_on ha, by omega, by omega⟩
  · exact ⟨b.pos, getElem?_granted_ne hk hb, Int.le_refl _, (hs.inBounds k b hb).1.2.1⟩

/-! ## §5. All turns. -/

variable {turns : List Turn} {i j : Nat}

/-- The session after a turn. -/
def next (s : Session) (t : Turn) : Session := (s.step t.on t.request).1

/-- The session before turn `i`. -/
def moment (s : Session) (turns : List Turn) (i : Nat) : Session := (turns.take i).foldl next s

theorem moment_succ {t : Turn} (h : turns[i]? = some t) :
    s.moment turns (i + 1) = (s.moment turns i).next t := by
  unfold moment
  rw [List.take_add_one, h, Option.toList_some, List.foldl_append, List.foldl_cons, List.foldl_nil]

theorem moment_succ_of_none (h : turns[i]? = none) : s.moment turns (i + 1) = s.moment turns i := by
  unfold moment
  rw [List.take_add_one, h, Option.toList_none, List.append_nil]

/-- A turn changes nothing, or grants its request. -/
theorem Sound.next_cases (hs : s.Sound data) {t : Turn} (hsize : 0 ≤ t.request.size) :
    s.next t = s ∨ ∃ a, s.cursors[t.on]? = some a ∧ t.request.size ≤ a.stop - a.pos ∧
      s.next t = s.granted t.on a t.request := by
  unfold next
  rcases ha : s.cursors[t.on]? with _ | a
  · exact .inl (by rw [step_of_none ha])
  · obtain ⟨hin, -⟩ := hs.inBounds t.on a ha
    by_cases h : t.request.size ≤ a.stop - a.pos
    · exact .inr ⟨a, rfl, h, by rw [step_of_enough ha hin hsize h]⟩
    · exact .inl (by rw [step_of_short ha hin (by omega)])

theorem Sound.next (hs : s.Sound data) {t : Turn} (hsize : 0 ≤ t.request.size) :
    (s.next t).Sound data ∧ s.Extends (s.next t) := by
  obtain hsame | ⟨a, ha, h, hnext⟩ := hs.next_cases hsize
  · rw [hsame]
    exact ⟨hs, hs.extends_self⟩
  · rw [hnext]
    exact ⟨hs.granted ha hsize h, hs.extends_granted ha hsize h⟩

/-- At every moment the session is sound, and it extends to the next one: by induction on the turns
    that were taken. -/
theorem Sound.moment (hs : s.Sound data) (hsizes : ∀ t ∈ turns, 0 ≤ t.request.size) (i : Nat) :
    (s.moment turns i).Sound data := by
  induction i with
  | zero => exact hs
  | succ i ih =>
    rcases hturn : turns[i]? with _ | t
    · rw [moment_succ_of_none hturn]
      exact ih
    · rw [moment_succ hturn]
      exact (ih.next (hsizes t (List.mem_of_getElem? hturn))).1

theorem Sound.moment_extends (hs : s.Sound data) (hsizes : ∀ t ∈ turns, 0 ≤ t.request.size)
    (h : i ≤ j) : (s.moment turns i).Extends (s.moment turns j) := by
  induction h with
  | refl => exact (hs.moment hsizes i).extends_self
  | @step j _ ih =>
    rcases hturn : turns[j]? with _ | t
    · rw [moment_succ_of_none hturn]
      exact ih
    · rw [moment_succ hturn]
      exact ih.trans ((hs.moment hsizes j).next (hsizes t (List.mem_of_getElem? hturn))).2

/-- Turn `i` is the request `r` for cursor `on`, which stands as `a` then. -/
structure Asks (s : Session) (turns : List Turn) (i on : Nat) (r : Request) (a : Cursor) : Prop where
  turn : turns[i]? = some ⟨on, r⟩
  cursor : (s.moment turns i).cursors[on]? = some a

/-- What holds of a session that starts from the cursor `c` alone. -/
structure Isolated (c : Cursor) (turns : List Turn) : Prop where
  /-- A cursor that was opened is there at all later moments.  It stands between the place where it
      was opened, or stood at any moment since, and its bound; this does not change, and lies inside
      the data. -/
  confined : ∀ (i j k : Nat) (a : Cursor), i ≤ j →
    ((start c).moment turns i).cursors[k]? = some a →
    ∃ q, ((start c).moment turns j).cursors[k]? = some (a.goto q) ∧ a.data = c.data ∧
      0 ≤ a.pos ∧ a.pos ≤ q ∧ q ≤ a.stop ∧ a.stop ≤ c.data.size
  /-- With the bytes that it asks for before the bound, a request takes just these: its reply is made
      of them, its cursor moves past them, and a window is opened over them. -/
  granted : ∀ (i on : Nat) (r : Request) (a : Cursor), (start c).Asks turns i on r a →
    r.size ≤ a.stop - a.pos →
    (((start c).moment turns i).step on r).2 =
      some (.ok (r.reply a), a.goto (a.pos + r.size)) ∧
    ((start c).moment turns (i + 1)).cursors =
      ((start c).moment turns i).cursors.setIfInBounds on (a.goto (a.pos + r.size)) ++ r.opens a
  /-- Without them it fails for lack of bytes at the place of its cursor, and changes nothing. -/
  refused : ∀ (i on : Nat) (r : Request) (a : Cursor), (start c).Asks turns i on r a →
    a.stop - a.pos < r.size →
    (((start c).moment turns i).step on r).2 =
      some (.error (.truncated r.label r.size (a.stop - a.pos) a.pos), a) ∧
    (start c).moment turns (i + 1) = (start c).moment turns i
  /-- A turn changes no cursor but its own. -/
  others : ∀ (i on k : Nat) (r : Request) (b : Cursor), turns[i]? = some ⟨on, r⟩ → k ≠ on →
    ((start c).moment turns i).cursors[k]? = some b →
    ((start c).moment turns (i + 1)).cursors[k]? = some b
  /-- What is taken from one cursor, by reads or for windows, is taken from left to right, so no two
      of its windows and reads have a byte in common. -/
  disjoint : ∀ (i j on : Nat) (r r' : Request) (a b : Cursor), i < j →
    (start c).Asks turns i on r a → r.size ≤ a.stop - a.pos →
    (start c).Asks turns j on r' b → a.pos + r.size ≤ b.pos
  /-- At no moment may two cursors still read the same byte. -/
  apart : ∀ (i k l : Nat) (a b : Cursor), k ≠ l → ((start c).moment turns i).cursors[k]? = some a →
    ((start c).moment turns i).cursors[l]? = some b → a.Apart b

theorem Sound.step_of_asks {s₀ : Session} (hs : s₀.Sound data)
    (hsizes : ∀ t ∈ turns, 0 ≤ t.request.size) (h : s₀.Asks turns i on r a)
    (henough : r.size ≤ a.stop - a.pos) :
    (s₀.moment turns i).step on r = ((s₀.moment turns i).granted on a r,
      some (.ok (r.reply a), a.goto (a.pos + r.size))) :=
  step_of_enough h.cursor ((hs.moment hsizes i).inBounds on a h.cursor).1
    (hsizes ⟨on, r⟩ (List.mem_of_getElem? h.turn)) henough

/-- **Cursors and their windows are isolated.**  Take any session from one cursor inside its data,
    with requests for any number of bytes that is not negative, for this cursor and for the windows
    that are opened on the way, in any order. -/
theorem run_isolated (data : Array UInt8) (pos : Int) (stop? : Option Int) (turns : List Turn)
    (hpos : 0 ≤ pos) (hstop : pos ≤ (Cursor.bounded data pos stop?).stop)
    (hsizes : ∀ t ∈ turns, 0 ≤ t.request.size) :
    Isolated (Cursor.bounded data pos stop?) turns := by
  have hc : (Cursor.bounded data pos stop?).InBounds := by
    refine ⟨hpos, hstop, ?_⟩
    cases stop? with
    | none => exact Int.le_refl _
    | some stop => exact Int.min_le_right _ _
  generalize Cursor.bounded data pos stop? = c at hc
  have hs : (start c).Sound c.data := .start hc
  constructor
  case confined =>
    intro i j k a hij ha
    obtain ⟨hin, hdata⟩ := (hs.moment hsizes i).inBounds k a ha
    obtain ⟨q, hq, hle, hstop⟩ := hs.moment_extends hsizes hij k a ha
    exact ⟨q, hq, hdata, hin.1, hle, hstop, hdata ▸ hin.2.2⟩
  case granted =>
    intro i on r a h henough
    have hstep := hs.step_of_asks hsizes h henough
    rw [moment_succ h.turn, next, hstep]
    exact ⟨rfl, rfl⟩
  case refused =>
    intro i on r a h hshort
    have hstep := step_of_short h.cursor ((hs.moment hsizes i).inBounds on a h.cursor).1 hshort
    rw [moment_succ h.turn, next, hstep]
    exact ⟨rfl, rfl⟩
  case others =>
    intro i on k r b hturn hne hb
    rw [moment_succ hturn]
    obtain hsame | ⟨a, -, -, hnext⟩ :=
      (hs.moment hsizes i).next_cases (hsizes ⟨on, r⟩ (List.mem_of_getElem? hturn))
    · rw [hsame]
      exact hb
    · rw [hnext]
      exact getElem?_granted_ne hne hb
  case disjoint =>
    intro i j on r r' a b hij h henough h'
    -- Behind turn `i` the cursor stands behind its bytes, and it does not go back.
    have hmoved : ((start c).moment turns (i + 1)).cursors[on]? =
        some (a.goto (a.pos + r.size)) := by
      rw [moment_succ h.turn, next, hs.step_of_asks hsizes h henough]
      exact getElem?_granted_on h.cursor
    obtain ⟨q, hq, hle, -⟩ := hs.moment_extends hsizes hij on _ hmoved
    obtain rfl : a.goto q = b := Option.some.inj (hq.symm.trans h'.cursor)
    exact hle
  case apart =>
    intro i k l a b hne ha hb
    exact (hs.moment hsizes i).apart k l a b hne ha hb

/-- Two bytes go to a window, which lacks one for its second request; the next request takes the two
    bytes behind the window. -/
theorem run_isolated_interleaved :
    let c := Cursor.bounded #[1, 2, 3, 4] 0 none
    let turns : List Turn :=
      [⟨0, .window 2 none⟩, ⟨1, .number .u1 none⟩, ⟨1, .number .u2 none⟩, ⟨0, .bytes 2 none⟩]
    (0 ≤ c.stop ∧ ∀ t ∈ turns, 0 ≤ t.request.size) ∧
    (((start c).moment turns 2).step 1 (.number .u2 none)).2 =
      some (.error (.truncated "u2" 2 1 1), ⟨#[1, 2, 3, 4], 1, 2⟩) ∧
    (((start c).moment turns 3).step 0 (.bytes 2 none)).2 =
      some (.ok (.bytes [3, 4]), ⟨#[1, 2, 3, 4], 4, 4⟩) := by
  intro c turns
  have hstop : 0 ≤ c.stop := by decide
  have hsizes : ∀ t ∈ turns, 0 ≤ t.request.size := by decide
  have hrun := run_isolated #[1, 2, 3, 4] 0 none turns (by decide) hstop hsizes
  exact ⟨⟨hstop, hsizes⟩, (hrun.refused 2 1 _ _ ⟨rfl, rfl⟩ (by decide)).1,
    (hrun.granted 3 0 _ _ ⟨rfl, rfl⟩ (by decide)).1⟩

end Session

end JavaClass
