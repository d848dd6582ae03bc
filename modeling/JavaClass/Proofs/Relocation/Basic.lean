/-
  JavaClass.Proofs.Relocation.Basic — what a decoder needs of its cursor, and nothing else.

  Two facts about a decoder are stated once, and every later result about runs of decoders is read
  off them.

    * `Orderly`: the cursor moves forward only and stays in bounds, and a fault blames a place
      between the start and where the cursor was left.
    * `Relocates`: the outcome depends on the bytes that were passed over and on nothing else.  A
      second cursor that shows these bytes, `p` further on, gives the same outcome with all
      positions moved by `p`.  The bound matters only to a run that it cuts short.

  `RelocatesWithin` is the second fact for decoders that look at their bound even when they succeed:
  both cursors then have to show the same bytes up to the bound.

  All three are closed under sequencing, repetition and recursion.  A decoder given by an equation is
  unrolled as often as there are bytes left, and two cursors with different bounds unroll it a
  different number of times; a `Setting` bounds the bytes that are left on the two sides, so that
  recursion can be followed down on both at once.
-/
import JavaClass.Proofs.Byte.Run

namespace JavaClass

/-! ## §1. Positions moved. -/

/-- A fault `p` bytes further on. -/
def Fault.shift (p : Int) : Fault → Fault
  | .truncated what size left offset => .truncated what size left (offset + p)
  | .malformed cause offset => .malformed cause (offset + p)
  | .tooLarge => .tooLarge

/-- A notice `p` bytes further on. -/
def Notice.shift (p : Int) : Notice → Notice
  | .unresolvable slot => .unresolvable slot
  | .codeTruncated decoded fault => .codeTruncated decoded (fault.shift p)
  | .unnamedAttribute start nameIndex => .unnamedAttribute (start + p) nameIndex
  | .unknownAttribute name start => .unknownAttribute name (start + p)
  | .unreadPayload name start unread declared => .unreadPayload name (start + p) unread declared
  | .trailingBytes count position => .trailingBytes count (position + p)

/-- A place `p` bytes further on. -/
def Span.shift (p : Int) (s : Span) : Span := ⟨s.start + p, s.length⟩

/-- A value with its place, `p` bytes further on; `f` moves what the value itself holds. -/
def Located.shift {α β : Type} (p : Int) (f : α → β) (x : Located α) : Located β :=
  ⟨x.span.shift p, f x.value⟩

@[simp] theorem Fault.shift_zero (fault : Fault) : fault.shift 0 = fault := by
  cases fault <;> simp [Fault.shift]

@[simp] theorem Notice.shift_zero (n : Notice) : n.shift 0 = n := by
  cases n <;> simp [Notice.shift]

@[simp] theorem Span.shift_zero (s : Span) : s.shift 0 = s := by
  simp [Span.shift]

theorem Located.map_shift_zero {α : Type} {f : α → α} (h : ∀ a, f a = a)
    (rows : List (Located α)) : rows.map (Located.shift 0 f) = rows := by
  induction rows with
  | nil => rfl
  | cons row rest ih => rw [List.map_cons, ih, Located.shift, Span.shift_zero, h]

@[simp] theorem Located.map_shift_zero_id {α : Type} (rows : List (Located α)) :
    rows.map (Located.shift 0 id) = rows :=
  Located.map_shift_zero (fun _ => rfl) rows

/-- A fault that blames a place from `lo` to `hi`: for a lack of bytes the last one. -/
def Fault.Within (lo hi : Int) : Fault → Prop
  | .truncated _ _ _ offset => lo ≤ offset ∧ offset = hi
  | .malformed _ offset => lo ≤ offset ∧ offset ≤ hi
  | .tooLarge => False

theorem Fault.Within.mono {lo lo' hi : Int} {fault : Fault} (h : fault.Within lo hi)
    (hlo : lo' ≤ lo) : fault.Within lo' hi := by
  cases fault with
  | truncated what size left offset => exact ⟨Int.le_trans hlo h.1, h.2⟩
  | malformed cause offset => exact ⟨Int.le_trans hlo h.1, h.2⟩
  | tooLarge => exact h

namespace Outcome

variable {α β : Type}

/-- The run was cut short by the bound. -/
def Starved (o : Outcome α) : Prop :=
  ∃ what size left offset, o.result = .error (.truncated what size left offset)

theorem not_starved_ok {a : α} {c : Cursor} {notices : List Notice} :
    ¬ (⟨.ok a, c, notices⟩ : Outcome α).Starved := by
  rintro ⟨_, _, _, _, h⟩
  cases h

/-- The outcome of the same run from `c`, `p` bytes further on, with values changed by `f`. -/
def moved (p : Int) (f : α → β) (c : Cursor) (o : Outcome α) : Outcome β where
  result := match o.result with
    | .ok a => .ok (f a)
    | .error fault => .error (fault.shift p)
  cursor := c.goto (o.cursor.pos + p)
  notices := o.notices.map (Notice.shift p)

@[simp] theorem moved_ok (p : Int) (f : α → β) (c c₁ : Cursor) (a : α) (notices : List Notice) :
    (⟨.ok a, c₁, notices⟩ : Outcome α).moved p f c =
      ⟨.ok (f a), c.goto (c₁.pos + p), notices.map (Notice.shift p)⟩ := rfl

@[simp] theorem moved_error (p : Int) (f : α → β) (c c₁ : Cursor) (fault : Fault)
    (notices : List Notice) :
    (⟨.error fault, c₁, notices⟩ : Outcome α).moved p f c =
      ⟨.error (fault.shift p), c.goto (c₁.pos + p), notices.map (Notice.shift p)⟩ := rfl

theorem moved_zero {f : α → α} (hf : ∀ a, f a = a) (c : Cursor) (o : Outcome α) :
    o.moved 0 f c = ⟨o.result, c.goto o.cursor.pos, o.notices⟩ := by
  have hnotices : o.notices.map (Notice.shift 0) = o.notices := by
    rw [List.map_congr_left fun n _ => Notice.shift_zero n, List.map_id']
  rcases o with ⟨fault | a, c₁, notices⟩
  · simp only [moved_error, Fault.shift_zero, hnotices, Int.add_zero]
  · simp only [moved_ok, hf, hnotices, Int.add_zero]

theorem moved_behind (p : Int) (f : α → β) (c : Cursor) (before : List Notice) (o : Outcome α) :
    (o.behind before).moved p f c = (o.moved p f c).behind (before.map (Notice.shift p)) := by
  simp [moved, behind]

end Outcome

namespace Decoder

variable {α β α' β' : Type}

/-! ## §2. The three properties. -/

/-- From a cursor in bounds, at `lo` or behind it, `d` only moves forward, stays in bounds, and
    blames a place from `lo` on. -/
def Orderly (lo : Int) (d : Decoder α) : Prop :=
  ∀ c : Cursor, c.InBounds → lo ≤ c.pos →
    ∃ q, (d c).cursor = c.goto q ∧ c.pos ≤ q ∧ q ≤ c.stop ∧
      ∀ fault, (d c).result = .error fault → fault.Within lo q

/-- How two runs are set side by side: the second stands `shift` bytes behind the first, and fewer
    than `left` and `right` bytes are before their bounds. -/
structure Setting where
  shift : Int
  left : Nat
  right : Nat

/-- `n` bytes more on both sides. -/
def Setting.more (S : Setting) (n : Nat) : Setting := ⟨S.shift, S.left + n, S.right + n⟩

/-- Two cursors in bounds. -/
structure Paired (S : Setting) (c₁ c₂ : Cursor) : Prop where
  left : c₁.InBounds
  right : c₂.InBounds
  leftLess : c₁.remaining < S.left
  rightLess : c₂.remaining < S.right

/-- `c₂` shows what a run from `c₁` with outcome `o` depends on: the bytes that it passes over, and
    the bound if that cut it short. -/
structure Shows (S : Setting) (c₁ c₂ : Cursor) (o : Outcome α) : Prop where
  pos : c₂.pos = c₁.pos + S.shift
  bytes : ∀ i, c₁.pos ≤ i → i < o.cursor.pos → c₂.byte? (i + S.shift) = c₁.byte? i
  room : o.cursor.pos + S.shift ≤ c₂.stop
  bound : o.Starved → c₂.stop = c₁.stop + S.shift

/-- Two cursors that show the same bytes up to their bounds. -/
structure Twins (S : Setting) (c₁ c₂ : Cursor) : Prop extends Paired S c₁ c₂ where
  pos : c₂.pos = c₁.pos + S.shift
  stop : c₂.stop = c₁.stop + S.shift
  bytes : ∀ i, c₁.pos ≤ i → i < c₁.stop → c₂.byte? (i + S.shift) = c₁.byte? i

/-- `d` is orderly, and `e` does the same on every cursor that shows what `d` depends on. -/
structure Relocates (lo : Int) (S : Setting) (f : α → β) (d : Decoder α) (e : Decoder β) :
    Prop where
  orderly : d.Orderly lo
  moves : ∀ c₁ c₂, Paired S c₁ c₂ → lo ≤ c₁.pos → Shows S c₁ c₂ (d c₁) →
    e c₂ = (d c₁).moved S.shift f c₂

/-- `d` is orderly, and `e` does the same on every cursor with the same bytes up to the bound. -/
structure RelocatesWithin (lo : Int) (S : Setting) (f : α → β) (d : Decoder α) (e : Decoder β) :
    Prop where
  orderly : d.Orderly lo
  moves : ∀ c₁ c₂, Twins S c₁ c₂ → lo ≤ c₁.pos → e c₂ = (d c₁).moved S.shift f c₂

/-! ## §3. Sequencing. -/

variable {lo : Int} {S : Setting} {f : α → α'} {g : β → β'}

theorem Orderly.bind {d : Decoder α} {next : α → Decoder β} (hd : d.Orderly lo)
    (hn : ∀ a, (next a).Orderly lo) : (d >>= next).Orderly lo := by
  intro c hc hlo
  obtain ⟨q, hq, hle, hstop, hfault⟩ := hd c hc hlo
  rcases hrun : d c with ⟨fault | a, c₁, notices⟩ <;> rw [hrun] at hq hfault <;>
    simp only at hq hfault <;> subst hq
  · rw [bind_of_error hrun]
    exact ⟨q, rfl, hle, hstop, fun fault' h => hfault fault' (by cases h; rfl)⟩
  · rw [bind_of_ok hrun]
    obtain ⟨q', hq', hle', hstop', hfault'⟩ :=
      hn a (c.goto q) (hc.goto hle hstop) (Int.le_trans hlo hle)
    exact ⟨q', hq', Int.le_trans hle hle', hstop', hfault'⟩

/-- A pair that moves on by `n` bytes or more has so many bytes less. -/
theorem Paired.goto {n : Nat} {c₁ c₂ : Cursor} (h : Paired (S.more n) c₁ c₂) {q r : Int}
    (hq : c₁.pos + n ≤ q) (hq' : q ≤ c₁.stop) (hr : c₂.pos + n ≤ r) (hr' : r ≤ c₂.stop) :
    Paired S (c₁.goto q) (c₂.goto r) := by
  have hleft : c₁.stop - c₁.pos < (S.left + n : Nat) := h.leftLess
  have hright : c₂.stop - c₂.pos < (S.right + n : Nat) := h.rightLess
  refine ⟨h.left.goto (by omega) hq', h.right.goto (by omega) hr', ?_, ?_⟩
  · show c₁.stop - q < S.left
    omega
  · show c₂.stop - r < S.right
    omega

/-- What a sequence depends on, its first part depends on. -/
theorem Shows.first {d : Decoder α} {next : α → Decoder β} {c₁ c₂ : Cursor} {a : α} {q : Int}
    {notices : List Notice} (hd : d c₁ = ⟨.ok a, c₁.goto q, notices⟩)
    (hq : q ≤ (next a (c₁.goto q)).cursor.pos) (h : Shows S c₁ c₂ ((d >>= next) c₁)) :
    Shows S c₁ c₂ (d c₁) := by
  rw [bind_of_ok hd] at h
  rw [hd]
  refine ⟨h.pos, fun i hi hiq => h.bytes i hi (Int.lt_of_lt_of_le hiq hq), ?_, ?_⟩
  · have hroom : (next a (c₁.goto q)).cursor.pos + S.shift ≤ c₂.stop := h.room
    show q + S.shift ≤ c₂.stop
    omega
  -- A part that gives a value does not lack bytes, and the bound is no matter to it.
  · rintro ⟨_, _, _, _, hbad⟩
    cases hbad

/-- What a sequence depends on, its second part depends on. -/
theorem Shows.second {T : Setting} {d : Decoder α} {next : α → Decoder β} {c₁ c₂ : Cursor} {a : α}
    {q : Int} {notices : List Notice} (hT : T.shift = S.shift)
    (hd : d c₁ = ⟨.ok a, c₁.goto q, notices⟩) (hq : c₁.pos ≤ q)
    (h : Shows S c₁ c₂ ((d >>= next) c₁)) :
    Shows T (c₁.goto q) (c₂.goto (q + T.shift)) (next a (c₁.goto q)) := by
  rw [bind_of_ok hd] at h
  refine ⟨rfl, ?_, ?_, ?_⟩ <;> rw [hT]
  · exact fun i hi hiq => h.bytes i (Int.le_trans hq hi) hiq
  · exact h.room
  · exact h.bound

/-- Sequencing, where the first part passes over at least `n` bytes: the second part is compared
    with so many bytes less on both sides. -/
theorem Relocates.bind_passing (n : Nat) {d : Decoder α} {d' : Decoder α'} {next : α → Decoder β}
    {next' : α' → Decoder β'} (hd : Relocates lo (S.more n) f d d')
    (hpass : ∀ c a, c.InBounds → lo ≤ c.pos → (d c).result = .ok a →
      c.pos + n ≤ (d c).cursor.pos)
    (hn : ∀ a, Relocates lo S g (next a) (next' (f a))) :
    Relocates lo (S.more n) g (d >>= next) (d' >>= next') := by
  refine ⟨hd.orderly.bind fun a => (hn a).orderly, ?_⟩
  intro c₁ c₂ hpair hlo hshow
  obtain ⟨q, hq, hle, hstop, -⟩ := hd.orderly c₁ hpair.left hlo
  have hfar := hpass c₁
  rcases hrun : d c₁ with ⟨fault | a, c, notices⟩ <;> rw [hrun] at hq hfar <;>
    simp only at hq hfar <;> subst hq
  -- The first part fails, and the second run fails with it.
  · have hsame : (d >>= next) c₁ = ⟨.error fault, c₁.goto q, notices⟩ := bind_of_error hrun
    have hfirst : Shows (S.more n) c₁ c₂ (d c₁) := by
      rw [hsame] at hshow
      rw [hrun]
      refine ⟨hshow.pos, hshow.bytes, hshow.room, ?_⟩
      rintro ⟨what, size, left, offset, h⟩
      cases h
      exact hshow.bound ⟨what, size, left, offset, rfl⟩
    have hrun' := hd.moves c₁ c₂ hpair hlo hfirst
    rw [hrun, Outcome.moved_error] at hrun'
    rw [hsame, bind_of_error hrun', Outcome.moved_error]
  -- The second part starts where the first one ended, on both sides.
  · have hfar : c₁.pos + n ≤ q := hfar a hpair.left hlo rfl
    obtain ⟨q', hq', hle', -, -⟩ :=
      (hn a).orderly (c₁.goto q) (hpair.left.goto hle hstop) (Int.le_trans hlo hle)
    have hend : q ≤ (next a (c₁.goto q)).cursor.pos := by
      rw [hq']
      exact hle'
    have hfirst := hshow.first hrun hend
    have hsecond := hshow.second (show S.shift = (S.more n).shift from rfl) hrun hle
    have hrun' := hd.moves c₁ c₂ hpair hlo hfirst
    have hroom : q + S.shift ≤ c₂.stop := by
      have := hfirst.room
      rw [hrun] at this
      exact this
    have hpos : c₂.pos = c₁.pos + S.shift := hshow.pos
    have hnext := (hn a).moves (c₁.goto q) (c₂.goto (q + S.shift))
      (hpair.goto hfar hstop (by omega) hroom) (Int.le_trans hlo hle) hsecond
    rw [hrun, Outcome.moved_ok] at hrun'
    rw [bind_of_ok hrun, bind_of_ok hrun', Outcome.moved_behind]
    exact congrArg _ hnext

theorem Relocates.bind {d : Decoder α} {d' : Decoder α'} {next : α → Decoder β}
    {next' : α' → Decoder β'} (hd : Relocates lo S f d d')
    (hn : ∀ a, Relocates lo S g (next a) (next' (f a))) :
    Relocates lo S g (d >>= next) (d' >>= next') := by
  refine Relocates.bind_passing 0 hd ?_ hn
  intro c a hc hlo _
  obtain ⟨q, hq, hle, -⟩ := hd.orderly c hc hlo
  rw [hq]
  show c.pos + ((0 : Nat) : Int) ≤ q
  omega

/-! ## §4. Reads. -/

theorem Orderly.taking {what : String} {n : Int} {v : Cursor → α} (hn : 0 ≤ n) :
    (taking what n v).Orderly lo := by
  intro c hc hlo
  by_cases h : c.stop < c.pos + n
  · rw [taking_of_short h]
    refine ⟨c.pos, rfl, Int.le_refl _, hc.2.1, ?_⟩
    intro fault hfault
    cases hfault
    exact ⟨hlo, rfl⟩
  · rw [taking_of_enough (by omega)]
    refine ⟨c.pos + n, rfl, by omega, by omega, ?_⟩
    intro fault hfault
    cases hfault

/-- The same bytes are lacking further on. -/
theorem shortage_shift {what : String} {n p : Int} {c₁ c₂ : Cursor} (hpos : c₂.pos = c₁.pos + p)
    (hstop : c₂.stop = c₁.stop + p) : shortage c₂ what n = (shortage c₁ what n).shift p := by
  have hleft : c₂.remaining = c₁.remaining := by
    simp only [Cursor.remaining]
    omega
  simp only [shortage, Fault.shift, hleft, hpos]

/-- A read relocates if what it makes of the cursor depends on the `n` next bytes only. -/
theorem Relocates.taking {what : String} {n : Int} {v : Cursor → α} {v' : Cursor → α'}
    (hn : 0 ≤ n)
    (hv : ∀ c₁ c₂ : Cursor, c₁.InBounds → c₂.InBounds → c₂.pos = c₁.pos + S.shift →
      (∀ i, c₁.pos ≤ i → i < c₁.pos + n → c₂.byte? (i + S.shift) = c₁.byte? i) →
      v' c₂ = f (v c₁)) :
    Relocates lo S f (taking what n v) (taking what n v') := by
  refine ⟨Orderly.taking hn, ?_⟩
  intro c₁ c₂ hpair hlo hshow
  have hpos := hshow.pos
  by_cases h : c₁.stop < c₁.pos + n
  -- Too few bytes for the first run: the second has the same bound, and too few as well.
  · rw [taking_of_short h] at hshow ⊢
    have hstop : c₂.stop = c₁.stop + S.shift := hshow.bound ⟨_, _, _, _, rfl⟩
    rw [taking_of_short (by omega), Outcome.moved_error, ← hpos, shortage_shift hpos hstop]
    rfl
  · have henough : c₁.pos + n ≤ c₁.stop := by omega
    rw [taking_of_enough henough] at hshow ⊢
    have hroom : c₁.pos + n + S.shift ≤ c₂.stop := hshow.room
    have hvalue : v' c₂ = f (v c₁) := hv c₁ c₂ hpair.left hpair.right hpos hshow.bytes
    rw [taking_of_enough (by omega), hvalue, Outcome.moved_ok]
    simp only [List.map_nil, Outcome.mk.injEq, true_and, and_true]
    show c₂.goto (c₂.pos + n) = c₂.goto (c₁.pos + n + S.shift)
    congr 1
    omega

theorem Relocates.natural (what : String) (width : Nat) :
    Relocates lo S id (natural what width) (natural what width) := by
  rw [Decoder.natural]
  refine Relocates.taking (by omega) ?_
  intro c₁ c₂ h₁ h₂ hpos hbytes
  show bigEndian (c₂.peek width) = bigEndian (c₁.peek width)
  rw [Cursor.peek_congr h₁ h₂ width hpos hbytes]

theorem Relocates.bytes (what : String) (n : Nat) :
    Relocates lo S id (bytes what n) (bytes what n) := by
  rw [Decoder.bytes]
  refine Relocates.taking (by omega) ?_
  intro c₁ c₂ h₁ h₂ hpos hbytes
  show c₂.slice n = c₁.slice n
  rw [Cursor.slice_eq_peek h₁, Cursor.slice_eq_peek h₂, Cursor.peek_congr h₁ h₂ n hpos hbytes]

theorem Relocates.skip (what : String) {n : Int} (hn : 0 ≤ n) :
    Relocates lo S id (skip what n) (skip what n) := by
  rw [Decoder.skip]
  exact Relocates.taking hn fun _ _ _ _ _ _ => rfl

/-- Decoders that read nothing relocate as their values do. -/
theorem Relocates.still {d : Decoder α} {d' : Decoder α'} {v : Cursor → α} {v' : Cursor → α'}
    {notices : List Notice} (hd : ∀ c, d c = ⟨.ok (v c), c, notices⟩)
    (hd' : ∀ c, d' c = ⟨.ok (v' c), c, notices.map (Notice.shift S.shift)⟩)
    (hv : ∀ c₁ c₂ : Cursor, c₂.pos = c₁.pos + S.shift → v' c₂ = f (v c₁)) :
    Relocates lo S f d d' := by
  refine ⟨?_, ?_⟩
  · intro c hc _
    rw [hd]
    refine ⟨c.pos, rfl, Int.le_refl _, hc.2.1, ?_⟩
    intro fault hfault
    cases hfault
  · intro c₁ c₂ _ _ hshow
    have hpos := hshow.pos
    rw [hd, hd', hv c₁ c₂ hpos, Outcome.moved_ok, ← hpos, Cursor.goto_self]

theorem Relocates.pure {a : α} {b : α'} (h : b = f a) :
    Relocates lo S f (pure a : Decoder α) (pure b : Decoder α') := by
  subst h
  exact Relocates.still (fun _ => rfl) (fun _ => rfl) fun _ _ _ => rfl

theorem Relocates.position : Relocates lo S (· + S.shift) position position :=
  Relocates.still (fun _ => rfl) (fun _ => rfl) fun _ _ hpos => hpos

theorem Relocates.spanFrom (start : Int) :
    Relocates lo S (Span.shift S.shift) (spanFrom start) (spanFrom (start + S.shift)) := by
  refine Relocates.still (fun _ => rfl) (fun _ => rfl) ?_
  intro c₁ c₂ hpos
  simp only [Span.shift, hpos, Span.mk.injEq, true_and]
  omega

theorem Relocates.notice (n : Notice) :
    Relocates lo S id (notice n) (notice (n.shift S.shift)) :=
  Relocates.still (fun _ => rfl) (fun _ => rfl) fun _ _ _ => rfl

/-- A value is rejected where it starts. -/
theorem Relocates.reject (cause : Malformation) :
    Relocates lo S f (reject cause lo) (reject cause (lo + S.shift)) := by
  refine ⟨?_, ?_⟩
  · intro c hc hlo
    refine ⟨c.pos, rfl, Int.le_refl _, hc.2.1, ?_⟩
    intro fault hfault
    cases hfault
    exact ⟨Int.le_refl _, hlo⟩
  · intro c₁ c₂ _ _ hshow
    have hpos : c₂.pos = c₁.pos + S.shift := hshow.pos
    show (⟨.error _, c₂, []⟩ : Outcome α') = ⟨.error _, c₂.goto (c₁.pos + S.shift), []⟩
    rw [← hpos]
    rfl

/-- Behind a note of the position, faults may blame that position. -/
theorem Relocates.position_bind {next next' : Int → Decoder α} {f : α → α}
    (h : ∀ start, Relocates start S f (next start) (next' (start + S.shift))) :
    Relocates lo S f (Decoder.position >>= next) (Decoder.position >>= next') := by
  refine ⟨?_, ?_⟩
  · intro c hc hlo
    obtain ⟨q, hq, hle, hstop, hfault⟩ := (h c.pos).orderly c hc (Int.le_refl _)
    exact ⟨q, hq, hle, hstop, fun fault hf => (hfault fault hf).mono hlo⟩
  · intro c₁ c₂ hpair hlo hshow
    have hpos : c₂.pos = c₁.pos + S.shift := hshow.pos
    have hnext := (h c₁.pos).moves c₁ c₂ hpair (Int.le_refl _)
      ⟨hpos, hshow.bytes, hshow.room, hshow.bound⟩
    show (next' c₂.pos c₂).behind [] = ((next c₁.pos c₁).behind []).moved S.shift f c₂
    rw [Outcome.behind_nil, Outcome.behind_nil, hpos]
    exact hnext

/-! ## §5. Numbers. -/

theorem Relocates.u1 (what : String) : Relocates lo S id (u1 what) (u1 what) :=
  .bind (.natural what 1) fun _ => .pure rfl

theorem Relocates.u2 (what : String) : Relocates lo S id (u2 what) (u2 what) :=
  .bind (.natural what 2) fun _ => .pure rfl

theorem Relocates.u4 (what : String) : Relocates lo S id (u4 what) (u4 what) :=
  .bind (.natural what 4) fun _ => .pure rfl

theorem Relocates.u8 (what : String) : Relocates lo S id (u8 what) (u8 what) :=
  .bind (.natural what 8) fun _ => .pure rfl

theorem Relocates.s1 (what : String) : Relocates lo S id (s1 what) (s1 what) :=
  .bind (.u1 what) fun _ => .pure rfl

theorem Relocates.s2 (what : String) : Relocates lo S id (s2 what) (s2 what) :=
  .bind (.u2 what) fun _ => .pure rfl

theorem Relocates.s4 (what : String) : Relocates lo S id (s4 what) (s4 what) :=
  .bind (.u4 what) fun _ => .pure rfl

theorem Relocates.s8 (what : String) : Relocates lo S id (s8 what) (s8 what) :=
  .bind (.u8 what) fun _ => .pure rfl

theorem Relocates.f4 (what : String) : Relocates lo S id (f4 what) (f4 what) :=
  .bind (.u4 what) fun _ => .pure rfl

theorem Relocates.f8 (what : String) : Relocates lo S id (f8 what) (f8 what) :=
  .bind (.u8 what) fun _ => .pure rfl

/-- A number of some width leaves fewer bytes for what follows it. -/
theorem Relocates.natural_bind (what : String) {width : Nat} (hw : 0 < width)
    {next : Nat → Decoder β} {next' : Nat → Decoder β'}
    (h : ∀ n, Relocates lo S g (next n) (next' n)) :
    Relocates lo (S.more 1) g (Decoder.natural what width >>= next)
      (Decoder.natural what width >>= next') := by
  refine Relocates.bind_passing 1 (.natural what width) ?_ h
  intro c n _ _ hok
  rw [Decoder.natural] at hok ⊢
  by_cases hshort : c.stop < c.pos + width
  · rw [taking_of_short hshort] at hok
    cases hok
  · rw [taking_of_enough (by omega)]
    show c.pos + ((1 : Nat) : Int) ≤ c.pos + width
    omega

theorem Relocates.u1_bind (what : String) {next : UInt8 → Decoder β} {next' : UInt8 → Decoder β'}
    (h : ∀ n, Relocates lo S g (next n) (next' n)) :
    Relocates lo (S.more 1) g (Decoder.u1 what >>= next) (Decoder.u1 what >>= next') := by
  simp only [Decoder.u1, bind_assoc, pure_bind]
  exact .natural_bind what (by decide) fun n => h (UInt8.ofNat n)

theorem Relocates.u2_bind (what : String) {next : UInt16 → Decoder β}
    {next' : UInt16 → Decoder β'} (h : ∀ n, Relocates lo S g (next n) (next' n)) :
    Relocates lo (S.more 1) g (Decoder.u2 what >>= next) (Decoder.u2 what >>= next') := by
  simp only [Decoder.u2, bind_assoc, pure_bind]
  exact .natural_bind what (by decide) fun n => h (UInt16.ofNat n)

/-! ## §6. Repetition and recursion. -/

theorem Relocates.repeated {step : α → Decoder α} {step' : α' → Decoder α'} (count : Nat)
    (h : ∀ s, Relocates lo S f (step s) (step' (f s))) (s : α) :
    Relocates lo S f (repeated count step s) (repeated count step' (f s)) := by
  induction count generalizing s with
  | zero =>
    rw [repeated_zero, repeated_zero]
    exact .pure rfl
  | succ count ih =>
    rw [repeated_succ, repeated_succ]
    exact .bind (h s) ih

theorem Relocates.many {d : Decoder α} {d' : Decoder α'} (count : Nat)
    (h : Relocates lo S f d d') :
    Relocates lo S (List.map f) (many count d) (many count d') := by
  induction count with
  | zero =>
    rw [many_zero, many_zero]
    exact .pure rfl
  | succ count ih =>
    rw [many_succ, many_succ]
    exact .bind h fun _ => .bind ih fun _ => .pure rfl

theorem Relocates.many_id {d d' : Decoder α} (count : Nat) (h : Relocates lo S id d d') :
    Relocates lo S id (Decoder.many count d) (Decoder.many count d') := by
  have hmany := Relocates.many count h
  rwa [List.map_id_fun] at hmany

theorem Relocates.located {d : Decoder α} {d' : Decoder α'} (h : Relocates lo S f d d') :
    Relocates lo S (Located.shift S.shift f) (located d) (located d') :=
  .bind .position fun start => .bind h fun _ => .bind (.spanFrom start) fun _ => .pure rfl

/-- A structure inside itself relocates, unrolled on each side as often as there are bytes left. -/
theorem Relocates.unroll {p : Int} {body : Decoder α → Decoder α} {body' : Decoder α' → Decoder α'}
    (h : ∀ l r i i', (∀ lo, Relocates lo ⟨p, l, r⟩ f i i') →
      ∀ lo, Relocates lo ⟨p, l + 1, r + 1⟩ f (body i) (body' i')) (l r : Nat) (lo : Int) :
    Relocates lo ⟨p, l, r⟩ f (unroll body l) (unroll body' r) := by
  induction l generalizing r lo with
  | zero =>
    refine ⟨?_, ?_⟩
    · intro c hc hlo
      refine ⟨c.pos, rfl, Int.le_refl _, hc.2.1, ?_⟩
      intro fault hfault
      cases hfault
      exact ⟨hlo, rfl⟩
    -- Where no bytes are left, there is no cursor to compare.
    · intro c₁ _ hpair
      have hnone : c₁.stop - c₁.pos < ((0 : Nat) : Int) := hpair.leftLess
      have := hpair.left.2.1
      omega
  | succ l ih =>
    cases r with
    | zero =>
      refine ⟨(h l 0 _ _ (ih 0) lo).orderly, ?_⟩
      intro _ c₂ hpair
      have hnone : c₂.stop - c₂.pos < ((0 : Nat) : Int) := hpair.rightLess
      have := hpair.right.2.1
      omega
    | succ r => exact h l r _ _ (ih r) lo

theorem Relocates.fix {body : Decoder α → Decoder α} {body' : Decoder α' → Decoder α'}
    (h : ∀ l r i i', (∀ lo, Relocates lo ⟨S.shift, l, r⟩ f i i') →
      ∀ lo, Relocates lo ⟨S.shift, l + 1, r + 1⟩ f (body i) (body' i')) :
    Relocates lo S f (fix body) (fix body') := by
  refine ⟨?_, ?_⟩
  · intro c hc hlo
    exact (Relocates.unroll h (c.remaining.toNat + 1) 0 lo).orderly c hc hlo
  · intro c₁ c₂ hpair hlo hshow
    have h₁ := hpair.left.2.1
    have h₂ := hpair.right.2.1
    -- Each side is unrolled once more than it has bytes.
    refine (Relocates.unroll h (c₁.remaining.toNat + 1) (c₂.remaining.toNat + 1) lo).moves c₁ c₂
      ⟨hpair.left, hpair.right, ?_, ?_⟩ hlo ⟨hshow.pos, hshow.bytes, hshow.room, hshow.bound⟩
    · show c₁.stop - c₁.pos < ((c₁.stop - c₁.pos).toNat + 1 : Nat)
      omega
    · show c₂.stop - c₂.pos < ((c₂.stop - c₂.pos).toNat + 1 : Nat)
      omega

/-! ## §7. Windows. -/

/-- Windows of one size at cursors that show the same bytes are twins. -/
theorem Twins.part {c₁ c₂ : Cursor} (h : Paired S c₁ c₂) (hpos : c₂.pos = c₁.pos + S.shift)
    {n : Int} (hn : 0 ≤ n) (h₁ : c₁.pos + n ≤ c₁.stop) (h₂ : c₂.pos + n ≤ c₂.stop)
    (hbytes : ∀ i, c₁.pos ≤ i → i < c₁.pos + n → c₂.byte? (i + S.shift) = c₁.byte? i) :
    Twins S (c₁.part n) (c₂.part n) := by
  have hleft : c₁.stop - c₁.pos < S.left := h.leftLess
  have hright : c₂.stop - c₂.pos < S.right := h.rightLess
  refine ⟨⟨h.left.part hn h₁, h.right.part hn h₂, ?_, ?_⟩, hpos, ?_, hbytes⟩
  · show c₁.pos + n - c₁.pos < S.left
    omega
  · show c₂.pos + n - c₂.pos < S.right
    omega
  · show c₂.pos + n = c₁.pos + n + S.shift
    omega

theorem Twins.remaining {c₁ c₂ : Cursor} (h : Twins S c₁ c₂) : c₂.remaining = c₁.remaining := by
  have hpos := h.pos
  have hstop := h.stop
  simp only [Cursor.remaining]
  omega

/-- Twins that move on together stay twins. -/
theorem Twins.goto {c₁ c₂ : Cursor} (h : Twins S c₁ c₂) {q : Int} (hle : c₁.pos ≤ q)
    (hstop : q ≤ c₁.stop) : Twins S (c₁.goto q) (c₂.goto (q + S.shift)) := by
  have hpos := h.pos
  have hbound := h.stop
  have hpair : Paired (S.more 0) c₁ c₂ := h.toPaired
  exact ⟨hpair.goto (by omega) hstop (by omega) (by omega), rfl, h.stop,
    fun i hi his => h.bytes i (Int.le_trans hle hi) his⟩

/-- Twins show whatever an orderly run depends on. -/
theorem Twins.shows {c₁ c₂ : Cursor} (h : Twins S c₁ c₂) {d : Decoder α} (hd : d.Orderly lo)
    (hlo : lo ≤ c₁.pos) : Shows S c₁ c₂ (d c₁) := by
  obtain ⟨q, hq, -, hstop, -⟩ := hd c₁ h.left hlo
  have hbound := h.stop
  refine ⟨h.pos, ?_, ?_, fun _ => hbound⟩ <;> rw [hq]
  · exact fun i hi hiq => h.bytes i hi (Int.lt_of_lt_of_le hiq hstop)
  · show q + S.shift ≤ c₂.stop
    omega

/-- What is made of a window relocates if it is made of the window alone: the cursor stays behind
    the window, faults blame a place up to its end, and twins give the same. -/
theorem Relocates.window_bind {what : String} {n : Nat} {next : Cursor → Decoder β}
    {next' : Cursor → Decoder β'}
    (hnext : ∀ c : Cursor, c.InBounds → lo ≤ c.pos → c.pos + n ≤ c.stop →
      (next (c.part n) (c.goto (c.pos + n))).cursor = c.goto (c.pos + n) ∧
      ∀ fault, (next (c.part n) (c.goto (c.pos + n))).result = .error fault →
        ∃ cause offset, fault = .malformed cause offset ∧ lo ≤ offset ∧ offset ≤ c.pos + n)
    (hmoves : ∀ c₁ c₂ : Cursor, lo ≤ c₁.pos → Twins S (c₁.part n) (c₂.part n) →
      next' (c₂.part n) (c₂.goto (c₂.pos + n)) =
        (next (c₁.part n) (c₁.goto (c₁.pos + n))).moved S.shift g c₂) :
    Relocates lo S g (window what n >>= next) (window what n >>= next') := by
  refine ⟨?_, ?_⟩
  · intro c hc hlo
    by_cases h : c.stop < c.pos + n
    · rw [window_bind_of_short h]
      refine ⟨c.pos, rfl, Int.le_refl _, hc.2.1, ?_⟩
      intro fault hfault
      cases hfault
      exact ⟨hlo, rfl⟩
    · have henough : c.pos + n ≤ c.stop := by omega
      obtain ⟨hcursor, hfaults⟩ := hnext c hc hlo henough
      rw [window_bind_of_enough henough]
      refine ⟨c.pos + n, hcursor, by omega, henough, ?_⟩
      intro fault hfault
      obtain ⟨cause, offset, rfl, hoffset⟩ := hfaults fault hfault
      exact hoffset
  · intro c₁ c₂ hpair hlo hshow
    have hpos := hshow.pos
    by_cases h : c₁.stop < c₁.pos + n
    -- Too few bytes for the window in the first run: the second has the same bound.
    · rw [window_bind_of_short h] at hshow ⊢
      have hstop : c₂.stop = c₁.stop + S.shift := hshow.bound ⟨_, _, _, _, rfl⟩
      rw [window_bind_of_short (by omega), Outcome.moved_error, ← hpos,
        shortage_shift hpos hstop]
      rfl
    -- The window fits on both sides, and the two windows are twins.
    · have henough : c₁.pos + n ≤ c₁.stop := by omega
      obtain ⟨hcursor, -⟩ := hnext c₁ hpair.left hlo henough
      rw [window_bind_of_enough henough] at hshow ⊢
      obtain ⟨-, hbytes, hroom, -⟩ := hshow
      rw [hcursor] at hbytes hroom
      simp only [Cursor.goto_pos] at hbytes hroom
      have henough' : c₂.pos + n ≤ c₂.stop := by omega
      rw [window_bind_of_enough henough']
      exact hmoves c₁ c₂ hlo (.part hpair hpos (by omega) henough henough' hbytes)

theorem Relocates.within {d : Decoder α} {d' : Decoder α'} (h : Relocates lo S f d d') :
    RelocatesWithin lo S f d d' :=
  ⟨h.orderly, fun c₁ c₂ htwins hlo =>
    h.moves c₁ c₂ htwins.toPaired hlo (htwins.shows h.orderly hlo)⟩

end Decoder

end JavaClass
