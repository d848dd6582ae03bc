/-
  JavaClass.Proofs.Attribute.Isolation — damage to a payload stays inside it.

  Change bytes inside the payload of one attribute, at any depth, and read again.  Everything that
  was read before stays as it was, except for that payload (`Attribute.mask`); or the payload is
  malformed now, and a place inside it is blamed.

  The argument follows the structure down to the attribute.  Of two neighbours, the damage is in one,
  and the other is read from bytes that it spares; so `Isolates` passes from parts to sequences.  The
  damaged attribute itself keeps its window, whatever its payload does there, and the attributes
  around it see a payload of the same length, or a fault that is not a lack of bytes.
-/
import JavaClass.Proofs.Attribute.Envelope
import JavaClass.Proofs.Attribute.Family

namespace JavaClass

open Decoder

/-! ## §1. Damage. -/

/-- Data before and after damage to the payload of an attribute: the attribute starts at `start`, and
    its payload has `size` bytes. -/
structure Damage where
  start : Int
  size : Nat
  before : Array UInt8
  after : Array UInt8
  size_eq : after.size = before.size
  spares : ∀ i : Nat, ¬ (start + 6 ≤ i ∧ i < start + 6 + size) → after[i]? = before[i]?

namespace Damage

variable {α β γ δ : Type} (D : Damage)

/-- The first byte of the payload. -/
def lo : Int := D.start + 6

/-- The end of the payload. -/
def hi : Int := D.start + 6 + D.size

/-- The same cursor in the damaged data. -/
def on (c : Cursor) : Cursor := { c with data := D.after }

/-- One of the attributes is the damaged one. -/
def Hits (attributes : List Attribute) : Prop :=
  ∃ a ∈ attributes, a.start = D.start ∧ a.declared.toNat = D.size

/-- The payload is malformed, and a place in it is blamed. -/
def Blamed (o : Outcome α) : Prop :=
  ∃ cause offset, o.result = .error (.malformed cause offset) ∧ D.lo ≤ offset ∧ offset ≤ D.hi

/-- In the damaged data, `d` gives something like `a` and ends at `q` as well, or the damaged payload
    is blamed. -/
def Contained (mask : α → β) (d : Decoder α) (c : Cursor) (a : α) (q : Int) : Prop :=
  (∃ a', d.Goes (D.on c) a' q ∧ mask a' = mask a) ∨ D.Blamed (d (D.on c))

/-- From cursors with fewer than `k` bytes left, `d` gives values with `attributes` in order, and
    damage to one of them changes nothing that `mask` shows. -/
structure Isolates (k : Nat) (attributes : α → List Attribute) (mask : α → β) (d : Decoder α) :
    Prop where
  nested : ∀ (c : Cursor) (a : α) (q : Int), c.InBounds → c.remaining < k → d.Goes c a q →
    Nested c.pos (attributes a) q
  contained : ∀ (c : Cursor) (a : α) (q : Int), c.InBounds → c.remaining < k → c.data = D.before →
    d.Goes c a q → D.Hits (attributes a) → D.Contained mask d c a q

variable {D}

theorem on_inBounds {c : Cursor} (hc : c.InBounds) (hdata : c.data = D.before) :
    (D.on c).InBounds := by
  refine ⟨hc.1, hc.2.1, ?_⟩
  show c.stop ≤ D.after.size
  rw [D.size_eq, ← hdata]
  exact hc.2.2

/-- A stable decoder gives the same away from the damage. -/
theorem spared {d : Decoder α} (h : d.Stable) {c : Cursor} (hc : c.InBounds)
    (hdata : c.data = D.before) {a : α} {q : Int} (hgoes : d.Goes c a q)
    (haway : q ≤ D.lo ∨ D.hi ≤ c.pos) : d.Goes (D.on c) a q := by
  refine h.goes_same hc (on_inBounds hc hdata) rfl hgoes (h.goes_le hc hgoes).2 ?_
  intro i hi hiq
  show D.after[i.toNat]? = c.data[i.toNat]?
  rw [hdata]
  apply D.spares
  have hpos := hc.1
  simp only [lo, Damage.hi] at haway
  omega

theorem Hits.bounds {attributes : List Attribute} (h : D.Hits attributes) {p q : Int}
    (hnested : Nested p attributes q) : p ≤ D.start ∧ D.hi ≤ q := by
  obtain ⟨a, ha, hstart, hsize⟩ := h
  have hlength : a.length = 6 + a.declared.toNat := rfl
  have := hnested.within a ha
  simp only [hi]
  omega

theorem Hits.append {first second : List Attribute} (h : D.Hits (first ++ second)) :
    D.Hits first ∨ D.Hits second := by
  obtain ⟨a, ha, hdamaged⟩ := h
  obtain ha | ha := List.mem_append.mp ha
  · exact .inl ⟨a, ha, hdamaged⟩
  · exact .inr ⟨a, ha, hdamaged⟩

theorem Blamed.bind {d : Decoder α} {next : α → Decoder β} {c : Cursor} (h : D.Blamed (d c)) :
    D.Blamed ((d >>= next) c) := by
  obtain ⟨cause, offset, hresult, hoffset⟩ := h
  rcases hrun : d c with ⟨fault | a, c₁, notices⟩ <;> rw [hrun] at hresult
  · obtain rfl : fault = .malformed cause offset := Except.error.inj hresult
    exact ⟨cause, offset, by rw [bind_of_error hrun], hoffset⟩
  · cases hresult

theorem Blamed.after {d : Decoder α} {next : α → Decoder β} {c : Cursor} {a : α} {q : Int}
    (hd : d.Goes c a q) (h : D.Blamed (next a (c.goto q))) : D.Blamed ((d >>= next) c) := by
  obtain ⟨notices, hrun⟩ := hd
  obtain ⟨cause, offset, hresult, hoffset⟩ := h
  refine ⟨cause, offset, ?_, hoffset⟩
  rw [bind_of_ok hrun]
  exact hresult

/-! ## §2. Sequences. -/

variable {k : Nat}

theorem remaining_goto_lt {c : Cursor} {q : Int} (hle : c.pos ≤ q) (hk : c.remaining < k) :
    (c.goto q).remaining < k := by
  have hk : c.stop - c.pos < k := hk
  show c.stop - q < k
  omega

/-- What stands before the attributes is spared. -/
theorem Isolates.after {d : Decoder α} {next : α → Decoder β} {attributes : β → List Attribute}
    {mask : β → γ} (hd : d.Stable) (h : ∀ a, D.Isolates k attributes mask (next a)) :
    D.Isolates k attributes mask (d >>= next) := by
  refine ⟨?_, ?_⟩
  · intro c b r hc hk hgoes
    obtain ⟨a, q, hfirst, hsecond⟩ := hd.goes_bind hc hgoes
    obtain ⟨hle, hstop⟩ := hd.goes_le hc hfirst
    exact ((h a).nested _ _ _ (hc.goto hle hstop) (remaining_goto_lt hle hk) hsecond).mono hle
      (Int.le_refl _)
  · intro c b r hc hk hdata hgoes hhits
    obtain ⟨a, q, hfirst, hsecond⟩ := hd.goes_bind hc hgoes
    obtain ⟨hle, hstop⟩ := hd.goes_le hc hfirst
    have hc' := hc.goto hle hstop
    have hk' := remaining_goto_lt hle hk
    -- All attributes are behind `d`, and the damage with them.
    obtain ⟨hstart, -⟩ := hhits.bounds ((h a).nested _ _ _ hc' hk' hsecond)
    have hq : q ≤ D.start := hstart
    have hfirst' := spared hd hc hdata hfirst (.inl (by simp only [lo]; omega))
    obtain ⟨b', hsecond', hmask⟩ | hblamed :=
      (h a).contained _ _ _ hc' hk' hdata hsecond hhits
    · exact .inl ⟨b', hfirst'.bind hsecond', hmask⟩
    · exact .inr (.after hfirst' hblamed)

/-- The parts of a pair. -/
theorem goes_pair {d₁ : Decoder α} {d₂ : Decoder β} (s₁ : d₁.Stable) (s₂ : d₂.Stable) {c : Cursor}
    (hc : c.InBounds) {x : α × β} {r : Int}
    (h : (d₁ >>= fun a => d₂ >>= fun b => pure (a, b)).Goes c x r) :
    ∃ q, d₁.Goes c x.1 q ∧ d₂.Goes (c.goto q) x.2 r := by
  obtain ⟨a, q, hfirst, hrest⟩ := s₁.goes_bind hc h
  obtain ⟨hle, hstop⟩ := s₁.goes_le hc hfirst
  obtain ⟨b, r', hsecond, notices, hpure⟩ := s₂.goes_bind (hc.goto hle hstop) hrest
  cases hpure
  exact ⟨q, hfirst, hsecond⟩

/-- Of two neighbours, the damage spares one. -/
theorem Isolates.pair {d₁ : Decoder α} {d₂ : Decoder β} {attributes₁ : α → List Attribute}
    {attributes₂ : β → List Attribute} {mask₁ : α → γ} {mask₂ : β → δ} (s₁ : d₁.Stable)
    (s₂ : d₂.Stable) (h₁ : D.Isolates k attributes₁ mask₁ d₁)
    (h₂ : D.Isolates k attributes₂ mask₂ d₂) :
    D.Isolates k (fun x => attributes₁ x.1 ++ attributes₂ x.2)
      (fun x => (mask₁ x.1, mask₂ x.2)) (d₁ >>= fun a => d₂ >>= fun b => pure (a, b)) := by
  refine ⟨?_, ?_⟩
  · intro c x r hc hk hgoes
    obtain ⟨q, hfirst, hsecond⟩ := goes_pair s₁ s₂ hc hgoes
    obtain ⟨hle, hstop⟩ := s₁.goes_le hc hfirst
    exact (h₁.nested _ _ _ hc hk hfirst).append
      (h₂.nested _ _ _ (hc.goto hle hstop) (remaining_goto_lt hle hk) hsecond)
  · intro c x r hc hk hdata hgoes hhits
    obtain ⟨q, hfirst, hsecond⟩ := goes_pair s₁ s₂ hc hgoes
    obtain ⟨hle, hstop⟩ := s₁.goes_le hc hfirst
    have hc' := hc.goto hle hstop
    have hk' := remaining_goto_lt hle hk
    obtain hhits | hhits := hhits.append
    -- The damage is in the first: the second starts behind it.
    · obtain ⟨-, hend⟩ := hhits.bounds (h₁.nested _ _ _ hc hk hfirst)
      have hsecond' := spared s₂ hc' hdata hsecond (.inr hend)
      obtain ⟨a', hfirst', hmask⟩ | hblamed := h₁.contained _ _ _ hc hk hdata hfirst hhits
      · refine .inl ⟨(a', x.2), hfirst'.bind (hsecond'.bind (Goes.pure _ _)), ?_⟩
        show (mask₁ a', mask₂ x.2) = (mask₁ x.1, mask₂ x.2)
        rw [hmask]
      · exact .inr hblamed.bind
    -- The damage is in the second: the first ends before it.
    · obtain ⟨hstart, -⟩ := hhits.bounds (h₂.nested _ _ _ hc' hk' hsecond)
      have hq : q ≤ D.start := hstart
      have hfirst' := spared s₁ hc hdata hfirst (.inl (by simp only [lo]; omega))
      obtain ⟨b', hsecond', hmask⟩ | hblamed := h₂.contained _ _ _ hc' hk' hdata hsecond hhits
      · refine .inl ⟨(x.1, b'), hfirst'.bind (hsecond'.bind (Goes.pure _ _)), ?_⟩
        show (mask₁ x.1, mask₂ b') = (mask₁ x.1, mask₂ x.2)
        rw [hmask]
      · exact .inr (.after hfirst' hblamed.bind)

/-- What is made of a value without reading. -/
theorem Isolates.then {d : Decoder α} {next : α → Decoder β} (g : Int → α → β)
    {attributes : α → List Attribute} {attributes' : β → List Attribute} {mask : α → γ}
    {mask' : β → δ} (hd : d.Stable) (h : D.Isolates k attributes mask d)
    (hnext : ∀ a c, next a c = ⟨.ok (g c.pos a), c, []⟩)
    (hattributes : ∀ p a, attributes' (g p a) = attributes a)
    (hmask : ∀ p a a', mask a' = mask a → mask' (g p a') = mask' (g p a)) :
    D.Isolates k attributes' mask' (d >>= next) := by
  have hgoes : ∀ c b r, c.InBounds → (d >>= next).Goes c b r → ∃ a, d.Goes c a r ∧ b = g r a := by
    intro c b r hc hgoes
    obtain ⟨a, q, hfirst, notices, hsecond⟩ := hd.goes_bind hc hgoes
    rw [hnext] at hsecond
    cases hsecond
    exact ⟨a, hfirst, rfl⟩
  have hback : ∀ c a r, d.Goes c a r → (d >>= next).Goes c (g r a) r := by
    intro c a r hfirst
    exact hfirst.bind ⟨[], hnext a (c.goto r)⟩
  refine ⟨?_, ?_⟩
  · intro c b r hc hk hrun
    obtain ⟨a, hfirst, rfl⟩ := hgoes c b r hc hrun
    rw [hattributes]
    exact h.nested _ _ _ hc hk hfirst
  · intro c b r hc hk hdata hrun hhits
    obtain ⟨a, hfirst, rfl⟩ := hgoes c b r hc hrun
    rw [hattributes] at hhits
    obtain ⟨a', hfirst', hsame⟩ | hblamed := h.contained _ _ _ hc hk hdata hfirst hhits
    · exact .inl ⟨g r a', hback _ _ _ hfirst', hmask r a a' hsame⟩
    · exact .inr hblamed.bind

/-- What holds no attributes. -/
theorem Isolates.of_none {d : Decoder α} {attributes : α → List Attribute} {mask : α → β}
    (horderly : ∀ c : Cursor, c.InBounds → ∀ a q, d.Goes c a q → c.pos ≤ q)
    (hnone : d.Always fun a => attributes a = []) : D.Isolates k attributes mask d := by
  refine ⟨?_, ?_⟩
  · intro c a q hc _ hgoes
    rw [hnone c a hgoes.result_eq]
    exact .nil (horderly c hc a q hgoes)
  · intro c a q _ _ _ hgoes hhits
    rw [hnone c a hgoes.result_eq] at hhits
    obtain ⟨b, hb, -⟩ := hhits
    cases hb

theorem Isolates.many {d : Decoder α} {attributes : α → List Attribute} {mask : α → β} (count : Nat)
    (hd : d.Stable) (h : D.Isolates k attributes mask d) :
    D.Isolates k (List.flatMap attributes) (List.map mask) (many count d) := by
  induction count with
  | zero =>
    rw [many_zero]
    refine .of_none ?_ (.pure rfl)
    intro c hc values q hgoes
    exact ((Stable.pure _).goes_le hc hgoes).1
  | succ count ih =>
    have hmany : Decoder.many (count + 1) d =
        (d >>= fun a => Decoder.many count d >>= fun rest => pure (a, rest)) >>= fun x =>
          pure (x.1 :: x.2) := by
      simp only [many_succ, bind_assoc, pure_bind]
    rw [hmany]
    have hpair : (d >>= fun a => Decoder.many count d >>= fun rest => pure (a, rest)).Stable :=
      .bind hd fun _ => .bind (.many count hd) fun _ => .pure _
    refine (Isolates.pair hd (.many count hd) h ih).then (fun _ x => x.1 :: x.2) hpair
      (fun _ _ => rfl) (fun _ _ => List.flatMap_cons) ?_
    intro _ x x' hmask
    obtain ⟨hfirst, hrest⟩ := Prod.mk.inj hmask
    rw [List.map_cons, List.map_cons, hfirst, hrest]

/-! ## §3. Payloads. -/

end Damage

open Damage

variable {D : Damage} {k : Nat} {inner : Decoder Attribute}

theorem readAttributes_isolates (hs : inner.Stable)
    (h : D.Isolates k Attribute.family (Attribute.mask D.start) inner) :
    D.Isolates k Attribute.familyAll (Attribute.maskAll D.start) (readAttributes inner) := by
  rw [funext Attribute.familyAll_eq_flatMap, funext (Attribute.maskAll_eq_map D.start)]
  exact .after (.u2 _) fun count => .many count.toNat hs h

theorem Code.read_isolates (disassemble : Bool) (hs : inner.Stable)
    (h : D.Isolates k Attribute.family (Attribute.mask D.start) inner) :
    D.Isolates k Code.family (Code.mask D.start) (Code.read disassemble inner) := by
  rw [Code.read_eq]
  refine .after (.u2 _) fun maxStack => .after (.u2 _) fun maxLocals => .after (.u4 _) fun length =>
    .after (Code.array_stable disassemble length.toNat) fun array =>
    .after (ExceptionHandler.readRows_stable _) fun handlers => ?_
  refine (readAttributes_isolates hs h).then (fun _ attributes => ⟨maxStack, maxLocals, array.1,
    length, array.2.1, array.2.2, handlers, attributes⟩) (readAttributes_stable hs)
    (fun _ _ => rfl) (fun _ _ => by rw [Code.family]) ?_
  intro _ attributes attributes' hmask
  rw [Code.mask, Code.mask, hmask]

theorem RecordComponent.read_isolates (hs : inner.Stable)
    (h : D.Isolates k Attribute.family (Attribute.mask D.start) inner) :
    D.Isolates k RecordComponent.family (RecordComponent.mask D.start)
      (RecordComponent.read inner) := by
  refine .after .position fun start => .after (.u2 _) fun name => .after (.u2 _) fun descriptor => ?_
  refine (readAttributes_isolates hs h).then
    (fun q attributes => ⟨⟨start, q - start⟩, name, descriptor, attributes⟩)
    (readAttributes_stable hs) (fun _ _ => rfl) (fun _ _ => by rw [RecordComponent.family]) ?_
  intro _ attributes attributes' hmask
  rw [RecordComponent.mask, RecordComponent.mask, hmask]

namespace Payload

/-- Only code and records hold attributes. -/
theorem read_childless (disassemble : Bool) {kind : AttributeKind} (hcode : kind ≠ .code)
    (hrecord : kind ≠ .recordComponents) :
    (read disassemble inner kind).Always fun payload => payload.family = [] := by
  intro w payload hresult
  have hplain := read_plain disassemble inner hcode hrecord w payload hresult
  cases payload with
  | code | recordComponents => exact absurd hplain id
  | _ => simp only [family]

theorem read_isolates (disassemble : Bool) (hs : inner.Stable)
    (h : D.Isolates k Attribute.family (Attribute.mask D.start) inner) (kind : AttributeKind) :
    D.Isolates k family (mask D.start) (read disassemble inner kind) := by
  by_cases hcode : kind = .code
  · subst hcode
    refine (Code.read_isolates disassemble hs h).then (fun _ code => .code code)
      (Code.read_stable disassemble hs) (fun _ _ => rfl) (fun _ _ => by rw [family]) ?_
    intro _ code code' hmask
    rw [mask, mask, hmask]
  by_cases hrecord : kind = .recordComponents
  · subst hrecord
    refine .after (.u2 _) fun count => ?_
    have hcomponents : D.Isolates k RecordComponent.familyAll (RecordComponent.maskAll D.start)
        (many count.toNat (RecordComponent.read inner)) := by
      rw [funext RecordComponent.familyAll_eq_flatMap,
        funext (RecordComponent.maskAll_eq_map D.start)]
      exact .many count.toNat (RecordComponent.read_stable hs) (RecordComponent.read_isolates hs h)
    refine hcomponents.then (fun _ components => .recordComponents components)
      (.many count.toNat (RecordComponent.read_stable hs)) (fun _ _ => rfl)
      (fun _ _ => by rw [family]) ?_
    intro _ components components' hmask
    rw [mask, mask, hmask]
  -- All other kinds hold no attributes, and only have to be orderly.
  refine .of_none ?_ (read_childless disassemble hcode hrecord)
  intro c hc payload q hgoes
  obtain ⟨r, hr, hle, -⟩ := read_orderly disassemble hs kind c.pos c hc (Int.le_refl _)
  have hq : q = r := congrArg Cursor.pos (hgoes.cursor_eq.symm.trans hr)
  omega

end Payload

/-! ## §4. Attributes. -/

namespace Attribute

theorem read_blamed (pool : Pool) (disassemble : Bool) {c : Cursor} (hc : c.InBounds) {start : Int}
    {nameIndex : UInt16} {declared : UInt32}
    (henvelope : readEnvelope.Goes c (start, nameIndex, declared) (c.pos + 6))
    (h : D.Blamed (readEnclosed (pool.utf8? nameIndex.toNat)
      (Payload.read disassemble (read pool disassemble)) start nameIndex declared
      (c.goto (c.pos + 6)))) : D.Blamed (read pool disassemble c) := by
  rw [read_eq_body pool disassemble hc, body_eq_envelope]
  exact .after henvelope h.bind

/-- Damage in a payload is damage in what is enclosed with it. -/
theorem readEnclosed_isolates (disassemble : Bool) (hs : inner.Stable)
    (h : D.Isolates k family (mask D.start) inner) (name : Option String) (start : Int)
    (nameIndex : UInt16) (declared : UInt32) :
    D.Isolates k Payload.family (Payload.mask D.start)
      (readEnclosed name (Payload.read disassemble inner) start nameIndex declared) := by
  have hwindow : ∀ c : Cursor, c.pos + declared.toNat ≤ c.stop → c.remaining < k →
      (c.part declared.toNat).remaining < k := by
    intro c hfits hk
    have hk : c.stop - c.pos < k := hk
    show c.pos + declared.toNat - c.pos < k
    omega
  refine ⟨?_, ?_⟩
  · intro c payload q hc hk hgoes
    obtain ⟨hend, hstop, ⟨content, rfl⟩ | ⟨label, kind, r, -, hpayload, hr⟩⟩ :=
      readEnclosed_goes disassemble hs name start nameIndex declared hc hgoes
    · simp only [Payload.family]
      exact .nil (by omega)
    · have hc' := hc.part (n := declared.toNat) (by omega) (by omega)
      exact ((Payload.read_isolates disassemble hs h kind).nested _ _ _ hc'
        (hwindow c (by omega) hk) hpayload).mono (Int.le_refl _) hr
  · intro c payload q hc hk hdata hgoes hhits
    obtain ⟨rfl, hstop, ⟨content, rfl⟩ | ⟨label, kind, r, hall, hpayload, -⟩⟩ :=
      readEnclosed_goes disassemble hs name start nameIndex declared hc hgoes
    · simp only [Payload.family] at hhits
      obtain ⟨a, ha, -⟩ := hhits
      cases ha
    have hc' := hc.part (n := declared.toNat) (by omega) (by omega)
    -- The damaged cursor shows the same window.
    have hrun : readEnclosed name (Payload.read disassemble inner) start nameIndex declared
        (D.on c) = concluded label start declared (Payload.read disassemble inner kind
          (D.on (c.part declared.toNat))) ((D.on c).goto (c.pos + declared.toNat)) :=
      hall (D.on c) hstop
    obtain ⟨payload', ⟨notices, hpayload'⟩, hmask⟩ | ⟨cause, offset, hfault, hoffset⟩ :=
      (Payload.read_isolates disassemble hs h kind).contained _ _ _ hc' (hwindow c hstop hk) hdata
        hpayload hhits
    · rw [hpayload'] at hrun
      exact .inl ⟨payload', ⟨_, hrun⟩, hmask⟩
    · exact .inr ⟨cause, offset, by rw [hrun]; exact concluded_malformed hfault, hoffset⟩

/-- Damage to an attribute's own payload leaves its envelope, and the place where it ends. -/
theorem read_contained_own (pool : Pool) (disassemble : Bool) {c : Cursor} (hc : c.InBounds)
    (hdata : c.data = D.before) {a : Attribute} {q : Int}
    (hgoes : (read pool disassemble).Goes c a q) (hstart : a.start = D.start)
    (hsize : a.declared.toNat = D.size) :
    D.Contained (mask D.start) (read pool disassemble) c a q := by
  have hs := read_stable pool disassemble
  obtain ⟨henvelope, hname, hpayload⟩ := (read_goes_iff pool disassemble hc).mp hgoes
  obtain ⟨hle, hstop⟩ := readEnvelope_stable.goes_le hc henvelope
  have hpos : D.start = c.pos := hstart.symm.trans (readEnvelope_end hc henvelope).1
  obtain ⟨rfl, hfits, -⟩ := readEnclosed_goes disassemble hs _ _ _ _ (hc.goto hle hstop) hpayload
  have hc' := on_inBounds hc hdata
  -- The envelope ends where the damage starts, and whatever is in the window now, it fills it.
  have henvelope' := spared readEnvelope_stable hc hdata henvelope (.inl (by simp only [lo]; omega))
  obtain ⟨payload', hpayload'⟩ | ⟨cause, offset, hfault, hoffset⟩ :=
    readEnclosed_settles disassemble hs a.name a.start a.nameIndex a.declared (hc'.goto hle hstop)
      hfits
  · refine .inl ⟨⟨a.start, a.nameIndex, a.name, a.declared, payload'⟩,
      (read_goes_iff pool disassemble hc').mpr ⟨henvelope', hname, hpayload'⟩, ?_⟩
    cases a
    rw [mask, mask, if_pos hstart, if_pos hstart]
  · refine .inr (read_blamed pool disassemble hc' henvelope' ⟨cause, offset, ?_, ?_, ?_⟩)
    · rw [← hname]
      exact hfault
    · have hlo : c.pos + 6 ≤ offset := hoffset.1
      simp only [lo]
      omega
    · have hhi : offset ≤ c.pos + 6 + a.declared.toNat := hoffset.2
      simp only [hi]
      omega

/-- Damage to an attribute inside another leaves the outer envelope. -/
theorem read_contained_inner (pool : Pool) (disassemble : Bool)
    (h : ∀ name start nameIndex declared, D.Isolates k Payload.family (Payload.mask D.start)
      (readEnclosed name (Payload.read disassemble (read pool disassemble)) start nameIndex declared))
    {c : Cursor} (hc : c.InBounds) (hk : (c.goto (c.pos + 6)).remaining < k)
    (hdata : c.data = D.before) {a : Attribute} {q : Int}
    (hgoes : (read pool disassemble).Goes c a q) (hhits : D.Hits a.payload.family) :
    D.Contained (mask D.start) (read pool disassemble) c a q := by
  obtain ⟨henvelope, hname, hpayload⟩ := (read_goes_iff pool disassemble hc).mp hgoes
  obtain ⟨hle, hstop⟩ := readEnvelope_stable.goes_le hc henvelope
  have hc' := on_inBounds hc hdata
  have hbefore : c.pos + 6 ≤ D.start :=
    (hhits.bounds ((h _ _ _ _).nested _ _ _ (hc.goto hle hstop) hk hpayload)).1
  have henvelope' := spared readEnvelope_stable hc hdata henvelope (.inl (by simp only [lo]; omega))
  obtain ⟨payload', hpayload', hmask⟩ | hblamed :=
    (h _ _ _ _).contained _ _ _ (hc.goto hle hstop) hk hdata hpayload hhits
  · refine .inl ⟨⟨a.start, a.nameIndex, a.name, a.declared, payload'⟩,
      (read_goes_iff pool disassemble hc').mpr ⟨henvelope', hname, hpayload'⟩, ?_⟩
    cases a
    rw [mask, mask, hmask]
  · rw [hname] at hblamed
    exact .inr (read_blamed pool disassemble hc' henvelope' hblamed)

/-- Attributes isolate damage to a payload, by induction on the bytes before the bound: what is
    enclosed has six bytes less. -/
theorem read_isolates (pool : Pool) (disassemble : Bool) (k : Nat) :
    D.Isolates k family (mask D.start) (read pool disassemble) := by
  have hs := read_stable pool disassemble
  induction k with
  | zero =>
    -- No cursor in bounds has less than no bytes left.
    refine ⟨?_, ?_⟩
    · intro c a q hc hk
      exact absurd hc.2.1 (by simp only [Cursor.remaining] at hk; omega)
    · intro c a q hc hk
      exact absurd hc.2.1 (by simp only [Cursor.remaining] at hk; omega)
  | succ k ih =>
    have henclosed := readEnclosed_isolates disassemble hs ih
    have hless : ∀ c : Cursor, c.remaining < (k + 1 : Nat) →
        (c.goto (c.pos + 6)).remaining < k := by
      intro c hk
      show c.stop - (c.pos + 6) < k
      have hk : c.stop - c.pos < (k + 1 : Nat) := hk
      omega
    refine ⟨?_, ?_⟩
    · intro c a q hc hk hgoes
      obtain ⟨henvelope, -, hpayload⟩ := (read_goes_iff pool disassemble hc).mp hgoes
      obtain ⟨hle, hstop⟩ := readEnvelope_stable.goes_le hc henvelope
      have hc' := hc.goto hle hstop
      have hstart : a.start = c.pos := (readEnvelope_end hc henvelope).1
      obtain ⟨hend, -⟩ := readEnclosed_goes disassemble hs _ _ _ _ hc' hpayload
      have hend : q = c.pos + 6 + a.declared.toNat := hend
      have hnested := (henclosed _ _ _ _).nested _ _ _ hc' (hless c hk) hpayload
      refine .enclose hstart ?_ (hnested.mono ?_ (Int.le_refl _))
      · show a.start + (6 + a.declared.toNat) = q
        omega
      · show a.start + 6 ≤ c.pos + 6
        omega
    · intro c a q hc hk hdata hgoes hhits
      rw [family_eq] at hhits
      obtain ⟨b, hb, hstart, hsize⟩ := hhits
      obtain rfl | hb := List.mem_cons.mp hb
      · exact read_contained_own pool disassemble hc hdata hgoes hstart hsize
      · exact read_contained_inner pool disassemble henclosed hc (hless c hk) hdata hgoes
          ⟨b, hb, hstart, hsize⟩

theorem readAll_isolates (pool : Pool) (disassemble : Bool) (k : Nat) :
    D.Isolates k familyAll (maskAll D.start) (readAll pool disassemble) :=
  readAttributes_isolates (read_stable pool disassemble) (read_isolates pool disassemble k)

end Attribute

end JavaClass
