/-
  JavaClass.Proofs.Attribute.Throughout — what holds of every payload, at any depth.

  Attributes stand inside attributes, and each of them is read by the same decoder, from a cursor in
  bounds.  So what holds of a payload that is read in its window, whatever the attributes inside it
  are read with, holds of all payloads of a family (`Attribute.read_throughout`).

  `Ensures` is the relation behind it: from cursors in bounds, a decoder gives values with a
  property, and leaves the cursor in bounds for what follows.
-/
import JavaClass.Proofs.Attribute.Envelope
import JavaClass.Proofs.Attribute.Family

namespace JavaClass

open Decoder

/-! ## §1. Values with a property. -/

namespace Decoder

variable {α β : Type} {Q : α → Prop} {R : β → Prop}

/-- From a cursor in bounds, `d` gives values with `Q` only, and leaves the cursor in bounds. -/
def Ensures (d : Decoder α) (Q : α → Prop) : Prop :=
  ∀ c : Cursor, c.InBounds → ∀ a, (d c).result = .ok a → (d c).cursor.InBounds ∧ Q a

theorem Ensures.mono {Q' : α → Prop} {d : Decoder α} (h : d.Ensures Q) (hQ : ∀ a, Q a → Q' a) :
    d.Ensures Q' := by
  intro c hc a hresult
  obtain ⟨hcursor, ha⟩ := h c hc a hresult
  exact ⟨hcursor, hQ a ha⟩

theorem Ensures.bind {d : Decoder α} {next : α → Decoder β} (hd : d.Ensures Q)
    (hn : ∀ a, Q a → (next a).Ensures R) : (d >>= next).Ensures R := by
  intro c hc b hresult
  rcases hrun : d c with ⟨fault | a, c₁, notices⟩
  · rw [bind_of_error hrun] at hresult
    cases hresult
  · have hfirst := hd c hc a (by rw [hrun])
    rw [hrun] at hfirst
    rw [bind_of_ok hrun] at hresult ⊢
    exact hn a hfirst.2 c₁ hfirst.1 b hresult

theorem Ensures.pure {a : α} (h : Q a) : (pure a : Decoder α).Ensures Q := by
  intro c hc b hresult
  cases hresult
  exact ⟨hc, h⟩

/-- Stable decoders stay in bounds. -/
theorem Stable.ensures {d : Decoder α} (h : d.Stable) : d.Ensures fun _ => True := by
  intro c hc a _
  obtain ⟨q, hq, hle, hstop, -⟩ := h.orderly hc
  rw [hq]
  exact ⟨hc.goto hle hstop, trivial⟩

/-- Whatever a stable decoder gives, what follows it decides. -/
theorem Ensures.after {d : Decoder α} {next : α → Decoder β} (hd : d.Stable)
    (hn : ∀ a, (next a).Ensures R) : (d >>= next).Ensures R :=
  .bind hd.ensures fun a _ => hn a

theorem Ensures.many {d : Decoder α} (count : Nat) (h : d.Ensures Q) :
    (many count d).Ensures fun values => ∀ a ∈ values, Q a := by
  induction count with
  | zero =>
    rw [many_zero]
    exact .pure fun a ha => absurd ha List.not_mem_nil
  | succ count ih =>
    rw [many_succ]
    refine .bind h fun a ha => .bind ih fun rest hrest => .pure ?_
    intro b hb
    obtain rfl | hb := List.mem_cons.mp hb
    · exact ha
    · exact hrest b hb

/-- A structure inside itself is as its equation makes it. -/
theorem Ensures.fix {body : Decoder α → Decoder α}
    (h : ∀ inner : Decoder α, inner.Ensures Q → (body inner).Ensures Q) : (fix body).Ensures Q := by
  have hunroll : ∀ depth, (unroll body depth).Ensures Q := by
    intro depth
    induction depth with
    | zero =>
      intro c _ a hresult
      cases hresult
    | succ depth ih => exact h _ ih
  intro c hc
  exact hunroll (c.remaining.toNat + 1) c hc

end Decoder

/-! ## §2. Attributes in payloads. -/

variable {inner : Decoder Attribute} {P : Attribute → Prop}

theorem readAttributes_ensures (h : inner.Ensures fun a => ∀ b ∈ a.family, P b) :
    (readAttributes inner).Ensures fun attributes => ∀ b ∈ Attribute.familyAll attributes, P b := by
  refine .after (.u2 _) fun count => (Ensures.many count.toNat h).mono ?_
  intro attributes hall
  rw [Attribute.familyAll_eq_flatMap]
  intro b hb
  obtain ⟨a, ha, hb⟩ := List.mem_flatMap.mp hb
  exact hall a ha b hb

theorem Code.read_ensures (disassemble : Bool) (h : inner.Ensures fun a => ∀ b ∈ a.family, P b) :
    (Code.read disassemble inner).Ensures fun code => ∀ b ∈ code.family, P b := by
  rw [Code.read_eq]
  refine .after (.u2 _) fun _ => .after (.u2 _) fun _ => .after (.u4 _) fun length =>
    .after (array_stable disassemble length.toNat) fun _ =>
    .after (ExceptionHandler.readRows_stable _) fun _ =>
    .bind (readAttributes_ensures h) fun attributes hall => .pure ?_
  rw [Code.family]
  exact hall

theorem RecordComponent.read_ensures (h : inner.Ensures fun a => ∀ b ∈ a.family, P b) :
    (RecordComponent.read inner).Ensures fun component => ∀ b ∈ component.family, P b := by
  refine .after .position fun start => .after (.u2 _) fun _ => .after (.u2 _) fun _ =>
    .bind (readAttributes_ensures h) fun attributes hall => .after (.spanFrom start) fun _ =>
    .pure ?_
  rw [RecordComponent.family]
  exact hall

/-- What holds of all attributes that are read holds of those in a payload. -/
theorem Payload.read_family (disassemble : Bool) (h : inner.Ensures fun a => ∀ b ∈ a.family, P b)
    (kind : AttributeKind) {w : Cursor} (hw : w.InBounds) {payload : Payload}
    (hresult : (read disassemble inner kind w).result = .ok payload) :
    ∀ b ∈ payload.family, P b := by
  by_cases hcode : kind = .code
  · subst hcode
    have hread : (Payload.read disassemble inner .code).Ensures fun payload =>
        ∀ b ∈ payload.family, P b :=
      .bind (Code.read_ensures disassemble h) fun code hall => .pure (by rw [family]; exact hall)
    exact (hread w hw payload hresult).2
  by_cases hrecord : kind = .recordComponents
  · subst hrecord
    have hread : (Payload.read disassemble inner .recordComponents).Ensures fun payload =>
        ∀ b ∈ payload.family, P b := by
      refine .after (.u2 _) fun count =>
        .bind (.many count.toNat (RecordComponent.read_ensures h)) fun components hall => .pure ?_
      rw [family, RecordComponent.familyAll_eq_flatMap]
      intro b hb
      obtain ⟨component, hmem, hb⟩ := List.mem_flatMap.mp hb
      exact hall component hmem b hb
    exact (hread w hw payload hresult).2
  -- All other kinds hold no attributes.
  · have hplain := read_plain disassemble inner hcode hrecord w payload hresult
    cases payload with
    | code | recordComponents => exact absurd hplain id
    | _ => simp only [family, List.not_mem_nil, false_implies, implies_true]

/-! ## §3. Attributes. -/

/-- `P` holds of bytes that are kept, and of each payload that is read in a window, whatever the
    attributes inside it are read with. -/
structure Payload.Invariant (disassemble : Bool) (P : Payload → Prop) : Prop where
  raw : ∀ content, P (.raw content)
  read : ∀ (inner : Decoder Attribute), inner.Ensures (fun _ => True) → ∀ kind (w : Cursor),
    w.InBounds → ∀ payload, (Payload.read disassemble inner kind w).result = .ok payload → P payload

namespace Attribute

/-- What is enclosed is kept as bytes, or read as a payload in its window. -/
theorem readEnclosed_ensures {Q : Payload → Prop} (payload : AttributeKind → Decoder Payload)
    (hraw : ∀ content, Q (.raw content))
    (hread : ∀ kind (w : Cursor), w.InBounds → ∀ p, (payload kind w).result = .ok p → Q p)
    (name : Option String) (start : Int) (nameIndex : UInt16) (declared : UInt32) :
    (readEnclosed name payload start nameIndex declared).Ensures Q := by
  intro c hc p hresult
  by_cases hshort : c.stop < c.pos + declared.toNat
  · rw [readEnclosed_of_short _ _ _ _ _ hshort] at hresult
    cases hresult
  have hfits : c.pos + declared.toNat ≤ c.stop := by omega
  refine ⟨?_, ?_⟩
  · rw [readEnclosed_cursor _ _ _ _ _ hfits]
    exact hc.goto (by omega) hfits
  obtain ⟨content, notices, hrun⟩ | ⟨label, kind, hrun⟩ :=
    readEnclosed_of_enough name payload start nameIndex declared hfits
  · rw [hrun] at hresult
    cases hresult
    exact hraw content
  · rw [hrun c hfits] at hresult
    exact hread kind _ (hc.part (by omega) hfits) p (concluded_ok hresult)

/-- What holds of each payload holds of all payloads of a family: by induction on the depth to which
    attributes are followed. -/
theorem read_throughout (pool : Pool) {disassemble : Bool} {P : Payload → Prop}
    (h : Payload.Invariant disassemble P) :
    (read pool disassemble).Ensures fun a => ∀ b ∈ a.family, P b.payload := by
  refine .fix fun inner hinner => ?_
  rw [body_eq_envelope]
  refine .after readEnvelope_stable fun envelope => ?_
  have henclosed := readEnclosed_ensures (Q := fun p => P p ∧ ∀ b ∈ p.family, P b.payload)
    (Payload.read disassemble inner) ?_ ?_ (pool.utf8? envelope.2.1.toNat) envelope.1 envelope.2.1
    envelope.2.2
  · refine henclosed.bind fun payload hpayload => .pure ?_
    rw [family_eq]
    intro b hb
    obtain rfl | hb := List.mem_cons.mp hb
    · exact hpayload.1
    · exact hpayload.2 b hb
  · intro content
    refine ⟨h.raw content, ?_⟩
    simp only [Payload.family, List.not_mem_nil, false_implies, implies_true]
  · intro kind w hw p hresult
    exact ⟨h.read inner (hinner.mono fun _ _ => trivial) kind w hw p hresult,
      Payload.read_family disassemble hinner kind hw hresult⟩

end Attribute

end JavaClass
