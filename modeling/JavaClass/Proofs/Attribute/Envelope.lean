/-
  JavaClass.Proofs.Attribute.Envelope — envelopes and what they enclose.

  An envelope has six bytes, and the window behind it has the length that it declares.  What is
  enclosed fills the window exactly, however many of its bytes a payload reads
  (`Attribute.readEnclosed_goes`), and if it cannot be read, it is malformed and a place in the window
  is blamed (`Attribute.readEnclosed_settles`): a lack of bytes inside a window is never reported as
  a lack of bytes.
-/
import JavaClass.Proofs.Relocation.Stable

namespace JavaClass

open Decoder

variable {inner : Decoder Attribute}

/-! ## §1. Envelopes. -/

namespace Attribute

theorem readEnvelope_stable : readEnvelope.Stable :=
  .bind .position fun _ => .bind (.u2 _) fun _ => .bind (.u4 _) fun _ => .pure _

/-- An envelope has six bytes, and tells where it starts. -/
theorem readEnvelope_end {c : Cursor} (hc : c.InBounds) {envelope : Int × UInt16 × UInt32} {q : Int}
    (h : readEnvelope.Goes c envelope q) : envelope.1 = c.pos ∧ q = c.pos + 6 := by
  obtain ⟨start, p, hposition, hrest⟩ := Stable.position.goes_bind hc h
  have hstart : c.pos = start := Except.ok.inj hposition.result_eq
  have hp : c.pos = p := congrArg Cursor.pos hposition.cursor_eq
  subst hstart hp
  obtain ⟨nameIndex, q₁, hname, hrest⟩ := (Stable.u2 _).goes_bind hc hrest
  obtain ⟨hle, hstop⟩ := (Stable.u2 _).goes_le hc hname
  obtain ⟨declared, q₂, hdeclared, notices, hpure⟩ :=
    (Stable.u4 _).goes_bind (hc.goto hle hstop) hrest
  have hq₁ : q₁ = c.pos + 2 := Goes.natural_end (f := UInt16.ofNat) hname
  have hq₂ : q₂ = q₁ + 4 := Goes.natural_end (f := UInt32.ofNat) hdeclared
  cases hpure
  exact ⟨rfl, by omega⟩

end Attribute

/-! ## §2. What is enclosed. -/

theorem Payload.read_orderly (disassemble : Bool) (hs : inner.Stable) (kind : AttributeKind)
    (lo : Int) : (read disassemble inner kind).Orderly lo := by
  have hinner : Relocates lo ⟨0, 0, 0⟩ (Attribute.shift 0) inner inner := by
    rw [funext Attribute.shift_zero]
    exact hs lo 0 0
  exact (read_relocates (S := ⟨0, 0, 0⟩) disassemble hinner kind).orderly

namespace Attribute

theorem readEnclosed_stable (disassemble : Bool) (hs : inner.Stable) (name : Option String)
    (start : Int) (nameIndex : UInt16) (declared : UInt32) :
    (readEnclosed name (Payload.read disassemble inner) start nameIndex declared).Stable := by
  refine .of_relocates Payload.shift_zero fun lo l r => ?_
  have hinner : ∀ lo, Relocates lo ⟨0, l, r⟩ (shift 0) inner inner := by
    rw [funext shift_zero]
    exact fun lo => hs lo l r
  have hpayload : ∀ kind lo, RelocatesWithin lo ⟨0, l, r⟩ (Payload.shift 0)
      (Payload.read disassemble inner kind) (Payload.read disassemble inner kind) :=
    fun kind lo => Payload.read_relocates (S := ⟨0, l, r⟩) disassemble (hinner lo) kind
  have hmoves : Relocates lo ⟨0, l, r⟩ (Payload.shift 0)
      (readEnclosed name (Payload.read disassemble inner) start nameIndex declared)
      (readEnclosed name (Payload.read disassemble inner) (start + 0) nameIndex declared) :=
    readEnclosed_relocates name start nameIndex declared hpayload
  rwa [Int.add_zero] at hmoves

/-- What is enclosed ends where its window ends, whatever it is; or the window is malformed, and a
    place in it is blamed. -/
theorem readEnclosed_settles (disassemble : Bool) (hs : inner.Stable) (name : Option String)
    (start : Int) (nameIndex : UInt16) (declared : UInt32) {c : Cursor} (hc : c.InBounds)
    (hfits : c.pos + declared.toNat ≤ c.stop) :
    (∃ payload, (readEnclosed name (Payload.read disassemble inner) start nameIndex declared).Goes c
      payload (c.pos + declared.toNat)) ∨
    ∃ cause offset,
      (readEnclosed name (Payload.read disassemble inner) start nameIndex declared c).result =
        .error (.malformed cause offset) ∧ c.pos ≤ offset ∧ offset ≤ c.pos + declared.toNat := by
  obtain ⟨content, notices, hrun⟩ | ⟨label, kind, hrun⟩ :=
    readEnclosed_of_enough name (Payload.read disassemble inner) start nameIndex declared hfits
  · exact .inl ⟨.raw content, notices, hrun⟩
  obtain ⟨q, hq, -, hstop, hfault⟩ := Payload.read_orderly disassemble hs kind c.pos
    (c.part declared.toNat) (hc.part (by omega) hfits) (Int.le_refl _)
  have hend : (Payload.read disassemble inner kind (c.part declared.toNat)).cursor.pos ≤
      c.pos + declared.toNat := by
    rw [hq]
    exact hstop
  rcases hrun' : readEnclosed name (Payload.read disassemble inner) start nameIndex declared c with
    ⟨fault | payload, c₁, notices⟩
  · rw [hrun c hfits] at hrun'
    -- Whatever the payload lacked, its window is to blame.
    obtain ⟨cause, offset, rfl, hoffset⟩ := concluded_fault (by rw [hq]; exact hfault) hend
      (congrArg Outcome.result hrun')
    exact .inr ⟨cause, offset, rfl, hoffset⟩
  · rw [hrun c hfits] at hrun'
    obtain rfl : c.goto (c.pos + declared.toNat) = c₁ :=
      (concluded_cursor _ _ _ _ _).symm.trans (congrArg Outcome.cursor hrun')
    exact .inl ⟨payload, notices, (hrun c hfits).trans hrun'⟩

/-- What is enclosed fills its window.  It is kept as bytes, or it is a payload that is read
    there. -/
theorem readEnclosed_goes (disassemble : Bool) (hs : inner.Stable) (name : Option String)
    (start : Int) (nameIndex : UInt16) (declared : UInt32) {c : Cursor} (hc : c.InBounds)
    {payload : Payload} {q : Int}
    (h : (readEnclosed name (Payload.read disassemble inner) start nameIndex declared).Goes c
      payload q) :
    q = c.pos + declared.toNat ∧ q ≤ c.stop ∧
    ((∃ content, payload = .raw content) ∨ ∃ label kind r,
      (∀ c' : Cursor, c'.pos + declared.toNat ≤ c'.stop →
        readEnclosed name (Payload.read disassemble inner) start nameIndex declared c' =
          concluded label start declared (Payload.read disassemble inner kind
            (c'.part declared.toNat)) (c'.goto (c'.pos + declared.toNat))) ∧
      (Payload.read disassemble inner kind).Goes (c.part declared.toNat) payload r ∧ r ≤ q) := by
  obtain ⟨notices, hrun⟩ := h
  by_cases hshort : c.stop < c.pos + declared.toNat
  · rw [readEnclosed_of_short _ _ _ _ _ hshort] at hrun
    cases hrun
  have hfits : c.pos + declared.toNat ≤ c.stop := by omega
  obtain ⟨content, more, hraw⟩ | ⟨label, kind, hall⟩ :=
    readEnclosed_of_enough name (Payload.read disassemble inner) start nameIndex declared hfits
  · rw [hraw] at hrun
    cases hrun
    exact ⟨rfl, hfits, .inl ⟨content, rfl⟩⟩
  rw [hall c hfits] at hrun
  have hend : q = c.pos + declared.toNat := by
    have hcursor := (congrArg Outcome.cursor hrun).symm.trans (concluded_cursor _ _ _ _ _)
    exact congrArg Cursor.pos hcursor
  obtain ⟨r, hr, -, hstop, -⟩ := Payload.read_orderly disassemble hs kind c.pos
    (c.part declared.toNat) (hc.part (by omega) hfits) (Int.le_refl _)
  refine ⟨hend, by omega, .inr ⟨label, kind, r, hall, ?_, by rw [hend]; exact hstop⟩⟩
  exact .of_result (concluded_ok (congrArg Outcome.result hrun)) hr

/-! ## §3. Attributes. -/

/-- An attribute is an envelope and what it encloses, one behind the other. -/
theorem read_goes_iff (pool : Pool) (disassemble : Bool) {c : Cursor} (hc : c.InBounds)
    {a : Attribute} {q : Int} :
    (read pool disassemble).Goes c a q ↔
      readEnvelope.Goes c (a.start, a.nameIndex, a.declared) (c.pos + 6) ∧
      a.name = pool.utf8? a.nameIndex.toNat ∧
      (readEnclosed a.name (Payload.read disassemble (read pool disassemble)) a.start a.nameIndex
        a.declared).Goes (c.goto (c.pos + 6)) a.payload q := by
  have hread := read_eq_body pool disassemble hc
  rw [body_eq_envelope] at hread
  simp only [Goes, hread]
  constructor
  · intro hgoes
    obtain ⟨⟨start, nameIndex, declared⟩, q₁, henvelope, hrest⟩ :=
      readEnvelope_stable.goes_bind hc hgoes
    obtain ⟨hle, hstop⟩ := readEnvelope_stable.goes_le hc henvelope
    obtain ⟨-, rfl⟩ := readEnvelope_end hc henvelope
    obtain ⟨payload, q₂, henclosed, notices, hpure⟩ :=
      (readEnclosed_stable disassemble (read_stable pool disassemble) _ _ _ _).goes_bind
        (hc.goto hle hstop) hrest
    cases hpure
    exact ⟨henvelope, rfl, henclosed⟩
  · obtain ⟨start, nameIndex, name, declared, payload⟩ := a
    rintro ⟨henvelope, hname, henclosed⟩
    obtain rfl : name = pool.utf8? nameIndex.toNat := hname
    exact Goes.bind henvelope (Goes.bind henclosed (Goes.pure _ _))

end Attribute

end JavaClass
