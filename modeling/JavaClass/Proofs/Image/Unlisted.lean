/-
  JavaClass.Proofs.Image.Unlisted — classes decoded with and without instructions.

  Whether code is disassembled is asked once for a whole class, and passed down to every attribute.
  Both answers give the same class up to the listings in its code, at any depth, and the same fault
  if there is none (`Image.decode_unlisted`).

  One thing outside an attribute is made from it: the declaration of a method names what its
  attribute "Exceptions" lists.  That attribute holds no code, so the declaration stays.
-/
import JavaClass.Image.Decoder
import JavaClass.Proofs.Attribute.Unlisted

namespace JavaClass

open Decoder

/-! ## §1. Members. -/

namespace Attribute

theorem unlist_name (a : Attribute) : a.unlist.name = a.name := by
  cases a
  rw [unlist]

theorem find?_unlistAll (attributes : List Attribute) (name : String) :
    find? (unlistAll attributes) name = (find? attributes name).map unlist := by
  rw [unlistAll_eq_map]
  unfold find?
  rw [List.find?_map]
  congr 2
  funext a
  simp only [Function.comp_apply, unlist_name]

end Attribute

namespace Member

/-- A member without the listings of its code. -/
def unlist (m : Member) : Member := { m with attributes := Attribute.unlistAll m.attributes }

theorem unlist_unlist (m : Member) : m.unlist.unlist = m.unlist := by
  simp only [unlist, Attribute.unlistAll_unlistAll]

/-- What a method throws is told without its code. -/
theorem thrownNames_unlistAll (pool : Pool) (attributes : List Attribute) :
    thrownNames pool (Attribute.unlistAll attributes) = thrownNames pool attributes := by
  unfold thrownNames
  rw [Attribute.find?_unlistAll]
  rcases Attribute.find? attributes "Exceptions" with _ | ⟨start, nameIndex, name, declared, payload⟩
  · rfl
  · rw [Option.map_some, Attribute.unlist]
    cases payload <;> simp only [Payload.unlist]

theorem readWith_unlists (pool : Pool)
    {declare : UInt16 → String → Option String → List Attribute → String}
    (hdeclare : ∀ access name descriptor attributes,
      declare access name descriptor (Attribute.unlistAll attributes) =
        declare access name descriptor attributes) :
    Unlists unlist (readWith pool true declare) (readWith pool false declare) := by
  refine .after fun start => .after fun access => .after fun nameIndex =>
    .after fun descriptorIndex => .bind (Attribute.readAll_unlists pool) fun attributes =>
    .after fun span => .pure ?_
  rw [hdeclare]
  rfl

theorem readField_unlists (pool : Pool) :
    Unlists unlist (readField pool true) (readField pool false) :=
  readWith_unlists pool fun _ _ _ _ => rfl

theorem readMethod_unlists (pool : Pool) :
    Unlists unlist (readMethod pool true) (readMethod pool false) := by
  refine readWith_unlists pool fun access name descriptor attributes => ?_
  rw [thrownNames_unlistAll]

end Member

/-! ## §2. Classes. -/

namespace Image

/-- A class without the listings of its code. -/
def unlist (m : Image) : Image :=
  { m with
    fields := m.fields.map Member.unlist
    methods := m.methods.map Member.unlist
    attributes := Attribute.unlistAll m.attributes }

theorem unlist_unlist (m : Image) : m.unlist.unlist = m.unlist := by
  have hmembers : ∀ members : List Member,
      (members.map Member.unlist).map Member.unlist = members.map Member.unlist := by
    intro members
    rw [List.map_map]
    exact List.map_congr_left fun member _ => member.unlist_unlist
  simp only [unlist, hmembers, Attribute.unlistAll_unlistAll]

theorem read_unlists : Unlists unlist (read true) (read false) :=
  .after fun _ => .after fun _ => .after fun _ => .after fun _ => .after fun _ => .after fun pool =>
    .after fun _ => .after fun _ => .after fun _ => .after fun _ => .after fun _ =>
    .after fun fieldCount => .bind (.many fieldCount.toNat (Member.readField_unlists pool)) fun _ =>
    .after fun methodCount => .bind (.many methodCount.toNat (Member.readMethod_unlists pool)) fun _ =>
    .bind (Attribute.readAll_unlists pool) fun _ => .after fun _ => .after fun _ => .pure rfl

/-- **Disassembling changes nothing but the listings.**  With and without it, any data gives the same
    fault, or classes that are the same once the listings of all code are left out; and apart from
    those about code that is cut, the notices are the same, in the same order. -/
theorem decode_unlisted (data : Array UInt8) :
    ((∃ fault, (decode data true).result = .error fault ∧
        (decode data false).result = .error fault) ∨
      ∃ m m', (decode data true).result = .ok m ∧ (decode data false).result = .ok m' ∧
        m' = m.unlist ∧ m'.unlist = m.unlist) ∧
    Notice.unlisted (decode data false).notices = Notice.unlisted (decode data true).notices := by
  obtain ⟨hresult, -, hnotices⟩ := read_unlists (Cursor.ofBytes data)
  refine ⟨?_, hnotices⟩
  rcases hlisted : (decode data true).result with fault | m
  · refine .inl ⟨fault, rfl, ?_⟩
    show (read false (Cursor.ofBytes data)).result = .error fault
    rw [hresult, show (read true (Cursor.ofBytes data)).result = .error fault from hlisted]
    rfl
  · refine .inr ⟨m, m.unlist, rfl, ?_, rfl, m.unlist_unlist⟩
    show (read false (Cursor.ofBytes data)).result = .ok m.unlist
    rw [hresult, show (read true (Cursor.ofBytes data)).result = .ok m from hlisted]
    rfl

end Image

end JavaClass
