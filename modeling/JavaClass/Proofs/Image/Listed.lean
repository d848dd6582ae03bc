/-
  JavaClass.Proofs.Image.Listed — the instructions of code and its length.

  A disassembly tiles its code: its instructions stand one behind the other from the start, and up
  to the end unless the code ends within one.  Code in a class has a window of the length that it
  declares, so wherever its disassembly is not cut, the lengths of its instructions add up to that
  length (`disassembly_tiles_code`).  This is so for all code in a class, because what holds of
  every payload that is read holds throughout the class (`decode_throughout`).
-/
import JavaClass.Proofs.Attribute.Throughout
import JavaClass.Proofs.Image.Isolation
import JavaClass.Proofs.Instruction.Course

namespace JavaClass

open Decoder

/-! ## §1. Members and classes. -/

section

variable {disassemble : Bool} {P : Payload → Prop}

theorem Attribute.readAll_throughout (pool : Pool) (h : Payload.Invariant disassemble P) :
    (readAll pool disassemble).Ensures fun attributes => ∀ b ∈ familyAll attributes, P b.payload :=
  readAttributes_ensures (read_throughout pool h)

theorem Member.readWith_throughout (pool : Pool) (h : Payload.Invariant disassemble P)
    (declare : UInt16 → String → Option String → List Attribute → String) :
    (readWith pool disassemble declare).Ensures fun m => ∀ b ∈ m.family, P b.payload :=
  .after .position fun start => .after (.u2 _) fun _ => .after (.u2 _) fun _ =>
    .after (.u2 _) fun _ => .bind (Attribute.readAll_throughout pool h) fun _ hall =>
    .after (.spanFrom start) fun _ => .pure hall

theorem Image.readBody_throughout (pool : Pool) (h : Payload.Invariant disassemble P) :
    (readBody pool disassemble).Ensures fun body => ∀ b ∈ body.family, P b.payload := by
  refine .after (.u2 _) fun _ => .after (.u2 _) fun _ => .after (.u2 _) fun _ =>
    .after (.u2 _) fun count => .after (.many count.toNat (.u2 _)) fun _ =>
    .after (.u2 _) fun fieldCount =>
    .bind (.many fieldCount.toNat (Member.readWith_throughout pool h _)) fun fields hfields =>
    .after (.u2 _) fun methodCount =>
    .bind (.many methodCount.toNat (Member.readWith_throughout pool h _)) fun methods hmethods =>
    .bind (Attribute.readAll_throughout pool h) fun attributes hattributes => .pure ?_
  intro b hb
  obtain hb | hb := List.mem_append.mp hb
  · obtain ⟨m, hm, hb⟩ := List.mem_flatMap.mp hb
    exact hfields m hm b hb
  obtain hb | hb := List.mem_append.mp hb
  · obtain ⟨m, hm, hb⟩ := List.mem_flatMap.mp hb
    exact hmethods m hm b hb
  · exact hattributes b hb

/-- What holds of each payload holds of all payloads of a class. -/
theorem Image.decode_throughout (h : Payload.Invariant disassemble P) {data : Array UInt8}
    {m : Image} (hm : (decode data disassemble).result = .ok m) : ∀ b ∈ m.family, P b.payload := by
  obtain ⟨st, rfl⟩ := staged_of_decode hm
  have hin : ((Cursor.ofBytes data).goto st.headEnd).InBounds :=
    (Cursor.InBounds.ofBytes data).goto st.headStart_le (Int.le_trans st.headEnd_le st.bodyEnd_le)
  exact (readBody_throughout _ h _ hin st.body (by rw [st.readBody_eq])).2

end

/-! ## §2. Code. -/

namespace Listing

/-- Unless it is cut, the listing takes up all of `n` bytes of code. -/
def Covers (l : Listing) (n : Nat) : Prop := l.stopped = none → l.total = n

theorem covers_of_read {c : Cursor} (hc : c.InBounds) {n : Nat} (hn : c.stop = c.pos + n)
    {l : Listing} (h : (read c).result = .ok l) : l.Covers n := by
  obtain ⟨l', hl', hcourse⟩ := read_course hc
  obtain rfl : l' = l := Except.ok.inj (hl'.symm.trans h)
  intro hstopped
  have htotal := hcourse.total_of_ended hstopped
  omega

end Listing

theorem Code.array_covers (n : Nat) :
    (window "code array" n >>= ofArray true n).Ensures fun array => array.2.2.Covers n := by
  intro c hc array hresult
  refine ⟨((array_stable true n).ensures c hc array hresult).1, ?_⟩
  by_cases hshort : c.stop < c.pos + n
  · rw [window_bind_of_short hshort] at hresult
    cases hresult
  · have hfits : c.pos + n ≤ c.stop := by omega
    obtain ⟨listing, after, notices, hrun⟩ := Listing.read_eq_ok (c.part n)
    rw [window_bind_of_enough hfits, ofArray_listed hrun] at hresult
    cases hresult
    exact Listing.covers_of_read (hc.part (by omega) hfits) rfl (by rw [hrun])

theorem Code.read_covers {inner : Decoder Attribute} (h : inner.Ensures fun _ => True) :
    (Code.read true inner).Ensures fun code => code.listing.Covers code.length.toNat := by
  rw [Code.read_eq]
  have hattributes : (readAttributes inner).Ensures fun _ => True :=
    .after (.u2 _) fun count => (Ensures.many count.toNat h).mono fun _ _ => trivial
  exact .after (.u2 _) fun _ => .after (.u2 _) fun _ => .after (.u4 _) fun length =>
    .bind (array_covers length.toNat) fun _ harray =>
    .after (ExceptionHandler.readRows_stable _) fun _ =>
    .bind hattributes fun _ _ => .pure harray

namespace Payload

/-- If the payload is code that is listed whole, its instructions have the length that it
    declares. -/
def Listed (payload : Payload) : Prop :=
  ∀ body, payload = .code body → body.listing.Covers body.length.toNat

theorem listed_invariant : Invariant true Listed := by
  have hraw : ∀ content, Listed (.raw content) := by
    rintro content body ⟨⟩
  refine ⟨hraw, ?_⟩
  intro inner hinner kind w hw payload hresult
  by_cases hcode : kind = .code
  · subst hcode
    have hread : (read true inner .code).Ensures Listed := by
      refine .bind (Code.read_covers hinner) fun code hcovers => .pure ?_
      rintro body ⟨⟩
      exact hcovers
    exact (hread w hw payload hresult).2
  by_cases hrecord : kind = .recordComponents
  · subst hrecord
    have hread : (read true inner .recordComponents).Always Listed :=
      .bind fun _ => .bind fun _ => .pure fun _ h => by cases h
    exact hread w payload hresult
  -- No other payload is code.
  · have hplain := read_plain true inner hcode hrecord w payload hresult
    rintro body rfl
    exact absurd hplain id

end Payload

/-- The code of a payload, if it is code. -/
def Payload.code? : Payload → Option Code
  | .code body => some body
  | _ => none

/-- Where the disassembly of code stopped, and the length of the code. -/
def Code.ending (code : Code) : Option Fault × UInt32 := (code.listing.stopped, code.length)

/-! ## §3. Disassembly. -/

namespace Listing

/-- **Disassembly tiles code.**  From any cursor in bounds, a disassembly ends.  Its instructions
    start at offset 0, each behind the one before it, none of them empty, and each is what is read
    alone at its offset in the same code.  They end where the code ends, or the code ends within the
    instruction behind them and lacks bytes where the cursor is left.  So in every attribute and in
    every class, at any depth, the instructions of code whose disassembly is not cut add up to the
    length that the code declares. -/
theorem disassembly_tiles_code :
    (∀ c : Cursor, c.InBounds → ∃ listing, (read c).result = .ok listing ∧
      Tiles Instruction.place 0 listing.instructions listing.total ∧
      (∀ i ∈ listing.instructions, 1 ≤ i.length ∧
        (Instruction.read c.pos).Goes (c.goto (c.pos + i.offset)) i (c.pos + i.offset + i.length)) ∧
      (listing.stopped = none → listing.total = c.stop - c.pos) ∧
      ∀ fault, listing.stopped = some fault →
        listing.total < c.stop - c.pos ∧
        (∃ what size left, fault = .truncated what size left (read c).cursor.pos) ∧
        c.pos + listing.total ≤ (read c).cursor.pos ∧ (read c).cursor.pos ≤ c.stop) ∧
    (∀ (pool : Pool) (c : Cursor) (a : Attribute), c.InBounds →
      (Attribute.read pool true c).result = .ok a → ∀ b ∈ a.family, ∀ code, b.payload = .code code →
        code.listing.stopped = none → code.listing.total = code.length.toNat) ∧
    ∀ (data : Array UInt8) (m : Image), (Image.decode data true).result = .ok m →
      ∀ b ∈ m.family, ∀ code, b.payload = .code code →
        code.listing.stopped = none → code.listing.total = code.length.toNat := by
  refine ⟨?_, ?_, ?_⟩
  · intro c hc
    obtain ⟨listing, hresult, hcourse⟩ := read_course hc
    have htiles := hcourse.tiles
    rw [Int.sub_self, Int.zero_add] at htiles
    refine ⟨listing, hresult, htiles, ?_, ?_, ?_⟩
    · intro i hi
      obtain ⟨-, hread⟩ := hcourse.readAt i hi
      exact ⟨hread.pos, hread.goes⟩
    · intro hstopped
      have htotal := hcourse.total_of_ended hstopped
      omega
    · intro fault hstopped
      obtain ⟨hless, hle, hstop, hfault⟩ := hcourse.fault_eq hc hstopped
      exact ⟨by omega, hfault, hle, hstop⟩
  · intro pool c a hc hresult
    exact (Attribute.read_throughout pool Payload.listed_invariant c hc a hresult).2
  · intro data m hm
    exact Image.decode_throughout Payload.listed_invariant hm

/-- The specimen has code, of two bytes, that is listed whole. -/
theorem specimen_code :
    ∃ m, (Image.decode Image.specimen true).result = .ok m ∧ ∃ b ∈ m.family, ∃ code,
      b.payload = .code code ∧ code.listing.stopped = none ∧ code.length = 2 := by
  obtain ⟨m, hm, -⟩ := Image.specimen_decodes
  have hcodes : (Image.decode Image.specimen true).result.toOption.map (fun m =>
      (m.family.filterMap (·.payload.code?)).map Code.ending) = some [(none, 2)] := by
    decide +kernel
  rw [hm] at hcodes
  have hlist : (m.family.filterMap (·.payload.code?)).map Code.ending = [(none, 2)] :=
    Option.some.inj hcodes
  have hmem : (none, 2) ∈ (m.family.filterMap (·.payload.code?)).map Code.ending := by
    rw [hlist]
    exact List.mem_cons_self
  obtain ⟨code, hcode, hending⟩ := List.mem_map.mp hmem
  obtain ⟨hstopped, hlength⟩ := Prod.mk.inj hending
  obtain ⟨b, hb, hpayload⟩ := List.mem_filterMap.mp hcode
  refine ⟨m, hm, b, hb, code, ?_, hstopped, hlength⟩
  cases hbody : b.payload <;> rw [hbody] at hpayload <;> cases hpayload
  rfl

/-- The names that the code of the specimen and the attribute inside it have. -/
def codePool : Pool :=
  ⟨⟨0, 0⟩, #[.unused, .constant ⟨⟨0, 0⟩, .utf8 "A" []⟩, .constant ⟨⟨0, 0⟩, .utf8 "Code" []⟩], #[]⟩

/-- Code that ends in the blanks of a switch, and the code of the specimen, as an attribute and in
    its class. -/
theorem disassembly_tiles_specimen :
    (∃ listing, (read (.ofBytes (oddCode.extract 0 3))).result = .ok listing ∧
      (∃ i ∈ listing.instructions, i.length = 2 ∧
        (Instruction.read 0).Goes (.ofBytes (oddCode.extract 0 3)) i 2) ∧
      ∃ fault, listing.stopped = some fault ∧ listing.total < 3 ∧
        ∃ what size left, fault = .truncated what size left 3) ∧
    (∃ a code,
      (Attribute.read codePool true ((Cursor.ofBytes Image.specimen).goto 61)).result = .ok a ∧
      a.payload = .code code ∧ code.listing.stopped = none ∧ code.listing.total = 2) ∧
    ∃ m, (Image.decode Image.specimen true).result = .ok m ∧ ∃ b ∈ m.family, ∃ code,
      b.payload = .code code ∧ code.listing.stopped = none ∧ code.listing.total = 2 := by
  obtain ⟨hcursor, hattribute, himage⟩ := disassembly_tiles_code
  refine ⟨?_, ?_, ?_⟩
  · obtain ⟨listing, hresult, -, hall, -, hfault⟩ :=
      hcursor _ (Cursor.InBounds.ofBytes (oddCode.extract 0 3))
    obtain rfl := Except.ok.inj (read_oddCode_cut.symm.trans hresult)
    obtain ⟨hless, hblame, -⟩ := hfault _ rfl
    exact ⟨_, read_oddCode_cut, ⟨_, List.mem_cons_self, rfl, (hall _ List.mem_cons_self).2⟩, _, rfl,
      hless, hblame⟩
  · have hread : ∃ a code, (Attribute.read codePool true
        ((Cursor.ofBytes Image.specimen).goto 61)).result = .ok a ∧ a.payload = .code code ∧
        code.listing.stopped = none ∧ code.length = 2 := ⟨_, _, rfl, rfl, rfl, rfl⟩
    obtain ⟨a, code, hresult, hcode, hstopped, hlength⟩ := hread
    have hin : ((Cursor.ofBytes Image.specimen).goto 61).InBounds :=
      (Cursor.InBounds.ofBytes Image.specimen).goto (by decide) (by decide)
    have ha : a ∈ a.family := by
      rw [Attribute.family_eq]
      exact List.mem_cons_self
    have htotal := hattribute codePool _ a hin hresult a ha code hcode hstopped
    rw [hlength] at htotal
    exact ⟨a, code, hresult, hcode, hstopped, htotal⟩
  · obtain ⟨m, hm, b, hb, code, hcode, hstopped, hlength⟩ := specimen_code
    have htotal := himage Image.specimen m hm b hb code hcode hstopped
    rw [hlength] at htotal
    exact ⟨m, hm, b, hb, code, hcode, hstopped, htotal⟩

end Listing

end JavaClass
