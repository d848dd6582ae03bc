/-
  JavaClass.Proofs.Annotation.RoundTrip — reading annotations undoes writing them.

  The bytes of a value say nothing about where they stand, so a value that is read back differs from
  the one that was written in its places only.  `settle p` puts them right: it lays a tree of values
  out from `p` on, each part behind the bytes of the parts before it, by the lengths that the kinds of
  its nodes say.

  Main statement (`Annotation.read_serialize`): wherever the bytes of a tree stand, and whatever
  stands before and behind them, reading gives the tree laid out from there, and ends behind them.
  The same holds of lists of annotations, of the annotations of parameters, and of type annotations
  with any type of target.
-/
import JavaClass.Proofs.Relocation.Stable
import JavaClass.Proofs.Serial.Account
import JavaClass.Proofs.Serial.Annotation

namespace JavaClass

open Decoder

variable {p : Int}

/-! ## §1. Trees laid out. -/

/-- The place of a value. -/
def ElementValue.span : ElementValue → Span
  | .literal span .. | .enumConstant span .. | .cls span _ | .nested span _ | .array span _ => span

mutual

/-- The same value with its bytes from `p` on. -/
def ElementValue.settle : ElementValue → Int → ElementValue
  | .literal _ tag index, p => .literal ⟨p, 3⟩ tag index
  | .enumConstant _ typeName constName, p => .enumConstant ⟨p, 5⟩ typeName constName
  | .cls _ index, p => .cls ⟨p, 3⟩ index
  | .nested _ value, p =>
    let value := value.settle (p + 1)
    .nested ⟨p, 1 + value.span.length⟩ value
  | .array _ values, p =>
    let values := ElementValue.settleAll values (p + 3)
    .array ⟨p, 3 + Span.total ElementValue.span values⟩ values

/-- The same values, the first with its bytes from `p` on, and each with its bytes behind those of the
    one before it. -/
def ElementValue.settleAll : List ElementValue → Int → List ElementValue
  | [], _ => []
  | value :: rest, p =>
    let value := value.settle p
    value :: ElementValue.settleAll rest (p + value.span.length)

/-- The same annotation with its bytes from `p` on. -/
def Annotation.settle : Annotation → Int → Annotation
  | ⟨_, typeIndex, pairs⟩, p =>
    let pairs := ElementPair.settleAll pairs (p + 4)
    ⟨⟨p, 4 + Span.total ElementPair.span pairs⟩, typeIndex, pairs⟩

/-- The same named value with its bytes from `p` on. -/
def ElementPair.settle : ElementPair → Int → ElementPair
  | ⟨_, name, value⟩, p =>
    let value := value.settle (p + 2)
    ⟨⟨p, 2 + value.span.length⟩, name, value⟩

/-- The same named values, the first with its bytes from `p` on, and each with its bytes behind those
    of the one before it. -/
def ElementPair.settleAll : List ElementPair → Int → List ElementPair
  | [], _ => []
  | pair :: rest, p =>
    let pair := pair.settle p
    pair :: ElementPair.settleAll rest (p + pair.span.length)

end

mutual

/-- No list in the value has more parts than a count of two bytes can say. -/
def ElementValue.Writable : ElementValue → Prop
  | .nested _ value => value.Writable
  | .array _ values => values.length ≤ 65535 ∧ ElementValue.WritableAll values
  | _ => True

/-- All values can be written. -/
def ElementValue.WritableAll : List ElementValue → Prop
  | [] => True
  | value :: rest => value.Writable ∧ ElementValue.WritableAll rest

/-- No list in the annotation has more parts than a count of two bytes can say. -/
def Annotation.Writable : Annotation → Prop
  | ⟨_, _, pairs⟩ => pairs.length ≤ 65535 ∧ ElementPair.WritableAll pairs

/-- The value behind the name can be written. -/
def ElementPair.Writable : ElementPair → Prop
  | ⟨_, _, value⟩ => value.Writable

/-- All named values can be written. -/
def ElementPair.WritableAll : List ElementPair → Prop
  | [] => True
  | pair :: rest => pair.Writable ∧ ElementPair.WritableAll rest

end

mutual

theorem ElementValue.span_settle :
    ∀ (value : ElementValue) (p : Int), (value.settle p).span = ⟨p, value.serialize.length⟩
  | .literal _ tag index, p => by
    simp [ElementValue.settle, ElementValue.span, ElementValue.serialize, Serial.letter]
  | .enumConstant _ typeName constName, p => by
    simp [ElementValue.settle, ElementValue.span, ElementValue.serialize, Serial.letter]
  | .cls _ index, p => by
    simp [ElementValue.settle, ElementValue.span, ElementValue.serialize, Serial.letter]
  | .nested _ value, p => by
    have hvalue := Annotation.span_settle value (p + 1)
    simp [ElementValue.settle, ElementValue.span, ElementValue.serialize, Serial.letter, hvalue]
  | .array _ values, p => by
    have hvalues := ElementValue.total_settleAll values (p + 3)
    simp [ElementValue.settle, ElementValue.span, ElementValue.serialize, Serial.letter, hvalues]
    omega

theorem ElementValue.total_settleAll :
    ∀ (values : List ElementValue) (p : Int),
      Span.total ElementValue.span (ElementValue.settleAll values p) =
        (ElementValue.serializeAll values).length
  | [], p => rfl
  | value :: rest, p => by
    have hrest := ElementValue.total_settleAll rest (p + value.serialize.length)
    simp [ElementValue.settleAll, Span.total, ElementValue.serializeAll,
      ElementValue.span_settle value p, hrest]

theorem Annotation.span_settle :
    ∀ (a : Annotation) (p : Int), (a.settle p).span = ⟨p, a.serialize.length⟩
  | ⟨_, typeIndex, pairs⟩, p => by
    have hpairs := ElementPair.total_settleAll pairs (p + 4)
    simp [hpairs, Annotation.settle, Annotation.serialize]
    omega

theorem ElementPair.span_settle :
    ∀ (pair : ElementPair) (p : Int), (pair.settle p).span = ⟨p, pair.serialize.length⟩
  | ⟨_, name, value⟩, p => by
    have hvalue := ElementValue.span_settle value (p + 2)
    simp [ElementPair.settle, ElementPair.serialize, hvalue]

theorem ElementPair.total_settleAll :
    ∀ (pairs : List ElementPair) (p : Int),
      Span.total ElementPair.span (ElementPair.settleAll pairs p) =
        (ElementPair.serializeAll pairs).length
  | [], p => rfl
  | pair :: rest, p => by
    have hrest := ElementPair.total_settleAll rest (p + pair.serialize.length)
    simp [ElementPair.settleAll, Span.total, ElementPair.serializeAll,
      ElementPair.span_settle pair p, hrest]

end

/-! ## §2. Values and annotations. -/

namespace Decoder

variable {α β : Type} {first second : List UInt8}

/-- The place from `start` to here, of `n` bytes, ends a structure. -/
theorem Recovers.spanFrom_map {start n : Int} (f : Span → β) (h : p = start + n) :
    (Decoder.spanFrom start >>= fun span => Pure.pure (f span)).Recovers p [] (f ⟨start, n⟩) := by
  have hlength : p - start = n := by omega
  have hspan := (Recovers.spanFrom (p := p) start).map f
  rwa [hlength] at hspan

theorem Recovers.many_cons {d : Decoder α} {a : α} {rest : List α} {count : Nat}
    (ha : d.Recovers p first a) (hrest : (Decoder.many count d).Recovers (p + first.length) second rest) :
    (Decoder.many (count + 1) d).Recovers p (first ++ second) (a :: rest) := by
  rw [many_succ]
  exact ha.bind (hrest.map (a :: ·))

/-- A count of two bytes, and what follows it. -/
theorem Recovers.count_bind {next : UInt16 → Decoder β} {b : β} (what : String) {n : Nat}
    (hn : n ≤ 65535) (h : ∀ count : UInt16, count.toNat = n → (next count).Recovers (p + 2) second b) :
    (Decoder.u2 what >>= next).Recovers p (Serial.u2 (UInt16.ofNat n) ++ second) b := by
  refine (Recovers.u2 what (UInt16.ofNat n)).bind ?_
  rw [Serial.length_u2]
  refine h _ ?_
  rw [UInt16.toNat_ofNat']
  omega

/-- A count of one byte, and what follows it. -/
theorem Recovers.shortCount_bind {next : UInt8 → Decoder β} {b : β} (what : String) {n : Nat}
    (hn : n ≤ 255) (h : ∀ count : UInt8, count.toNat = n → (next count).Recovers (p + 1) second b) :
    (Decoder.u1 what >>= next).Recovers p (Serial.u1 (UInt8.ofNat n) ++ second) b := by
  refine (Recovers.u1 what (UInt8.ofNat n)).bind ?_
  rw [Serial.length_u1]
  refine h _ ?_
  rw [UInt8.toNat_ofNat']
  omega

/-- Decoders that agree wherever they can read recover the same. -/
theorem Recovers.congr {d d' : Decoder α} {a : α} (hd : ∀ c : Cursor, c.InBounds → d c = d' c)
    (h : d'.Recovers p first a) : d.Recovers p first a := by
  intro c hc hpos
  obtain ⟨notices, hrun⟩ := h c hc hpos
  exact ⟨notices, (hd c hc.inBounds).trans hrun⟩

end Decoder

theorem LiteralTag.ofLetter?_letter (tag : LiteralTag) :
    LiteralTag.ofLetter? (Char.ofNat (UInt8.ofNat tag.letter.toNat).toNat) = some tag := by
  cases tag with
  | base type => cases type <;> rfl
  | string => rfl

namespace ElementValue

/-- Values are read by their equation. -/
theorem read_eq_body {c : Cursor} (hc : c.InBounds) : read c = body read c :=
  fix_eq body_recurs hc

/-- A value is recovered if the rest of it is recovered behind its tag. -/
theorem read_of_body {content : List UInt8} {value : ElementValue}
    (h : (body read).Recovers p content value) : read.Recovers p content value :=
  .congr (fun _ hc => read_eq_body hc) h

theorem read_literal (tag : LiteralTag) (index : UInt16) :
    read.Recovers p (Serial.letter tag.letter ++ Serial.u2 index) (literal ⟨p, 3⟩ tag index) := by
  refine read_of_body (.position_bind ((Recovers.u1 _ _).bind ?_))
  rw [LiteralTag.ofLetter?_letter]
  refine (Recovers.u2 _ index).bind_nil (.spanFrom_map (fun span => literal span tag index) ?_)
  simp only [Serial.length_u1, Serial.length_u2]
  omega

theorem read_enumConstant (typeName constName : UInt16) :
    read.Recovers p (Serial.letter 'e' ++ (Serial.u2 typeName ++ Serial.u2 constName))
      (enumConstant ⟨p, 5⟩ typeName constName) := by
  refine read_of_body (.position_bind ((Recovers.u1 _ 0x65).bind ?_))
  refine (Recovers.u2 _ typeName).bind ((Recovers.u2 _ constName).bind_nil
    (.spanFrom_map (fun span => enumConstant span typeName constName) ?_))
  simp only [Serial.length_u1, Serial.length_u2]
  omega

theorem read_cls (index : UInt16) :
    read.Recovers p (Serial.letter 'c' ++ Serial.u2 index) (cls ⟨p, 3⟩ index) := by
  refine read_of_body (.position_bind ((Recovers.u1 _ 0x63).bind ?_))
  refine (Recovers.u2 _ index).bind_nil (.spanFrom_map (fun span => cls span index) ?_)
  simp only [Serial.length_u1, Serial.length_u2]
  omega

/-- An annotation is a value behind its tag. -/
theorem read_nested {content : List UInt8} {value : Annotation}
    (h : Annotation.read.Recovers (p + 1) content value) :
    read.Recovers p (Serial.letter '@' ++ content) (nested ⟨p, 1 + content.length⟩ value) := by
  refine read_of_body (.position_bind ((Recovers.u1 _ 0x40).bind ?_))
  rw [Serial.length_u1]
  refine Recovers.bind_nil h (.spanFrom_map (fun span => nested span value) ?_)
  omega

/-- Values behind their tag and their number are one value. -/
theorem read_array {content : List UInt8} {values : List ElementValue} {n : Nat} (hn : n ≤ 65535)
    (h : (many n read).Recovers (p + 3) content values) :
    read.Recovers p (Serial.letter '[' ++ (Serial.u2 (UInt16.ofNat n) ++ content))
      (array ⟨p, 3 + content.length⟩ values) := by
  refine read_of_body (.position_bind ((Recovers.u1 _ 0x5B).bind (.count_bind _ hn ?_)))
  intro count hcount
  have hstart : p + (Serial.u1 0x5B).length + 2 = p + 3 := by
    rw [Serial.length_u1]
    omega
  rw [hcount, hstart]
  refine h.bind_nil (.spanFrom_map (fun span => array span values) ?_)
  omega

end ElementValue

/-- A value behind its name is a named value. -/
theorem ElementPair.read_of_value {content : List UInt8} {value : ElementValue} (name : UInt16)
    (h : ElementValue.read.Recovers (p + 2) content value) :
    (read ElementValue.read).Recovers p (Serial.u2 name ++ content)
      ⟨⟨p, 2 + content.length⟩, name, value⟩ := by
  refine .position_bind ((Recovers.u2 _ name).bind ?_)
  rw [Serial.length_u2]
  refine h.bind_nil (.spanFrom_map (fun span => (⟨span, name, value⟩ : ElementPair)) ?_)
  omega

/-- Named values behind their number. -/
theorem ElementPair.readAll_of_many {content : List UInt8} {pairs : List ElementPair} {n : Nat}
    (hn : n ≤ 65535)
    (h : (many n (ElementPair.read ElementValue.read)).Recovers (p + 2) content pairs) :
    (readAll ElementValue.read).Recovers p (Serial.u2 (UInt16.ofNat n) ++ content) pairs := by
  refine .count_bind _ hn fun count hcount => ?_
  rw [hcount]
  exact h

/-- Named values behind a type and their number are an annotation. -/
theorem Annotation.read_of_pairs {content : List UInt8} {pairs : List ElementPair} {n : Nat}
    (typeIndex : UInt16) (hn : n ≤ 65535)
    (h : (many n (ElementPair.read ElementValue.read)).Recovers (p + 4) content pairs) :
    read.Recovers p (Serial.u2 typeIndex ++ (Serial.u2 (UInt16.ofNat n) ++ content))
      ⟨⟨p, 4 + content.length⟩, typeIndex, pairs⟩ := by
  have hpairs : (ElementPair.readAll ElementValue.read).Recovers (p + 2)
      (Serial.u2 (UInt16.ofNat n) ++ content) pairs := by
    refine ElementPair.readAll_of_many hn ?_
    rw [Int.add_assoc]
    exact h
  refine .position_bind ((Recovers.u2 _ typeIndex).bind ?_)
  rw [Serial.length_u2]
  refine hpairs.bind_nil (.spanFrom_map (fun span => (⟨span, typeIndex, pairs⟩ : Annotation)) ?_)
  simp only [List.length_append, Serial.length_u2]
  omega

mutual

theorem ElementValue.read_recovers :
    ∀ (value : ElementValue) (p : Int), value.Writable →
      ElementValue.read.Recovers p value.serialize (value.settle p)
  | .literal _ tag index, p, _ => by
    rw [ElementValue.serialize, ElementValue.settle]
    exact ElementValue.read_literal tag index
  | .enumConstant _ typeName constName, p, _ => by
    rw [ElementValue.serialize, ElementValue.settle, List.append_assoc]
    exact ElementValue.read_enumConstant typeName constName
  | .cls _ index, p, _ => by
    rw [ElementValue.serialize, ElementValue.settle]
    exact ElementValue.read_cls index
  | .nested _ value, p, h => by
    rw [ElementValue.serialize, ElementValue.settle, Annotation.span_settle]
    rw [ElementValue.Writable] at h
    have hvalue := Annotation.read_recovers value (p + 1) h
    exact ElementValue.read_nested hvalue
  | .array _ values, p, h => by
    rw [ElementValue.serialize, ElementValue.settle, ElementValue.total_settleAll, List.append_assoc]
    rw [ElementValue.Writable] at h
    exact ElementValue.read_array h.1 (ElementValue.readMany_recovers values (p + 3) h.2)

theorem ElementValue.readMany_recovers :
    ∀ (values : List ElementValue) (p : Int), ElementValue.WritableAll values →
      (many values.length ElementValue.read).Recovers p (ElementValue.serializeAll values)
        (ElementValue.settleAll values p)
  | [], _, _ => .pure []
  | value :: rest, p, h => by
    rw [ElementValue.WritableAll] at h
    rw [ElementValue.serializeAll, ElementValue.settleAll, ElementValue.span_settle]
    exact .many_cons (ElementValue.read_recovers value p h.1)
      (ElementValue.readMany_recovers rest _ h.2)

theorem Annotation.read_recovers :
    ∀ (a : Annotation) (p : Int), a.Writable →
      Annotation.read.Recovers p a.serialize (a.settle p)
  | ⟨_, typeIndex, pairs⟩, p, h => by
    obtain ⟨hcount, hpairs⟩ := h
    have hrecovers := ElementPair.readMany_recovers pairs (p + 4) hpairs
    simp only [List.append_assoc, Annotation.serialize, Annotation.settle, ElementPair.total_settleAll]
    exact Annotation.read_of_pairs typeIndex hcount hrecovers

theorem ElementPair.read_recovers :
    ∀ (pair : ElementPair) (p : Int), pair.Writable →
      (ElementPair.read ElementValue.read).Recovers p pair.serialize (pair.settle p)
  | ⟨_, name, value⟩, p, h => by
    rw [ElementPair.Writable] at h
    rw [ElementPair.serialize, ElementPair.settle, ElementValue.span_settle]
    exact ElementPair.read_of_value name (ElementValue.read_recovers value (p + 2) h)

theorem ElementPair.readMany_recovers :
    ∀ (pairs : List ElementPair) (p : Int), ElementPair.WritableAll pairs →
      (many pairs.length (ElementPair.read ElementValue.read)).Recovers p
        (ElementPair.serializeAll pairs) (ElementPair.settleAll pairs p)
  | [], _, _ => .pure []
  | pair :: rest, p, h => by
    rw [ElementPair.WritableAll] at h
    rw [ElementPair.serializeAll, ElementPair.settleAll, ElementPair.span_settle]
    exact .many_cons (ElementPair.read_recovers pair p h.1)
      (ElementPair.readMany_recovers rest _ h.2)

end

/-! ## §3. Lists. -/

/-- Parts one behind the other from `p` on: each is laid out behind the bytes of the ones before it. -/
def settleEach {α β : Type} (serialize : α → List UInt8) (settle : α → Int → β) :
    List α → Int → List β
  | [], _ => []
  | a :: rest, p => settle a p :: settleEach serialize settle rest (p + (serialize a).length)

namespace Decoder

variable {α β : Type} {d : Decoder β} {serialize : α → List UInt8} {settle : α → Int → β}

theorem Recovers.settleEach (parts : List α)
    (h : ∀ a ∈ parts, ∀ p, d.Recovers p (serialize a) (settle a p)) (p : Int) :
    (Decoder.many parts.length d).Recovers p (parts.flatMap serialize)
      (JavaClass.settleEach serialize settle parts p) := by
  induction parts generalizing p with
  | nil => exact .pure []
  | cons a rest ih =>
    have hrest : ∀ b ∈ rest, ∀ p, d.Recovers p (serialize b) (settle b p) := by
      intro b hb
      exact h b (List.mem_cons_of_mem a hb)
    rw [List.flatMap_cons, JavaClass.settleEach]
    exact .many_cons (h a List.mem_cons_self p) (ih hrest _)

/-- Parts behind their number. -/
theorem Recovers.table (what : String) {parts : List α} (hcount : parts.length ≤ 65535)
    (h : ∀ a ∈ parts, ∀ p, d.Recovers p (serialize a) (settle a p)) (p : Int) :
    (Decoder.u2 what >>= fun count => Decoder.many count.toNat d).Recovers p
      (Serial.table serialize parts) (JavaClass.settleEach serialize settle parts (p + 2)) := by
  refine .count_bind what hcount fun count hcount => ?_
  rw [hcount]
  exact .settleEach parts h (p + 2)

/-- Parts behind their number of one byte. -/
theorem Recovers.shortTable (what : String) {parts : List α} (hcount : parts.length ≤ 255)
    (h : ∀ a ∈ parts, ∀ p, d.Recovers p (serialize a) (settle a p)) (p : Int) :
    (Decoder.u1 what >>= fun count => Decoder.many count.toNat d).Recovers p
      (Serial.shortTable serialize parts)
      (JavaClass.settleEach serialize settle parts (p + 1)) := by
  refine .shortCount_bind what hcount fun count hcount => ?_
  rw [hcount]
  exact .settleEach parts h (p + 1)

end Decoder

namespace Annotation

/-- The annotations of a list, the first of them from `p` on. -/
def settleAll (as : List Annotation) (p : Int) : List Annotation :=
  settleEach serialize settle as p

/-- The annotations of a parameter, behind their number at `p`. -/
def settleParameter (as : List Annotation) (p : Int) : Located (List Annotation) :=
  let as := settleAll as (p + 2)
  ⟨⟨p, 2 + Span.total Annotation.span as⟩, as⟩

theorem total_settleAll (as : List Annotation) (p : Int) :
    Span.total Annotation.span (settleAll as p) = (as.flatMap serialize).length := by
  induction as generalizing p with
  | nil => rfl
  | cons a rest ih =>
    have hrest := ih (p + a.serialize.length)
    unfold settleAll at hrest ⊢
    rw [settleEach, Span.total, span_settle, hrest, List.flatMap_cons, List.length_append,
      Int.natCast_add]

theorem readAll_recovers {as : List Annotation} (hcount : as.length ≤ 65535)
    (h : ∀ a ∈ as, a.Writable) (p : Int) :
    readAll.Recovers p (Serial.table serialize as) (settleAll as (p + 2)) :=
  .table _ hcount (fun a ha p => read_recovers a p (h a ha)) p

theorem readParameter_recovers {as : List Annotation} (hcount : as.length ≤ 65535)
    (h : ∀ a ∈ as, a.Writable) (p : Int) :
    (located readAll).Recovers p (Serial.table serialize as) (settleParameter as p) := by
  have hspan : ((Serial.table serialize as).length : Int) =
      2 + Span.total Annotation.span (settleAll as (p + 2)) := by
    rw [total_settleAll, Serial.table, List.length_append, Serial.length_u2, Int.natCast_add]
    rfl
  have hlocated := (readAll_recovers hcount h p).located
  rwa [hspan] at hlocated

theorem readParameters_recovers {parameters : List (List Annotation)}
    (hcount : parameters.length ≤ 255) (h : ∀ as ∈ parameters, as.length ≤ 65535 ∧ ∀ a ∈ as, a.Writable)
    (p : Int) :
    readParameters.Recovers p (Serial.shortTable (Serial.table serialize) parameters)
      (settleEach (Serial.table serialize) settleParameter parameters (p + 1)) :=
  .shortTable _ hcount (fun as has p => readParameter_recovers (h as has).1 (h as has).2 p) p

end Annotation

/-! ## §4. Type annotations. -/

theorem LocalRange.read_recovers (range : LocalRange) :
    read.Recovers p range.serialize range := by
  rw [serialize, List.append_assoc]
  exact (Recovers.u2 _ range.startPc).bind ((Recovers.u2 _ range.length).bind
    ((Recovers.u2 _ range.index).map (LocalRange.mk range.startPc range.length)))

theorem PathStep.read_recovers (step : PathStep) : read.Recovers p step.serialize step :=
  (Recovers.u1 _ step.kind).bind ((Recovers.u1 _ step.argument).map (PathStep.mk step.kind))

namespace Target

/-- The types of target that a target can have. -/
def types : Target → List UInt8
  | typeParameter _ => [0x00, 0x01]
  | supertype _ => [0x10]
  | typeParameterBound .. => [0x11, 0x12]
  | empty => [0x13, 0x14, 0x15]
  | formalParameter _ => [0x16]
  | thrown _ => [0x17]
  | localVariables _ => [0x40, 0x41]
  | caught _ => [0x42]
  | offset _ => [0x43, 0x44, 0x45, 0x46]
  | typeArgument .. => [0x47, 0x48, 0x49, 0x4A, 0x4B]

/-- The table of a target is not longer than a count of two bytes can say. -/
def Writable : Target → Prop
  | localVariables table => table.length ≤ 65535
  | _ => True

/-- The layout of a target. -/
def layout : Target → Layout
  | typeParameter _ => .typeParameter
  | supertype _ => .supertype
  | typeParameterBound .. => .typeParameterBound
  | empty => .empty
  | formalParameter _ => .formalParameter
  | thrown _ => .thrown
  | localVariables _ => .localVariables
  | caught _ => .caught
  | offset _ => .offset
  | typeArgument .. => .typeArgument

/-- The type of a target decides how it is laid out. -/
theorem layout?_of_mem_types {target : Target} {targetType : UInt8}
    (h : targetType ∈ target.types) : layout? targetType = some target.layout := by
  cases target <;> simp only [types, List.mem_cons, List.not_mem_nil, or_false] at h
  case typeParameter => obtain rfl | rfl := h <;> rfl
  case supertype => obtain rfl := h; rfl
  case typeParameterBound => obtain rfl | rfl := h <;> rfl
  case empty => obtain rfl | rfl | rfl := h <;> rfl
  case formalParameter => obtain rfl := h; rfl
  case thrown => obtain rfl := h; rfl
  case localVariables => obtain rfl | rfl := h <;> rfl
  case caught => obtain rfl := h; rfl
  case offset => obtain rfl | rfl | rfl | rfl := h <;> rfl
  case typeArgument => obtain rfl | rfl | rfl | rfl | rfl := h <;> rfl

theorem read_recovers {target : Target} (h : target.Writable) :
    (read target.layout).Recovers p target.serialize target := by
  cases target with
  | typeParameter index => exact (Recovers.u1 _ index).map typeParameter
  | supertype index => exact (Recovers.u2 _ index).map supertype
  | typeParameterBound parameter bound =>
    exact (Recovers.u1 _ parameter).bind ((Recovers.u1 _ bound).map (typeParameterBound parameter))
  | empty => exact .pure _
  | formalParameter index => exact (Recovers.u1 _ index).map formalParameter
  | thrown index => exact (Recovers.u2 _ index).map thrown
  | localVariables table =>
    refine .count_bind _ h fun count hcount => ?_
    rw [hcount]
    exact (Recovers.many table (fun range _ _ => LocalRange.read_recovers range) _).map localVariables
  | caught index => exact (Recovers.u2 _ index).map caught
  | offset place => exact (Recovers.u2 _ place).map offset
  | typeArgument place index =>
    exact (Recovers.u2 _ place).bind ((Recovers.u1 _ index).map (typeArgument place))

end Target

namespace TypeAnnotation

/-- The type of target is one that the target can have, and no list in the annotation has more parts
    than its count can say: a count of one byte for the path, of two for the others. -/
structure Writable (a : TypeAnnotation) : Prop where
  legal : a.targetType ∈ a.target.types
  target : a.target.Writable
  path : a.path.length ≤ 255
  count : a.pairs.length ≤ 65535
  pairs : ElementPair.WritableAll a.pairs

/-- The number of bytes before the named values. -/
def headSize (a : TypeAnnotation) : Int := 6 + a.target.serialize.length + 2 * a.path.length

/-- The same annotation with its bytes from `p` on. -/
def settle (a : TypeAnnotation) (p : Int) : Located TypeAnnotation :=
  let pairs := ElementPair.settleAll a.pairs (p + a.headSize)
  ⟨⟨p, a.headSize + Span.total ElementPair.span pairs⟩, { a with pairs := pairs }⟩

theorem length_path (path : List PathStep) :
    (path.flatMap PathStep.serialize).length = 2 * path.length := by
  have hstep : ∀ step : PathStep, step.serialize.length = 2 := fun _ => rfl
  exact Serial.length_flatMap hstep path

theorem length_serialize (a : TypeAnnotation) (p : Int) :
    (a.serialize.length : Int) = (a.settle p).span.length := by
  have hpath := length_path a.path
  show _ = a.headSize + Span.total ElementPair.span (ElementPair.settleAll a.pairs (p + a.headSize))
  rw [ElementPair.total_settleAll, ElementPair.serializeAll_eq_flatMap]
  simp only [headSize, serialize, Serial.table, Serial.shortTable, List.length_append,
    Serial.length_u1, Serial.length_u2]
  omega

theorem readPath_recovers (what : String) {path : List PathStep} (h : path.length ≤ 255) :
    (u1 what >>= fun count => many count.toNat PathStep.read).Recovers p
      (Serial.shortTable PathStep.serialize path) path := by
  refine .shortCount_bind what h fun count hcount => ?_
  rw [hcount]
  exact Recovers.many path (fun step _ _ => PathStep.read_recovers step) _

theorem read_recovers {a : TypeAnnotation} (h : a.Writable) (p : Int) :
    read.Recovers p a.serialize (a.settle p).value := by
  have hpath := length_path a.path
  refine .position_bind ?_
  simp only [serialize, List.append_assoc]
  refine (Recovers.u1 _ a.targetType).bind ?_
  rw [Target.layout?_of_mem_types h.legal]
  refine (Target.read_recovers h.target).bind ?_
  -- The path is read before the type, its number of steps with it.
  rw [← bind_assoc]
  refine (readPath_recovers _ h.path).bind ((Recovers.u2 _ a.typeIndex).bind ?_)
  have hstart : p + (Serial.u1 a.targetType).length + a.target.serialize.length +
      (Serial.shortTable PathStep.serialize a.path).length + (Serial.u2 a.typeIndex).length + 2 =
      p + a.headSize := by
    simp only [headSize, Serial.shortTable, List.length_append, Serial.length_u1, Serial.length_u2]
    omega
  have hpairs := ElementPair.readMany_recovers a.pairs (p + a.headSize) h.pairs
  rw [← hstart, ElementPair.serializeAll_eq_flatMap] at hpairs
  have hall := ElementPair.readAll_of_many h.count hpairs
  rw [hstart] at hall
  exact hall.map fun pairs => (⟨a.targetType, a.target, a.path, a.typeIndex, pairs⟩ : TypeAnnotation)

theorem readAll_recovers {as : List TypeAnnotation} (hcount : as.length ≤ 65535)
    (h : ∀ a ∈ as, a.Writable) (p : Int) :
    readAll.Recovers p (Serial.table serialize as) (settleEach serialize settle as (p + 2)) := by
  refine .table _ hcount (fun a ha p => ?_) p
  have hlocated := (read_recovers (h a ha) p).located
  rwa [length_serialize a p] at hlocated

end TypeAnnotation

/-! ## §5. The round trip. -/

namespace Annotation

/-- Reading annotations undoes writing them.

    A value that can be written, of any depth and width, with any bytes before and behind its own, is
    read back with every part of it in its place: literals and classes take up 3 bytes, enum constants
    5, an annotation inside a value one byte more than itself, an array 3 more than its values, a named
    value 2 more than its value, and an annotation 4 more than its named values.  Reading ends behind
    the bytes.  So are annotations one behind the other, the annotations of parameters, and type
    annotations with targets of all types. -/
theorem read_serialize (before after : List UInt8) :
    (∀ value : ElementValue, value.Writable →
      let content := value.serialize
      let c := (Cursor.ofBytes (before ++ content ++ after).toArray).goto before.length
      (ElementValue.read c).result = .ok (value.settle before.length) ∧
        (ElementValue.read c).cursor = c.goto (before.length + content.length) ∧
        (value.settle before.length).span = ⟨before.length, content.length⟩) ∧
    (∀ as : List Annotation, as.length ≤ 65535 → (∀ a ∈ as, a.Writable) →
      let content := Serial.table serialize as
      let c := (Cursor.ofBytes (before ++ content ++ after).toArray).goto before.length
      (readAll c).result = .ok (settleAll as (before.length + 2)) ∧
        (readAll c).cursor = c.goto (before.length + content.length)) ∧
    (∀ parameters : List (List Annotation), parameters.length ≤ 255 →
      (∀ as ∈ parameters, as.length ≤ 65535 ∧ ∀ a ∈ as, a.Writable) →
      let content := Serial.shortTable (Serial.table serialize) parameters
      let c := (Cursor.ofBytes (before ++ content ++ after).toArray).goto before.length
      (readParameters c).result =
          .ok (settleEach (Serial.table serialize) settleParameter parameters (before.length + 1)) ∧
        (readParameters c).cursor = c.goto (before.length + content.length)) ∧
    ∀ as : List TypeAnnotation, as.length ≤ 65535 → (∀ a ∈ as, a.Writable) →
      let content := Serial.table TypeAnnotation.serialize as
      let c := (Cursor.ofBytes (before ++ content ++ after).toArray).goto before.length
      let outcome := TypeAnnotation.readAll c
      outcome.result = .ok (settleEach TypeAnnotation.serialize TypeAnnotation.settle as
          (before.length + 2)) ∧
        outcome.cursor = c.goto (before.length + content.length) := by
  refine ⟨?_, ?_, ?_, ?_⟩
  · intro value h content c
    have hgoes := ElementValue.read_recovers value before.length h c (.middle before content after) rfl
    exact ⟨hgoes.result_eq, hgoes.cursor_eq, value.span_settle before.length⟩
  · intro as hcount h content c
    have hgoes := readAll_recovers hcount h before.length c (.middle before content after) rfl
    exact ⟨hgoes.result_eq, hgoes.cursor_eq⟩
  · intro parameters hcount h content c
    have hgoes := readParameters_recovers hcount h before.length c (.middle before content after) rfl
    exact ⟨hgoes.result_eq, hgoes.cursor_eq⟩
  · intro as hcount h content c outcome
    have hgoes := TypeAnnotation.readAll_recovers hcount h before.length c
      (.middle before content after) rfl
    exact ⟨hgoes.result_eq, hgoes.cursor_eq⟩

/-- An annotation with an array of a number and another annotation, and with an enum constant; it has
    no places yet. -/
def unplaced : Annotation :=
  ⟨⟨0, 0⟩, 7,
    [⟨⟨0, 0⟩, 1, .array ⟨0, 0⟩
        [.literal ⟨0, 0⟩ (.base .int) 3, .nested ⟨0, 0⟩ ⟨⟨0, 0⟩, 8, []⟩]⟩,
      ⟨⟨0, 0⟩, 2, .enumConstant ⟨0, 0⟩ 4 5⟩]⟩

theorem read_serialize_unplaced :
    let c := (Cursor.ofBytes ([9, 9, 9] ++ Serial.table serialize [unplaced] ++ [7]).toArray).goto 3
    let typed : TypeAnnotation :=
      ⟨0x40, .localVariables [⟨1, 2, 3⟩], [⟨0, 1⟩], 7, unplaced.pairs⟩
    let d := (Cursor.ofBytes ([] ++ Serial.table TypeAnnotation.serialize [typed] ++ []).toArray).goto 0
    let outcome := TypeAnnotation.readAll d
    (readAll c).result = .ok [⟨⟨5, 24⟩, 7,
      [⟨⟨9, 13⟩, 1, .array ⟨11, 11⟩
          [.literal ⟨14, 3⟩ (.base .int) 3, .nested ⟨17, 5⟩ ⟨⟨18, 4⟩, 8, []⟩]⟩,
        ⟨⟨22, 7⟩, 2, .enumConstant ⟨24, 5⟩ 4 5⟩]⟩] ∧
      (readAll c).cursor = c.goto 29 ∧
      outcome.result = .ok [typed.settle 2] ∧
      (typed.settle 2).span = ⟨2, 36⟩ := by
  have hpairs : ElementPair.WritableAll unplaced.pairs := by
    simp [unplaced, ElementPair.WritableAll, ElementPair.Writable, ElementValue.Writable,
      ElementValue.WritableAll, Annotation.Writable]
  have hwritable : ∀ a ∈ [unplaced], a.Writable := by
    intro a ha
    obtain rfl := List.mem_singleton.mp ha
    exact ⟨by decide, hpairs⟩
  intro c typed d outcome
  have htyped : ∀ a ∈ [typed], a.Writable := by
    intro a ha
    obtain rfl := List.mem_singleton.mp ha
    exact ⟨by decide, by show _ ≤ _; decide, by decide, by decide, hpairs⟩
  obtain ⟨hresult, hcursor⟩ := (read_serialize [9, 9, 9] [7]).2.1 [unplaced] (by decide) hwritable
  obtain ⟨hresult', -⟩ := (read_serialize [] []).2.2.2 [typed] (by decide) htyped
  exact ⟨hresult, hcursor, hresult', rfl⟩

end Annotation

end JavaClass
