/-
  JavaClass.Proofs.Attribute.Unlisted — attributes read with and without their instructions.

  Disassembling code is a view of bytes that are kept anyway.  Set two runs side by side, one that
  lists instructions and one that does not: they fail with the same fault, leave the cursor at the
  same place, and make the same notices but for those about code that is cut.  Where they give
  values, the second value is the first without its listings (`Decoder.Unlists`).

  The argument is local.  Listing code never fails and reads in a window of its own, so whatever
  stands in a code array, nothing outside it can tell whether it was listed; all other decoders pass
  the agreement on.
-/
import JavaClass.Proofs.Attribute.Stages

namespace JavaClass

open Decoder

/-! ## §1. Listings left out. -/

mutual

/-- A payload without the listings of its code, at any depth. -/
def Payload.unlist : Payload → Payload
  | .code code => .code code.unlist
  | .recordComponents components => .recordComponents (RecordComponent.unlistAll components)
  | payload => payload

/-- The body of a method without its listing. -/
def Code.unlist : Code → Code
  | ⟨maxStack, maxLocals, start, length, content, _, handlers, attributes⟩ =>
    ⟨maxStack, maxLocals, start, length, content, ⟨[], none⟩, handlers,
      Attribute.unlistAll attributes⟩

/-- A component of a record without listings. -/
def RecordComponent.unlist : RecordComponent → RecordComponent
  | ⟨span, name, descriptor, attributes⟩ =>
    ⟨span, name, descriptor, Attribute.unlistAll attributes⟩

/-- Components of a record without listings. -/
def RecordComponent.unlistAll : List RecordComponent → List RecordComponent
  | [] => []
  | component :: rest => component.unlist :: RecordComponent.unlistAll rest

/-- An attribute without listings. -/
def Attribute.unlist : Attribute → Attribute
  | ⟨start, nameIndex, name, declared, payload⟩ =>
    ⟨start, nameIndex, name, declared, payload.unlist⟩

/-- Attributes without listings. -/
def Attribute.unlistAll : List Attribute → List Attribute
  | [] => []
  | a :: rest => a.unlist :: Attribute.unlistAll rest

end

theorem RecordComponent.unlistAll_eq_map (components : List RecordComponent) :
    unlistAll components = components.map unlist := by
  induction components with
  | nil => rfl
  | cons component rest ih => rw [unlistAll, ih, List.map_cons]

theorem Attribute.unlistAll_eq_map (attributes : List Attribute) :
    unlistAll attributes = attributes.map unlist := by
  induction attributes with
  | nil => rfl
  | cons a rest ih => rw [unlistAll, ih, List.map_cons]

mutual

/-- What has no listings stays as it is. -/
theorem Payload.unlist_unlist : ∀ payload : Payload, payload.unlist.unlist = payload.unlist
  | .code code => by rw [Payload.unlist, Payload.unlist, Code.unlist_unlist code]
  | .recordComponents components => by
    rw [Payload.unlist, Payload.unlist, RecordComponent.unlistAll_unlistAll components]
  | .raw _ | .constantValue _ | .stackMapTable _ | .exceptions _ | .innerClasses _
  | .enclosingMethod _ _ | .synthetic | .deprecated | .signature _ | .sourceFile _
  | .sourceDebugExtension _ | .lineNumbers _ | .localVariables _ | .localVariableTypes _
  | .annotations _ _ | .parameterAnnotations _ _ | .typeAnnotations _ _ | .annotationDefault _
  | .bootstrapMethods _ | .methodParameters _ | .moduleDeclaration _ | .modulePackages _
  | .moduleMainClass _ | .moduleHashes _ _ | .moduleTarget _ | .moduleResolution _ | .nestHost _
  | .nestMembers _ | .permittedSubclasses _ => rfl

theorem Code.unlist_unlist : ∀ code : Code, code.unlist.unlist = code.unlist
  | ⟨_, _, _, _, _, _, _, attributes⟩ => by
    rw [Code.unlist, Code.unlist, Attribute.unlistAll_unlistAll attributes]

theorem RecordComponent.unlist_unlist :
    ∀ component : RecordComponent, component.unlist.unlist = component.unlist
  | ⟨_, _, _, attributes⟩ => by
    rw [RecordComponent.unlist, RecordComponent.unlist, Attribute.unlistAll_unlistAll attributes]

theorem RecordComponent.unlistAll_unlistAll : ∀ components,
    RecordComponent.unlistAll (RecordComponent.unlistAll components) =
      RecordComponent.unlistAll components
  | [] => rfl
  | component :: rest => by
    rw [RecordComponent.unlistAll, RecordComponent.unlistAll,
      RecordComponent.unlist_unlist component, RecordComponent.unlistAll_unlistAll rest]

theorem Attribute.unlist_unlist : ∀ a : Attribute, a.unlist.unlist = a.unlist
  | ⟨_, _, _, _, payload⟩ => by
    rw [Attribute.unlist, Attribute.unlist, Payload.unlist_unlist payload]

theorem Attribute.unlistAll_unlistAll : ∀ attributes,
    Attribute.unlistAll (Attribute.unlistAll attributes) = Attribute.unlistAll attributes
  | [] => rfl
  | a :: rest => by
    rw [Attribute.unlistAll, Attribute.unlistAll, Attribute.unlist_unlist a,
      Attribute.unlistAll_unlistAll rest]

end

/-! ## §2. Two runs side by side. -/

/-- A notice about code that is cut within an instruction. -/
def Notice.isAboutListing : Notice → Bool
  | .codeTruncated .. => true
  | _ => false

/-- The notices that do not come from listing code. -/
def Notice.unlisted (notices : List Notice) : List Notice :=
  notices.filter fun n => !n.isAboutListing

theorem Notice.unlisted_append (first second : List Notice) :
    unlisted (first ++ second) = unlisted first ++ unlisted second :=
  List.filter_append ..

/-- `o'` is `o` with its value changed by `f`, up to notices about listings. -/
structure Outcome.Unlists {α β : Type} (f : α → β) (o : Outcome α) (o' : Outcome β) : Prop where
  result : o'.result = o.result.map f
  cursor : o'.cursor = o.cursor
  notices : Notice.unlisted o'.notices = Notice.unlisted o.notices

namespace Decoder

variable {α β α' β' : Type} {f : α → α'} {g : β → β'}

/-- From every cursor, `e` gives what `d` gives, with its value changed by `f`. -/
def Unlists (f : α → α') (d : Decoder α) (e : Decoder α') : Prop := ∀ c, (d c).Unlists f (e c)

/-- A decoder all of whose values `f` leaves as they are. -/
theorem Unlists.of_always {f : α → α} {d : Decoder α} (h : d.Always fun a => f a = a) :
    Unlists f d d := by
  intro c
  refine ⟨?_, rfl, rfl⟩
  rcases hresult : (d c).result with fault | a
  · rfl
  · show Except.ok a = Except.ok (f a)
    rw [h c a hresult]

theorem Unlists.refl (d : Decoder α) : Unlists id d d := .of_always fun _ _ _ => rfl

theorem Unlists.pure {a : α} {b : α'} (h : b = f a) :
    Unlists f (pure a : Decoder α) (pure b : Decoder α') := by
  subst h
  intro c
  exact ⟨rfl, rfl, rfl⟩

theorem Unlists.bind {d : Decoder α} {e : Decoder α'} {next : α → Decoder β}
    {next' : α' → Decoder β'} (hd : Unlists f d e)
    (hn : ∀ a, Unlists g (next a) (next' (f a))) : Unlists g (d >>= next) (e >>= next') := by
  intro c
  obtain ⟨hresult, hcursor, hnotices⟩ := hd c
  rcases hrun : d c with ⟨fault | a, c₁, notices⟩
  all_goals
    rcases hrun' : e c with ⟨result, c₂, notices'⟩
    rw [hrun, hrun'] at hresult hcursor hnotices
    simp only at hresult hcursor hnotices
    subst hcursor hresult
  · rw [bind_of_error hrun, bind_of_error hrun']
    exact ⟨rfl, rfl, hnotices⟩
  · obtain ⟨hresult, hcursor, hmore⟩ := hn a c₂
    rw [bind_of_ok hrun, bind_of_ok hrun']
    refine ⟨hresult, hcursor, ?_⟩
    show Notice.unlisted (notices' ++ _) = Notice.unlisted (notices ++ _)
    rw [Notice.unlisted_append, Notice.unlisted_append, hnotices, hmore]

/-- Behind a decoder that both runs share. -/
theorem Unlists.after {d : Decoder α} {next : α → Decoder β} {next' : α → Decoder β'}
    (hn : ∀ a, Unlists g (next a) (next' a)) : Unlists g (d >>= next) (d >>= next') :=
  .bind (.refl d) hn

theorem Unlists.many {d : Decoder α} {e : Decoder α'} (count : Nat) (h : Unlists f d e) :
    Unlists (List.map f) (many count d) (many count e) := by
  induction count with
  | zero =>
    rw [many_zero, many_zero]
    exact .pure rfl
  | succ count ih =>
    rw [many_succ, many_succ]
    exact .bind h fun _ => .bind ih fun _ => .pure rfl

/-- A structure inside itself: both runs unroll it as often, since they have the same bytes. -/
theorem Unlists.fix {body : Decoder α → Decoder α} {body' : Decoder α' → Decoder α'}
    (h : ∀ i i', Unlists f i i' → Unlists f (body i) (body' i')) :
    Unlists f (fix body) (fix body') := by
  have hunroll : ∀ depth, Unlists f (unroll body depth) (unroll body' depth) := by
    intro depth
    induction depth with
    | zero => exact fun c => ⟨rfl, rfl, rfl⟩
    | succ depth ih => exact h _ _ ih
  intro c
  exact hunroll (c.remaining.toNat + 1) c

end Decoder

/-! ## §3. Code. -/

/-- Listing code notes nothing but that the code is cut. -/
theorem Listing.readFrom_notices (codeStart : Int) (count : Nat) (done : List Instruction)
    (c : Cursor) : Notice.unlisted (readFrom codeStart count done c).notices = [] := by
  induction count generalizing done c with
  | zero => rfl
  | succ count ih =>
    rw [readFrom]
    split
    · rfl
    · rcases Instruction.read codeStart c with ⟨fault | instruction, c₁, _⟩
      · rfl
      · exact ih (instruction :: done) c₁

/-- Listing code changes nothing outside its window, whatever stands in it. -/
theorem Code.ofArray_unlists (n : Nat) (w : Cursor) :
    Unlists (fun array => (array.1, array.2.1, ⟨[], none⟩)) (ofArray true n w)
      (ofArray false n w) := by
  intro c
  obtain ⟨listing, after, notices, hlist⟩ := Listing.read_eq_ok w
  have hnotices : Notice.unlisted (Listing.read w).notices = [] := Listing.readFrom_notices ..
  rw [hlist] at hnotices
  rw [ofArray_listed hlist, ofArray_unlisted]
  exact ⟨rfl, rfl, hnotices.symm⟩

variable {inner inner' : Decoder Attribute}

theorem readAttributes_unlists (h : Unlists Attribute.unlist inner inner') :
    Unlists Attribute.unlistAll (readAttributes inner) (readAttributes inner') := by
  rw [funext Attribute.unlistAll_eq_map]
  exact .after fun count => .many count.toNat h

theorem Code.read_unlists (h : Unlists Attribute.unlist inner inner') :
    Unlists unlist (read true inner) (read false inner') := by
  rw [read_eq, read_eq]
  exact .after fun _ => .after fun _ => .after fun length =>
    .bind (.after fun w => ofArray_unlists length.toNat w) fun _ => .after fun _ =>
    .bind (readAttributes_unlists h) fun _ => .pure (by rw [unlist])

theorem RecordComponent.read_unlists (h : Unlists Attribute.unlist inner inner') :
    Unlists unlist (read inner) (read inner') :=
  .after fun _ => .after fun _ => .after fun _ => .bind (readAttributes_unlists h) fun _ =>
    .after fun _ => .pure (by rw [unlist])

/-! ## §4. Payloads. -/

namespace Payload

/-- Only code has a listing, and only records hold attributes without being code. -/
theorem read_listless (disassemble : Bool) {kind : AttributeKind} (hcode : kind ≠ .code)
    (hrecord : kind ≠ .recordComponents) :
    (read disassemble inner kind).Always fun payload => payload.unlist = payload := by
  intro w payload hresult
  have hplain := read_plain disassemble inner hcode hrecord w payload hresult
  cases payload with
  | code | recordComponents => exact absurd hplain id
  | _ => rfl

theorem read_unlists (h : Unlists Attribute.unlist inner inner') (kind : AttributeKind) :
    Unlists unlist (read true inner kind) (read false inner' kind) := by
  by_cases hcode : kind = .code
  · subst hcode
    exact .bind (Code.read_unlists h) fun _ => .pure (by rw [unlist])
  by_cases hrecord : kind = .recordComponents
  · subst hrecord
    refine .after fun count =>
      .bind (.many count.toNat (RecordComponent.read_unlists h)) fun _ => .pure ?_
    rw [unlist, RecordComponent.unlistAll_eq_map]
  -- All other kinds are read by the same decoder in both runs.
  have hsame : read false inner' kind = read true inner kind := by
    cases kind
    case code => exact absurd rfl hcode
    case recordComponents => exact absurd rfl hrecord
    all_goals rfl
  rw [hsame]
  exact .of_always (read_listless true hcode hrecord)

end Payload

/-! ## §5. Envelopes. -/

namespace Attribute

/-- What comes of a payload is told by its fault or by how far it got. -/
theorem concluded_unlists {name : String} {start : Int} {declared : UInt32}
    {o o' : Outcome Payload} (h : o.Unlists Payload.unlist o') (c : Cursor) :
    (concluded name start declared o c).Unlists Payload.unlist
      (concluded name start declared o' c) := by
  obtain ⟨hresult, hcursor, hnotices⟩ := h
  obtain ⟨result', after', notices'⟩ := o'
  rcases o with ⟨(⟨what, size, left, offset⟩ | ⟨cause, offset⟩ | _) | payload, after, notices⟩ <;>
    simp only at hresult hcursor hnotices <;> subst hresult hcursor
  · exact ⟨rfl, rfl, hnotices⟩
  · exact ⟨rfl, rfl, hnotices⟩
  · exact ⟨rfl, rfl, hnotices⟩
  · refine ⟨rfl, rfl, ?_⟩
    show Notice.unlisted (notices' ++ _) = Notice.unlisted (notices ++ _)
    rw [Notice.unlisted_append, Notice.unlisted_append, hnotices]

theorem readPayload_unlists {payload payload' : Decoder Payload}
    (h : Unlists Payload.unlist payload payload') (name : String) (start : Int) (declared : UInt32)
    (w : Cursor) :
    Unlists Payload.unlist (readPayload payload name start declared w)
      (readPayload payload' name start declared w) := by
  intro c
  rw [readPayload_apply, readPayload_apply]
  exact concluded_unlists (h w) c

theorem readEnclosed_unlists {payload payload' : AttributeKind → Decoder Payload}
    (h : ∀ kind, Unlists Payload.unlist (payload kind) (payload' kind)) (name : Option String)
    (start : Int) (nameIndex : UInt16) (declared : UInt32) :
    Unlists Payload.unlist (readEnclosed name payload start nameIndex declared)
      (readEnclosed name payload' start nameIndex declared) := by
  have hraw : ∀ (why : Notice) (w : Cursor),
      Unlists Payload.unlist (keepRaw why w) (keepRaw why w) :=
    fun _ _ => .after fun _ => .pure rfl
  refine .after fun w => ?_
  cases name with
  | none => exact hraw _ w
  | some name =>
    dsimp only
    cases AttributeKind.ofName? name with
    | none => exact hraw _ w
    | some kind => exact readPayload_unlists (h kind) name start declared w

theorem body_unlists (pool : Pool) (h : Unlists unlist inner inner') :
    Unlists unlist (body pool true inner) (body pool false inner') := by
  rw [body_eq, body_eq]
  exact .after fun start => .after fun nameIndex => .after fun declared =>
    .bind (readEnclosed_unlists (Payload.read_unlists h) _ start nameIndex declared) fun _ =>
    .pure (by rw [unlist])

theorem read_unlists (pool : Pool) : Unlists unlist (read pool true) (read pool false) :=
  .fix fun _ _ => body_unlists pool

theorem readAll_unlists (pool : Pool) :
    Unlists unlistAll (readAll pool true) (readAll pool false) :=
  readAttributes_unlists (read_unlists pool)

end Attribute

end JavaClass
