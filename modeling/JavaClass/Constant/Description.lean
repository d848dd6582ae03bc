/-
  JavaClass.Constant.Description — what constants stand for, in words.

  A constant is described by following its references: a member names its class, a method handle
  names a member, a dynamic constant names a name and type.  References go from kinds of higher
  rank to kinds of lower rank only, so three layers of functions follow them all, and no reference
  can lead back to where it came from.

  A slot is described once.  The table of descriptions is filled slot by slot; a constant that is
  asked for before its turn is described then, and found in the table when its turn comes.  A
  reference to a slot that holds no constant of the right kind is noted, each time it is followed.
-/
import JavaClass.Constant.Basic
import JavaClass.Descriptor.Parser
import JavaClass.Number.Decimal

namespace JavaClass

/-- The description of what cannot be resolved. -/
def unresolvable : String := "<unresolvable>"

namespace Description

/-! ## §1. The table. -/

/-- The descriptions found so far, by slot, and the notices made on the way, the latest first. -/
structure Table where
  known : Array (Option String)
  notices : List Notice

/-- A description is looked for with the table at hand. -/
abbrev Describing := ExceptT Fault (StateM Table)

/-- The description of the constant that a reference leads to, if it leads to one that `accepts`; it
    is worked out by `describe` unless the table has it. -/
def follow (slots : Slots) (describe : Constant → Describing String) (accepts : Constant → Bool)
    (index : Nat) : Describing String := do
  match slots.constant? index with
  | none => missing
  | some c =>
    if accepts c then
      match (← get).known[index]? with
      | some (some text) => return text
      | _ =>
        let text ← describe c
        modify fun t => { t with known := t.known.setIfInBounds index (some text) }
        return text
    else missing
where
  /-- Note that the reference leads nowhere. -/
  missing : Describing String := do
    modify fun t => { t with notices := .unresolvable index :: t.notices }
    return unresolvable

/-! ## §2. Constants without references to follow. -/

/-- The text constant with a number, or the mark for what cannot be resolved. -/
def textAt (slots : Slots) (index : UInt16) : String :=
  (slots.utf8? index.toNat).getD unresolvable

/-- A constant that refers to text constants at most. -/
def plain (slots : Slots) : Constant → Except Fault String
  | .utf8 text _ => .ok text
  | .integer value => .ok (toString value.toInt)
  | .long value => .ok (toString value.toInt)
  | .float value => (value.value.displaySingle?).elim (.error .tooLarge) .ok
  | .double value => .ok value.display
  | .cls name => .ok ((slots.utf8? name.toNat).elim unresolvable FieldType.describeClass)
  | .string text => .ok (textAt slots text)
  | .nameAndType name descriptor =>
    .ok s!"name={textAt slots name}, type={textAt slots descriptor}"
  | .methodType descriptor =>
    .ok ((slots.utf8? descriptor.toNat).elim unresolvable MethodType.describe)
  | .moduleName name => .ok (textAt slots name)
  | .packageName name => .ok (textAt slots name)
  | _ => .ok unresolvable

/-! ## §3. Constants with references to follow. -/

/-- A member of the class described by `owner`. -/
def memberText (slots : Slots) (kind : MemberKind) (owner : String) (nameAndType : UInt16) :
    String :=
  match slots.constant? nameAndType.toNat with
  | some (.nameAndType name descriptor) =>
    match slots.utf8? name.toNat, slots.utf8? descriptor.toNat with
    | some name, some descriptor =>
      match kind with
      | .field => s!"{owner}.{name} : {FieldType.describe descriptor}"
      | _ =>
        match MethodType.parse descriptor with
        | .ok type => s!"{owner}.{name}{type.display}"
        | .error _ => s!"{owner}.{name} : {FieldType.unrecognized}{descriptor}"
    | _, _ => s!"{owner}.{unresolvable}"
  | _ => s!"{owner}.{unresolvable}"

/-- A constant that refers to plain constants at most. -/
def compound (slots : Slots) : Constant → Describing String
  | .member kind owner nameAndType => do
    let owner ← follow slots (liftExcept ∘ plain slots) Constant.isClass owner.toNat
    return memberText slots kind owner nameAndType
  | .dynamic bootstrap nameAndType => do
    dynamicText bootstrap
      (← follow slots (liftExcept ∘ plain slots) Constant.isNameAndType nameAndType.toNat)
  | .invokeDynamic bootstrap nameAndType => do
    dynamicText bootstrap
      (← follow slots (liftExcept ∘ plain slots) Constant.isNameAndType nameAndType.toNat)
  | c => liftExcept (plain slots c)
where
  /-- A description that needs no table. -/
  liftExcept (result : Except Fault String) : Describing String := fun t => (result, t)
  /-- A dynamic constant. -/
  dynamicText (bootstrap : UInt16) (nameAndType : String) : Describing String :=
    return s!"bootstrap_method_attr_index={bootstrap} name_and_type_index={nameAndType}"

/-- Any constant. -/
def any (slots : Slots) : Constant → Describing String
  | .methodHandle kind reference => do
    let member ← follow slots (compound slots) Constant.isMember reference.toNat
    return s!"reference_kind={referenceKindName kind.toNat} reference_index={member}"
  | c => compound slots c

/-! ## §4. All slots. -/

/-- Describe `count` slots from number `index` on. -/
def fill (slots : Slots) : Nat → Nat → Table → Except Fault Unit × Table
  | 0, _, t => (.ok (), t)
  | count + 1, index, t =>
    match follow slots (any slots) (fun _ => true) index t with
    | (.ok _, t) => fill slots count (index + 1) t
    | (.error fault, t) => (.error fault, t)

/-- The descriptions of all slots, and the notices made on the way. -/
def all (slots : Slots) : Except Fault (Array String) × List Notice :=
  match fill slots (slots.size - 1) 1 ⟨Array.replicate slots.size none, []⟩ with
  | (.ok _, t) => (.ok (t.known.map (·.getD unresolvable)), t.notices.reverse)
  | (.error fault, t) => (.error fault, t.notices.reverse)

end Description

end JavaClass
