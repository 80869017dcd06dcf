import SigningSchema.Proofs.Results
import SigningSchema.Proofs.Wire.Filling
import SigningSchema.Proofs.Wire.Writing

-- Where a message type stands in a schema does not matter. Schemas with the same types at related
-- positions fill values up alike and write the same bytes, or fail with the same error.

namespace SigningSchema

namespace WireSchema

open Wire Writer

variable {first second : WireSchema} {related : Nat → Nat → Prop} {field other : WireField}
variable {index position : Nat} {path : FieldPath} {value : Value}

inductive TypesMatch (related : Nat → Nat → Prop) : FieldType → FieldType → Prop where
  | scalar (kind : ScalarKind) : TypesMatch related (.scalar kind) (.scalar kind)
  | message {index position : Nat} (same : related index position) :
      TypesMatch related (.message index) (.message position)

structure FieldsMatch (related : Nat → Nat → Prop) (field other : WireField) : Prop where
  name : field.name = other.name
  tag : field.tag = other.tag
  repeated : field.repeated = other.repeated
  type : TypesMatch related field.type other.type

-- Types at related positions differ at most in the positions that their fields refer to, and these
-- are related again.
structure Relocation (first second : WireSchema) (related : Nat → Nat → Prop) : Prop where
  name : ∀ {index position}, related index position →
    (first.typeAt index).name = (second.typeAt position).name
  fields : ∀ {index position}, related index position →
    List.Forall₂ (FieldsMatch related) (first.typeAt index).fields (second.typeAt position).fields

inductive SlotsMatch (related : Nat → Nat → Prop) : Slot → Slot → Prop where
  | message {index position : Nat} (same : related index position) :
      SlotsMatch related (.message index) (.message position)
  | field {field other : WireField} (same : FieldsMatch related field other) :
      SlotsMatch related (.field field) (.field other)
  | single {field other : WireField} (same : FieldsMatch related field other) :
      SlotsMatch related (.single field) (.single other)

-- A scalar field is the same in both schemas.
theorem FieldsMatch.cases (same : FieldsMatch related field other) :
    (other = field ∧ ∃ kind, field.type = .scalar kind) ∨
      ∃ index position, related index position ∧ field.type = .message index ∧
        other = { field with type := .message position } := by
  obtain ⟨name, tag, type, repeated⟩ := field
  obtain ⟨name', tag', type', repeated'⟩ := other
  obtain ⟨rfl, rfl, rfl, type⟩ := same
  cases type with
  | scalar kind => exact .inl ⟨rfl, kind, rfl⟩
  | message same => exact .inr ⟨_, _, same, rfl, rfl⟩

theorem FieldsMatch.blankField (same : FieldsMatch related field other) :
    blankField field = blankField other := by
  obtain ⟨rfl, _⟩ | ⟨index, position, _, type, rfl⟩ := same.cases
  · rfl
  · simp only [WireSchema.blankField, type]

theorem FieldsMatch.omitsZero (same : FieldsMatch related field other) :
    omitsZero field.type = omitsZero other.type := by
  obtain ⟨rfl, _⟩ | ⟨index, position, _, type, rfl⟩ := same.cases
  · rfl
  · rw [type]
    rfl

theorem FieldsMatch.isPacked (same : FieldsMatch related field other) :
    isPacked field = isPacked other := by
  obtain ⟨rfl, _⟩ | ⟨index, position, _, type, rfl⟩ := same.cases
  · rfl
  · simp only [WireSchema.isPacked, type]

theorem FieldsMatch.writeRun (same : FieldsMatch related field other) :
    writeRun field path = writeRun other path := by
  obtain ⟨rfl, _⟩ | ⟨index, position, _, type, rfl⟩ := same.cases
  · rfl
  · funext items
    simp only [WireSchema.writeRun, type]

theorem FieldsMatch.fillSingle (same : FieldsMatch related field other)
    (inner : ∀ index position, related index position → field.type = .message index →
      first.fill index value = second.fill position value) :
    first.fillSingle field value = second.fillSingle other value := by
  obtain ⟨rfl, kind, type⟩ | ⟨index, position, here, type, rfl⟩ := same.cases
  · simp only [WireSchema.fillSingle, type]
  · simp only [WireSchema.fillSingle, type, inner index position here type]

theorem writeItems_congr {items : List Value}
    (each : ∀ item ∈ items, ∀ path,
      first.writeSingle field path item = second.writeSingle other path item) (start : Nat) :
    first.writeItems field path start items = second.writeItems other path start items := by
  induction items generalizing start with
  | nil => rw [writeItems_nil, writeItems_nil]
  | cons item rest ih =>
    rw [writeItems_cons, writeItems_cons, each item List.mem_cons_self,
      ih fun later member => each later (List.mem_cons_of_mem _ member)]

theorem writeFields_congr {members : List (String × Value)} {fields others : List WireField}
    (same : List.Forall₂ (FieldsMatch related) fields others)
    (each : ∀ field value, Table.get? members field.name = some value → ∀ other,
      FieldsMatch related field other →
        ∀ path, first.writeField field path value = second.writeField other path value) :
    first.writeFields path members fields = second.writeFields path members others := by
  induction same with
  | nil => rw [writeFields_nil, writeFields_nil]
  | @cons field other rest others same _ ih =>
    rw [writeFields_cons, writeFields_cons, ih]
    refine congrArg (· *> _) ?_
    unfold writeMember
    rw [← same.name]
    split
    · rfl
    · rename_i value found
      exact each field value found other same _

namespace Relocation

theorem typeName (relocation : Relocation first second related)
    (same : FieldsMatch related field other) :
    first.typeName field = second.typeName other := by
  obtain ⟨rfl, kind, type⟩ | ⟨index, position, here, type, rfl⟩ := same.cases
  · simp only [WireSchema.typeName, type]
  · simp only [WireSchema.typeName, type, relocation.name here]

-- Filling a message up comes down to filling up the members that it has.
theorem fill_of_members (relocation : Relocation first second related) (here : related index position)
    (each : ∀ field member, value.member? field.name = some member → ∀ other,
      FieldsMatch related field other →
        first.fillField field (some member) = second.fillField other (some member)) :
    first.fill index value = second.fill position value := by
  rw [fill_eq, fill_eq, fillFields, fillFields]
  refine congrArg (fun fields => Value.object (Table.ofList fields)) ?_
  refine map_eq_of_forall₂ ((relocation.fields here).imp fun field other same => ?_)
  rw [← same.name]
  cases found : value.member? field.name with
  | none => exact congrArg (Prod.mk field.name) same.blankField
  | some member => rw [each field member found other same]

theorem fill_unlike (relocation : Relocation first second related) (here : related index position)
    (unlike : ∀ members, value ≠ .object members) :
    first.fill index value = second.fill position value :=
  relocation.fill_of_members here fun field _ found =>
    nomatch (Value.member?_unlike unlike field.name).symm.trans found

theorem fillAt (relocation : Relocation first second related) {slot place : Slot}
    (same : SlotsMatch related slot place) (value : Value) :
    first.fillAt slot value = second.fillAt place value := by
  refine SlotCases.all (motive := fun slot value => ∀ place, SlotsMatch related slot place →
    first.fillAt slot value = second.fillAt place value) ⟨?object, ?unlike, ?unset, ?list, ?alone,
    ?single⟩ slot value place same
  case object =>
    intro index members ih place same
    cases same with
    | message here =>
      exact relocation.fill_of_members here fun field _ found other same =>
        ih field _ found _ (.field same)
  case unlike =>
    intro index value unlike place same
    cases same with
    | message here => exact relocation.fill_unlike here unlike
  case unset =>
    intro field place same
    cases same with
    | field same => exact same.blankField
  case list =>
    intro field items ih place same
    cases same with
    | @field _ other same =>
      show first.fillField field (some (.array items)) = second.fillField other (some (.array items))
      rw [fillField, fillField, ← same.repeated]
      split
      · refine congrArg Value.array (List.map_congr_left fun item inside => ?_)
        exact ih item inside _ (.single same)
      · exact same.fillSingle fun _ _ here _ => relocation.fill_unlike here fun _ => Value.noConfusion
  case alone =>
    intro field value alone ih place same
    cases same with
    | @field _ other same =>
      show first.fillField field (some value) = second.fillField other (some value)
      rw [fillField_single alone, fillField_single alone]
      exact ih _ (.single same)
  case single =>
    intro field value ih place same
    cases same with
    | single same =>
      exact same.fillSingle fun index position here type => ih index type _ (.message here)

theorem write (relocation : Relocation first second related) {slot place : Slot}
    (same : SlotsMatch related slot place) (path : FieldPath) (value : Value) :
    first.write slot path value = second.write place path value := by
  refine SlotCases.all (motive := fun slot value => ∀ place, SlotsMatch related slot place →
    ∀ path, first.write slot path value = second.write place path value) ⟨?object, ?unlike, ?unset,
    ?list, ?alone, ?single⟩ slot value place same path
  case object =>
    intro index members ih place same path
    cases same with
    | @message _ position here =>
      show first.writeMessage index path _ = second.writeMessage position path _
      rw [writeMessage_object, writeMessage_object]
      exact writeFields_congr (relocation.fields here) fun field value found other same path =>
        ih field value found _ (.field same) path
  case unlike =>
    intro index value unlike place same path
    cases same with
    | @message _ position here =>
      show first.writeMessage index path value = second.writeMessage position path value
      rw [writeMessage_unlike unlike, writeMessage_unlike unlike]
  case unset =>
    intro field place same path
    cases same with
    | @field _ other same =>
      show first.writeField field path .null = second.writeField other path .null
      rw [writeField_null, writeField_null]
  case list =>
    intro field items ih place same path
    cases same with
    | @field _ other same =>
      show first.writeField field path (.array items) = second.writeField other path (.array items)
      rw [writeField_list, writeField_list, same.repeated, same.isPacked, same.writeRun,
        relocation.typeName same, writeItems_congr fun item inside => ih item inside _ (.single same)]
  case alone =>
    intro field value alone ih place same path
    cases same with
    | @field _ other same =>
      have inner : first.writeSingle field path value = second.writeSingle other path value :=
        ih _ (.single same) path
      show first.writeField field path value = second.writeField other path value
      rw [writeField_alone alone, writeField_alone alone, same.repeated, same.omitsZero, inner]
  case single =>
    intro field value ih place same path
    cases same with
    | @single _ other same =>
      show first.writeSingle field path value = second.writeSingle other path value
      obtain ⟨rfl, kind, type⟩ | ⟨index, position, here, type, rfl⟩ := same.cases
      · rw [writeSingle_scalar type, writeSingle_scalar type]
      · have inner : first.writeMessage index path value = second.writeMessage position path value :=
          ih index type _ (.message here) path
        rw [writeSingle_message type, writeSingle_message rfl, inner]

theorem encodeMessage (relocation : Relocation first second related) (here : related index position)
    (path : FieldPath) (value : Value) :
    first.encodeMessage index path (first.fill index value)
      = second.encodeMessage position path (second.fill position value) := by
  have filled : first.fill index value = second.fill position value :=
    relocation.fillAt (.message here) value
  have written : first.writeMessage index path (second.fill position value)
      = second.writeMessage position path (second.fill position value) :=
    relocation.write (.message here) path (second.fill position value)
  rw [filled, WireSchema.encodeMessage, WireSchema.encodeMessage, written]

end Relocation

end WireSchema

end SigningSchema
