import SigningSchema.Proofs.Wire.Conformance

-- Writing any value at all, whether it fits its place or not: the writer as equations, and the
-- induction that follows it from an object to its members and from a list to its items.

namespace SigningSchema

open Wire Writer

namespace WireSchema

-- The cases of an induction over a value in its place.
structure SlotCases (motive : Slot → Value → Prop) : Prop where
  object : ∀ index members,
    (∀ field value, Table.get? members field.name = some value → motive (.field field) value) →
    motive (.message index) (.object members)
  unlike : ∀ index value, (∀ members, value ≠ .object members) → motive (.message index) value
  unset : ∀ field, motive (.field field) .null
  list : ∀ field items, (∀ item ∈ items, motive (.single field) item) →
    motive (.field field) (.array items)
  alone : ∀ field value, (value ≠ .null ∧ ∀ items, value ≠ .array items) →
    motive (.single field) value → motive (.field field) value
  single : ∀ field value, (∀ inner, field.type = .message inner → motive (.message inner) value) →
    motive (.single field) value

-- By induction on the size of the value: its places are settled from the message to the field.
theorem SlotCases.all {motive : Slot → Value → Prop} (each : SlotCases motive) (slot : Slot)
    (value : Value) : motive slot value := by
  induction size : sizeOf value using Nat.strongRecOn generalizing slot value with
  | _ size ih =>
    subst size
    have message : ∀ index, motive (.message index) value := by
      intro index
      cases value with
      | object members =>
        refine each.object index members fun field part found => ih _ ?_ _ _ rfl
        have smaller := Value.sizeOf_lt_of_get? found
        simp only [Value.object.sizeOf_spec]
        omega
      | _ => exact each.unlike index _ fun _ => Value.noConfusion
    have single : ∀ field, motive (.single field) value :=
      fun field => each.single field value fun inner _ => message inner
    cases slot with
    | message index => exact message index
    | single field => exact single field
    | field field =>
      cases value with
      | null => exact each.unset field
      | array items =>
        refine each.list field items fun item inside => ih _ ?_ _ _ rfl
        have smaller := List.sizeOf_lt_of_mem inside
        simp only [Value.array.sizeOf_spec]
        omega
      | _ => exact each.alone field _ ⟨Value.noConfusion, fun _ => Value.noConfusion⟩ (single field)

variable {schema : WireSchema} {field : WireField} {index : Nat} {path : FieldPath} {value : Value}

-- What a message writes for one of its fields.
def writeMember (schema : WireSchema) (path : FieldPath) (members : List (String × Value))
    (field : WireField) : Writer Unit :=
  match Table.get? members field.name with
  | none => pure ()
  | some value => schema.writeField field (path.field field.name) value

theorem writeMessage_object (members : List (String × Value)) :
    schema.writeMessage index path (.object members)
      = schema.writeFields path members (schema.typeAt index).fields := by
  rw [writeMessage]

theorem writeMessage_unlike (unlike : ∀ members, value ≠ .object members) :
    schema.writeMessage index path value = mismatch path "object" value := by
  cases value with
  | object members => exact absurd rfl (unlike members)
  | _ => rw [writeMessage]; exact unlike

theorem writeFields_nil (members : List (String × Value)) :
    schema.writeFields path members [] = pure () := by
  rw [writeFields]

theorem writeFields_cons (members : List (String × Value)) (rest : List WireField) :
    schema.writeFields path members (field :: rest)
      = schema.writeMember path members field *> schema.writeFields path members rest := by
  rw [writeFields]
  refine congrArg (· *> _) ?_
  unfold writeMember
  split <;> simp_all

theorem writeMember_of_get {members : List (String × Value)}
    (given : Table.get? members field.name = some value) :
    schema.writeMember path members field = schema.writeField field (path.field field.name) value := by
  unfold writeMember
  rw [given]

theorem writeField_null : schema.writeField field path .null = pure () := by
  rw [writeField]

theorem writeField_alone (alone : value ≠ .null ∧ ∀ items, value ≠ .array items) :
    schema.writeField field path value
      = if field.repeated then mismatch path "array" value
        else if omitsZero field.type && value.isWireDefault then pure ()
        else schema.writeSingle field path value := by
  rw [writeField]
  · exact alone.1
  · exact alone.2

theorem writeField_zero (singular : field.repeated = false)
    (alone : value ≠ .null ∧ ∀ items, value ≠ .array items)
    (zero : (omitsZero field.type && value.isWireDefault) = true) :
    schema.writeField field path value = pure () := by
  rw [writeField_alone alone, singular, if_neg Bool.noConfusion, if_pos zero]

-- The values of a packable kind, as one run.
def writeRun (field : WireField) (path : FieldPath) (items : List Value) : Writer Unit :=
  match field.type with
  | .scalar kind => do
    let run ← staged (writePayloads kind path 0 items)
    emit (tag field.tag .lengthDelimited ++ lengthDelimited run)
  | .message _ => pure ()

theorem writeField_list (items : List Value) :
    schema.writeField field path (.array items)
      = if field.repeated = false then mismatch path (schema.typeName field) (.array items)
        else if items.isEmpty then pure ()
        else if isPacked field then writeRun field path items
        else schema.writeItems field path 0 items := by
  rw [writeField]
  unfold isPacked writeRun
  cases field.type <;> cases field.repeated <;> rfl

theorem writeItems_nil (position : Nat) :
    schema.writeItems field path position [] = pure () := by
  rw [writeItems]

theorem writeItems_cons (position : Nat) (item : Value) (rest : List Value) :
    schema.writeItems field path position (item :: rest)
      = schema.writeSingle field (path.index position) item
        >>= fun _ => schema.writeItems field path (position + 1) rest := by
  rw [writeItems]

theorem writeSingle_scalar {kind : ScalarKind} (type : field.type = .scalar kind) :
    schema.writeSingle field path value
      = emit (tag field.tag kind.wireType) >>= fun _ => writePayload kind path value := by
  rw [writeSingle]
  simp only [type]

theorem writeSingle_message {inner : Nat} (type : field.type = .message inner) :
    schema.writeSingle field path value
      = staged (schema.writeMessage inner path value) >>= fun body =>
        emit (tag field.tag .lengthDelimited ++ lengthDelimited body) := by
  rw [writeSingle]
  simp only [type]

end WireSchema

end SigningSchema
