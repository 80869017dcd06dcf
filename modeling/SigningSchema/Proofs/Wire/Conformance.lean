import SigningSchema.Proofs.Wire.Scalar

-- Which values a message type takes, and what is written of them. For such values the
-- writer never fails, and its bytes are a function of the value alone: neither of the
-- path nor of what the buffer held before.

namespace SigningSchema

open Wire Writer

namespace WireSchema

-- A place for values: a whole message, a field, or one of the values of a field.
inductive Slot where
  | message (index : Nat)
  | field (field : WireField)
  | single (field : WireField)

-- The values that fit a place. Members that the type does not declare do not matter; a null fits a
-- field but is no element of a list.
inductive Conforms (schema : WireSchema) : Slot → Value → Prop where
  | object {index : Nat} {members : List (String × Value)}
      (fit : ∀ field ∈ (schema.typeAt index).fields, ∀ value,
        Table.get? members field.name = some value → Conforms schema (.field field) value) :
      Conforms schema (.message index) (.object members)
  | unset {field : WireField} : Conforms schema (.field field) .null
  | singular {field : WireField} {value : Value} (singular : field.repeated = false)
      (fits : Conforms schema (.single field) value) : Conforms schema (.field field) value
  | list {field : WireField} {items : List Value} (repeated : field.repeated = true)
      (fit : ∀ item ∈ items, Conforms schema (.single field) item) :
      Conforms schema (.field field) (.array items)
  | scalar {field : WireField} {kind : ScalarKind} {value : Value} (type : field.type = .scalar kind)
      (fits : value.ofKind kind = true) : Conforms schema (.single field) value
  | message {field : WireField} {index : Nat} {value : Value} (type : field.type = .message index)
      (fits : Conforms schema (.message index) value) : Conforms schema (.single field) value

-- A value of a single place is neither null nor a list.
theorem Conforms.single_cases {schema : WireSchema} {field : WireField} {value : Value}
    (fits : Conforms schema (.single field) value) :
    value ≠ .null ∧ ∀ items, value ≠ .array items := by
  cases fits with
  | scalar type fits =>
    rename_i kind
    constructor
    · rintro rfl
      cases kind <;> cases fits
    · rintro items rfl
      cases kind <;> cases fits
  | message type fits =>
    cases fits
    exact ⟨Value.noConfusion, fun _ => Value.noConfusion⟩

def write (schema : WireSchema) : Slot → FieldPath → Value → Writer Unit
  | .message index => schema.writeMessage index
  | .field field => schema.writeField field
  | .single field => schema.writeSingle field

-- Whether the values of a repeated field are written as one run.
def isPacked (field : WireField) : Bool :=
  match field.type with
  | .scalar kind => kind.isPackable
  | .message _ => false

def runBytes (field : WireField) (items : List Value) : Bytes :=
  match field.type with
  | .scalar kind => items.flatMap (scalarBytes kind)
  | .message _ => []

def Slot.depth : Slot → Nat
  | .message _ => 0
  | .single _ => 1
  | .field _ => 2

def bytes (schema : WireSchema) (slot : Slot) (value : Value) : Bytes :=
  match slot with
  | .message index =>
    match value with
    | .object members => (schema.typeAt index).fields.flatMap fun field =>
      match _found : Table.get? members field.name with
      | none => []
      | some member => bytes schema (.field field) member
    | _ => []
  | .field field =>
    match value with
    | .null => []
    | .array items =>
      if items.isEmpty then []
      else if isPacked field then
        tag field.tag .lengthDelimited ++ lengthDelimited (runBytes field items)
      else items.attach.flatMap fun item => bytes schema (.single field) item.1
    | other =>
      if omitsZero field.type && other.isWireDefault then [] else bytes schema (.single field) other
  | .single field =>
    match field.type with
    | .scalar kind => tag field.tag kind.wireType ++ scalarBytes kind value
    | .message inner =>
      tag field.tag .lengthDelimited ++ lengthDelimited (bytes schema (.message inner) value)
termination_by (sizeOf value, slot.depth)
decreasing_by
  · have smaller := Value.sizeOf_lt_of_get? _found
    exact Prod.Lex.left _ _ (by simp only [Value.object.sizeOf_spec]; omega)
  · have smaller := List.sizeOf_lt_of_mem item.2
    exact Prod.Lex.left _ _ (by simp only [Value.array.sizeOf_spec]; omega)
  · exact Prod.Lex.right _ (by simp only [Slot.depth]; decide)
  · exact Prod.Lex.right _ (by simp only [Slot.depth]; decide)

-- What a field adds to its message, as a member of it or absent.
def memberBytes (schema : WireSchema) (members : List (String × Value)) (field : WireField) : Bytes :=
  match Table.get? members field.name with
  | none => []
  | some member => schema.bytes (.field field) member

theorem bytes_object (schema : WireSchema) (index : Nat) (members : List (String × Value)) :
    schema.bytes (.message index) (.object members)
      = (schema.typeAt index).fields.flatMap (schema.memberBytes members) := by
  rw [bytes]
  refine congrArg (List.flatMap · _) (funext fun field => ?_)
  unfold memberBytes
  split <;> simp_all

theorem bytes_null (schema : WireSchema) (field : WireField) :
    schema.bytes (.field field) .null = [] := by
  rw [bytes]

theorem bytes_empty (schema : WireSchema) (field : WireField) :
    schema.bytes (.field field) (.array []) = [] := by
  rw [bytes]
  rfl

theorem bytes_packed (schema : WireSchema) {field : WireField} {items : List Value}
    (packed : isPacked field = true) (given : items ≠ []) :
    schema.bytes (.field field) (.array items)
      = tag field.tag .lengthDelimited ++ lengthDelimited (runBytes field items) := by
  rw [bytes, if_neg (by simpa using given), if_pos packed]

theorem bytes_list (schema : WireSchema) {field : WireField} (items : List Value)
    (separate : isPacked field = false) :
    schema.bytes (.field field) (.array items) = items.flatMap (schema.bytes (.single field)) := by
  rw [bytes]
  split
  · rename_i empty
    rw [List.isEmpty_iff.mp empty, List.flatMap_nil]
  · rw [if_neg (by simp [separate]), List.flatMap_subtype (g := schema.bytes (.single field)) (by simp),
      List.unattach_attach]

theorem bytes_singular (schema : WireSchema) {field : WireField} {value : Value}
    (single : value ≠ .null ∧ ∀ items, value ≠ .array items) :
    schema.bytes (.field field) value
      = if omitsZero field.type && value.isWireDefault then [] else schema.bytes (.single field) value := by
  rw [bytes]
  · exact single.1
  · exact single.2

theorem bytes_scalar (schema : WireSchema) {field : WireField} {kind : ScalarKind}
    (type : field.type = .scalar kind) (value : Value) :
    schema.bytes (.single field) value = tag field.tag kind.wireType ++ scalarBytes kind value := by
  rw [bytes]
  simp only [type]

theorem bytes_nested (schema : WireSchema) {field : WireField} {inner : Nat}
    (type : field.type = .message inner) (value : Value) :
    schema.bytes (.single field) value
      = tag field.tag .lengthDelimited ++ lengthDelimited (schema.bytes (.message inner) value) := by
  conv => lhs; rw [bytes]
  simp only [type]

end WireSchema

namespace Writer

-- A writer that succeeds on every buffer and adds the same bytes to each.
def Emits (writer : Writer Unit) (bytes : Bytes) : Prop :=
  ∀ buffer, writer.run buffer = .ok () (buffer ++ bytes)

theorem emit_emits (bytes : Bytes) : Emits (emit bytes) bytes := fun _ => rfl

theorem pure_emits : Emits (pure ()) [] := by
  intro buffer
  rw [List.append_nil]
  rfl

theorem Emits.bind {first second : Writer Unit} {bytes more : Bytes} (one : Emits first bytes)
    (two : Emits second more) : Emits (first >>= fun _ => second) (bytes ++ more) := by
  intro buffer
  have ran := one buffer
  have next := two (buffer ++ bytes)
  rw [← List.append_assoc, ← next]
  show EStateM.bind first (fun _ => second) buffer = _
  unfold EStateM.bind
  rw [show first buffer = .ok () (buffer ++ bytes) from ran]
  rfl

theorem Emits.seqRight {first second : Writer Unit} {bytes more : Bytes} (one : Emits first bytes)
    (two : Emits second more) : Emits (first *> second) (bytes ++ more) := by
  intro buffer
  have ran := one buffer
  have next := two (buffer ++ bytes)
  rw [← List.append_assoc, ← next]
  show EStateM.seqRight first (fun _ => second) buffer = _
  unfold EStateM.seqRight
  rw [show first buffer = .ok () (buffer ++ bytes) from ran]
  rfl

theorem Emits.staged {writer : Writer Unit} {bytes more : Bytes} {next : Bytes → Writer Unit}
    (one : Emits writer bytes) (two : Emits (next bytes) more) :
    Emits (Writer.staged writer >>= next) more := by
  have alone : Writer.staged writer = pure bytes := by
    unfold Writer.staged
    rw [one []]
    rfl
  rw [alone]
  exact two

end Writer

namespace WireSchema

variable {schema : WireSchema}

theorem writePayload_emits {kind : ScalarKind} {value : Value} (fits : value.ofKind kind = true)
    (path : FieldPath) : Emits (writePayload kind path value) (scalarBytes kind value) := by
  unfold writePayload
  rw [payload?_of_ofKind fits]
  exact emit_emits _

theorem writePayloads_emits {kind : ScalarKind} {items : List Value}
    (fit : ∀ item ∈ items, item.ofKind kind = true) (path : FieldPath) (position : Nat) :
    Emits (writePayloads kind path position items) (items.flatMap (scalarBytes kind)) := by
  induction items generalizing position with
  | nil => exact pure_emits
  | cons item rest ih =>
    exact (writePayload_emits (fit item List.mem_cons_self) _).bind
      (ih (fun other member => fit other (List.mem_cons_of_mem _ member)) _)

theorem writeItems_emits {field : WireField} {items : List Value}
    (each : ∀ item ∈ items, ∀ path,
      Emits (schema.writeSingle field path item) (schema.bytes (.single field) item))
    (path : FieldPath) (position : Nat) :
    Emits (schema.writeItems field path position items)
      (items.flatMap (schema.bytes (.single field))) := by
  induction items generalizing position with
  | nil =>
    rw [writeItems]
    exact pure_emits
  | cons item rest ih =>
    rw [writeItems]
    exact (each item List.mem_cons_self _).bind
      (ih (fun other member => each other (List.mem_cons_of_mem _ member)) _)

theorem writeFields_emits {members : List (String × Value)} {fields : List WireField}
    (each : ∀ field ∈ fields, ∀ value, Table.get? members field.name = some value → ∀ path,
      Emits (schema.writeField field path value) (schema.bytes (.field field) value))
    (path : FieldPath) :
    Emits (schema.writeFields path members fields) (fields.flatMap (schema.memberBytes members)) := by
  induction fields with
  | nil =>
    rw [writeFields]
    exact pure_emits
  | cons field rest ih =>
    rw [writeFields, List.flatMap_cons]
    refine Emits.seqRight ?_ (ih fun other member => each other (List.mem_cons_of_mem _ member))
    unfold memberBytes
    split
    · rename_i absent
      rw [absent]
      exact pure_emits
    · rename_i value found
      rw [found]
      exact each field List.mem_cons_self value found _

-- A value that fits its place is written, whatever the path and the buffer.
theorem write_emits {slot : Slot} {value : Value} (conforms : schema.Conforms slot value)
    (path : FieldPath) : Emits (schema.write slot path value) (schema.bytes slot value) := by
  induction conforms generalizing path with
  | @object index members fit ih =>
    rw [bytes_object]
    show Emits (schema.writeMessage index path (.object members)) _
    rw [writeMessage]
    exact writeFields_emits (fun field member value found path => ih field member value found path) path
  | @unset field =>
    rw [bytes_null]
    show Emits (schema.writeField field path .null) _
    rw [writeField]
    exact pure_emits
  | @singular field value singular fits ih =>
    have single := fits.single_cases
    rw [bytes_singular schema single]
    show Emits (schema.writeField field path value) _
    have written : schema.writeField field path value
        = if omitsZero field.type && value.isWireDefault then pure ()
          else schema.writeSingle field path value := by
      rw [writeField]
      · simp [singular]
      · exact single.1
      · exact single.2
    rw [written]
    split
    · exact pure_emits
    · exact ih path
  | @list field items repeated fit ih =>
    show Emits (schema.writeField field path (.array items)) _
    rw [writeField, if_neg (by simp [repeated])]
    split
    · rename_i empty
      rw [List.isEmpty_iff.mp empty, bytes_empty]
      exact pure_emits
    · rename_i given
      have given : items ≠ [] := by simpa using given
      have separately := writeItems_emits (fun item member path => ih item member path) path 0
      cases type : field.type with
      | scalar kind =>
        simp only
        split
        · rename_i packable
          rw [bytes_packed schema (by simp only [isPacked, type, packable]) given]
          refine Emits.staged (writePayloads_emits ?_ path 0) ?_
          · intro item member
            cases fit item member with
            | scalar same fits =>
              cases type.symm.trans same
              exact fits
            | message other _ => cases type.symm.trans other
          · rw [runBytes, type]
            exact emit_emits _
        · rename_i separate
          rw [bytes_list schema items (by simp only [isPacked, type]; simpa using separate)]
          exact separately
      | message inner =>
        rw [bytes_list schema items (by simp only [isPacked, type])]
        exact separately
  | @scalar field kind value type fits =>
    show Emits (schema.writeSingle field path value) _
    rw [writeSingle, bytes_scalar schema type]
    simp only [type]
    exact (emit_emits _).bind (writePayload_emits fits path)
  | @message field index value type fits ih =>
    show Emits (schema.writeSingle field path value) _
    rw [writeSingle, bytes_nested schema type]
    simp only [type]
    exact Emits.staged (ih path) (emit_emits _)

theorem encodeMessage_of_conforms {index : Nat} {value : Value}
    (conforms : schema.Conforms (.message index) value) (path : FieldPath) :
    schema.encodeMessage index path value = .ok (schema.bytes (.message index) value) := by
  have ran : (schema.writeMessage index path value).run []
      = .ok () ([] ++ schema.bytes (.message index) value) := write_emits conforms path []
  rw [encodeMessage, ran]
  rfl

end WireSchema

end SigningSchema
