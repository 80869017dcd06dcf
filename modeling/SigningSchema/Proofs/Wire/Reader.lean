import SigningSchema.Proofs.Wire.Filling

-- A reader of messages that knows only a schema. Fields may come in any order and any
-- number of times: lists grow, messages are merged, of other values the last one counts,
-- and fields that the type does not declare are skipped.

namespace SigningSchema

open Wire

namespace WireSchema

def blank (schema : WireSchema) (index : Nat) : Table Value :=
  Table.ofList ((schema.typeAt index).fields.map fun field => (field.name, blankField field))

-- The values that a record adds to a scalar field. Lists of packable kinds may come in runs.
def readScalars (kind : ScalarKind) (repeated : Bool) (payload : Payload) : Option (List Value) :=
  match repeated && kind.isPackable, payload with
  | true, .lengthDelimited body => readRun kind body
  | _, payload => (readScalar kind payload).map ([·])

-- A field after some values were read for it.
def place (field : WireField) (held : Option Value) (values : List Value) : Value :=
  if field.repeated then
    match held with
    | some (.array items) => .array (items ++ values)
    | _ => .array values
  else values.getLastD .null

-- The members with which the reading of a message begins.
def resume (schema : WireSchema) (index : Nat) (repeated : Bool) (held : Option Value) : Table Value :=
  match repeated, held with
  | false, some (.object members) => members
  | _, _ => schema.blank index

mutual

def readMessage (schema : WireSchema) (index : Nat) (members : Table Value) (bytes : Bytes) :
    Option (Table Value) :=
  match schema.types[index]? with
  | none => none
  | some type =>
    match bytes with
    | [] => some members
    | byte :: more =>
      match _read : readRecord (byte :: more) with
      | none => none
      | some (record, rest) =>
        match type.fields.find? (·.tag.toNat = record.number) with
        | none => readMessage schema index members rest
        | some field =>
          let held := members.get? field.name
          match readField schema field held record.payload with
          | none => none
          | some values =>
            readMessage schema index (members.insert field.name (place field held values)) rest
termination_by (bytes.length, 0)
decreasing_by
  all_goals
    have shorter := readRecord_shorter _read
    exact Prod.Lex.left _ _ (by omega)

-- The values that a record adds to its field.
def readField (schema : WireSchema) (field : WireField) (held : Option Value) (payload : Payload) :
    Option (List Value) :=
  match field.type with
  | .scalar kind => readScalars kind field.repeated payload
  | .message inner =>
    match payload with
    | .lengthDelimited body =>
      (readMessage schema inner (schema.resume inner field.repeated held) body).map
        fun members => [.object members]
    | _ => none
termination_by (payload.length, 1)
decreasing_by
  exact Prod.Lex.right _ Nat.zero_lt_one

end

-- The message of a type that a whole buffer holds.
def read (schema : WireSchema) (index : Nat) (bytes : Bytes) : Option Value :=
  (schema.readMessage index (schema.blank index) bytes).map .object

variable {schema : WireSchema} {index : Nat} {type : MessageType} {field : WireField}

theorem readMessage_nil (located : schema.types[index]? = some type) (members : Table Value) :
    schema.readMessage index members [] = some members := by
  rw [readMessage, located]

theorem readMessage_step (located : schema.types[index]? = some type) {members : Table Value}
    {bytes rest : Bytes} {record : Record} {values : List Value}
    (read : readRecord bytes = some (record, rest))
    (known : type.fields.find? (·.tag.toNat = record.number) = some field)
    (adds : schema.readField field (members.get? field.name) record.payload = some values) :
    schema.readMessage index members bytes
      = schema.readMessage index
          (members.insert field.name (place field (members.get? field.name) values)) rest := by
  cases bytes with
  | nil => cases read
  | cons byte more =>
    rw [readMessage, located]
    simp only
    split
    · rename_i failed
      rw [read] at failed
      cases failed
    · rename_i found ran
      rw [read] at ran
      cases ran
      rw [known]
      simp only [adds]

theorem WellFormed.find? (valid : schema.WellFormed) (declared : type ∈ schema.types)
    (member : field ∈ type.fields) :
    type.fields.find? (·.tag.toNat = field.tag.toNat) = some field := by
  have distinct := valid.tags type declared
  generalize type.fields = fields at member distinct
  induction fields with
  | nil => cases member
  | cons first rest ih =>
    obtain ⟨new, distinct⟩ := List.nodup_cons.mp distinct
    rcases List.mem_cons.mp member with rfl | later
    · exact List.find?_cons_of_pos (by simp)
    · have differs : first.tag ≠ field.tag := fun same =>
        new (same ▸ List.mem_map_of_mem later)
      rw [List.find?_cons_of_neg (by simpa [UInt32.toNat_inj] using differs), ih later distinct]

end WireSchema

end SigningSchema
