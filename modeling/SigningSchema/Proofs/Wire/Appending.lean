import SigningSchema.Proofs.Wire.Reporting

-- Writing only appends, and what it appends does not depend on what is there already: the bytes of the
-- value, or, where the value does not go through, an error and the bytes of what came before it. Runs and
-- nested messages are made apart, so one that does not go through leaves nothing of itself.

namespace SigningSchema

open Wire Writer

namespace Writer

variable {first second : Writer Unit} {next : α → Writer β} {error : CoercionError} {bytes left : Bytes}

-- A writer that fails on every buffer with one error, and leaves the same bytes behind each.
def Breaks (writer : Writer α) (error : CoercionError) (left : Bytes) : Prop :=
  ∀ buffer, writer.run buffer = .error error (buffer ++ left)

theorem mismatch_breaks (path : FieldPath) (expected : String) (found : Value) :
    Breaks (mismatch path expected found : Writer α) (.shape path expected found.kindName) [] := by
  intro buffer
  rw [List.append_nil]
  rfl

theorem Breaks.bind {writer : Writer α} (breaks : Breaks writer error left) :
    Breaks (writer >>= next) error left := by
  intro buffer
  rw [EStateM.run_bind, breaks buffer]

theorem Emits.breaks (emits : Emits first bytes) (breaks : Breaks second error left) :
    Breaks (first >>= fun _ => second) error (bytes ++ left) := by
  intro buffer
  rw [EStateM.run_bind, emits buffer, ← List.append_assoc]
  exact breaks _

-- What a buffer of its own holds where the writer fails is given up.
theorem Breaks.staged {next : Bytes → Writer β} (breaks : Breaks first error left) :
    Breaks (Writer.staged first >>= next) error [] := by
  have alone : Writer.staged first = throw error := by
    unfold Writer.staged
    rw [breaks []]
  intro buffer
  rw [alone, List.append_nil]
  rfl

-- A writer that adds the same bytes to every buffer, all that it is to write or what comes of a break.
def Settles (writer : Writer Unit) (bytes : Bytes) (broken : CoercionError → Bytes → Prop) : Prop :=
  Emits writer bytes ∨ ∃ error left, broken error left ∧ Breaks writer error left

theorem Settles.imp {broken more : CoercionError → Bytes → Prop} (settles : Settles first bytes broken)
    (widens : ∀ error left, broken error left → more error left) : Settles first bytes more :=
  settles.imp_right fun ⟨error, left, inside, breaks⟩ => ⟨error, left, widens error left inside, breaks⟩

theorem Settles.of_error {broken : CoercionError → Bytes → Prop} {buffer after : Bytes}
    (settles : Settles first bytes broken) (ran : first.run buffer = .error error after) :
    ∃ left, broken error left ∧ after = buffer ++ left := by
  rcases settles with emits | ⟨cause, left, inside, breaks⟩
  · rw [emits buffer] at ran
    cases ran
  · rw [breaks buffer] at ran
    cases ran
    exact ⟨left, inside, rfl⟩

def inOrder : List (Writer Unit) → Writer Unit
  | [] => pure ()
  | first :: rest => first >>= fun _ => inOrder rest

-- What remains of writers that run one after the other: everything up to the first one that breaks, and
-- what that one leaves.
def BreaksWithin (one : α → Writer Unit) (bytes : α → Bytes)
    (broken : α → CoercionError → Bytes → Prop) (parts : List α) (error : CoercionError)
    (left : Bytes) : Prop :=
  ∃ before part after rest, parts = before ++ part :: after ∧
    (∀ other ∈ before, Emits (one other) (bytes other)) ∧ broken part error rest ∧
    left = before.flatMap bytes ++ rest

theorem settles_inOrder {one : α → Writer Unit} {bytes : α → Bytes}
    {broken : α → CoercionError → Bytes → Prop} {parts : List α}
    (each : ∀ part ∈ parts, Settles (one part) (bytes part) (broken part)) :
    Settles (inOrder (parts.map one)) (parts.flatMap bytes) (BreaksWithin one bytes broken parts) := by
  induction parts with
  | nil => exact .inl pure_emits
  | cons part rest ih =>
    rw [List.map_cons, inOrder, List.flatMap_cons]
    rcases each part List.mem_cons_self with emits | ⟨error, left, inside, breaks⟩
    · rcases ih fun other member => each other (List.mem_cons_of_mem _ member) with
        emitsToo | ⟨error, left, ⟨before, other, after, last, rfl, through, inside, rfl⟩, breaks⟩
      · exact .inl (emits.bind emitsToo)
      · refine .inr ⟨error, _, ⟨part :: before, other, after, last, rfl, ?_, inside, ?_⟩,
          emits.breaks breaks⟩
        · intro earlier member
          rcases List.mem_cons.mp member with rfl | later
          · exact emits
          · exact through earlier later
        · rw [List.flatMap_cons, List.append_assoc]
    · exact .inr ⟨error, left, ⟨[], part, rest, left, rfl, nofun, inside, rfl⟩, breaks.bind⟩

end Writer

namespace WireSchema

variable {schema : WireSchema} {field : WireField} {path : FieldPath} {value : Value}

-- A list that goes through item by item, each under its own path, is left where it stops.
theorem settles_items {one : FieldPath → Value → Writer Unit} {bytes : Value → Bytes}
    {broken : FieldPath → Value → CoercionError → Bytes → Prop} {items : List Value}
    (each : ∀ item ∈ items, ∀ path, Settles (one path item) (bytes item) (broken path item))
    (path : FieldPath) :
    Settles (inOrder (items.zipIdx.map fun part => one (path.index part.2) part.1))
      (items.flatMap bytes) fun error left => ∃ before item after rest, items = before ++ item :: after ∧
        (∀ part ∈ before.zipIdx, Emits (one (path.index part.2) part.1) (bytes part.1)) ∧
        broken (path.index before.length) item error rest ∧ left = before.flatMap bytes ++ rest := by
  let placed (part : Value × Nat) := one (path.index part.2) part.1
  let brokenAt (part : Value × Nat) := broken (path.index part.2) part.1
  have parts : Settles (inOrder (items.zipIdx.map placed)) (items.zipIdx.flatMap (bytes ·.1))
      (BreaksWithin placed (bytes ·.1) brokenAt items.zipIdx) :=
    settles_inOrder fun part member => each part.1 (List.fst_mem_of_mem_zipIdx member) _
  have whole : ∀ some : List Value, (some.zipIdx.flatMap fun part => bytes part.1) = some.flatMap bytes := by
    intro some
    rw [← List.flatMap_map, List.zipIdx_map_fst]
  rw [whole] at parts
  refine parts.imp ?_
  rintro error left ⟨_, _, _, rest, split, through, inside, rfl⟩
  obtain ⟨before, others, rfl, rfl, later⟩ := List.zipIdx_eq_append_iff.mp split
  obtain ⟨item, after, rfl, rfl, _⟩ := List.zipIdx_eq_cons_iff.mp later.symm
  rw [Nat.zero_add] at inside
  exact ⟨before, item, after, rest, rfl, through, inside, by rw [whole]⟩

theorem writePayloads_eq_inOrder (kind : ScalarKind) (path : FieldPath) (position : Nat)
    (items : List Value) : writePayloads kind path position items
      = inOrder ((items.zipIdx position).map fun part => writePayload kind (path.index part.2) part.1) := by
  induction items generalizing position with
  | nil => rfl
  | cons item rest ih => rw [writePayloads, ih, List.zipIdx_cons, List.map_cons, inOrder]

theorem writeItems_eq_inOrder (schema : WireSchema) (field : WireField) (path : FieldPath)
    (position : Nat) (items : List Value) : schema.writeItems field path position items
      = inOrder ((items.zipIdx position).map fun part =>
          schema.writeSingle field (path.index part.2) part.1) := by
  induction items generalizing position with
  | nil => exact writeItems_nil position
  | cons item rest ih => rw [writeItems_cons, ih, List.zipIdx_cons, List.map_cons, inOrder]

theorem writeFields_eq_inOrder (schema : WireSchema) (path : FieldPath)
    (members : List (String × Value)) (fields : List WireField) :
    schema.writeFields path members fields = inOrder (fields.map (schema.writeMember path members)) := by
  induction fields with
  | nil => exact writeFields_nil members
  | cons field rest ih => rw [writeFields_cons, seqRight_eq_bind, ih, List.map_cons, inOrder]

-- What is left in the buffer of a value that does not go through, with the error: nothing of a value
-- that is refused as a whole, of a run, or of a nested message; the key of a scalar that stands by
-- itself; and all of the fields and items that come before.
inductive Leaves (schema : WireSchema) : Slot → FieldPath → Value → CoercionError → Bytes → Prop where
  | form {index : Nat} {path : FieldPath} {value : Value} (unlike : ∀ members, value ≠ .object members) :
      Leaves schema (.message index) path value (.shape path "object" value.kindName) []
  | member {index : Nat} {path : FieldPath} {members : List (String × Value)}
      {before after : List WireField} {field : WireField} {value : Value} {error : CoercionError}
      {left : Bytes} (declared : (schema.typeAt index).fields = before ++ field :: after)
      (through : ∀ other ∈ before,
        Emits (schema.writeMember path members other) (schema.memberBytes members other))
      (held : Table.get? members field.name = some value)
      (inner : Leaves schema (.field field) (path.field field.name) value error left) :
      Leaves schema (.message index) path (.object members) error
        (before.flatMap (schema.memberBytes members) ++ left)
  | many {field : WireField} {path : FieldPath} {items : List Value} (singular : field.repeated = false) :
      Leaves schema (.field field) path (.array items) (.shape path (schema.typeName field) "array") []
  | lone {field : WireField} {path : FieldPath} {value : Value} (repeated : field.repeated = true)
      (alone : value ≠ .null ∧ ∀ items, value ≠ .array items) :
      Leaves schema (.field field) path value (.shape path "array" value.kindName) []
  | run {field : WireField} {kind : ScalarKind} {path : FieldPath} {before after : List Value}
      {item : Value} (repeated : field.repeated = true) (packed : isPacked field = true)
      (type : field.type = .scalar kind)
      (through : ∀ part ∈ before.zipIdx,
        Emits (writePayload kind (path.index part.2) part.1) (scalarBytes kind part.1))
      (unlike : item.ofKind kind = false) :
      Leaves schema (.field field) path (.array (before ++ item :: after))
        (.shape (path.index before.length) kind.keyword item.kindName) []
  | item {field : WireField} {path : FieldPath} {before after : List Value} {item : Value}
      {error : CoercionError} {left : Bytes} (repeated : field.repeated = true)
      (separate : isPacked field = false)
      (through : ∀ part ∈ before.zipIdx,
        Emits (schema.writeSingle field (path.index part.2) part.1) (schema.bytes (.single field) part.1))
      (inner : Leaves schema (.single field) (path.index before.length) item error left) :
      Leaves schema (.field field) path (.array (before ++ item :: after)) error
        (before.flatMap (schema.bytes (.single field)) ++ left)
  | singular {field : WireField} {path : FieldPath} {value : Value} {error : CoercionError}
      {left : Bytes} (singular : field.repeated = false)
      (alone : value ≠ .null ∧ ∀ items, value ≠ .array items)
      (inner : Leaves schema (.single field) path value error left) :
      Leaves schema (.field field) path value error left
  | key {field : WireField} {kind : ScalarKind} {path : FieldPath} {value : Value}
      (type : field.type = .scalar kind) (unlike : value.ofKind kind = false) :
      Leaves schema (.single field) path value (.shape path kind.keyword value.kindName)
        (tag field.tag kind.wireType)
  | nested {field : WireField} {index : Nat} {path : FieldPath} {value : Value} {error : CoercionError}
      {left : Bytes} (type : field.type = .message index)
      (inner : Leaves schema (.message index) path value error left) :
      Leaves schema (.single field) path value error []

theorem writePayload_settles (kind : ScalarKind) (path : FieldPath) (value : Value) :
    Settles (writePayload kind path value) (scalarBytes kind value) fun error left =>
      value.ofKind kind = false ∧ error = .shape path kind.keyword value.kindName ∧ left = [] := by
  cases fits : value.ofKind kind with
  | true => exact .inl (writePayload_emits fits path)
  | false =>
    have unlike : payload? kind value = none := by
      rw [← Option.isNone_iff_eq_none, ← Option.not_isSome, payload?_isSome, fits]
      rfl
    rw [writePayload, unlike]
    exact .inr ⟨_, _, ⟨rfl, rfl, rfl⟩, mismatch_breaks _ _ _⟩

theorem writeRun_settles (repeated : field.repeated = true) (packed : isPacked field = true)
    (path : FieldPath) (items : List Value) :
    Settles (writeRun field path items)
      (tag field.tag .lengthDelimited ++ lengthDelimited (runBytes field items))
      (schema.Leaves (.field field) path (.array items)) := by
  unfold writeRun runBytes
  cases type : field.type with
  | message inner => simp [isPacked, type] at packed
  | scalar kind =>
    dsimp only
    rw [writePayloads_eq_inOrder]
    have each : ∀ item ∈ items, ∀ path, Settles (writePayload kind path item) _ _ :=
      fun item _ path => writePayload_settles kind path item
    rcases settles_items each path with
      emits | ⟨error, left, ⟨before, item, after, rest, rfl, through, ⟨unlike, rfl, rfl⟩, _⟩, breaks⟩
    · exact .inl (Emits.staged emits (emit_emits _))
    · exact .inr ⟨_, [], .run repeated packed type through unlike, breaks.staged⟩

-- By the cases of the value: a place is settled by the places inside it.
theorem write_settles (schema : WireSchema) (slot : Slot) (path : FieldPath) (value : Value) :
    Settles (schema.write slot path value) (schema.bytes slot value) (schema.Leaves slot path value) := by
  refine SlotCases.all (motive := fun slot value => ∀ path,
    Settles (schema.write slot path value) (schema.bytes slot value) (schema.Leaves slot path value))
    ⟨?object, ?unlike, ?unset, ?list, ?alone, ?single⟩ slot value path
  case object =>
    intro index members ih path
    show Settles (schema.writeMessage index path _) _ _
    rw [writeMessage_object, writeFields_eq_inOrder, bytes_object]
    have each : ∀ field ∈ (schema.typeAt index).fields, Settles (schema.writeMember path members field)
        (schema.memberBytes members field) fun error left => ∃ value,
          Table.get? members field.name = some value ∧
            schema.Leaves (.field field) (path.field field.name) value error left := by
      intro field _
      unfold writeMember memberBytes
      cases held : Table.get? members field.name with
      | none => exact .inl pure_emits
      | some value => exact (ih field value held _).imp fun error left inner => ⟨value, rfl, inner⟩
    refine (settles_inOrder each).imp ?_
    rintro error left ⟨before, field, after, rest, declared, through, ⟨value, held, inner⟩, rfl⟩
    exact .member declared through held inner
  case unlike =>
    intro index value unlike path
    show Settles (schema.writeMessage index path value) _ _
    rw [writeMessage_unlike unlike]
    exact .inr ⟨_, _, .form unlike, mismatch_breaks _ _ _⟩
  case unset =>
    intro field path
    show Settles (schema.writeField field path _) _ _
    rw [writeField_null, bytes_null]
    exact .inl pure_emits
  case list =>
    intro field items ih path
    show Settles (schema.writeField field path _) _ _
    rw [writeField_list]
    cases several : field.repeated with
    | false => exact .inr ⟨_, _, .many several, mismatch_breaks _ _ _⟩
    | true =>
      rw [if_neg Bool.noConfusion]
      split
      · rename_i empty
        rw [List.isEmpty_iff.mp empty, bytes_empty]
        exact .inl pure_emits
      · rename_i given
        split
        · rename_i packed
          rw [bytes_packed schema packed (by simpa using given)]
          exact writeRun_settles several packed path items
        · rename_i separate
          replace separate : isPacked field = false := by simpa using separate
          rw [writeItems_eq_inOrder, bytes_list schema items separate]
          refine (settles_items ih path).imp ?_
          rintro error left ⟨before, item, after, rest, rfl, through, inner, rfl⟩
          exact .item several separate through inner
  case alone =>
    intro field value alone ih path
    show Settles (schema.writeField field path value) _ _
    rw [writeField_alone alone, bytes_singular schema alone]
    cases several : field.repeated with
    | true => exact .inr ⟨_, _, .lone several alone, mismatch_breaks _ _ _⟩
    | false =>
      rw [if_neg Bool.noConfusion]
      split
      · exact .inl pure_emits
      · exact (ih path).imp fun error left inner => .singular several alone inner
  case single =>
    intro field value ih path
    show Settles (schema.writeSingle field path value) _ _
    cases type : field.type with
    | scalar kind =>
      rw [writeSingle_scalar type, bytes_scalar schema type]
      rcases writePayload_settles kind path value with emits | ⟨error, left, ⟨unlike, rfl, rfl⟩, breaks⟩
      · exact .inl ((emit_emits _).bind emits)
      · refine .inr ⟨_, _, .key type unlike, ?_⟩
        have kept := (emit_emits (tag field.tag kind.wireType)).breaks breaks
        rwa [List.append_nil] at kept
    | message inner =>
      rw [writeSingle_message type, bytes_nested schema type]
      rcases ih inner type path with emits | ⟨error, left, inner, breaks⟩
      · exact .inl (Emits.staged emits (emit_emits _))
      · exact .inr ⟨error, [], .nested type inner, breaks.staged⟩

theorem Leaves.of_packed {items : List Value} {error : CoercionError} {left : Bytes}
    (leaves : schema.Leaves (.field field) path (.array items) error left)
    (packed : isPacked field = true) : left = [] := by
  cases leaves with
  | many | run => rfl
  | lone _ alone | singular _ alone _ => exact absurd rfl (alone.2 items)
  | item _ separate _ _ => exact absurd (packed.symm.trans separate) Bool.noConfusion

theorem Leaves.of_nested {inner : Nat} {error : CoercionError} {left : Bytes}
    (leaves : schema.Leaves (.single field) path value error left) (type : field.type = .message inner) :
    left = [] := by
  cases leaves with
  | key scalar _ => cases type.symm.trans scalar
  | nested => rfl

-- A message goes into a buffer exactly where it can be encoded, and then adds its encoding. Where it
-- cannot, the error is the same for every buffer, and so is what is left behind the old contents. What is
-- left has no byte of a run, or of a nested message, that the error lies in.
theorem encodeMessage_appends (schema : WireSchema) (index : Nat) (path : FieldPath) (value : Value) :
    (∀ buffer, (∃ after, (schema.writeMessage index path value).run buffer = .ok () after) ↔
      ∃ bytes, schema.encodeMessage index path value = .ok bytes) ∧
    (∀ bytes, schema.encodeMessage index path value = .ok bytes →
      ∀ buffer, (schema.writeMessage index path value).run buffer = .ok () (buffer ++ bytes)) ∧
    (∀ error, schema.encodeMessage index path value = .error error →
      ∃ left, schema.Leaves (.message index) path value error left ∧
        ∀ buffer, (schema.writeMessage index path value).run buffer = .error error (buffer ++ left)) ∧
    (∀ field items buffer error after, isPacked field = true →
      (schema.writeField field path (.array items)).run buffer = .error error after → after = buffer) ∧
    ∀ field inner buffer error after, field.type = .message inner →
      (schema.writeSingle field path value).run buffer = .error error after → after = buffer := by
  have runs : ∀ field items buffer error after, isPacked field = true →
      (schema.writeField field path (.array items)).run buffer = .error error after → after = buffer := by
    intro field items buffer error after packed ran
    obtain ⟨left, leaves, rfl⟩ := (schema.write_settles (.field field) path (.array items)).of_error ran
    rw [leaves.of_packed packed, List.append_nil]
  have messages : ∀ field inner buffer error after, field.type = .message inner →
      (schema.writeSingle field path value).run buffer = .error error after → after = buffer := by
    intro field inner buffer error after type ran
    obtain ⟨left, leaves, rfl⟩ := (schema.write_settles (.single field) path value).of_error ran
    rw [leaves.of_nested type, List.append_nil]
  rcases schema.write_settles (.message index) path value with emits | ⟨error, left, leaves, breaks⟩
  · have ran : ∀ buffer, (schema.writeMessage index path value).run buffer = .ok () (buffer ++ _) := emits
    have encoded : schema.encodeMessage index path value = .ok (schema.bytes (.message index) value) := by
      rw [encodeMessage, ran []]
      rfl
    refine ⟨fun buffer => iff_of_true ⟨_, ran buffer⟩ ⟨_, encoded⟩, fun bytes same => ?_,
      fun error failed => ?_, runs, messages⟩
    · cases encoded.symm.trans same
      exact ran
    · cases encoded.symm.trans failed
  · have ran : ∀ buffer, (schema.writeMessage index path value).run buffer
        = .error error (buffer ++ left) := breaks
    have refused : schema.encodeMessage index path value = .error error := by
      rw [encodeMessage, ran []]
    refine ⟨fun buffer => iff_of_false ?_ ?_, fun bytes encoded => ?_, fun cause failed => ?_, runs,
      messages⟩
    · rintro ⟨after, same⟩
      cases (ran buffer).symm.trans same
    · rintro ⟨bytes, encoded⟩
      cases refused.symm.trans encoded
    · cases refused.symm.trans encoded
    · cases refused.symm.trans failed
      exact ⟨left, leaves, ran⟩

def noteNumbers : WireField := ⟨"numbers", 4, .scalar .uint64, true⟩

def mixedNumbers : List Value := [.uint64 1, .string "2"]

theorem encodeMessage_appends_note :
    (noteSchema.encodeMessage 0 (.root "value") wrongZero = .ok [] ∧
      ∀ buffer, (noteSchema.writeMessage 0 (.root "value") wrongZero).run buffer = .ok () (buffer ++ [])) ∧
    (∃ error left, noteSchema.encodeMessage 0 (.root "value") wrongFee = .error error ∧
      ∀ buffer, (noteSchema.writeMessage 0 (.root "value") wrongFee).run buffer
        = .error error (buffer ++ left)) ∧
    (isPacked noteNumbers = true ∧ ∃ error after, after = [7] ∧
      (noteSchema.writeField noteNumbers (.root "value") (.array mixedNumbers)).run [7]
        = .error error after) ∧
    noteFee.type = .message 1 ∧ ∃ error after, after = [7] ∧
      (noteSchema.writeSingle noteFee (.root "value") (.int32 3)).run [7] = .error error after := by
  obtain ⟨_, adds, _, runs, _⟩ := encodeMessage_appends noteSchema 0 (.root "value") wrongZero
  obtain ⟨_, _, fails, _, _⟩ := encodeMessage_appends noteSchema 0 (.root "value") wrongFee
  obtain ⟨_, _, _, _, messages⟩ := encodeMessage_appends noteSchema 0 (.root "value") (.int32 3)
  obtain ⟨left, _, ran⟩ := fails _ encodeMessage_wrongFee
  have run : (noteSchema.writeField noteNumbers (.root "value") (.array mixedNumbers)).run [7]
      = .error (.shape ((FieldPath.root "value").index 1) "uint64" "string") [7] := by
    rw [writeField_list]
    rfl
  have nested : (noteSchema.writeSingle noteFee (.root "value") (.int32 3)).run [7]
      = .error (.shape (.root "value") "object" "int32") [7] := by
    rw [writeSingle_message rfl, writeMessage_unlike fun _ => Value.noConfusion]
    rfl
  exact ⟨⟨encodeMessage_wrongZero, adds _ encodeMessage_wrongZero⟩,
    ⟨_, left, encodeMessage_wrongFee, ran⟩,
    ⟨rfl, _, _, runs noteNumbers mixedNumbers [7] _ _ rfl run, run⟩,
    rfl, _, _, messages noteFee 1 [7] _ _ rfl nested, nested⟩

end WireSchema

end SigningSchema
