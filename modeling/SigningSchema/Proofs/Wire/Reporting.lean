import SigningSchema.Proofs.Wire.Misfits

-- What a writer reports of a value: one of its faults, wherever there is one that it does not drop.
-- Of a value that is filled up first, the faults that filling covers go unreported as well.

namespace SigningSchema

open Wire Writer

namespace Writer

variable {errors more : CoercionError → Prop}

-- A writer that goes through, on every buffer, where there is nothing to report, and otherwise
-- fails on every buffer with one of the errors there are.
def Reports (writer : Writer α) (errors : CoercionError → Prop) : Prop :=
  ((∀ error, ¬ errors error) ∧ ∀ buffer, ∃ value rest, writer.run buffer = .ok value rest) ∨
    ∃ error, errors error ∧ ∀ buffer, ∃ rest, writer.run buffer = .error error rest

theorem run_bind_of_ok {writer : Writer α} {next : α → Writer β} {buffer rest : Bytes} {value : α}
    (ran : writer.run buffer = .ok value rest) :
    (writer >>= next).run buffer = (next value).run rest := by
  show EStateM.bind writer next buffer = _
  unfold EStateM.bind
  rw [show writer buffer = .ok value rest from ran]
  rfl

theorem run_bind_of_error {writer : Writer α} {next : α → Writer β} {buffer rest : Bytes}
    {error : CoercionError} (ran : writer.run buffer = .error error rest) :
    (writer >>= next).run buffer = .error error rest := by
  show EStateM.bind writer next buffer = _
  unfold EStateM.bind
  rw [show writer buffer = .error error rest from ran]

theorem Reports.congr {writer : Writer α} (reports : writer.Reports errors)
    (same : ∀ error, errors error ↔ more error) : writer.Reports more := by
  rwa [← show errors = more from funext fun error => propext (same error)]

theorem pure_reports (value : α) : (Pure.pure value : Writer α).Reports fun _ => False :=
  .inl ⟨fun _ => id, fun buffer => ⟨value, buffer, rfl⟩⟩

theorem emit_reports (bytes : Bytes) : (emit bytes).Reports fun _ => False :=
  .inl ⟨fun _ => id, fun buffer => ⟨(), buffer ++ bytes, rfl⟩⟩

theorem mismatch_reports (path : FieldPath) (expected : String) (found : Value) :
    (mismatch path expected found : Writer α).Reports
      (.shape path expected found.kindName = ·) :=
  .inr ⟨_, rfl, fun buffer => ⟨buffer, rfl⟩⟩

theorem Reports.bind {first : Writer Unit} {second : Writer Unit} (one : first.Reports errors)
    (other : second.Reports more) :
    (first >>= fun _ => second).Reports fun error => errors error ∨ more error := by
  rcases one with ⟨fine, ran⟩ | ⟨error, reported, ran⟩
  · rcases other with ⟨fineToo, ranToo⟩ | ⟨error, reported, ranToo⟩
    · refine .inl ⟨fun error => not_or.mpr ⟨fine error, fineToo error⟩, fun buffer => ?_⟩
      obtain ⟨value, rest, ran⟩ := ran buffer
      rw [run_bind_of_ok ran]
      exact ranToo rest
    · refine .inr ⟨error, .inr reported, fun buffer => ?_⟩
      obtain ⟨value, rest, ran⟩ := ran buffer
      rw [run_bind_of_ok ran]
      exact ranToo rest
  · refine .inr ⟨error, .inl reported, fun buffer => ?_⟩
    obtain ⟨rest, ran⟩ := ran buffer
    exact ⟨rest, run_bind_of_error ran⟩

theorem Reports.staged {writer : Writer Unit} {make : Bytes → Bytes} (alone : writer.Reports errors) :
    (Writer.staged writer >>= fun bytes => emit (make bytes)).Reports errors := by
  unfold Writer.staged
  rcases alone with ⟨fine, ran⟩ | ⟨error, reported, ran⟩
  · obtain ⟨value, rest, ran⟩ := ran []
    rw [ran]
    exact .inl ⟨fine, fun buffer => ⟨(), buffer ++ make rest, rfl⟩⟩
  · obtain ⟨rest, ran⟩ := ran []
    rw [ran]
    exact .inr ⟨error, reported, fun buffer => ⟨buffer, rfl⟩⟩

-- A writer that goes through a list item by item reports what one of the items gives cause to.
theorem reports_items {path : FieldPath} {run : Nat → List Value → Writer Unit}
    (one : FieldPath → Value → Writer Unit) {wrong : FieldPath → Value → CoercionError → Prop}
    (nil : ∀ position, run position [] = pure ())
    (cons : ∀ position item rest, run position (item :: rest)
      = one (path.index position) item >>= fun _ => run (position + 1) rest)
    {items : List Value}
    (each : ∀ item ∈ items, ∀ path, (one path item).Reports (wrong path item)) (position : Nat) :
    (run position items).Reports fun error => ∃ offset item, items[offset]? = some item ∧
      wrong (path.index (position + offset)) item error := by
  induction items generalizing position with
  | nil =>
    rw [nil]
    exact (pure_reports ()).congr fun error => iff_of_false id (by simp)
  | cons item rest ih =>
    rw [cons]
    have first := each item List.mem_cons_self (path.index position)
    have later := ih (fun other inside => each other (List.mem_cons_of_mem _ inside)) (position + 1)
    refine (first.bind later).congr fun error => ?_
    constructor
    · rintro (here | ⟨offset, other, located, further⟩)
      · exact ⟨0, item, rfl, here⟩
      · exact ⟨offset + 1, other, located, by rwa [Nat.add_comm offset, ← Nat.add_assoc]⟩
    · rintro ⟨offset, other, located, reported⟩
      cases offset with
      | zero =>
        cases located
        exact .inl reported
      | succ offset =>
        exact .inr ⟨offset, other, located, by rwa [Nat.add_assoc, Nat.add_comm 1]⟩

end Writer

namespace WireSchema

variable {schema : WireSchema} {field : WireField} {index : Nat} {path : FieldPath} {value : Value}

-- The errors that a writer may give: those of the faults that are not dropped.
def Told (schema : WireSchema) (slot : Slot) (path : FieldPath) (value : Value)
    (error : CoercionError) : Prop :=
  schema.Flawed (fun fault => ¬ fault.Dropped ∧ fault.error = error) slot path value

theorem told_of_plain {difference : Difference} {expected : String} {error : CoercionError}
    (plain : ∀ field, difference ≠ .kind field) :
    (¬ (Fault.mk path expected value difference).Dropped ∧
      (Fault.mk path expected value difference).error = error) ↔
      .shape path expected value.kindName = error :=
  and_iff_right fun ⟨field, same, _⟩ => plain field same

theorem told_kind {kind : ScalarKind} {error : CoercionError} (type : field.type = .scalar kind)
    (looked : field.repeated = false → (omitsZero field.type && value.isWireDefault) = false) :
    schema.Told (.single field) path value error ↔
      value.ofKind kind = false ∧ .shape path kind.keyword value.kindName = error := by
  rw [Told, flawed_scalar type]
  refine and_congr_right fun _ => and_iff_right ?_
  rintro ⟨_, ⟨⟩, singular, zero⟩
  exact Bool.false_ne_true ((looked singular).symm.trans zero)

theorem writePayload_reports (kind : ScalarKind) (path : FieldPath) (value : Value) :
    (writePayload kind path value).Reports fun error =>
      value.ofKind kind = false ∧ .shape path kind.keyword value.kindName = error := by
  unfold writePayload
  cases found : payload? kind value with
  | none =>
    have other : value.ofKind kind = false := by rw [← payload?_isSome, found, Option.isSome_none]
    exact (mismatch_reports path kind.keyword value).congr fun error => (and_iff_right other).symm
  | some bytes =>
    have same : value.ofKind kind = true := by rw [← payload?_isSome, found, Option.isSome_some]
    exact (emit_reports bytes).congr fun error => iff_of_false id (by simp [same])

theorem writeFields_reports {members : List (String × Value)} {fields : List WireField}
    (each : ∀ field value, Table.get? members field.name = some value → ∀ path,
      (schema.writeField field path value).Reports (schema.Told (.field field) path value)) :
    (schema.writeFields path members fields).Reports fun error =>
      ∃ field ∈ fields, ∃ value, Table.get? members field.name = some value ∧
        schema.Told (.field field) (path.field field.name) value error := by
  induction fields with
  | nil =>
    rw [writeFields_nil]
    exact (pure_reports ()).congr fun error => iff_of_false id (by simp)
  | cons field rest ih =>
    have first : (schema.writeMember path members field).Reports fun error =>
        ∃ value, Table.get? members field.name = some value ∧
          schema.Told (.field field) (path.field field.name) value error := by
      unfold writeMember
      cases held : Table.get? members field.name with
      | none => exact (pure_reports ()).congr fun error => iff_of_false id (by simp)
      | some value => exact (each field value held _).congr fun error => by simp
    rw [writeFields_cons]
    exact (first.bind ih).congr fun error => by simp

-- A single value is looked at unless it is a zero that is left off.
def Looked : Slot → Value → Prop
  | .single field, value =>
    field.repeated = false → (omitsZero field.type && value.isWireDefault) = false
  | _, _ => True

theorem write_reports (slot : Slot) (value : Value) (looked : Looked slot value) (path : FieldPath) :
    (schema.write slot path value).Reports (schema.Told slot path value) := by
  refine SlotCases.all (motive := fun slot value => Looked slot value → ∀ path,
    (schema.write slot path value).Reports (schema.Told slot path value)) ⟨?object, ?unlike,
    ?unset, ?list, ?alone, ?single⟩ slot value looked path
  case object =>
    intro index members ih _ path
    show (schema.writeMessage index path _).Reports _
    rw [writeMessage_object]
    exact (writeFields_reports fun field value held => ih field value held trivial).congr
      fun error => flawed_object.symm
  case unlike =>
    intro index value unlike _ path
    show (schema.writeMessage index path _).Reports _
    rw [writeMessage_unlike unlike]
    exact (mismatch_reports path "object" value).congr fun error =>
      ((flawed_unlike unlike).trans (told_of_plain fun _ => Difference.noConfusion)).symm
  case unset =>
    intro field _ path
    show (schema.writeField field path _).Reports _
    rw [writeField_null]
    exact (pure_reports ()).congr fun error => iff_of_false id not_flawed_null
  case list =>
    intro field items ih _ path
    show (schema.writeField field path _).Reports _
    rw [writeField_list]
    cases several : field.repeated with
    | false =>
      exact (mismatch_reports path _ _).congr fun error =>
        ((flawed_many several).trans (told_of_plain fun _ => Difference.noConfusion)).symm
    | true =>
      have looked : ∀ item, Looked (.single field) item := fun item singular =>
        absurd (singular.symm.trans several) Bool.false_ne_true
      have inside : ∀ error, schema.Told (.field field) path (.array items) error ↔
          ∃ offset item, items[offset]? = some item ∧
            schema.Told (.single field) (path.index (0 + offset)) item error := by
        intro error
        simp only [Nat.zero_add]
        exact flawed_items several
      rw [if_neg Bool.noConfusion]
      split
      · rename_i empty
        refine (pure_reports ()).congr fun error => ?_
        rw [inside, List.isEmpty_iff.mp empty]
        exact iff_of_false id (by simp)
      split
      · unfold writeRun
        split
        · rename_i kind type
          refine (reports_items (writePayload kind) (fun _ => rfl) (fun _ _ _ => rfl)
            (fun item _ path => writePayload_reports kind path item) 0).staged.congr fun error => ?_
          rw [inside]
          refine exists_congr fun offset => exists_congr fun item => and_congr_right fun _ => ?_
          exact (told_kind type (looked item)).symm
        · simp_all [isPacked]
      · exact (reports_items (schema.writeSingle field) writeItems_nil writeItems_cons
          (fun item member => ih item member (looked item)) 0).congr fun error => (inside error).symm
  case alone =>
    intro field value alone ih _ path
    show (schema.writeField field path _).Reports _
    rw [writeField_alone alone]
    cases several : field.repeated with
    | true =>
      exact (mismatch_reports path _ _).congr fun error =>
        ((flawed_lone several alone).trans (told_of_plain fun _ => Difference.noConfusion)).symm
    | false =>
      rw [if_neg Bool.noConfusion]
      split
      · rename_i zero
        refine (pure_reports ()).congr fun error => iff_of_false id ?_
        rw [Told, flawed_singular several alone]
        cases type : field.type with
        | scalar kind =>
          rw [flawed_scalar type]
          exact fun told => told.2.1 ⟨field, rfl, several, zero⟩
        | message inner => simp [type, omitsZero] at zero
      · rename_i given
        exact (ih (fun _ => by simpa using given) path).congr fun error =>
          (flawed_singular several alone).symm
  case single =>
    intro field value ih looked path
    show (schema.writeSingle field path value).Reports _
    cases type : field.type with
    | scalar kind =>
      rw [writeSingle_scalar type]
      refine ((emit_reports _).bind (writePayload_reports kind path value)).congr fun error => ?_
      rw [false_or, told_kind type looked]
    | message inner =>
      rw [writeSingle_message type]
      exact (ih inner type trivial path).staged.congr fun error => (flawed_nested type).symm

theorem encodeMessage_told {error : CoercionError}
    (failed : schema.encodeMessage index path value = .error error) :
    schema.Told (.message index) path value error := by
  unfold encodeMessage at failed
  rcases write_reports (.message index) value trivial path with ⟨_, ran⟩ | ⟨cause, told, ran⟩
  · obtain ⟨_, rest, ran⟩ := ran []
    rw [show schema.writeMessage index path value = schema.write (.message index) path value from rfl,
      ran] at failed
    cases failed
  · obtain ⟨rest, ran⟩ := ran []
    rw [show schema.writeMessage index path value = schema.write (.message index) path value from rfl,
      ran] at failed
    cases failed
    exact told

theorem encodeMessage_fails {error : CoercionError}
    (told : schema.Told (.message index) path value error) :
    ∃ error, schema.encodeMessage index path value = .error error := by
  rcases write_reports (.message index) value trivial path with ⟨fine, _⟩ | ⟨cause, _, ran⟩
  · exact absurd told (fine error)
  · obtain ⟨rest, ran⟩ := ran []
    refine ⟨cause, ?_⟩
    rw [encodeMessage, show schema.writeMessage index path value
      = schema.write (.message index) path value from rfl, ran]

theorem encodeMessage_located {error : CoercionError}
    (failed : schema.encodeMessage index path value = .error error) : error.Within path := by
  obtain ⟨fault, misfit, _, rfl⟩ := encodeMessage_told failed
  exact misfit.within

-- A result that is an error exactly where there is a fault, and then the error of one.
def ReportedAs (result : Except CoercionError α) (faults : Fault → Prop) : Prop :=
  (∀ error, result = .error error → ∃ fault, faults fault ∧ error = fault.error) ∧
    ((∃ fault, faults fault) → ∃ error, result = .error error)

theorem ReportedAs.fails_iff {result : Except CoercionError α} {faults : Fault → Prop}
    (reported : ReportedAs result faults) :
    (∃ error, result = .error error) ↔ ∃ fault, faults fault := by
  refine ⟨fun ⟨error, failed⟩ => ?_, reported.2⟩
  obtain ⟨fault, inside, _⟩ := reported.1 error failed
  exact ⟨fault, inside⟩

theorem encodeMessage_reports (schema : WireSchema) (index : Nat) (path : FieldPath) (value : Value) :
    ReportedAs (schema.encodeMessage index path value)
      fun fault => schema.Misfit (.message index) path value fault ∧ ¬ fault.Dropped := by
  constructor
  · intro error failed
    obtain ⟨fault, misfit, kept, same⟩ := encodeMessage_told failed
    exact ⟨fault, ⟨misfit, kept⟩, same.symm⟩
  · rintro ⟨fault, misfit, kept⟩
    have told : schema.Told (.message index) path value fault.error := ⟨fault, misfit, kept, rfl⟩
    exact encodeMessage_fails told

-- What is reported of a value that does not fit. Every mismatch is a fault. Writing a message fails
-- exactly where a fault is left that is not dropped, always with the error of such a fault: the place,
-- what is declared there, and what was found. A value that is filled up first is judged by what
-- filling makes of it; where the fields of a type can be told apart, anything but an object has then
-- gone unnoticed wherever one message is declared, and all other faults are reported as before.
theorem misfit_reported_iff (schema : WireSchema) (index : Nat) (path : FieldPath) (value : Value) :
    (¬ schema.Conforms (.message index) value ↔
      ∃ fault, schema.Misfit (.message index) path value fault) ∧
    ReportedAs (schema.encodeMessage index path value)
      (fun fault => schema.Misfit (.message index) path value fault ∧ ¬ fault.Dropped) ∧
    ∀ name, schema.index? name = some index →
      ReportedAs (schema.encode name value) (fun fault =>
        schema.Misfit (.message index) (.root FieldPath.defaultLabel) (schema.fill index value) fault ∧
          ¬ fault.Dropped) ∧
      (schema.DistinctNames → ((∃ error, schema.encode name value = .error error) ↔
        ∃ fault, schema.Misfit (.message index) (.root FieldPath.defaultLabel) value fault ∧
          ¬ fault.Dropped ∧ ¬ fault.FilledOver)) := by
  refine ⟨?_, schema.encodeMessage_reports index path value, fun name found => ?_⟩
  · rw [not_conforms_iff _ _ path]
    exact exists_congr fun fault => and_iff_left trivial
  · rw [encode, found]
    have filled := schema.encodeMessage_reports index (.root FieldPath.defaultLabel)
      (schema.fill index value)
    exact ⟨filled, fun distinct => filled.fails_iff.trans
      (flawed_fillAt distinct (.message index) value (.root FieldPath.defaultLabel))⟩

-- A note with a text and a fee, which is a message of its own, and steps that are such messages too.
def noteText : WireField := ⟨"text", 1, .scalar .string, false⟩

def noteFee : WireField := ⟨"fee", 2, .message 1, false⟩

def noteSteps : WireField := ⟨"steps", 3, .message 1, true⟩

def coinAmount : WireField := ⟨"amount", 1, .scalar .uint64, false⟩

def noteSchema : WireSchema :=
  ⟨[⟨"demo.Note", [noteText, noteFee, noteSteps]⟩, ⟨"demo.Coin", [coinAmount]⟩]⟩

theorem noteSchema_distinct : noteSchema.DistinctNames := by
  unfold DistinctNames noteSchema
  decide

def wrongCoin : Value := .object [("amount", .string "2")]

def wrongStep : Value := .object [("steps", .array [.object [("amount", .uint64 1)], wrongCoin])]

def stepFault : Fault where
  path := (((FieldPath.root "value").field "steps").index 1).field "amount"
  expected := "uint64"
  found := .string "2"
  difference := .kind coinAmount

theorem misfit_wrongStep :
    noteSchema.Misfit (.message 0) (.root FieldPath.defaultLabel) wrongStep stepFault := by
  have steps : noteSteps ∈ (noteSchema.typeAt 0).fields := by decide
  have second : [.object [("amount", .uint64 1)], wrongCoin][1]? = some wrongCoin := rfl
  have amount : coinAmount ∈ (noteSchema.typeAt 1).fields := by decide
  have number : coinAmount.type = .scalar .uint64 := rfl
  exact .member steps rfl (.item rfl second (.nested rfl (.member amount rfl
    (.singular rfl ⟨Value.noConfusion, fun _ => Value.noConfusion⟩ (.kind number rfl)))))

theorem misfit_reported_iff_note :
    noteSchema.index? "demo.Note" = some 0 ∧ noteSchema.DistinctNames ∧
    (∃ error, noteSchema.encodeMessage 0 (.root "value") wrongStep = .error error) ∧
    ∃ error, noteSchema.encode "demo.Note" wrongStep = .error error := by
  obtain ⟨_, direct, filled⟩ := misfit_reported_iff noteSchema 0 (.root "value") wrongStep
  have kept : ¬ stepFault.Dropped := by
    rintro ⟨_, ⟨⟩, _, zero⟩
    cases zero
  have uncovered : ¬ stepFault.FilledOver := by
    rintro (other | ⟨_, _, other, _⟩) <;> exact Difference.noConfusion other
  have found : noteSchema.index? "demo.Note" = some 0 := by decide
  exact ⟨found, noteSchema_distinct, direct.2 ⟨stepFault, misfit_wrongStep, kept⟩,
    ((filled "demo.Note" found).2 noteSchema_distinct).mpr
      ⟨stepFault, misfit_wrongStep, kept, uncovered⟩⟩

def wrongZero : Value := .object [("text", .int32 0)]

def wrongFee : Value := .object [("fee", .int32 3)]

theorem int32_alone (n : Int32) : Value.int32 n ≠ .null ∧ ∀ items, Value.int32 n ≠ .array items :=
  ⟨Value.noConfusion, fun _ => Value.noConfusion⟩

theorem writeFields_note (path : FieldPath) (members : List (String × Value)) :
    noteSchema.writeFields path members (noteSchema.typeAt 0).fields
      = (noteSchema.writeMember path members noteText *> (noteSchema.writeMember path members noteFee
        *> (noteSchema.writeMember path members noteSteps *> pure ()))) := by
  rw [show (noteSchema.typeAt 0).fields = [noteText, noteFee, noteSteps] from rfl, writeFields_cons,
    writeFields_cons, writeFields_cons, writeFields_nil]

theorem encodeMessage_wrongZero : noteSchema.encodeMessage 0 (.root "value") wrongZero = .ok [] := by
  rw [encodeMessage, wrongZero, writeMessage_object, writeFields_note, writeMember_of_get rfl,
    writeField_zero rfl (int32_alone 0) rfl]
  rfl

theorem encode_wrongZero : noteSchema.encode "demo.Note" wrongZero = .ok [] := by
  have filled : noteSchema.fill 0 wrongZero
      = .object [("fee", .null), ("steps", .array []), ("text", .int32 0)] := by
    rw [fill_eq]
    rfl
  rw [encode, show noteSchema.index? "demo.Note" = some 0 from rfl]
  dsimp only
  rw [filled, encodeMessage, writeMessage_object, writeFields_note, writeMember_of_get rfl,
    writeField_zero rfl (int32_alone 0) rfl, writeMember_of_get rfl, writeField_null,
    writeMember_of_get rfl, writeField_list]
  rfl

theorem encodeMessage_wrongFee : noteSchema.encodeMessage 0 (.root "value") wrongFee
    = .error (.shape ((FieldPath.root "value").field "fee") "object" "int32") := by
  have fee : ∀ path, noteSchema.writeField noteFee path (.int32 3) = mismatch path "object" (.int32 3) := by
    intro path
    rw [writeField_alone (int32_alone 3)]
    show noteSchema.writeSingle noteFee path _ = _
    rw [writeSingle_message rfl, writeMessage_unlike fun _ => Value.noConfusion]
    rfl
  have member : ∀ path, noteSchema.writeMember path [("fee", .int32 3)] noteFee
      = mismatch (path.field "fee") "object" (.int32 3) := fun path => fee _
  rw [encodeMessage, wrongFee, writeMessage_object, writeFields_note, member]
  rfl

theorem encode_wrongFee : noteSchema.encode "demo.Note" wrongFee = .ok [18, 0] := by
  have coin : noteSchema.fill 1 (.int32 3) = .object [("amount", .uint64 0)] := by
    rw [fill_eq]
    rfl
  have fee : noteSchema.fillField noteFee (some (.int32 3)) = .object [("amount", .uint64 0)] := coin
  have filled : noteSchema.fill 0 wrongFee
      = .object [("fee", .object [("amount", .uint64 0)]), ("steps", .array []), ("text", .string "")] := by
    rw [fill_eq, fillFields, show (noteSchema.typeAt 0).fields = [noteText, noteFee, noteSteps] from rfl,
      List.map_cons, List.map_cons, show wrongFee.member? noteFee.name = some (.int32 3) from rfl, fee]
    rfl
  have written : ∀ path, noteSchema.writeField noteFee path (.object [("amount", .uint64 0)])
      = emit [18, 0] := by
    intro path
    rw [writeField_alone ⟨Value.noConfusion, fun _ => Value.noConfusion⟩]
    show noteSchema.writeSingle noteFee path _ = _
    rw [writeSingle_message rfl, writeMessage_object,
      show (noteSchema.typeAt 1).fields = [coinAmount] from rfl, writeFields_cons, writeFields_nil,
      writeMember_of_get rfl, writeField_zero rfl ⟨Value.noConfusion, fun _ => Value.noConfusion⟩ rfl]
    have bytes : tag noteFee.tag .lengthDelimited ++ lengthDelimited [] = [18, 0] := by decide +kernel
    rw [← bytes]
    rfl
  rw [encode, show noteSchema.index? "demo.Note" = some 0 from rfl]
  dsimp only
  rw [filled, encodeMessage, writeMessage_object, writeFields_note, writeMember_of_get rfl,
    writeField_zero rfl ⟨Value.noConfusion, fun _ => Value.noConfusion⟩ rfl, writeMember_of_get rfl,
    written, writeMember_of_get rfl, writeField_list]
  rfl

-- Two mismatches that nobody is told of: a number for a text, which is its own zero, and a number for
-- a message, once the note has been filled up.
theorem misfits_unreported :
    (¬ noteSchema.Conforms (.message 0) wrongZero ∧
      noteSchema.encodeMessage 0 (.root "value") wrongZero = .ok [] ∧
      noteSchema.encode "demo.Note" wrongZero = .ok []) ∧
    ¬ noteSchema.Conforms (.message 0) wrongFee ∧
      noteSchema.encodeMessage 0 (.root "value") wrongFee
        = .error (.shape ((FieldPath.root "value").field "fee") "object" "int32") ∧
      noteSchema.encode "demo.Note" wrongFee = .ok [18, 0] := by
  refine ⟨⟨?_, encodeMessage_wrongZero, encode_wrongZero⟩, ?_, encodeMessage_wrongFee, encode_wrongFee⟩
  · rw [not_conforms_iff _ _ (.root "value")]
    have text : noteText ∈ (noteSchema.typeAt 0).fields := by decide
    have word : noteText.type = .scalar .string := rfl
    exact ⟨_, .member text rfl (.singular rfl (int32_alone 0) (.kind word rfl)), trivial⟩
  · rw [not_conforms_iff _ _ (.root "value")]
    have fee : noteFee ∈ (noteSchema.typeAt 0).fields := by decide
    exact ⟨_, .member fee rfl (.singular rfl (int32_alone 3)
      (.nested rfl (.form fun _ => Value.noConfusion))), trivial⟩

end WireSchema

end SigningSchema
