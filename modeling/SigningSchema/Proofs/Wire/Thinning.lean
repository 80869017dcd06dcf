import Mathlib.Data.List.Forall2
import SigningSchema.Proofs.Results
import SigningSchema.Proofs.Wire.Writing

-- Members that are left off the wire anyway may as well be left out of a value: whatever is written
-- with them is written without them.

namespace SigningSchema

open Wire Writer

namespace Writer

variable {first again : Writer α} {next others : α → Writer β}

def Fails (writer : Writer α) : Prop := ∀ buffer result after, writer.run buffer ≠ .ok result after

theorem Fails.mismatch (path : FieldPath) (expected : String) (found : Value) :
    Fails (Writer.mismatch path expected found : Writer α) := fun _ _ _ ran => nomatch ran

-- Every run of the first writer that succeeds is one of the second.
def Follows (first again : Writer α) : Prop :=
  ∀ buffer result after, first.run buffer = .ok result after → again.run buffer = .ok result after

theorem Follows.refl (writer : Writer α) : Follows writer writer := fun _ _ _ ran => ran

theorem Fails.follows (fails : Fails first) : Follows first again :=
  fun _ _ _ ran => absurd ran (fails _ _ _)

theorem bind_ran {writer : Writer α} {buffer after : Bytes} {result : β}
    (ran : (writer >>= next).run buffer = .ok result after) :
    ∃ value middle, writer.run buffer = .ok value middle ∧ (next value).run middle = .ok result after := by
  rw [EStateM.run_bind] at ran
  cases made : writer.run buffer with
  | error error state =>
    rw [made] at ran
    cases ran
  | ok value middle =>
    rw [made] at ran
    exact ⟨value, middle, rfl, ran⟩

theorem staged_ran {writer : Writer Unit} {buffer bytes after : Bytes}
    (ran : (staged writer).run buffer = .ok bytes after) :
    writer.run [] = .ok () bytes ∧ after = buffer := by
  unfold staged at ran
  cases made : writer.run [] with
  | error error state =>
    rw [made] at ran
    cases ran
  | ok value middle =>
    rw [made] at ran
    cases ran
    exact ⟨rfl, rfl⟩

theorem Fails.bind (fails : Fails first) : Fails (first >>= next) := by
  intro buffer result after ran
  obtain ⟨_, _, made, _⟩ := bind_ran ran
  exact fails _ _ _ made

theorem Fails.after (fails : ∀ value, Fails (next value)) : Fails (first >>= next) := by
  intro buffer result after ran
  obtain ⟨_, _, _, last⟩ := bind_ran ran
  exact fails _ _ _ _ last

theorem Fails.staged {writer : Writer Unit} (fails : Fails writer) : Fails (Writer.staged writer) :=
  fun _ _ _ ran => fails _ _ _ (staged_ran ran).1

theorem Follows.bind (follows : Follows first again)
    (each : ∀ result, Follows (next result) (others result)) :
    Follows (first >>= next) (again >>= others) := by
  intro buffer result after ran
  obtain ⟨value, middle, made, last⟩ := bind_ran ran
  rw [EStateM.run_bind, follows _ _ _ made]
  exact each value _ _ _ last

theorem Follows.staged {writer other : Writer Unit} (follows : Follows writer other) :
    Follows (Writer.staged writer) (Writer.staged other) := by
  intro buffer result after ran
  obtain ⟨made, rfl⟩ := staged_ran ran
  unfold Writer.staged
  rw [follows _ _ _ made]
  rfl

end Writer

-- The values that are left off the wire, whatever the field, unless they do not fit it at all.
def Value.Blank (value : Value) : Prop := value.isWireDefault = true ∨ value = .array []

theorem Value.blank_defaultFor (kind : ScalarKind) : (Value.defaultFor kind).Blank := by
  refine .inl ?_
  cases kind <;> decide

-- The same value but for blank members of objects, at any depth, that are no longer there.
inductive Value.Thinned : Value → Value → Prop where
  | same (value : Value) : Thinned value value
  | list {items others : List Value} (lengths : items.length = others.length)
      (each : ∀ pair ∈ items.zip others, Thinned pair.1 pair.2) : Thinned (.array items) (.array others)
  | object {members others : List (String × Value)}
      (kept : ∀ key value other, Table.get? members key = some value →
        Table.get? others key = some other → Thinned value other)
      (dropped : ∀ key value, Table.get? members key = some value →
        Table.get? others key = none → value.Blank)
      (more : ∀ key, Table.get? members key = none → Table.get? others key = none) :
      Thinned (.object members) (.object others)

namespace WireSchema

variable {schema : WireSchema} {field : WireField} {path : FieldPath} {value other : Value}

-- A scalar is neither a list nor an object.
theorem payload?_thinned {kind : ScalarKind} (thinned : value.Thinned other) :
    payload? kind value = none ∨ value = other := by
  cases thinned with
  | same => exact .inr rfl
  | list => cases kind <;> exact .inl rfl
  | object => cases kind <;> exact .inl rfl

theorem writePayload_fails {kind : ScalarKind} (unlike : payload? kind value = none) :
    Fails (writePayload kind path value) := by
  rw [writePayload, unlike]
  exact .mismatch _ _ _

theorem writePayload_follows {kind : ScalarKind} (thinned : value.Thinned other) :
    Follows (writePayload kind path value) (writePayload kind path other) := by
  rcases payload?_thinned thinned with unlike | rfl
  · exact (writePayload_fails unlike).follows
  · exact .refl _

theorem writePayloads_follows {kind : ScalarKind} {items others : List Value}
    (each : List.Forall₂ Value.Thinned items others) (position : Nat) :
    Follows (writePayloads kind path position items) (writePayloads kind path position others) := by
  induction each generalizing position with
  | nil => exact .refl _
  | cons first _ ih => exact (writePayload_follows first).bind fun _ => ih _

theorem writeRun_follows {items others : List Value} (each : List.Forall₂ Value.Thinned items others) :
    Follows (writeRun field path items) (writeRun field path others) := by
  unfold writeRun
  split
  · exact (writePayloads_follows each 0).staged.bind fun _ => .refl _
  · exact .refl _

theorem writeItems_follows {items others : List Value}
    (each : List.Forall₂ (fun item other => ∀ path,
      Follows (schema.writeSingle field path item) (schema.writeSingle field path other)) items others)
    (position : Nat) :
    Follows (schema.writeItems field path position items)
      (schema.writeItems field path position others) := by
  induction each generalizing position with
  | nil => exact .refl _
  | cons first _ ih =>
    rw [writeItems_cons, writeItems_cons]
    exact (first _).bind fun _ => ih _

-- The places that do not leave off a zero take no scalar at all, or one that is a message by itself.
theorem writeSingle_zero_fails (zero : value.isWireDefault = true) (given : value ≠ .null)
    (written : omitsZero field.type = false) : Fails (schema.writeSingle field path value) := by
  cases type : field.type with
  | scalar kind =>
    rw [type] at written
    have unlike : payload? kind value = none := by
      cases kind <;> cases written <;> cases value <;> first | rfl | cases zero
    rw [writeSingle_scalar type]
    exact .after fun _ => writePayload_fails unlike
  | message inner =>
    have unlike : ∀ members, value ≠ .object members := by
      rintro members rfl
      cases zero
    rw [writeSingle_message type, writeMessage_unlike unlike]
    exact (Fails.mismatch _ _ _).staged.bind

-- A blank value is written as nothing, or it does not fit its field.
theorem writeField_blank (blank : value.Blank) :
    Follows (schema.writeField field path value) (pure ()) := by
  rcases blank with zero | rfl
  · by_cases null : value = .null
    · rw [null, writeField_null]
      exact .refl _
    · have alone : ∀ items, value ≠ .array items := by
        rintro items rfl
        cases zero
      rw [writeField_alone ⟨null, alone⟩, zero, Bool.and_true]
      split
      · exact (Fails.mismatch _ _ _).follows
      · split
        · exact .refl _
        · rename_i written
          exact (writeSingle_zero_fails zero null (by simpa using written)).follows
  · rw [writeField_list]
    split
    · exact (Fails.mismatch _ _ _).follows
    · exact .refl _

theorem writeMember_follows {members others : List (String × Value)}
    (thinned : Value.Thinned (.object members) (.object others))
    (each : ∀ value other, Table.get? members field.name = some value → value.Thinned other → ∀ path,
      Follows (schema.writeField field path value) (schema.writeField field path other)) :
    Follows (schema.writeMember path members field) (schema.writeMember path others field) := by
  cases thinned with
  | same => exact .refl _
  | object kept dropped more =>
    unfold writeMember
    cases held : Table.get? members field.name with
    | none =>
      rw [more _ held]
      exact .refl _
    | some value =>
      cases left : Table.get? others field.name with
      | none => exact writeField_blank (dropped _ _ held left)
      | some other => exact each value other held (kept _ _ _ held left) _

theorem writeFields_follows {members others : List (String × Value)} {fields : List WireField}
    (each : ∀ field, Follows (schema.writeMember path members field)
      (schema.writeMember path others field)) :
    Follows (schema.writeFields path members fields) (schema.writeFields path others fields) := by
  induction fields with
  | nil =>
    rw [writeFields_nil, writeFields_nil]
    exact .refl _
  | cons field rest ih =>
    rw [writeFields_cons, writeFields_cons, seqRight_eq_bind, seqRight_eq_bind]
    exact (each field).bind fun _ => ih

-- By the cases of the value: a thinned one is of the same shape.
theorem write_follows (thinned : value.Thinned other) (slot : Slot) (path : FieldPath) :
    Follows (schema.write slot path value) (schema.write slot path other) := by
  refine SlotCases.all (motive := fun slot value => ∀ other, value.Thinned other → ∀ path,
    Follows (schema.write slot path value) (schema.write slot path other)) ⟨?object, ?unlike, ?unset,
    ?list, ?alone, ?single⟩ slot value other thinned path
  case object =>
    intro index members ih other thinned path
    have whole := thinned
    cases thinned with
    | same => exact .refl _
    | object kept dropped more =>
      show Follows (schema.writeMessage index path _) (schema.writeMessage index path _)
      rw [writeMessage_object, writeMessage_object]
      exact writeFields_follows fun field => writeMember_follows whole
        fun value other held thinned => ih field value held other thinned
  case unlike =>
    intro index value unlike other _ path
    show Follows (schema.writeMessage index path value) _
    rw [writeMessage_unlike unlike]
    exact (Fails.mismatch _ _ _).follows
  case unset =>
    intro field other thinned path
    cases thinned
    exact .refl _
  case list =>
    intro field items ih other thinned path
    cases thinned with
    | same => exact .refl _
    | @list _ others lengths each =>
      show Follows (schema.writeField field path _) (schema.writeField field path _)
      rw [writeField_list, writeField_list]
      have inStep : List.Forall₂ Value.Thinned items others :=
        List.forall₂_iff_zip.mpr ⟨lengths, fun inside => each _ inside⟩
      have same : items.isEmpty = others.isEmpty := by
        cases items <;> cases others <;> simp_all
      rw [same]
      split
      · exact (Fails.mismatch _ _ _).follows
      · split
        · exact .refl _
        · split
          · exact writeRun_follows inStep
          · refine writeItems_follows ?_ 0
            exact (forall₂_with_mem inStep).imp fun item other both => ih item both.1 other both.2
  case alone =>
    intro field value alone ih other thinned path
    cases thinned with
    | same => exact .refl _
    | list => exact absurd rfl (alone.2 _)
    | object kept dropped more =>
      show Follows (schema.writeField field path _) (schema.writeField field path _)
      rw [writeField_alone ⟨Value.noConfusion, fun _ => Value.noConfusion⟩,
        writeField_alone ⟨Value.noConfusion, fun _ => Value.noConfusion⟩]
      split
      · exact (Fails.mismatch _ _ _).follows
      · simp only [Value.isWireDefault, Bool.and_false]
        exact ih _ (.object kept dropped more) path
  case single =>
    intro field value ih other thinned path
    show Follows (schema.writeSingle field path value) (schema.writeSingle field path other)
    cases type : field.type with
    | scalar kind =>
      rw [writeSingle_scalar type, writeSingle_scalar type]
      exact (Follows.refl _).bind fun _ => writePayload_follows thinned
    | message inner =>
      rw [writeSingle_message type, writeSingle_message type]
      exact (ih inner type other thinned path).staged.bind fun _ => .refl _

theorem encodeMessage_thinned {index : Nat} {bytes : Bytes} (thinned : value.Thinned other)
    (written : schema.encodeMessage index path value = .ok bytes) :
    schema.encodeMessage index path other = .ok bytes := by
  unfold encodeMessage at written ⊢
  split at written
  · rename_i after ran
    cases written
    have again : (schema.writeMessage index path other).run [] = .ok () bytes :=
      write_follows thinned (.message index) path _ _ _ ran
    rw [again]
  · cases written

end WireSchema

end SigningSchema
