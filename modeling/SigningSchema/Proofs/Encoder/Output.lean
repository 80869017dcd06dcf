import SigningSchema.Proofs.Encoder.Meaning
import SigningSchema.Proofs.Encoder.Soundness
import SigningSchema.Proofs.Wire.Refilling

-- The bytes of an input are those of its value: coercion leaves nothing to fill up.

namespace SigningSchema.EncoderPlans

open Coercion

variable {corpus : Corpus} {config : Config} {plans : EncoderPlans} {name : String}

-- A field that holds what its inputs were coerced to holds what it would be filled with.
theorem fillField_hold {rule : FieldRule} {field : WireField} (agrees : plans.Matches rule field)
    {values : List Value}
    (full : ∀ value ∈ values, (value ≠ .null ∧ ∀ items, value ≠ .array items) ∧
      plans.schema.fillSingle field value = value) :
    plans.schema.fillField field (some (rule.resolved.hold values)) = rule.resolved.hold values := by
  cases several : rule.repeated with
  | true =>
    have held : rule.resolved.hold values = .array values := if_pos several
    have again : values.map (plans.schema.fillSingle field) = values :=
      (List.map_congr_left fun value inside => (full value inside).2).trans (List.map_id values)
    rw [held, WireSchema.fillField, if_pos (agrees.repeated.trans several), again]
  | false =>
    have held : rule.resolved.hold values = values.headD rule.resolved.blank := by
      simp [ResolvedField.hold, FieldRule.resolved, several]
    rw [held]
    cases values with
    | nil =>
      have blank : rule.resolved.blank = WireSchema.blankField field := by
        rw [WireSchema.blankField, agrees.repeated, several, if_neg Bool.noConfusion,
          ResolvedField.blank, FieldRule.resolved]
        cases type : rule.type with
        | scalar kind => rw [agrees.scalar kind type]
        | message nested =>
          obtain ⟨index, _, refers⟩ := agrees.message nested type
          rw [refers]
      rw [List.headD_nil, blank, WireSchema.fillField_blank]
    | cons value rest =>
      obtain ⟨alone, same⟩ := full value List.mem_cons_self
      rw [List.headD_cons, WireSchema.fillField_single alone, same]

-- What an input is coerced to is full. Of fields with one name the last decides, here and there.
theorem fill_of_mapAt (laid : plans.LaidOut) (size : Nat) :
    ∀ name path input value index, sizeOf input < size → plans.mapAt name path input = .ok value →
      plans.position? name = some index → plans.schema.fill index value = value := by
  induction size with
  | zero => exact fun _ _ _ _ _ impossible => absurd impossible (Nat.not_lt_zero _)
  | succ size ih =>
    intro name path input value index below mapped found
    obtain ⟨plan, members, pairs, planned, rfl, ran, rfl⟩ := mapAt_ok mapped
    rw [Json.object.sizeOf_spec] at below
    obtain ⟨other, same, _, fields⟩ := laid.type_of_position found
    cases planned.symm.trans same
    refine WireSchema.fill_of_settled ((forall₂_of_common fields (mapFields_ok ran)).imp ?_)
    rintro field ⟨key, value⟩ ⟨rule, _, agrees, rfl, mapped⟩
    refine ⟨agrees.name.symm, ?_⟩
    obtain ⟨values, maps, rfl⟩ := mapField_ok mapped
    refine fillField_hold agrees fun value inside => ?_
    obtain ⟨part, among, path, coerced⟩ := exists_of_forall₂ maps.flip inside
    have smaller := sizeOf_lt_of_inputsOf among
    cases type : rule.type with
    | scalar kind =>
      rw [type] at coerced
      have fits : plans.schema.Conforms (.single field) value :=
        .scalar (agrees.scalar kind type) (scalar_ofKind coerced)
      exact ⟨fits.single_cases, by rw [WireSchema.fillSingle, agrees.scalar kind type]⟩
    | message nested =>
      rw [type] at coerced
      obtain ⟨place, there, refers⟩ := agrees.message nested type
      have full := ih nested path part value place (by omega) coerced there
      rw [WireSchema.fillSingle, refers]
      exact ⟨full ▸ plans.schema.fill_alone place value, full⟩

-- What is known of an input that has bytes.
structure Written (plans : EncoderPlans) (name : String) (input : Json) (bytes : Wire.Bytes)
    (index : Nat) (value : Value) : Prop where
  position : plans.position? name = some index
  mapped : plans.mapAt name (.root FieldPath.defaultLabel) input = .ok value
  full : plans.schema.fill index value = value
  conforms : plans.schema.Conforms (.message index) value
  bytes : bytes = plans.schema.bytes (.message index) value

theorem written_of_encode (laid : plans.LaidOut) (distinct : plans.DistinctNames) {input : Json}
    {bytes : Wire.Bytes} (encoded : plans.encode name input = .ok bytes) :
    ∃ index value, plans.Written name input bytes index value := by
  obtain ⟨value, mapped, ran⟩ := bind_ok encoded
  have typed := mapAt_typed distinct _ name _ input value (Nat.lt_succ_self _) mapped
  obtain ⟨plan, _, _, planned, _⟩ := mapAt_ok mapped
  obtain ⟨index, found⟩ := position_of_plan planned
  have full := fill_of_mapAt laid _ name _ input value index (Nat.lt_succ_self _) mapped found
  have conforms := fits_of_typed laid typed index found
  refine ⟨index, value, found, mapped, full, conforms, ?_⟩
  rw [WireSchema.encode, laid.index?_of_position found] at ran
  simp only [full, WireSchema.encodeMessage_of_conforms conforms] at ran
  exact (Except.ok.inj ran).symm

end SigningSchema.EncoderPlans
