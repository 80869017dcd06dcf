import SigningSchema.Proofs.Encoder.Output

-- The defaults that the wire schema fills in are settled at once, and inputs that were coerced have
-- none left to fill in: what is written is what they were coerced to.

namespace SigningSchema

namespace EncoderPlans

open Coercion

variable {plans : EncoderPlans} {name : String}

-- What a planned message is written from is its mapping, filled up or not.
theorem encode_eq_bind (laid : plans.LaidOut) {index : Nat} (found : plans.position? name = some index)
    (input : Json) :
    plans.encode name input = plans.map name FieldPath.defaultLabel input >>=
      plans.schema.encodeMessage index (.root FieldPath.defaultLabel) := by
  unfold encode
  cases mapped : plans.map name FieldPath.defaultLabel input with
  | error error => rfl
  | ok value =>
    show plans.schema.encode name value = plans.schema.encodeMessage index _ value
    rw [WireSchema.encode, laid.index?_of_position found]
    exact congrArg (plans.schema.encodeMessage index _)
      (fill_of_mapAt laid _ name _ input value index (Nat.lt_succ_self _) mapped found)

-- The recursion of the filling is bounded by the value: it ends also where message types refer to
-- each other in a circle, and where values are not of the types that they are filled up for.
theorem fill_idempotent_unseen :
    (∀ (schema : WireSchema) (index : Nat) (value : Value),
      (∃ members, schema.fill index value = .object members ∧ Table.Ascending members ∧
        ∀ name, name ∈ Table.keys members ↔
          name ∈ (schema.typeAt index).fields.map WireField.name) ∧
      schema.fill index (schema.fill index value) = schema.fill index value ∧
      (∃ depth, value.Nests depth) ∧
      ∀ depth, value.Nests depth → (schema.fill index value).Nests (depth + 2)) ∧
    ∀ (corpus : Corpus) (config : Config) (plans : EncoderPlans), ofCorpus corpus config = .ok plans →
      ∀ name plan, plans.plan? name = some plan →
        ∃ index, plans.schema.index? name = some index ∧ (plans.schema.typeAt index).name = name ∧
          (∀ label input value, plans.map name label input = .ok value →
            plans.schema.fill index value = value) ∧
          ∀ input, plans.encode name input = plans.map name FieldPath.defaultLabel input >>=
            plans.schema.encodeMessage index (.root FieldPath.defaultLabel) := by
  refine ⟨fun schema index value => ⟨WireSchema.fill_object index value,
    WireSchema.fillAt_fillAt (.message index) value, ⟨_, Value.exists_nests value⟩,
    WireSchema.fillAt_nests (.message index) value⟩, ?_⟩
  intro corpus config plans planned name plan known
  have laid := laidOut_of_ofCorpus planned
  obtain ⟨index, found⟩ := position_of_plan known
  obtain ⟨_, _, named, _⟩ := laid.type_of_position found
  exact ⟨index, laid.index?_of_position found, named,
    fun label input value mapped =>
      fill_of_mapAt laid _ name _ input value index (Nat.lt_succ_self _) mapped found,
    encode_eq_bind laid found⟩

-- The route refers to itself; a list where a message belongs counts as an empty one.
theorem fill_pay :
    ofCorpus payCorpus .standard = .ok payPlans ∧ payPlans.plan? "m.MsgPay" = some payPlan ∧
    payPlans.map "m.MsgPay" "value" (.object payMembers) = .ok payValue ∧
    payPlans.schema.fill 0 payValue = payValue ∧
    payPlans.encode "m.MsgPay" (.object payMembers)
      = payPlans.schema.encodeMessage 0 (.root "value") payValue ∧
    payPlans.schema.fill 1 (payPlans.schema.fill 1 (.object [("next", .array [.null])]))
      = payPlans.schema.fill 1 (.object [("next", .array [.null])]) := by
  obtain ⟨settles, unseen⟩ := fill_idempotent_unseen
  obtain ⟨index, here, _, full, written⟩ := unseen _ _ _ ofCorpus_pay _ _ planned_pay
  obtain rfl : 0 = index := Option.some.inj here
  refine ⟨ofCorpus_pay, planned_pay, map_pay, full _ _ _ map_pay, ?_, (settles _ _ _).2.1⟩
  have ran := written (.object payMembers)
  rw [show payPlans.map "m.MsgPay" FieldPath.defaultLabel _ = _ from map_pay] at ran
  exact ran

end EncoderPlans

end SigningSchema
