import SigningSchema.Proofs.Corpus.Reachability
import SigningSchema.Proofs.Encoder.Typing
import SigningSchema.Proofs.Wire.Filling

-- The message types on the wire are the plans, one for one: a plan and its type stand at the
-- same position, and a position is what a field of that type refers to.

namespace SigningSchema

namespace EncoderPlans

variable {corpus : Corpus} {config : Config} {plans : EncoderPlans} {name : String}

-- Where the plan of a message stands, and its type with it.
def position? (plans : EncoderPlans) (name : String) : Option Nat :=
  plans.messages.keys.findIdx? (· = name)

-- What the wire schema owes to the plans.
structure LaidOut (plans : EncoderPlans) : Prop where
  ascending : plans.messages.Ascending
  named : ∀ name plan, (name, plan) ∈ plans.messages → plan.fullName = name
  types : List.Forall₂ (fun plan type => type.name = plan.fullName ∧
      List.Forall₂ (fun rule field => wireField plans.messages rule = .ok field)
        plan.fields type.fields)
    plans.messages.values plans.schema.types

theorem planOf_ok {plan : MessagePlan} (planned : planOf corpus config name = .ok plan) :
    plan.fullName = name ∧ ∃ fields, corpus.resolvedFields name = .ok fields ∧
      plan.fields.map FieldRule.camelName = fields.map ResolvedField.camelName := by
  obtain ⟨message, _, more⟩ := bind_ok planned
  obtain ⟨fields, resolved, last⟩ := bind_ok more
  cases last
  refine ⟨rfl, fields, resolved, ?_⟩
  rw [List.map_map]
  rfl

theorem wireSchema_ok {messages : Table MessagePlan} {schema : WireSchema}
    (laid : wireSchema messages = .ok schema) :
    List.Forall₂ (fun plan type => type.name = plan.fullName ∧
        List.Forall₂ (fun rule field => wireField messages rule = .ok field) plan.fields type.fields)
      messages.values schema.types := by
  obtain ⟨types, ran, last⟩ := bind_ok laid
  cases last
  refine (mapM_ok ran).imp fun plan type made => ?_
  obtain ⟨fields, each, last⟩ := bind_ok made
  cases last
  exact ⟨rfl, mapM_ok each⟩

theorem ofCorpus_ok (planned : ofCorpus corpus config = .ok plans) :
    ∃ closure made, corpus.fullClosure = .ok closure ∧
      closure.mapM (planOf corpus config) = .ok made ∧
      plans.messages = Table.ofList (made.map fun plan => (plan.fullName, plan)) ∧
      wireSchema plans.messages = .ok plans.schema := by
  obtain ⟨closure, closed, more⟩ := bind_ok planned
  obtain ⟨made, ran, rest⟩ := bind_ok more
  obtain ⟨schema, laid, last⟩ := bind_ok rest
  cases last
  exact ⟨closure, made, closed, ran, rfl, laid⟩

-- There is a plan for every message that a payload reaches, and no other.
theorem planOf_of_plan (planned : ofCorpus corpus config = .ok plans) {plan : MessagePlan}
    (found : plans.plan? name = some plan) :
    corpus.Reachable name ∧ planOf corpus config name = .ok plan := by
  obtain ⟨closure, made, closed, ran, messages, _⟩ := ofCorpus_ok planned
  rw [plan?, messages] at found
  obtain ⟨other, member, same⟩ := List.mem_map.mp (Table.mem_of_get?_ofList found)
  cases same
  obtain ⟨message, inside, planned⟩ := exists_of_forall₂ (mapM_ok ran).flip member
  rw [(planOf_ok planned).1]
  exact ⟨(Corpus.mem_fullClosure closed).mp inside, planned⟩

theorem plan_of_reachable (planned : ofCorpus corpus config = .ok plans)
    (reached : corpus.Reachable name) : ∃ plan, plans.plan? name = some plan := by
  obtain ⟨closure, made, closed, ran, messages, _⟩ := ofCorpus_ok planned
  obtain ⟨plan, member, planned⟩ :=
    exists_of_forall₂ (mapM_ok ran) ((Corpus.mem_fullClosure closed).mpr reached)
  rw [plan?, messages]
  refine Table.mem_keys_iff.mp (Table.mem_keys_ofList.mpr ?_)
  rw [List.map_map]
  exact List.mem_map.mpr ⟨plan, member, (planOf_ok planned).1⟩

theorem laidOut_of_ofCorpus (planned : ofCorpus corpus config = .ok plans) : plans.LaidOut := by
  obtain ⟨closure, made, _, _, messages, laid⟩ := ofCorpus_ok planned
  refine ⟨messages ▸ Table.ascending_ofList _, ?_, wireSchema_ok laid⟩
  intro name plan member
  rw [messages] at member
  have found := Table.get?_of_mem (Table.ascending_ofList _) member
  obtain ⟨other, _, same⟩ := List.mem_map.mp (Table.mem_of_get?_ofList found)
  cases same
  rfl

-- Where camel names tell the fields of every reachable message apart, they do so in plans.
theorem distinctNames_of_ofCorpus (planned : ofCorpus corpus config = .ok plans)
    (distinct : ∀ message fields, corpus.Reachable message →
      corpus.resolvedFields message = .ok fields → (fields.map ResolvedField.camelName).Nodup) :
    plans.DistinctNames := by
  obtain ⟨closure, made, closed, ran, messages, _⟩ := ofCorpus_ok planned
  intro name plan found
  rw [plan?, messages] at found
  obtain ⟨other, member, same⟩ := List.mem_map.mp (Table.mem_of_get?_ofList found)
  cases same
  obtain ⟨message, inside, planned⟩ := exists_of_forall₂ (mapM_ok ran).flip member
  obtain ⟨_, fields, resolved, names⟩ := planOf_ok planned
  rw [names]
  exact distinct message fields ((Corpus.mem_fullClosure closed).mp inside) resolved

-- What a rule and its wire field have in common.
structure Matches (plans : EncoderPlans) (rule : FieldRule) (field : WireField) : Prop where
  name : field.name = rule.camelName
  repeated : field.repeated = rule.repeated
  scalar : ∀ kind, rule.type = .scalar kind → field.type = .scalar kind
  message : ∀ nested, rule.type = .message nested →
    ∃ index, plans.position? nested = some index ∧ field.type = .message index

theorem matches_of_wireField {rule : FieldRule} {field : WireField}
    (laid : wireField plans.messages rule = .ok field) : plans.Matches rule field := by
  unfold wireField at laid
  split at laid
  · rename_i kind type
    cases laid
    refine ⟨rfl, rfl, fun other same => ?_, fun nested same => ?_⟩
    · rw [type] at same
      cases same
      rfl
    · rw [type] at same
      cases same
  · rename_i nested type
    split at laid
    · rename_i index found
      cases laid
      refine ⟨rfl, rfl, fun kind same => ?_, fun other same => ?_⟩
      · rw [type] at same
        cases same
      · rw [type] at same
        cases same
        exact ⟨index, found, rfl⟩
    · cases laid

theorem tag_of_wireField {rule : FieldRule} {field : WireField}
    (laid : wireField plans.messages rule = .ok field) : field.tag = rule.tag := by
  unfold wireField at laid
  split at laid
  · cases laid
    rfl
  · split at laid <;> cases laid
    rfl

theorem Matches.position {rule : FieldRule} {field : WireField} {index : Nat}
    (fits : plans.Matches rule field) (type : field.type = .message index) :
    ∃ nested, plans.position? nested = some index := by
  cases declared : rule.type with
  | scalar kind =>
    rw [fits.scalar kind declared] at type
    cases type
  | message nested =>
    obtain ⟨other, found, same⟩ := fits.message nested declared
    rw [same] at type
    cases type
    exact ⟨nested, found⟩

theorem position_of_plan {plan : MessagePlan}
    (planned : plans.plan? name = some plan) : ∃ index, plans.position? name = some index := by
  have member : name ∈ plans.messages.keys := Table.mem_keys_iff.mpr ⟨plan, planned⟩
  refine Option.isSome_iff_exists.mp ?_
  rw [position?, List.findIdx?_isSome]
  exact List.any_eq_true.mpr ⟨name, member, decide_eq_true rfl⟩

namespace LaidOut

theorem length_types (laid : plans.LaidOut) : plans.schema.types.length = plans.messages.length := by
  rw [← laid.types.length_eq, Table.values, List.length_map]

theorem position_lt (laid : plans.LaidOut) {index : Nat} (found : plans.position? name = some index) :
    index < plans.schema.types.length := by
  have inside := (List.findIdx?_eq_some_iff_getElem.mp found).1
  rwa [Table.keys, List.length_map, ← laid.length_types] at inside

-- At the position of a message stand its plan and the type that is made of it.
theorem made_of_position (laid : plans.LaidOut) {index : Nat}
    (found : plans.position? name = some index) :
    ∃ plan, plans.plan? name = some plan ∧ (plans.schema.typeAt index).name = name ∧
      List.Forall₂ (fun rule field => wireField plans.messages rule = .ok field) plan.fields
        (plans.schema.typeAt index).fields := by
  obtain ⟨inside, here, _⟩ := List.findIdx?_eq_some_iff_getElem.mp found
  have key : plans.messages.keys[index] = name := of_decide_eq_true here
  have bound : index < plans.messages.length := by rwa [Table.keys, List.length_map] at inside
  have declared : index < plans.schema.types.length := laid.position_lt found
  obtain ⟨pair, same⟩ : ∃ pair, plans.messages[index] = pair := ⟨_, rfl⟩
  have first : pair.1 = name := by
    rw [← key, ← same]
    exact (List.getElem_map _).symm
  have member : (name, pair.2) ∈ plans.messages := by
    rw [← first, ← same]
    exact List.getElem_mem bound
  have located : plans.schema.typeAt index = plans.schema.types[index] :=
    WireSchema.typeAt_of_located (List.getElem?_eq_getElem declared)
  have valued : index < plans.messages.values.length := by rwa [Table.values, List.length_map]
  have value : plans.messages.values[index] = pair.2 := by
    rw [← same]
    exact List.getElem_map _
  obtain ⟨type, fields⟩ := laid.types.get valued declared
  rw [List.get_eq_getElem, List.get_eq_getElem, value, ← located] at type fields
  refine ⟨pair.2, Table.get?_of_mem laid.ascending member, ?_, fields⟩
  rw [type, laid.named name pair.2 member]

theorem type_of_position (laid : plans.LaidOut) {index : Nat}
    (found : plans.position? name = some index) :
    ∃ plan, plans.plan? name = some plan ∧ (plans.schema.typeAt index).name = name ∧
      List.Forall₂ plans.Matches plan.fields (plans.schema.typeAt index).fields := by
  obtain ⟨plan, planned, named, fields⟩ := laid.made_of_position found
  exact ⟨plan, planned, named, fields.imp fun _ _ => matches_of_wireField⟩

theorem names (laid : plans.LaidOut) :
    plans.schema.types.map MessageType.name = plans.messages.keys := by
  have same : plans.messages.values.map MessagePlan.fullName
      = plans.schema.types.map MessageType.name :=
    map_eq_of_forall₂ (laid.types.imp fun _ _ fit => fit.1.symm)
  rw [← same, Table.values, Table.keys, List.map_map]
  exact List.map_congr_left fun pair member => laid.named pair.1 pair.2 member

-- Looking from either end finds the same place, for no name is there twice.
theorem index?_of_position (laid : plans.LaidOut) {index : Nat}
    (found : plans.position? name = some index) : plans.schema.index? name = some index := by
  have nodup : plans.messages.keys.Nodup :=
    List.pairwise_map.mpr (laid.ascending.imp fun below => ne_of_lt below)
  obtain ⟨inside, here, _⟩ := List.findIdx?_eq_some_iff_getElem.mp found
  have backwards : plans.messages.keys.reverse.findIdx? (· = name)
      = some (plans.messages.keys.length - 1 - index) := by
    refine List.findIdx?_eq_some_iff_getElem.mpr ⟨by rw [List.length_reverse]; omega, ?_, ?_⟩
    · rw [List.getElem_reverse]
      simpa only [show plans.messages.keys.length - 1 - (plans.messages.keys.length - 1 - index)
        = index by omega] using here
    · intro other before again
      rw [List.getElem_reverse] at again
      have same := (of_decide_eq_true again).trans (of_decide_eq_true here).symm
      have places := (List.getElem_inj nodup).mp same
      omega
  have length : plans.schema.types.length = plans.messages.keys.length := by
    rw [laid.length_types, Table.keys, List.length_map]
  have ahead : plans.schema.types.reverse.findIdx? (·.name = name)
      = plans.messages.keys.reverse.findIdx? (· = name) := by
    rw [← laid.names, ← List.map_reverse, List.findIdx?_map]
    rfl
  rw [WireSchema.index?, length, ahead, backwards, Option.map_some]
  exact congrArg some (by omega)

theorem distinctNames (laid : plans.LaidOut) (distinct : plans.DistinctNames) :
    plans.schema.DistinctNames := by
  intro type member
  obtain ⟨_, inside, _, fields⟩ := exists_of_forall₂ laid.types.flip member
  obtain ⟨⟨name, plan⟩, entry, rfl⟩ := List.mem_map.mp inside
  have same : plan.fields.map FieldRule.camelName = type.fields.map WireField.name :=
    map_eq_of_forall₂ (fields.imp fun _ _ made => (matches_of_wireField made).name.symm)
  rw [← same]
  exact distinct name plan (Table.get?_of_mem laid.ascending entry)

theorem index_lt (laid : plans.LaidOut) {type : MessageType} (member : type ∈ plans.schema.types)
    {field : WireField} (declared : field ∈ type.fields) {index : Nat}
    (refers : field.type = .message index) : index < plans.schema.types.length := by
  obtain ⟨plan, _, _, fields⟩ := exists_of_forall₂ laid.types.flip member
  obtain ⟨rule, _, made⟩ := exists_of_forall₂ fields.flip declared
  obtain ⟨nested, found⟩ := (matches_of_wireField made).position refers
  exact laid.position_lt found

end LaidOut

end EncoderPlans

end SigningSchema
