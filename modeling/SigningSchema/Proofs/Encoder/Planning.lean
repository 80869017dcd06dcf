import SigningSchema.Proofs.Encoder.Fields
import SigningSchema.Proofs.Encoder.Layout
import SigningSchema.Proofs.Wire.Reporting

-- Plans are made wherever everything that payloads reach resolves, and no plan refers to a message
-- without one. So what goes wrong while an input is encoded always has a place in the input, and
-- what is made of the input does not depend on how the path to it is called.

namespace SigningSchema

open Coercion

theorem Corpus.message_of_resolvedFields {corpus : Corpus} {name : String}
    {fields : List ResolvedField} (resolved : corpus.resolvedFields name = .ok fields) :
    ∃ message, corpus.message name = .ok message := by
  cases declared : corpus.message name with
  | ok message => exact ⟨message, rfl⟩
  | error error =>
    rw [Corpus.resolvedFields, declared] at resolved
    cases resolved

namespace EncoderPlans

variable {corpus : Corpus} {config : Config} {plans : EncoderPlans} {name : String} {path : FieldPath}

def Closed (messages : Table MessagePlan) : Prop :=
  ∀ name plan, messages.get? name = some plan → ∀ rule ∈ plan.fields, ∀ nested,
    rule.type = .message nested → nested ∈ messages.keys

theorem planOf_of_resolved {fields : List ResolvedField}
    (resolved : corpus.resolvedFields name = .ok fields) :
    ∃ plan, planOf corpus config name = .ok plan := by
  obtain ⟨message, declared⟩ := Corpus.message_of_resolvedFields resolved
  rw [planOf, declared, resolved]
  exact ⟨_, rfl⟩

theorem refers_of_planOf {plan : MessagePlan} (planned : planOf corpus config name = .ok plan)
    {rule : FieldRule} (member : rule ∈ plan.fields) {nested : String}
    (type : rule.type = .message nested) : corpus.Refers name nested := by
  obtain ⟨declared, _, more⟩ := bind_ok planned
  obtain ⟨fields, resolved, last⟩ := bind_ok more
  cases last
  obtain ⟨field, among, rfl⟩ := List.mem_map.mp member
  exact ⟨fields, resolved, field, among, type⟩

theorem closed_of_closure {closure : NameSet} {made : List MessagePlan}
    (closed : corpus.fullClosure = .ok closure) (ran : closure.mapM (planOf corpus config) = .ok made) :
    Closed (Table.ofList (made.map fun plan => (plan.fullName, plan))) := by
  intro name plan found rule member nested type
  obtain ⟨other, inside, same⟩ := List.mem_map.mp (Table.mem_of_get?_ofList found)
  cases same
  obtain ⟨message, known, planned⟩ := exists_of_forall₂ (mapM_ok ran).flip inside
  obtain ⟨request, requested, reached⟩ := (Corpus.mem_fullClosure closed).mp known
  -- What a field of a reached message refers to is reached, so it has a plan of its own.
  have refers := refers_of_planOf planned member type
  have inClosure := (Corpus.mem_fullClosure closed).mpr ⟨request, requested, reached.tail refers⟩
  obtain ⟨inner, makes, plannedToo⟩ := exists_of_forall₂ (mapM_ok ran) inClosure
  refine Table.mem_keys_ofList.mpr ?_
  rw [List.map_map]
  exact List.mem_map.mpr ⟨inner, makes, (planOf_ok plannedToo).1⟩

theorem closed_of_ofCorpus (planned : ofCorpus corpus config = .ok plans) : Closed plans.messages := by
  obtain ⟨closure, made, closed, ran, messages, _⟩ := ofCorpus_ok planned
  rw [messages]
  exact closed_of_closure closed ran

theorem wireField_of_known {messages : Table MessagePlan} {rule : FieldRule}
    (known : ∀ nested, rule.type = .message nested → nested ∈ messages.keys) :
    ∃ field, wireField messages rule = .ok field := by
  unfold wireField
  cases type : rule.type with
  | scalar kind => exact ⟨_, rfl⟩
  | message nested =>
    have located : (messages.keys.findIdx? (· = nested)).isSome := by
      rw [List.findIdx?_isSome]
      exact List.any_eq_true.mpr ⟨nested, known nested type, decide_eq_true rfl⟩
    obtain ⟨index, found⟩ := Option.isSome_iff_exists.mp located
    exact ⟨⟨rule.camelName, rule.tag, .message index, rule.repeated⟩, by simp only [found]⟩

theorem wireSchema_of_closed {messages : Table MessagePlan} (ascending : messages.Ascending)
    (closed : Closed messages) : ∃ schema, wireSchema messages = .ok schema := by
  have each : ∀ plan ∈ messages.values, ∃ type, (do
      return MessageType.mk plan.fullName (← plan.fields.mapM (wireField messages))) = .ok type := by
    intro plan inside
    obtain ⟨⟨name, held⟩, entry, rfl⟩ := List.mem_map.mp inside
    obtain ⟨fields, laid⟩ := mapM_of_ok fun rule member =>
      wireField_of_known (closed name held (Table.get?_of_mem ascending entry) rule member)
    exact ⟨_, by rw [laid]; rfl⟩
  obtain ⟨types, ran⟩ := mapM_of_ok each
  exact ⟨⟨types⟩, by rw [wireSchema, ran]; rfl⟩

-- Nothing but a message that does not resolve keeps plans from being made.
theorem ofCorpus_of_resolves (resolves : ∀ request ∈ corpus.requestTypes, corpus.Resolves request)
    (config : Config) : ∃ plans, ofCorpus corpus config = .ok plans := by
  have ends : ∃ closure, corpus.fullClosure = .ok closure := by
    cases ran : corpus.fullClosure with
    | ok closure => exact ⟨closure, rfl⟩
    | error error =>
      obtain ⟨request, requested, fails⟩ := Corpus.fullClosure_error ran
      exact absurd (resolves request requested) fails
  obtain ⟨closure, closed⟩ := ends
  have each : ∀ name ∈ closure, ∃ plan, planOf corpus config name = .ok plan := by
    intro name inside
    obtain ⟨request, requested, reached⟩ := (Corpus.mem_fullClosure closed).mp inside
    obtain ⟨fields, resolved⟩ := resolves request requested name reached
    exact planOf_of_resolved resolved
  obtain ⟨made, ran⟩ := mapM_of_ok each
  obtain ⟨schema, laid⟩ :=
    wireSchema_of_closed (Table.ascending_ofList _) (closed_of_closure closed ran)
  refine ⟨⟨Table.ofList (made.map fun plan => (plan.fullName, plan)), corpus.requestTypes, schema⟩, ?_⟩
  rw [ofCorpus, closed]
  show (closure.mapM (planOf corpus config) >>= _) = _
  rw [ran]
  show (wireSchema _ >>= _) = _
  rw [laid]
  rfl

theorem coerceField_alike {other : FieldPath} {rule : FieldRule} (given : Option Json)
    (each : ∀ part ∈ inputsOf rule.repeated given, ∀ path other, Alike anyError path other
      (plans.mapPart rule.type path part) (plans.mapPart rule.type other part)) :
    Alike anyError path other (plans.coerceField path rule given) (plans.coerceField other rule given) := by
  cases given with
  | none =>
    rw [coerceField_none, coerceField_none]
    cases rule.policy with
    | default => exact .ok _
    | required => exact .here rfl rfl trivial
  | some part =>
    cases several : rule.repeated with
    | false =>
      rw [coerceField_single several, coerceField_single several]
      rw [several] at each
      exact each part (List.mem_singleton.mpr rfl) path other
    | true =>
      rw [several] at each
      cases part with
      | array items =>
        rw [coerceField_array several, coerceField_array several]
        exact (inTurn_alike (fun item inside position => .of_step (each item inside _ _)) 0).map _
      | _ =>
        rw [coerceField_unlike several (fun _ => Json.noConfusion),
          coerceField_unlike several (fun _ => Json.noConfusion)]
        exact .here rfl rfl trivial

theorem mapAt_alike (closed : Closed plans.messages) (input : Json) {name : String}
    (known : name ∈ plans.messages.keys) (path other : FieldPath) :
    Alike anyError path other (plans.mapAt name path input) (plans.mapAt name other input) := by
  induction size : sizeOf input using Nat.strongRecOn generalizing input name path other with
  | _ size ih =>
    subst size
    obtain ⟨plan, planned⟩ := Table.mem_keys_iff.mp known
    cases input with
    | object members =>
      rw [mapAt_object planned, mapAt_object planned, mapFields_eq_inTurn _ _ 0,
        mapFields_eq_inTurn _ _ 0]
      refine (inTurn_alike (fun rule member _ => Alike.map _ ?_) 0).map _
      rw [mapField_eq_coerceField, mapField_eq_coerceField]
      refine .of_step (coerceField_alike _ fun part inside path other => ?_)
      have smaller : sizeOf part < sizeOf members := sizeOf_lt_of_inputsOf inside
      cases type : rule.type with
      | scalar kind => exact scalar_alike part
      | message nested =>
        refine ih _ ?_ part (closed name plan planned rule member nested type) path other rfl
        rw [Json.object.sizeOf_spec]
        omega
    | _ =>
      rw [mapAt, mapAt, show plans.plan? name = some plan from planned]
      exact .here rfl rfl trivial

-- An input of a message that has a plan is encoded, or the error names a place in the input.
theorem encode_located (planned : ofCorpus corpus config = .ok plans)
    (known : name ∈ plans.messages.keys) (input : Json) :
    Located (.root FieldPath.defaultLabel) (plans.encode name input) := by
  obtain ⟨plan, held⟩ := Table.mem_keys_iff.mp known
  obtain ⟨index, found⟩ := position_of_plan held
  have laid := laidOut_of_ofCorpus planned
  have placed : Located (.root FieldPath.defaultLabel) (plans.map name FieldPath.defaultLabel input) :=
    (mapAt_alike (closed_of_ofCorpus planned) input known _ (.root FieldPath.defaultLabel)).located
  refine placed.bind fun value => ?_
  rw [WireSchema.encode, laid.index?_of_position found]
  exact fun error failed => WireSchema.encodeMessage_located failed

end EncoderPlans

end SigningSchema
