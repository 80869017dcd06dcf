import SigningSchema.Proofs.Encoder.Typing

-- A field coerced by itself: what is asked for at its own path, from whatever the input gives for it.

namespace SigningSchema

open Coercion

namespace Coercion

-- The inputs of the single values of a field.
def inputsOf (repeated : Bool) (given : Option Json) : List Json :=
  match repeated, given with
  | true, some (.array items) => items
  | false, some input => [input]
  | _, _ => []

theorem sizeOf_lt_of_inputsOf {repeated : Bool} {members : List (String × Json)}
    {camel declared : String} {part : Json}
    (inside : part ∈ inputsOf repeated (lookUp members camel declared)) :
    sizeOf part < sizeOf members := by
  unfold inputsOf at inside
  split at inside
  · rename_i items given
    exact sizeOf_lt_of_isElement ⟨items, given, inside⟩
  · rename_i input given
    rw [List.mem_singleton.mp inside]
    exact sizeOf_lt_of_lookUp given
  · cases inside

end Coercion

namespace ResolvedField

def inputs (field : ResolvedField) (members : List (String × Json)) : List Json :=
  inputsOf field.repeated (lookUp members field.camelName field.name)

def blank (field : ResolvedField) : Value :=
  match field.type with
  | .scalar kind => .defaultFor kind
  | .message _ => .null

def hold (field : ResolvedField) (values : List Value) : Value :=
  if field.repeated then .array values else values.headD field.blank

end ResolvedField

def FieldRule.resolved (rule : FieldRule) : ResolvedField :=
  ⟨rule.name, rule.camelName, rule.type, rule.repeated, rule.tag⟩

-- What an error asks for where a field is absent or no list.
def FieldRule.wanted (rule : FieldRule) : String :=
  match rule.type, rule.repeated with
  | .scalar kind, false => kind.keyword
  | .scalar kind, true => "array of " ++ kind.keyword
  | .message nested, false => nested
  | .message nested, true => "array of " ++ nested

namespace EncoderPlans

variable {plans : EncoderPlans} {path : FieldPath} {rule : FieldRule}

def mapPart (plans : EncoderPlans) (type : TypeClass) (path : FieldPath) (input : Json) :
    Except CoercionError Value :=
  match type with
  | .scalar kind => scalar kind path input
  | .message nested => plans.mapAt nested path input

def coerceField (plans : EncoderPlans) (path : FieldPath) (rule : FieldRule) (given : Option Json) :
    Except CoercionError Value :=
  match rule.type, rule.repeated with
  | .scalar kind, false => scalarField kind path rule.policy given
  | .scalar kind, true =>
    repeatedField kind.keyword path rule.policy given fun path element _ => scalar kind path element
  | .message nested, false =>
    messageField nested path rule.policy given fun path part _ => plans.mapAt nested path part
  | .message nested, true =>
    repeatedField nested path rule.policy given fun path element _ => plans.mapAt nested path element

theorem mapField_eq_coerceField (members : List (String × Json)) :
    plans.mapField path members rule
      = plans.coerceField (path.field rule.camelName) rule (lookUp members rule.camelName rule.name) := by
  unfold mapField coerceField
  cases rule.type <;> cases rule.repeated <;> rfl

theorem coerceField_single (singular : rule.repeated = false) (part : Json) :
    plans.coerceField path rule (some part) = plans.mapPart rule.type path part := by
  unfold coerceField
  rw [singular]
  cases rule.type <;> rfl

theorem coerceField_array (several : rule.repeated = true) (items : List Json) :
    plans.coerceField path rule (some (.array items))
      = (inTurn (fun position => plans.mapPart rule.type (path.index position)) 0 items).map .array := by
  unfold coerceField
  rw [several]
  cases rule.type <;> exact repeatedField_array _ _ items

theorem coerceField_unlike (several : rule.repeated = true) {part : Json}
    (unlike : ∀ items, part ≠ .array items) :
    plans.coerceField path rule (some part) = .error (.unlike path rule.wanted part) := by
  unfold coerceField FieldRule.wanted
  rw [several]
  cases part with
  | array items => exact absurd rfl (unlike items)
  | _ => cases rule.type <;> rfl

theorem coerceField_none : plans.coerceField path rule none =
    match rule.policy with
    | .default => .ok (rule.resolved.hold [])
    | .required => .error (.missingField path rule.wanted) := by
  unfold coerceField FieldRule.wanted
  cases type : rule.type <;> cases several : rule.repeated <;> cases policy : rule.policy <;>
    simp [scalarField, repeatedField, messageField, ResolvedField.hold, ResolvedField.blank,
      FieldRule.resolved, type, several]

-- What coercion makes of the inputs of a field, wherever they stand.
def Maps (plans : EncoderPlans) (type : TypeClass) (parts : List Json) (values : List Value) : Prop :=
  List.Forall₂ (fun part value => ∃ path, plans.mapPart type path part = .ok value) parts values

-- A field holds what its inputs are coerced to, or is blank where there are none.
theorem coerceField_ok {given : Option Json} {value : Value}
    (coerced : plans.coerceField path rule given = .ok value) :
    ∃ values, plans.Maps rule.type (inputsOf rule.repeated given) values ∧
      value = rule.resolved.hold values := by
  cases given with
  | none =>
    rw [coerceField_none] at coerced
    have nothing : inputsOf rule.repeated none = [] := by cases rule.repeated <;> rfl
    rw [nothing]
    cases policy : rule.policy <;> rw [policy] at coerced <;> cases coerced
    exact ⟨[], .nil, rfl⟩
  | some part =>
    cases several : rule.repeated with
    | false =>
      rw [coerceField_single several] at coerced
      exact ⟨[value], .cons ⟨path, coerced⟩ .nil, by simp [ResolvedField.hold, FieldRule.resolved, several]⟩
    | true =>
      cases part with
      | array items =>
        rw [coerceField_array several] at coerced
        obtain ⟨values, ran, rfl⟩ := map_ok coerced
        have each : plans.Maps rule.type items values :=
          (inTurn_ok ran).imp fun _ _ mapped => mapped.elim fun _ mapped => ⟨_, mapped⟩
        exact ⟨values, each, by simp [ResolvedField.hold, FieldRule.resolved, several]⟩
      | _ =>
        rw [coerceField_unlike several (fun _ => Json.noConfusion)] at coerced
        cases coerced

theorem mapField_ok {members : List (String × Json)} {value : Value}
    (mapped : plans.mapField path members rule = .ok value) :
    ∃ values, plans.Maps rule.type (rule.resolved.inputs members) values ∧
      value = rule.resolved.hold values := by
  rw [mapField_eq_coerceField] at mapped
  exact coerceField_ok mapped

theorem mapFields_congr {others : EncoderPlans} {members changed : List (String × Json)}
    {rules : List FieldRule}
    (each : ∀ rule ∈ rules, plans.mapField path members rule = others.mapField path changed rule) :
    plans.mapFields path members rules = others.mapFields path changed rules := by
  induction rules with
  | nil => rw [mapFields_nil, mapFields_nil]
  | cons rule rest ih =>
    rw [mapFields_cons, mapFields_cons, each rule List.mem_cons_self,
      ih fun other member => each other (List.mem_cons_of_mem _ member)]

theorem mapFields_eq_inTurn (members : List (String × Json)) (rules : List FieldRule) (position : Nat) :
    plans.mapFields path members rules
      = inTurn (fun _ rule => (plans.mapField path members rule).map (rule.camelName, ·)) position rules := by
  induction rules generalizing position with
  | nil => rw [mapFields_nil, inTurn]
  | cons rule rest ih =>
    rw [mapFields_cons, inTurn, ih (position + 1)]
    cases plans.mapField path members rule <;> rfl

theorem mapFields_of_each {members : List (String × Json)} {rules : List FieldRule}
    (each : ∀ rule ∈ rules, ∃ value, plans.mapField path members rule = .ok value) :
    ∃ pairs, plans.mapFields path members rules = .ok pairs := by
  rw [mapFields_eq_inTurn members rules 0]
  refine inTurn_of_each (fun rule member _ => ?_) 0
  obtain ⟨value, mapped⟩ := each rule member
  exact ⟨(rule.camelName, value), by rw [mapped]; rfl⟩

end EncoderPlans

end SigningSchema
