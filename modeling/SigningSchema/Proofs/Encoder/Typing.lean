import SigningSchema.Proofs.Coercion.Parts
import SigningSchema.Proofs.Table
import SigningSchema.Proofs.Wire.Scalar
import SigningSchema.Encoder.Mapping

-- Coercion gives values of the declared types, or an error.

namespace SigningSchema

namespace Coercion

variable {kind : ScalarKind} {path : FieldPath}

theorem scalar_ofKind {input : Json} {value : Value} (coerced : scalar kind path input = .ok value) :
    value.ofKind kind = true := by
  cases kind <;> simp only [scalar] at coerced
  case string =>
    cases input <;> cases coerced
    rfl
  case bool =>
    cases input <;> cases coerced
    rfl
  case bytes =>
    cases input with
    | string text =>
      dsimp only at coerced
      split at coerced <;> cases coerced
      rfl
    | array items =>
      obtain ⟨data, _, rfl⟩ := map_ok coerced
      rfl
    | _ => cases coerced
  case float =>
    obtain ⟨word, _, ran⟩ := bind_ok coerced
    split at ran <;> cases ran
    rfl
  case duration =>
    obtain ⟨⟨seconds, nanos⟩, _, ran⟩ := bind_ok coerced
    dsimp only at ran
    split at ran <;> cases ran
    rfl
  case timestamp =>
    obtain ⟨⟨seconds, nanos⟩, _, ran⟩ := bind_ok coerced
    cases ran
    rfl
  all_goals
    obtain ⟨n, _, rfl⟩ := map_ok coerced
    rfl

theorem elements_ok {α : Type} {item : FieldPath → α → Except CoercionError Value}
    {position : Nat} {inputs : List α} {values : List Value}
    (ran : elements path item position inputs = .ok values) :
    List.Forall₂ (fun input value => ∃ path, item path input = .ok value) inputs values := by
  rw [elements_eq_inTurn] at ran
  exact (inTurn_ok ran).imp fun _ _ made => made.elim fun _ made => ⟨_, made⟩

end Coercion

namespace EncoderPlans

open Coercion

-- Where values belong: to a message, to one of its fields, or among the values of a field.
inductive Place where
  | message (fullName : String)
  | field (rule : FieldRule)
  | single (type : TypeClass)

def Unsettable : TypeClass → Prop
  | .message _ => True
  | .scalar kind => kind = .duration ∨ kind = .timestamp

-- The types of the values that inputs are coerced to. A field that the input leaves out has a
-- value only where its policy gives it one, and only a message, a duration or a timestamp is then
-- null; null is never an element of a list.
inductive Typed (plans : EncoderPlans) : Place → Option Json → Value → Prop where
  | object {fullName : String} {plan : MessagePlan} {inputs : List (String × Json)}
      {members : List (String × Value)} (planned : plans.plan? fullName = some plan)
      (ascending : Table.Ascending members)
      (names : ∀ name, name ∈ Table.keys members ↔ name ∈ plan.fields.map FieldRule.camelName)
      (fields : ∀ rule ∈ plan.fields, ∀ value, Table.get? members rule.camelName = some value →
        Typed plans (.field rule) (lookUp inputs rule.camelName rule.name) value) :
      Typed plans (.message fullName) (some (.object inputs)) (.object members)
  | unset {rule : FieldRule} (singular : rule.repeated = false) (policy : rule.policy = .default)
      (unsettable : Unsettable rule.type) : Typed plans (.field rule) none .null
  | zero {rule : FieldRule} {kind : ScalarKind} {value : Value} (singular : rule.repeated = false)
      (policy : rule.policy = .default) (type : rule.type = .scalar kind)
      (default : value = .defaultFor kind) (fits : value.ofKind kind = true) :
      Typed plans (.field rule) none value
  | empty {rule : FieldRule} (repeated : rule.repeated = true) (policy : rule.policy = .default) :
      Typed plans (.field rule) none (.array [])
  | given {rule : FieldRule} {input : Json} {value : Value} (singular : rule.repeated = false)
      (fits : Typed plans (.single rule.type) (some input) value) :
      Typed plans (.field rule) (some input) value
  | list {rule : FieldRule} {inputs : List Json} {values : List Value}
      (repeated : rule.repeated = true) (lengths : inputs.length = values.length)
      (fit : ∀ pair ∈ inputs.zip values, Typed plans (.single rule.type) (some pair.1) pair.2) :
      Typed plans (.field rule) (some (.array inputs)) (.array values)
  | scalar {kind : ScalarKind} {input : Json} {value : Value} (fits : value.ofKind kind = true) :
      Typed plans (.single (.scalar kind)) (some input) value
  | message {fullName : String} {input : Json} {value : Value}
      (fits : Typed plans (.message fullName) (some input) value) :
      Typed plans (.single (.message fullName)) (some input) value

variable {plans : EncoderPlans} {path : FieldPath}

-- What is owed for every input that is part of a given one.
def Types (plans : EncoderPlans) (size : Nat) : Prop :=
  ∀ fullName path input value, sizeOf input < size → plans.mapAt fullName path input = .ok value →
    plans.Typed (.message fullName) (some input) value

-- The part of a mapping that belongs to one field.
def mapField (plans : EncoderPlans) (path : FieldPath) (members : List (String × Json))
    (rule : FieldRule) : Except CoercionError Value :=
  match rule.type, rule.repeated with
  | .scalar kind, false =>
    scalarField kind (path.field rule.camelName) rule.policy (lookUp members rule.camelName rule.name)
  | .scalar kind, true =>
    repeatedField kind.keyword (path.field rule.camelName) rule.policy
      (lookUp members rule.camelName rule.name) fun path element _ => scalar kind path element
  | .message nested, false =>
    messageField nested (path.field rule.camelName) rule.policy
      (lookUp members rule.camelName rule.name) fun path given _ => mapAt plans nested path given
  | .message nested, true =>
    repeatedField nested (path.field rule.camelName) rule.policy
      (lookUp members rule.camelName rule.name) fun path element _ => mapAt plans nested path element

theorem mapFields_cons {members : List (String × Json)} (rule : FieldRule) (rest : List FieldRule) :
    plans.mapFields path members (rule :: rest) =
      match plans.mapField path members rule with
      | .error error => .error error
      | .ok value => (plans.mapFields path members rest).map ((rule.camelName, value) :: ·) := by
  rw [mapFields]
  rfl

theorem mapFields_nil {members : List (String × Json)} :
    plans.mapFields path members [] = .ok [] := by
  rw [mapFields]

theorem mapAt_object {fullName : String} {plan : MessagePlan} {members : List (String × Json)}
    (planned : plans.plan? fullName = some plan) :
    plans.mapAt fullName path (.object members) =
      (plans.mapFields path members plan.fields).map fun fields => .object (Table.ofList fields) := by
  rw [mapAt, planned]

theorem repeatedField_typed {rule : FieldRule} {expected : String} {input : Option Json}
    {value : Value} {item : FieldPath → (element : Json) → IsElement input element →
      Except CoercionError Value}
    (repeated : rule.repeated = true)
    (fit : ∀ path element inside value, item path element inside = .ok value →
      plans.Typed (.single rule.type) (some element) value)
    (coerced : repeatedField expected path rule.policy input item = .ok value) :
    plans.Typed (.field rule) input value := by
  unfold repeatedField at coerced
  split at coerced
  · rename_i items policy
    obtain ⟨values, ran, rfl⟩ := map_ok coerced
    have each := (elements_ok ran).imp fun element value ⟨path, ran⟩ => fit path element.1 _ value ran
    rw [← List.forall₂_map_left_iff (f := Subtype.val)
      (R := fun element value => plans.Typed (.single rule.type) (some element) value),
      List.attach_map_subtype_val] at each
    exact .list repeated each.length_eq fun pair inside => (List.forall₂_iff_zip.mp each).2 inside
  · cases coerced
  · rename_i policy
    cases coerced
    exact .empty repeated policy
  · cases coerced

theorem messageField_typed {rule : FieldRule} {expected : String} {input : Option Json}
    {value : Value} {message : FieldPath → (given : Json) → input = some given →
      Except CoercionError Value}
    (singular : rule.repeated = false) (unsettable : Unsettable rule.type)
    (fit : ∀ path given found value, message path given found = .ok value →
      plans.Typed (.single rule.type) (some given) value)
    (coerced : messageField expected path rule.policy input message = .ok value) :
    plans.Typed (.field rule) input value := by
  unfold messageField at coerced
  split at coerced
  · exact .given singular (fit path _ _ value coerced)
  · rename_i policy
    cases coerced
    exact .unset singular policy unsettable
  · cases coerced

theorem mapField_typed {members : List (String × Json)} {rule : FieldRule} {value : Value}
    (types : plans.Types (sizeOf members)) (mapped : plans.mapField path members rule = .ok value) :
    plans.Typed (.field rule) (lookUp members rule.camelName rule.name) value := by
  unfold mapField at mapped
  split at mapped
  · rename_i kind type singular
    unfold scalarField at mapped
    split at mapped
    · rename_i input given
      rw [given]
      exact .given singular (type ▸ .scalar (scalar_ofKind mapped))
    · rename_i absent policy
      cases mapped
      rw [absent]
      cases kind
      case duration => exact .unset singular policy (by simp [type, Unsettable])
      case timestamp => exact .unset singular policy (by simp [type, Unsettable])
      all_goals exact .zero singular policy type rfl rfl
    · cases mapped
  · rename_i kind type repeated
    refine repeatedField_typed repeated (fun path element _ value coerced => ?_) mapped
    exact type ▸ .scalar (scalar_ofKind coerced)
  · rename_i nested type singular
    refine messageField_typed singular (by simp [type, Unsettable])
      (fun path given found value coerced => ?_) mapped
    exact type ▸ .message (types nested path given value (sizeOf_lt_of_lookUp found) coerced)
  · rename_i nested type repeated
    refine repeatedField_typed repeated (fun path element inside value coerced => ?_) mapped
    exact type ▸ .message (types nested path element value (sizeOf_lt_of_isElement inside) coerced)

theorem mapFields_ok {members : List (String × Json)} {rules : List FieldRule}
    {pairs : List (String × Value)} (mapped : plans.mapFields path members rules = .ok pairs) :
    List.Forall₂ (fun rule pair => pair.1 = rule.camelName ∧
      plans.mapField path members rule = .ok pair.2) rules pairs := by
  induction rules generalizing pairs with
  | nil =>
    rw [mapFields_nil] at mapped
    cases mapped
    exact .nil
  | cons rule rest ih =>
    rw [mapFields_cons] at mapped
    cases first : plans.mapField path members rule with
    | error error =>
      rw [first] at mapped
      cases mapped
    | ok value =>
      rw [first] at mapped
      obtain ⟨others, later, rfl⟩ := map_ok mapped
      exact .cons ⟨rfl, first⟩ (ih later)

theorem mapAt_ok {name : String} {input : Json} {value : Value}
    (mapped : plans.mapAt name path input = .ok value) :
    ∃ plan members pairs, plans.plan? name = some plan ∧ input = .object members ∧
      plans.mapFields path members plan.fields = .ok pairs ∧ value = .object (Table.ofList pairs) := by
  rw [mapAt] at mapped
  split at mapped
  · cases mapped
  · rename_i plan planned
    split at mapped
    · rename_i members
      obtain ⟨pairs, ran, rfl⟩ := map_ok mapped
      exact ⟨plan, members, pairs, planned, rfl, ran, rfl⟩
    · cases mapped

theorem mapFields_typed {members : List (String × Json)} {rules : List FieldRule}
    {pairs : List (String × Value)} (types : plans.Types (sizeOf members))
    (mapped : plans.mapFields path members rules = .ok pairs) :
    List.Forall₂ (fun rule pair => pair.1 = rule.camelName ∧
      plans.Typed (.field rule) (lookUp members rule.camelName rule.name) pair.2) rules pairs :=
  (mapFields_ok mapped).imp fun _ _ made => ⟨made.1, mapField_typed types made.2⟩

def DistinctNames (plans : EncoderPlans) : Prop :=
  ∀ fullName plan, plans.plan? fullName = some plan → (plan.fields.map FieldRule.camelName).Nodup

theorem mapAt_typed (distinct : plans.DistinctNames) (size : Nat) : plans.Types size := by
  induction size with
  | zero => exact fun _ _ _ _ impossible => absurd impossible (Nat.not_lt_zero _)
  | succ size ih =>
    intro fullName path input value below mapped
    obtain ⟨plan, members, pairs, planned, rfl, ran, rfl⟩ := mapAt_ok mapped
    have smaller : sizeOf members ≤ size := by
      simp only [Json.object.sizeOf_spec] at below
      omega
    have fits := mapFields_typed (fun name path part value inside =>
      ih name path part value (Nat.lt_of_lt_of_le inside smaller)) ran
    have names : pairs.map Prod.fst = plan.fields.map FieldRule.camelName :=
      map_eq_of_forall₂ (fits.flip.imp fun _ _ fit => fit.1)
    have nodup : (pairs.map Prod.fst).Nodup := names ▸ distinct fullName plan planned
    refine .object planned (Table.ascending_ofList pairs) (fun name => ?_) ?_
    · rw [Table.mem_keys_ofList, names]
    · intro rule declared value found
      obtain ⟨pair, inside, same, typed⟩ := exists_of_forall₂ fits declared
      rw [← same, Table.get?_ofList nodup inside] at found
      cases found
      exact typed

end EncoderPlans

end SigningSchema
