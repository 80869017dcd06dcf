import SigningSchema.Proofs.Encoder.Fields
import SigningSchema.Proofs.Wire.Thinning

-- Values without what was filled in for fields that the input leaves out. None of it is on the wire.

namespace SigningSchema

open Coercion

-- The field whose value a message has under a name: of fields with one name the last.
def MessagePlan.field? (plan : MessagePlan) (key : String) : Option FieldRule :=
  (Table.ofList (plan.fields.map fun rule => (rule.camelName, rule))).get? key

-- What the input gives for that field.
def MessagePlan.source? (plan : MessagePlan) (given : Table Json) (key : String) :
    Option (FieldRule × Json) :=
  (plan.field? key).bind fun rule => (lookUp given rule.camelName rule.name).map (rule, ·)

namespace EncoderPlans

mutual

-- A value that was made of an input, without the members that the input says nothing about.
def bare (plans : EncoderPlans) (type : TypeClass) (repeated : Bool) (input : Json) : Value → Value
  | .object members =>
    match repeated, type, input with
    | false, .message name, .object given =>
      match plans.plan? name with
      | some plan => .object (bareMembers plans plan given members)
      | none => .object members
    | _, _, _ => .object members
  | .array items =>
    match repeated, input with
    | true, .array parts => .array (bareItems plans type parts items)
    | _, _ => .array items
  | value => value

def bareMembers (plans : EncoderPlans) (plan : MessagePlan) (given : Table Json) :
    List (String × Value) → List (String × Value)
  | [] => []
  | (key, value) :: rest =>
    match plan.source? given key with
    | some (rule, part) =>
      (key, bare plans rule.type rule.repeated part value) :: bareMembers plans plan given rest
    | none => bareMembers plans plan given rest

def bareItems (plans : EncoderPlans) (type : TypeClass) : List Json → List Value → List Value
  | part :: parts, value :: rest => bare plans type false part value :: bareItems plans type parts rest
  | _, _ => []

end

variable {plans : EncoderPlans} {plan : MessagePlan} {path : FieldPath}

theorem bare_scalar {kind : ScalarKind} {part : Json} (value : Value) :
    plans.bare (.scalar kind) false part value = value := by
  cases value <;> rfl

-- Whether a member stays depends on its name alone.
theorem get?_bareMembers (given : Table Json) (members : List (String × Value)) (key : String) :
    Table.get? (plans.bareMembers plan given members) key
      = (Table.get? members key).bind fun value =>
        (plan.source? given key).map fun source =>
          plans.bare source.1.type source.1.repeated source.2 value := by
  induction members with
  | nil => rfl
  | cons pair rest ih =>
    obtain ⟨other, value⟩ := pair
    by_cases here : other = key
    · subst here
      cases source : plan.source? given other with
      | some source => simp [bareMembers, Table.get?, source]
      | none => simp [bareMembers, Table.get?, source, ih]
    · have skipped : Table.get? (plans.bareMembers plan given ((other, value) :: rest)) key
          = Table.get? (plans.bareMembers plan given rest) key := by
        rw [bareMembers]
        split <;> simp [Table.get?, here]
      simpa [skipped, Table.get?, here] using ih

theorem thinned_bareItems {type : TypeClass} {parts : List Json} {values : List Value}
    (each : List.Forall₂ (fun part value => Value.Thinned value (plans.bare type false part value))
      parts values) :
    List.Forall₂ Value.Thinned values (plans.bareItems type parts values) := by
  induction each with
  | nil => exact .nil
  | cons first _ ih => exact .cons first ih

theorem thinned_bare_of_field {rule : FieldRule} {part : Json} {value : Value}
    (coerced : plans.coerceField path rule (some part) = .ok value)
    (inner : ∀ input ∈ inputsOf rule.repeated (some part), ∀ path value,
      plans.mapPart rule.type path input = .ok value →
        Value.Thinned value (plans.bare rule.type false input value)) :
    Value.Thinned value (plans.bare rule.type rule.repeated part value) := by
  cases several : rule.repeated with
  | false =>
    rw [coerceField_single several] at coerced
    exact inner part (by simp [inputsOf, several]) _ value coerced
  | true =>
    cases part with
    | array items =>
      rw [coerceField_array several] at coerced
      obtain ⟨values, ran, rfl⟩ := map_ok coerced
      have each : List.Forall₂ Value.Thinned values (plans.bareItems rule.type items values) := by
        refine thinned_bareItems ((forall₂_with_mem (inTurn_ok ran)).imp ?_)
        rintro input value ⟨inside, position, mapped⟩
        exact inner input (by simpa [inputsOf, several] using inside) _ value mapped
      obtain ⟨lengths, pairs⟩ := List.forall₂_iff_zip.mp each
      exact .list lengths fun _ inside => pairs inside
    | _ =>
      rw [coerceField_unlike several fun _ => Json.noConfusion] at coerced
      cases coerced

-- What a field holds that the input leaves out is left off the wire.
theorem blank_of_absent {rule : FieldRule} {value : Value}
    (coerced : plans.coerceField path rule none = .ok value) : value.Blank := by
  rw [coerceField_none] at coerced
  cases policy : rule.policy with
  | required =>
    rw [policy] at coerced
    cases coerced
  | default =>
    rw [policy] at coerced
    cases coerced
    unfold ResolvedField.hold ResolvedField.blank FieldRule.resolved
    cases rule.repeated with
    | true => exact .inr rfl
    | false =>
      cases rule.type with
      | scalar kind => exact Value.blank_defaultFor kind
      | message nested => exact .inl rfl

-- The member that a field makes.
def Makes (plans : EncoderPlans) (path : FieldPath) (members : List (String × Json))
    (field : String × FieldRule) (made : String × Value) : Prop :=
  field.1 = made.1 ∧ plans.coerceField (path.field field.2.camelName) field.2
    (lookUp members field.2.camelName field.2.name) = .ok made.2

theorem makes_of_mapFields {members : List (String × Json)} {pairs : List (String × Value)}
    (mapped : plans.mapFields path members plan.fields = .ok pairs) (key : String) :
    Option.Rel (fun rule value => plans.Makes path members (key, rule) (key, value))
      (plan.field? key) (Table.get? (Table.ofList pairs) key) := by
  refine Table.get?_ofList_related (plans.Makes path members) (fun _ _ made => made.1) ?_ key
  refine List.forall₂_map_left_iff.mpr ((mapFields_ok mapped).imp fun rule pair made => ?_)
  exact ⟨made.1.symm, (mapField_eq_coerceField members).symm.trans made.2⟩

-- By induction on the size of the input: what is taken out of a message is blank, and what stays was
-- made of a smaller part.
theorem thinned_bare (input : Json) (name : String) (path : FieldPath) (value : Value)
    (mapped : plans.mapAt name path input = .ok value) :
    Value.Thinned value (plans.bare (.message name) false input value) := by
  induction size : sizeOf input using Nat.strongRecOn generalizing input name path value with
  | _ size ih =>
    subst size
    obtain ⟨plan, members, pairs, planned, rfl, ran, rfl⟩ := mapAt_ok mapped
    have inner : ∀ (rule : FieldRule) (part : Json),
        lookUp members rule.camelName rule.name = some part →
        ∀ input ∈ inputsOf rule.repeated (some part), ∀ path value,
          plans.mapPart rule.type path input = .ok value →
            Value.Thinned value (plans.bare rule.type false input value) := by
      intro rule part given input inside path value coerced
      have smaller := sizeOf_lt_of_inputsOf (given.symm ▸ inside)
      cases type : rule.type with
      | scalar kind =>
        rw [bare_scalar]
        exact .same value
      | message nested =>
        rw [type] at coerced
        exact ih _ (by simp only [Json.object.sizeOf_spec]; omega) input nested path value coerced rfl
    have fields := makes_of_mapFields ran
    rw [bare]
    simp only [planned]
    refine .object (fun key value other held left => ?_) (fun key value held left => ?_) fun key none => ?_
    · have made := fields key
      rw [get?_bareMembers, held, Option.bind_some, MessagePlan.source?] at left
      rw [held] at made
      generalize plan.field? key = field at made left
      cases made with
      | @some rule _ made =>
        cases given : lookUp members rule.camelName rule.name with
        | none => simp [given] at left
        | some part =>
          simp only [given, Option.bind_some, Option.map_some, Option.some.injEq] at left
          exact left ▸ thinned_bare_of_field (given ▸ made.2) (inner rule part given)
    · have made := fields key
      rw [get?_bareMembers, held, Option.bind_some, MessagePlan.source?] at left
      rw [held] at made
      generalize plan.field? key = field at made left
      cases made with
      | some made =>
        simp only [Option.bind_some, Option.map_eq_none_iff] at left
        exact blank_of_absent (left ▸ made.2)
    · rw [get?_bareMembers, none]
      rfl

end EncoderPlans

end SigningSchema
