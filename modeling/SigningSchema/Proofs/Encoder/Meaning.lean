import SigningSchema.Proofs.Coercion.Paths
import SigningSchema.Proofs.Encoder.Fields
import SigningSchema.Proofs.Encoder.Layout

-- What an input stands for, said without the plans: every field of a message holds what its own
-- input is coerced to, or nothing of its own where the input leaves it out.

namespace SigningSchema

open Coercion

namespace Corpus

def valueOf (corpus : Corpus) (name : String) (input : Json) : Value :=
  match corpus.resolvedFields name, input with
  | .ok fields, .object members =>
    .object (Table.ofList (fields.map fun field =>
      (field.camelName, field.hold (match field.type with
        | .scalar kind => (field.inputs members).map (scalarValue kind)
        | .message nested => (field.inputs members).attach.map fun part => valueOf corpus nested part.1))))
  | _, _ => .null
termination_by sizeOf input
decreasing_by
  have smaller := sizeOf_lt_of_inputsOf part.2
  simp only [Json.object.sizeOf_spec]
  omega

-- The value of one input of a field.
def partOf (corpus : Corpus) (type : TypeClass) (input : Json) : Value :=
  match type with
  | .scalar kind => scalarValue kind input
  | .message nested => corpus.valueOf nested input

def memberOf (corpus : Corpus) (members : List (String × Json)) (field : ResolvedField) : Value :=
  field.hold ((field.inputs members).map (corpus.partOf field.type))

theorem valueOf_object {corpus : Corpus} {name : String} {fields : List ResolvedField}
    (resolved : corpus.resolvedFields name = .ok fields) (members : List (String × Json)) :
    corpus.valueOf name (.object members)
      = .object (Table.ofList (fields.map fun field =>
          (field.camelName, corpus.memberOf members field))) := by
  unfold valueOf
  rw [resolved]
  refine congrArg (fun pairs => Value.object (Table.ofList pairs)) (List.map_congr_left ?_)
  intro field _
  rw [memberOf]
  cases type : field.type with
  | scalar kind => rfl
  | message nested =>
    simp only [attach_map_val]
    rfl

end Corpus

namespace EncoderPlans

variable {corpus : Corpus} {config : Config} {plans : EncoderPlans} {path : FieldPath}

-- The plans of a corpus are about its own fields.
def Follows (plans : EncoderPlans) (corpus : Corpus) : Prop :=
  ∀ name plan, plans.plan? name = some plan →
    corpus.resolvedFields name = .ok (plan.fields.map FieldRule.resolved)

theorem follows_of_ofCorpus (planned : ofCorpus corpus config = .ok plans) : plans.Follows corpus := by
  intro name plan found
  obtain ⟨_, _, more⟩ := bind_ok (planOf_of_plan planned found).2
  obtain ⟨fields, resolved, last⟩ := bind_ok more
  cases last
  rw [List.map_map, resolved]
  exact congrArg Except.ok (List.map_id _).symm

theorem values_of_maps {type : TypeClass} {parts : List Json} {values : List Value}
    (each : ∀ part ∈ parts, ∀ path value, plans.mapPart type path part = .ok value →
      value = corpus.partOf type part)
    (maps : plans.Maps type parts values) : values = parts.map (corpus.partOf type) := by
  induction maps with
  | nil => rfl
  | cons first _ ih =>
    obtain ⟨path, mapped⟩ := first
    rw [List.map_cons, ← each _ List.mem_cons_self path _ mapped,
      ← ih fun part inside => each part (List.mem_cons_of_mem _ inside)]

-- What a plan makes of an input is what the input stands for.
theorem mapAt_valueOf (follows : plans.Follows corpus) (size : Nat) :
    ∀ name path input value, sizeOf input < size → plans.mapAt name path input = .ok value →
      value = corpus.valueOf name input := by
  induction size with
  | zero => exact fun _ _ _ _ impossible => absurd impossible (Nat.not_lt_zero _)
  | succ size ih =>
    intro name path input value below mapped
    obtain ⟨plan, members, pairs, planned, rfl, ran, rfl⟩ := mapAt_ok mapped
    rw [Json.object.sizeOf_spec] at below
    rw [Corpus.valueOf_object (follows name plan planned), List.map_map]
    refine congrArg (fun pairs => Value.object (Table.ofList pairs)) ?_
    have same : ∀ rule : FieldRule, ∀ pair : String × Value, pair.1 = rule.camelName ∧
        plans.mapField path members rule = .ok pair.2 →
        id pair = (rule.camelName, corpus.memberOf members rule.resolved) := by
      rintro rule ⟨name, value⟩ ⟨rfl, mapped⟩
      obtain ⟨values, maps, rfl⟩ := mapField_ok mapped
      refine congrArg (fun values => (rule.camelName, rule.resolved.hold values)) ?_
      refine values_of_maps (fun part inside path value mapped => ?_) maps
      cases type : rule.resolved.type with
      | scalar kind =>
        rw [type] at mapped
        exact (scalarValue_of_ok mapped).symm
      | message nested =>
        rw [type] at mapped
        have smaller : sizeOf part < sizeOf members := sizeOf_lt_of_inputsOf inside
        exact ih nested path part value (by omega) mapped
    have each := (mapFields_ok ran).flip.imp fun pair rule made => same rule pair made
    rw [← List.map_id pairs]
    exact map_eq_of_forall₂ each

theorem mapPart_partOf (follows : plans.Follows corpus) {type : TypeClass} {part : Json} {value : Value}
    (mapped : plans.mapPart type path part = .ok value) : value = corpus.partOf type part := by
  cases type with
  | scalar kind => exact (scalarValue_of_ok mapped).symm
  | message nested => exact mapAt_valueOf follows _ nested path part value (Nat.lt_succ_self _) mapped

end EncoderPlans

end SigningSchema
