import SigningSchema.Proofs.Corpus.Agreement
import SigningSchema.Proofs.Encoder.Payload
import SigningSchema.Proofs.Encoder.Planning
import SigningSchema.Proofs.Wire.Relocation

-- Encoders that have the plans of some messages in common, and with each message those that it refers
-- to. Inputs of these messages are encoded alike, wherever their types stand on the wire.

namespace SigningSchema

open Coercion

namespace EncoderPlans

variable {first second : EncoderPlans} {Within : String → Prop} {name : String} {path : FieldPath}

structure Share (first second : EncoderPlans) (Within : String → Prop) : Prop where
  plan : ∀ name, Within name → ∃ plan, first.plan? name = some plan ∧ second.plan? name = some plan
  closed : ∀ name plan, Within name → first.plan? name = some plan → ∀ rule ∈ plan.fields,
    ∀ nested, rule.type = .message nested → Within nested

theorem mapField_congr {members : List (String × Json)} {rule : FieldRule}
    (each : ∀ nested, rule.type = .message nested → ∀ part, sizeOf part < sizeOf members → ∀ path,
      first.mapAt nested path part = second.mapAt nested path part) :
    first.mapField path members rule = second.mapField path members rule := by
  unfold mapField
  cases type : rule.type with
  | scalar kind => cases rule.repeated <;> rfl
  | message nested =>
    cases rule.repeated with
    | false =>
      refine congrArg (messageField nested _ rule.policy _) ?_
      exact funext fun path => funext fun part => funext fun found =>
        each nested type part (sizeOf_lt_of_lookUp found) path
    | true =>
      refine congrArg (repeatedField nested _ rule.policy _) ?_
      exact funext fun path => funext fun part => funext fun inside =>
        each nested type part (sizeOf_lt_of_isElement inside) path

namespace Share

theorem mapAt (shared : Share first second Within) (input : Json) (within : Within name)
    (path : FieldPath) : first.mapAt name path input = second.mapAt name path input := by
  induction size : sizeOf input using Nat.strongRecOn generalizing input name path with
  | _ size ih =>
    subst size
    obtain ⟨plan, planned, plannedToo⟩ := shared.plan name within
    cases input with
    | object members =>
      rw [mapAt_object planned, mapAt_object plannedToo]
      refine congrArg (Except.map _) (mapFields_congr fun rule member => mapField_congr ?_)
      intro nested type part smaller path
      refine ih _ ?_ part (shared.closed name plan within planned rule member nested type) path rfl
      rw [Json.object.sizeOf_spec]
      omega
    | _ => rw [EncoderPlans.mapAt, EncoderPlans.mapAt, planned, plannedToo]

def Related (first second : EncoderPlans) (Within : String → Prop) (index position : Nat) : Prop :=
  ∃ name, Within name ∧ first.position? name = some index ∧ second.position? name = some position

theorem relocation (shared : Share first second Within) (laid : first.LaidOut)
    (laidToo : second.LaidOut) :
    WireSchema.Relocation first.schema second.schema (Related first second Within) where
  name := by
    rintro index position ⟨name, within, found, foundToo⟩
    obtain ⟨_, _, named, _⟩ := laid.made_of_position found
    obtain ⟨_, _, namedToo, _⟩ := laidToo.made_of_position foundToo
    rw [named, namedToo]
  fields := by
    rintro index position ⟨name, within, found, foundToo⟩
    obtain ⟨plan, planned, plannedToo⟩ := shared.plan name within
    obtain ⟨again, held, _, fields⟩ := laid.made_of_position found
    obtain ⟨other, heldToo, _, fieldsToo⟩ := laidToo.made_of_position foundToo
    obtain rfl := Option.some.inj (planned.symm.trans held)
    obtain rfl := Option.some.inj (plannedToo.symm.trans heldToo)
    -- Both fields are made of one rule.
    refine (forall₂_of_common fields fieldsToo).imp ?_
    rintro field other ⟨rule, member, made, madeToo⟩
    have one := matches_of_wireField made
    have two := matches_of_wireField madeToo
    refine ⟨one.name.trans two.name.symm, (tag_of_wireField made).trans (tag_of_wireField madeToo).symm,
      one.repeated.trans two.repeated.symm, ?_⟩
    cases type : rule.type with
    | scalar kind =>
      rw [one.scalar kind type, two.scalar kind type]
      exact .scalar kind
    | message nested =>
      obtain ⟨_, here, same⟩ := one.message nested type
      obtain ⟨_, there, sameToo⟩ := two.message nested type
      rw [same, sameToo]
      exact .message ⟨nested, shared.closed name plan within planned rule member nested type, here, there⟩

theorem encode (shared : Share first second Within) (laid : first.LaidOut) (laidToo : second.LaidOut)
    (within : Within name) (input : Json) : first.encode name input = second.encode name input := by
  obtain ⟨plan, planned, plannedToo⟩ := shared.plan name within
  obtain ⟨index, found⟩ := position_of_plan planned
  obtain ⟨position, foundToo⟩ := position_of_plan plannedToo
  rw [EncoderPlans.encode, EncoderPlans.encode, EncoderPlans.map, EncoderPlans.map,
    shared.mapAt input within]
  refine congrArg (second.mapAt name _ input >>= ·) (funext fun value => ?_)
  rw [WireSchema.encode, WireSchema.encode, laid.index?_of_position found,
    laidToo.index?_of_position foundToo]
  exact (shared.relocation laid laidToo).encodeMessage ⟨name, within, found, foundToo⟩ _ value

end Share

variable {corpus other : Corpus} {config : Config} {request : String}

theorem planOf_congr (same : corpus.messages.get? name = other.messages.get? name)
    (agree : corpus.resolvedFields name = other.resolvedFields name) :
    planOf corpus config name = planOf other config name := by
  rw [planOf, planOf, Corpus.message, Corpus.message, same, agree]

-- Where corpora declare the same below a payload message, their encoders share all of its plans.
theorem share_of_agreeBelow (planned : ofCorpus corpus config = .ok first)
    (plannedToo : ofCorpus other config = .ok second) (agree : Corpus.AgreeBelow corpus other request)
    (same : ∀ name, corpus.Reaches request name →
      corpus.messages.get? name = other.messages.get? name)
    (requested : request ∈ corpus.requestTypes) (requestedToo : request ∈ other.requestTypes) :
    Share first second (corpus.Reaches request) where
  plan name path := by
    obtain ⟨plan, found⟩ := plan_of_reachable planned ⟨request, requested, path⟩
    obtain ⟨again, foundToo⟩ :=
      plan_of_reachable plannedToo ⟨request, requestedToo, agree.reaches_iff.mp path⟩
    have made := (planOf_of_plan planned found).2
    rw [planOf_congr (same name path) (agree name path), (planOf_of_plan plannedToo foundToo).2] at made
    cases made
    exact ⟨plan, found, foundToo⟩
  closed name plan path found rule member nested type :=
    path.tail (refers_of_planOf (planOf_of_plan planned found).2 member type)

end EncoderPlans

end SigningSchema
