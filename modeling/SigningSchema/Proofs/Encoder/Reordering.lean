import SigningSchema.Proofs.Encoder.Agreement

-- The order in which fields are declared moves the records of a message and does nothing else:
-- the same inputs are written, and their bytes are the same up to order.

namespace SigningSchema

open Coercion Wire Standard

namespace Corpus

structure Reordered (first second : Corpus) : Prop where
  rearranged : first.Rearranged second
  fields : ∀ name message other, first.messages.get? name = some message →
    second.messages.get? name = some other → message.fields.Perm other.fields

variable {first second : Corpus}

theorem Reordered.symm (same : Reordered first second) : Reordered second first where
  rearranged := same.rearranged.symm
  fields name message other found foundToo := (same.fields name other message foundToo found).symm

theorem Reordered.resolveField (same : Reordered first second) {message other : MessageDecl}
    (rearranged : message.Rearranged other) : first.resolveField message = second.resolveField other := by
  funext field
  rw [Corpus.resolveField, Corpus.resolveField, same.rearranged.resolve?, rearranged.package,
    MessageDecl.fullName, MessageDecl.fullName, rearranged.package, rearranged.name]

theorem Reordered.resolvedFields (same : Reordered first second) {name : String}
    {fields : List ResolvedField} (resolved : first.resolvedFields name = .ok fields) :
    ∃ others, second.resolvedFields name = .ok others ∧ fields.Perm others := by
  unfold Corpus.resolvedFields Corpus.message at resolved ⊢
  cases found : first.messages.get? name with
  | none =>
    rw [found] at resolved
    cases resolved
  | some message =>
    obtain ⟨other, foundToo, rearranged⟩ := same.rearranged.get? found
    rw [found] at resolved
    rw [foundToo]
    dsimp only at resolved ⊢
    rw [same.resolveField rearranged] at resolved
    exact mapM_perm (same.fields name message other found foundToo) resolved

end Corpus

theorem bodyRecord_perm {number : UInt32} {body other : Bytes} (perm : body.Perm other) :
    (bodyRecord number body).Perm (bodyRecord number other) := by
  rw [bodyRecord, bodyRecord, delimited, delimited, perm.length_eq]
  exact (perm.append_left _).append_left _

namespace Corpus

variable {first second : Corpus}

theorem heldOf_perm {name : String} {members : List (String × Json)} {field : ResolvedField}
    (inner : ∀ part ∈ field.inputs members, ∀ nested,
      (first.structOf unmarked nested part).bytes.Perm (second.structOf unmarked nested part).bytes) :
    ((first.heldOf unmarked name members field).bytes Struct.bytes field.tag).Perm
      ((second.heldOf unmarked name members field).bytes Struct.bytes field.tag) := by
  unfold heldOf
  cases field.type with
  | scalar kind => exact .refl _
  | message nested =>
    simp only [Held.bytes, List.flatMap_map]
    exact List.Perm.flatMap_left _ fun part member => bodyRecord_perm (inner part member nested)

theorem Reordered.bytes_structOf (same : Reordered first second) (size : Nat) :
    ∀ input name, sizeOf input < size →
      (first.structOf unmarked name input).bytes.Perm (second.structOf unmarked name input).bytes := by
  induction size with
  | zero => exact fun _ _ impossible => absurd impossible (Nat.not_lt_zero _)
  | succ size ih =>
    intro input name below
    by_cases object : ∃ fields members, first.resolvedFields name = .ok fields ∧ input = .object members
    · obtain ⟨fields, members, resolved, rfl⟩ := object
      obtain ⟨others, resolvedToo, perm⟩ := same.resolvedFields resolved
      rw [Json.object.sizeOf_spec] at below
      rw [structOf_object resolved, structOf_object resolvedToo, Struct.bytes_eq, Struct.bytes_eq,
        List.flatMap_map, List.flatMap_map]
      refine perm.flatMap fun field _ => heldOf_perm fun part inside nested => ih part nested ?_
      have smaller : sizeOf part < sizeOf members := sizeOf_lt_of_inputsOf inside
      omega
    · have nothing : first.structOf unmarked name input = [] :=
        structOf_other fun fields members resolved equal => object ⟨fields, members, resolved, equal⟩
      have nothingToo : second.structOf unmarked name input = [] := by
        refine structOf_other fun fields members resolved equal => ?_
        obtain ⟨others, resolvedToo, _⟩ := same.symm.resolvedFields resolved
        exact object ⟨others, members, resolvedToo, equal⟩
      rw [nothing, nothingToo]

end Corpus

theorem inTurn_transfer {item itemToo : Nat → α → Except ε β} {inputs : List α}
    (transfer : ∀ input ∈ inputs, ∀ position value, item position input = .ok value →
      ∃ value, itemToo position input = .ok value) (position : Nat) {values : List β}
    (ran : inTurn item position inputs = .ok values) :
    ∃ values, inTurn itemToo position inputs = .ok values := by
  induction inputs generalizing position values with
  | nil => exact ⟨[], rfl⟩
  | cons input rest ih =>
    rw [inTurn] at ran ⊢
    cases first : item position input with
    | error error =>
      rw [first] at ran
      cases ran
    | ok value =>
      rw [first] at ran
      obtain ⟨others, later, _⟩ := map_ok ran
      obtain ⟨value, firstToo⟩ := transfer input List.mem_cons_self _ value first
      obtain ⟨others, laterToo⟩ :=
        ih (fun other member => transfer other (List.mem_cons_of_mem _ member)) (position + 1) later
      exact ⟨value :: others, by rw [firstToo, laterToo]; rfl⟩

namespace EncoderPlans

variable {plans others : EncoderPlans} {path : FieldPath} {members : List (String × Json)}

theorem coerceField_transfer {rule : FieldRule} {given : Option Json} {value : Value}
    (transfer : ∀ part ∈ inputsOf rule.repeated given, ∀ path value,
      plans.mapPart rule.type path part = .ok value →
        ∃ value, others.mapPart rule.type path part = .ok value)
    (mapped : plans.coerceField path rule given = .ok value) :
    ∃ value, others.coerceField path rule given = .ok value := by
  cases given with
  | none => exact ⟨value, by rw [coerceField_none] at mapped ⊢; exact mapped⟩
  | some part =>
    cases several : rule.repeated with
    | false =>
      rw [several] at transfer
      rw [coerceField_single several] at mapped ⊢
      exact transfer part (List.mem_singleton.mpr rfl) path value mapped
    | true =>
      rw [several] at transfer
      cases part with
      | array items =>
        rw [coerceField_array several] at mapped ⊢
        obtain ⟨values, ran, _⟩ := map_ok mapped
        obtain ⟨values, ranToo⟩ :=
          inTurn_transfer (fun item inside position value => transfer item inside _ value) 0 ran
        exact ⟨.array values, congrArg (Except.map Value.array) ranToo⟩
      | _ =>
        rw [coerceField_unlike several (fun _ => Json.noConfusion)] at mapped
        cases mapped

theorem mapField_transfer {rule : FieldRule} {value : Value}
    (transfer : ∀ part ∈ rule.resolved.inputs members, ∀ nested path value,
      plans.mapAt nested path part = .ok value → ∃ value, others.mapAt nested path part = .ok value)
    (mapped : plans.mapField path members rule = .ok value) :
    ∃ value, others.mapField path members rule = .ok value := by
  rw [mapField_eq_coerceField] at mapped ⊢
  refine coerceField_transfer (fun part inside path value made => ?_) mapped
  cases type : rule.type with
  | scalar kind =>
    rw [type] at made
    exact ⟨value, made⟩
  | message nested =>
    rw [type] at made
    exact transfer part inside nested path value made

-- The plans of messages that have fields in another order.
theorem mapAt_transfer
    (perm : ∀ name plan, plans.plan? name = some plan →
      ∃ other, others.plan? name = some other ∧ plan.fields.Perm other.fields) (size : Nat) :
    ∀ input name path value, sizeOf input < size → plans.mapAt name path input = .ok value →
      ∃ value, others.mapAt name path input = .ok value := by
  induction size with
  | zero => exact fun _ _ _ _ impossible => absurd impossible (Nat.not_lt_zero _)
  | succ size ih =>
    intro input name path value below mapped
    obtain ⟨plan, members, pairs, planned, rfl, ran, rfl⟩ := mapAt_ok mapped
    obtain ⟨other, plannedToo, perm⟩ := perm name plan planned
    rw [Json.object.sizeOf_spec] at below
    have each : ∀ rule ∈ other.fields, ∃ value, others.mapField path members rule = .ok value := by
      intro rule member
      obtain ⟨pair, _, _, mapped⟩ := exists_of_forall₂ (mapFields_ok ran) (perm.symm.subset member)
      refine mapField_transfer (fun part inside nested path value => ih part nested path value ?_) mapped
      have smaller : sizeOf part < sizeOf members := sizeOf_lt_of_inputsOf inside
      omega
    obtain ⟨pairs, ranToo⟩ := mapFields_of_each each
    exact ⟨.object (Table.ofList pairs), by rw [mapAt_object plannedToo, ranToo]; rfl⟩

end EncoderPlans

end SigningSchema
