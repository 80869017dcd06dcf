import SigningSchema.Generation
import SigningSchema.Proofs.Encoder.Native
import SigningSchema.Proofs.Encoder.Output
import SigningSchema.Proofs.Registry.Rearrangement

-- The encoder and a native one write the same records. They differ in two things alone: the
-- encoder keeps the order of declaration, and it knows no fields that may be absent.

namespace SigningSchema

open Coercion Wire Standard

-- Which scalars of which messages are declared `optional`. The corpus does not keep this.
abbrev Marking := String → ResolvedField → Bool

def unmarked : Marking := fun _ _ => false

def momentStruct (seconds : Int64) (nanos : Int32) : Struct :=
  [(1, .implicit .int64 (.int64 seconds)), (2, .implicit .int32 (.int32 nanos))]

def momentOf : Value → Struct
  | .duration seconds nanos | .timestamp seconds nanos => momentStruct seconds nanos
  | _ => []

def scalarHeld (optional repeated : Bool) (kind : ScalarKind) (values : List Value) : Held :=
  if isMoment kind then .messages (values.map momentOf)
  else if repeated then .repeated kind values
  else if optional then .optional kind values.head?
  else .implicit kind (values.headD (.defaultFor kind))

namespace Corpus

-- The message that an input stands for, with its fields as they are declared.
def structOf (corpus : Corpus) (optional : Marking) (name : String) (input : Json) : Struct :=
  match corpus.resolvedFields name, input with
  | .ok fields, .object members =>
    fields.map fun field => (field.tag, match field.type with
      | .scalar kind =>
        scalarHeld (optional name field) field.repeated kind
          ((field.inputs members).map (scalarValue kind))
      | .message nested =>
        .messages ((field.inputs members).attach.map fun part =>
          structOf corpus optional nested part.1))
  | _, _ => []
termination_by sizeOf input
decreasing_by
  have smaller := sizeOf_lt_of_inputsOf part.2
  simp only [Json.object.sizeOf_spec]
  omega

def heldOf (corpus : Corpus) (optional : Marking) (name : String) (members : List (String × Json))
    (field : ResolvedField) : Held :=
  match field.type with
  | .scalar kind =>
    scalarHeld (optional name field) field.repeated kind ((field.inputs members).map (scalarValue kind))
  | .message nested => .messages ((field.inputs members).map (corpus.structOf optional nested))

theorem structOf_object {corpus : Corpus} {name : String} {fields : List ResolvedField}
    (resolved : corpus.resolvedFields name = .ok fields) (optional : Marking)
    (members : List (String × Json)) :
    corpus.structOf optional name (.object members)
      = fields.map fun field => (field.tag, corpus.heldOf optional name members field) := by
  unfold structOf
  rw [resolved]
  refine List.map_congr_left fun field _ => congrArg (Prod.mk field.tag) ?_
  rw [heldOf]
  cases type : field.type with
  | scalar kind => rfl
  | message nested =>
    simp only [attach_map_val]

end Corpus

namespace WireSchema

variable {schema : WireSchema} {field : WireField} {kind : ScalarKind}

theorem bytes_single_scalar (number : field.tag.toNat < numberLimit) (type : field.type = .scalar kind)
    (scalar : isMoment kind = false) (value : Value) :
    schema.bytes (.single field) value = scalarRecord field.tag kind value := by
  rw [bytes_scalar schema type, tag_eq number, code_eq, scalarBytes_eq scalar, scalarRecord]

theorem bytes_single_nested (number : field.tag.toNat < numberLimit) {inner : Nat}
    (type : field.type = .message inner) (value : Value) :
    schema.bytes (.single field) value
      = bodyRecord field.tag (schema.bytes (.message inner) value) := by
  rw [bytes_nested schema type, tag_eq number, lengthDelimited_eq, bodyRecord]
  rfl

theorem momentBody_eq (seconds : Int64) (nanos : Int32) :
    momentBody seconds nanos = (momentStruct seconds nanos).bytes := by
  have first : tag 1 .varint ++ signedVarint seconds = scalarRecord 1 .int64 (.int64 seconds) := by
    rw [tag_eq (by decide), signedVarint_eq]
    rfl
  have second : tag 2 .varint ++ signedVarint32 nanos = scalarRecord 2 .int32 (.int32 nanos) := by
    rw [tag_eq (by decide), signedVarint32_eq]
    rfl
  rw [Struct.bytes_eq, momentBody, first, second]
  simp [momentStruct, Held.bytes, isZero]

theorem bytes_single_moment (number : field.tag.toNat < numberLimit) (type : field.type = .scalar kind)
    (moment : isMoment kind = true) {value : Value} (fits : value.ofKind kind = true) :
    schema.bytes (.single field) value = bodyRecord field.tag (momentOf value).bytes := by
  have body : scalarBytes kind value = delimited (momentOf value).bytes := by
    cases kind <;> cases moment <;> cases value <;> cases fits <;>
      rw [momentOf, ← momentBody_eq, ← lengthDelimited_eq] <;> rfl
  have layout : code kind = 2 := by cases kind <;> cases moment <;> rfl
  rw [bytes_scalar schema type, tag_eq number, code_eq, layout, body, bodyRecord]

theorem isPackable_eq (kind : ScalarKind) : kind.isPackable = decide (code kind ≠ 2) := by
  cases kind <;> rfl

-- A scalar is left off where it is zero, whether or not it was declared `optional`.
theorem bytes_field_scalar (number : field.tag.toNat < numberLimit) (type : field.type = .scalar kind)
    (scalar : isMoment kind = false) {value : Value} (fits : value.ofKind kind = true) :
    schema.bytes (.field field) value
      = (Held.implicit kind value).bytes Struct.bytes field.tag := by
  have single : schema.Conforms (.single field) value := .scalar type fits
  have omits : omitsZero field.type = true := by
    rw [type]
    cases kind <;> cases scalar <;> rfl
  rw [bytes_singular schema single.single_cases, omits, Bool.true_and, isWireDefault_eq fits,
    bytes_single_scalar number type scalar, Held.bytes]

theorem bytes_field_moment (type : field.type = .scalar kind) (moment : isMoment kind = true)
    {value : Value} (fits : value.ofKind kind = true) :
    schema.bytes (.field field) value = schema.bytes (.single field) value := by
  have single : schema.Conforms (.single field) value := .scalar type fits
  have keeps : omitsZero field.type = false := by
    rw [type]
    cases kind <;> cases moment <;> rfl
  rw [bytes_singular schema single.single_cases, keeps, Bool.false_and, if_neg Bool.false_ne_true]

theorem bytes_repeated (number : field.tag.toNat < numberLimit) (type : field.type = .scalar kind)
    (scalar : isMoment kind = false) (values : List Value) :
    schema.bytes (.field field) (.array values)
      = (Held.repeated kind values).bytes Struct.bytes field.tag := by
  have packed : isPacked field = decide (code kind ≠ 2) := by
    simp only [isPacked, type, isPackable_eq]
  rw [Held.bytes]
  split
  · rename_i separate
    rw [bytes_list schema values (by simp [packed, separate])]
    exact List.flatMap_congr fun value _ => bytes_single_scalar number type scalar value
  · rename_i run
    split
    · rename_i empty
      rw [empty, bytes_empty]
    · rename_i given
      have payloads : runBytes field values = values.flatMap (payload kind) := by
        simp only [runBytes, type]
        exact List.flatMap_congr fun value _ => scalarBytes_eq scalar value
      rw [bytes_packed schema (by simp [packed, run]) given, tag_eq number, lengthDelimited_eq,
        payloads, bodyRecord]
      rfl

theorem bytes_scalarHeld (number : field.tag.toNat < numberLimit) (type : field.type = .scalar kind)
    {values : List Value} (fit : ∀ value ∈ values, value.ofKind kind = true)
    (few : field.repeated = false → values.length ≤ 1) :
    schema.bytes (.field field)
        (if field.repeated then .array values else values.headD (.defaultFor kind))
      = (scalarHeld false field.repeated kind values).bytes Struct.bytes field.tag := by
  rw [scalarHeld]
  cases moment : isMoment kind with
  | true =>
    have layout : kind.isPackable = false := by cases kind <;> cases moment <;> rfl
    have each : ∀ value ∈ values, schema.bytes (.single field) value
        = bodyRecord field.tag (momentOf value).bytes :=
      fun value member => bytes_single_moment number type moment (fit value member)
    rw [if_pos rfl, Held.bytes, List.flatMap_map, ← List.flatMap_congr each]
    cases repeated : field.repeated with
    | true => rw [if_pos rfl, bytes_list schema values (by simp only [isPacked, type, layout])]
    | false =>
      rw [if_neg Bool.false_ne_true]
      rcases values with _ | ⟨value, _ | ⟨second, more⟩⟩
      · have unset : Value.defaultFor kind = .null := by cases kind <;> cases moment <;> rfl
        rw [List.headD_nil, unset, bytes_null, List.flatMap_nil]
      · rw [List.headD_cons, bytes_field_moment type moment (fit value List.mem_cons_self),
          List.flatMap_singleton]
      · exact absurd (few repeated) (by simp)
  | false =>
    rw [if_neg Bool.false_ne_true]
    cases repeated : field.repeated with
    | true =>
      rw [if_pos rfl, if_pos rfl]
      exact bytes_repeated number type moment values
    | false =>
      rw [if_neg Bool.false_ne_true, if_neg Bool.false_ne_true, if_neg Bool.false_ne_true]
      refine bytes_field_scalar number type moment ?_
      cases values with
      | nil => cases kind <;> cases moment <;> rfl
      | cons value _ => exact fit value List.mem_cons_self

-- Messages, once their own bytes are known.
theorem bytes_messages (number : field.tag.toNat < numberLimit) {inner : Nat}
    (type : field.type = .message inner) {parts : List Json} {value : Json → Value}
    {struct : Json → Struct}
    (each : ∀ part ∈ parts, schema.Conforms (.message inner) (value part) ∧
      schema.bytes (.message inner) (value part) = (struct part).bytes)
    (few : field.repeated = false → parts.length ≤ 1) :
    schema.bytes (.field field)
        (if field.repeated then .array (parts.map value) else (parts.map value).headD .null)
      = (Held.messages (parts.map struct)).bytes Struct.bytes field.tag := by
  have record : ∀ part ∈ parts, schema.bytes (.single field) (value part)
      = bodyRecord field.tag (struct part).bytes := by
    intro part member
    rw [bytes_single_nested number type, (each part member).2]
  rw [Held.bytes, List.flatMap_map, ← List.flatMap_congr record]
  cases repeated : field.repeated with
  | true => rw [if_pos rfl, bytes_list schema _ (by simp only [isPacked, type]), List.flatMap_map]
  | false =>
    rw [if_neg Bool.false_ne_true]
    rcases parts with _ | ⟨part, _ | ⟨second, more⟩⟩
    · rw [List.map_nil, List.headD_nil, bytes_null, List.flatMap_nil]
    · have single : schema.Conforms (.single field) (value part) :=
        .message type (each part List.mem_cons_self).1
      have keeps : omitsZero field.type = false := by rw [type]; rfl
      rw [List.map_cons, List.headD_cons, bytes_singular schema single.single_cases, keeps,
        Bool.false_and, if_neg Bool.false_ne_true, List.flatMap_singleton]
    · exact absurd (few repeated) (by simp)

end WireSchema

namespace EncoderPlans

variable {corpus : Corpus} {config : Config} {plans : EncoderPlans} {name : String}

def TagsFit (plans : EncoderPlans) : Prop :=
  ∀ name plan, plans.plan? name = some plan → ∀ rule ∈ plan.fields, rule.tag.toNat < numberLimit

theorem inputs_few (field : ResolvedField) (members : List (String × Json))
    (singular : field.repeated = false) : (field.inputs members).length ≤ 1 := by
  unfold ResolvedField.inputs inputsOf
  rw [singular]
  split <;> simp_all

theorem bytes_mapField (laid : plans.LaidOut) (distinct : plans.DistinctNames)
    (follows : plans.Follows corpus) {path : FieldPath} {members : List (String × Json)}
    {rule : FieldRule} {field : WireField} {value : Value}
    (made : wireField plans.messages rule = .ok field) (number : rule.tag.toNat < numberLimit)
    (mapped : plans.mapField path members rule = .ok value)
    (inner : ∀ part ∈ rule.resolved.inputs members, ∀ nested path value index,
      plans.mapAt nested path part = .ok value → plans.position? nested = some index →
      plans.schema.bytes (.message index) value = (corpus.structOf unmarked nested part).bytes) :
    plans.schema.bytes (.field field) value
      = (corpus.heldOf unmarked name members rule.resolved).bytes Struct.bytes rule.tag := by
  have agrees := matches_of_wireField made
  have tag := tag_of_wireField made
  rw [← tag] at number ⊢
  obtain ⟨values, maps, rfl⟩ := mapField_ok mapped
  have meant : values = (rule.resolved.inputs members).map (corpus.partOf rule.type) :=
    values_of_maps (fun _ _ _ _ => mapPart_partOf follows) maps
  have few : field.repeated = false → (rule.resolved.inputs members).length ≤ 1 := by
    rw [agrees.repeated]
    exact inputs_few rule.resolved members
  have held : rule.resolved.hold values
      = if field.repeated then .array values else values.headD rule.resolved.blank := by
    rw [agrees.repeated]
    rfl
  rw [held, Corpus.heldOf]
  cases type : rule.type with
  | scalar kind =>
    have fit : ∀ value ∈ values, value.ofKind kind = true := by
      intro value member
      obtain ⟨part, _, path, coerced⟩ := exists_of_forall₂ maps.flip member
      rw [type] at coerced
      exact scalar_ofKind coerced
    have blank : rule.resolved.blank = .defaultFor kind := by
      rw [ResolvedField.blank, FieldRule.resolved, type]
    have resolved : rule.resolved.type = .scalar kind := type
    rw [type] at meant
    rw [blank, WireSchema.bytes_scalarHeld number (agrees.scalar kind type) fit
      (by rwa [← maps.length_eq]), meant, resolved, agrees.repeated]
    rfl
  | message nested =>
    obtain ⟨index, found, refers⟩ := agrees.message nested type
    have blank : rule.resolved.blank = .null := by
      rw [ResolvedField.blank, FieldRule.resolved, type]
    have resolved : rule.resolved.type = .message nested := type
    rw [type] at meant maps
    rw [blank, resolved, meant]
    refine WireSchema.bytes_messages number refers (fun part member => ?_) few
    obtain ⟨value, _, path, coerced⟩ := exists_of_forall₂ maps member
    have typed := mapAt_typed distinct _ nested path part value (Nat.lt_succ_self _) coerced
    have same : value = corpus.partOf (.message nested) part := mapPart_partOf follows coerced
    rw [← same]
    exact ⟨fits_of_typed laid typed index found, inner part member nested path value index coerced found⟩

-- The bytes of an input are the records of its message in the order of declaration.
theorem bytes_mapAt (laid : plans.LaidOut) (distinct : plans.DistinctNames)
    (fits : plans.TagsFit) (follows : plans.Follows corpus) (size : Nat) :
    ∀ name path input value index, sizeOf input < size → plans.mapAt name path input = .ok value →
      plans.position? name = some index →
      plans.schema.bytes (.message index) value = (corpus.structOf unmarked name input).bytes := by
  induction size with
  | zero => exact fun _ _ _ _ _ impossible => absurd impossible (Nat.not_lt_zero _)
  | succ size ih =>
    intro name path input value index below mapped found
    obtain ⟨plan, members, pairs, planned, rfl, ran, rfl⟩ := mapAt_ok mapped
    rw [Json.object.sizeOf_spec] at below
    obtain ⟨other, same, _, fields⟩ := laid.made_of_position found
    rw [planned] at same
    cases same
    have each := mapFields_ok ran
    have names : (pairs.map Prod.fst).Nodup := by
      rw [map_eq_of_forall₂ (each.flip.imp fun _ _ made => made.1)]
      exact distinct name plan planned
    have record : ∀ rule field, rule ∈ plan.fields ∧ wireField plans.messages rule = .ok field →
        (corpus.heldOf unmarked name members rule.resolved).bytes Struct.bytes rule.tag
          = plans.schema.memberBytes (Table.ofList pairs) field := by
      rintro rule field ⟨member, made⟩
      obtain ⟨⟨key, value⟩, inside, rfl, mapped⟩ := exists_of_forall₂ each member
      rw [← bytes_mapField laid distinct follows made (fits name plan planned rule member) mapped,
        WireSchema.memberBytes, (matches_of_wireField made).name, Table.get?_ofList names inside]
      intro part member nested path value index
      have smaller : sizeOf part < sizeOf members := sizeOf_lt_of_inputsOf member
      exact ih nested path part value index (by omega)
    rw [WireSchema.bytes_object, Corpus.structOf_object (follows name plan planned), Struct.bytes_eq,
      List.map_map, List.flatMap_map, List.flatMap_def, List.flatMap_def]
    exact congrArg List.flatten
      (map_eq_of_forall₂ ((forall₂_with_mem fields).imp fun rule field => record rule field)).symm

end EncoderPlans

-- A scalar that is declared `optional` and given as zero, at any depth: a native encoder writes it
-- nevertheless.
inductive Struct.HoldsZero : Struct → Prop where
  | here {number : UInt32} {kind : ScalarKind} {value : Value} {struct : Struct}
      (member : (number, .optional kind (some value)) ∈ struct) (zero : isZero kind value = true) :
      HoldsZero struct
  | nested {number : UInt32} {values : List Struct} {value struct : Struct}
      (member : (number, .messages values) ∈ struct) (inside : value ∈ values)
      (holds : HoldsZero value) : HoldsZero struct

namespace Corpus

variable {corpus : Corpus} {native : Struct → Bytes}

-- In every message that one reaches, fields are declared by ascending number.
def Ascends (corpus : Corpus) (name : String) : Prop :=
  ∀ message fields, corpus.Reaches name message → corpus.resolvedFields message = .ok fields →
    fields.Pairwise fun a b => a.tag < b.tag

theorem native_momentOf (writes : Struct.WritesAscending native) (value : Value) :
    native (momentOf value) = (momentOf value).bytes := by
  have parts : ∀ seconds nanos, native (momentStruct seconds nanos) = (momentStruct seconds nanos).bytes := by
    intro seconds nanos
    have ascending : (momentStruct seconds nanos).Pairwise fun a b => a.1 < b.1 :=
      .cons (by simp) (List.pairwise_singleton _ _)
    rw [writes _ _ (.refl _) ascending, Struct.bytes_eq]
    rfl
  unfold momentOf
  split
  · exact parts _ _
  · exact parts _ _
  · rw [writes [] [] (.refl _) .nil, Struct.bytes_eq]
    rfl

theorem native_scalarHeld (writes : Struct.WritesAscending native) {optional repeated : Bool}
    {kind : ScalarKind} {values : List Value} (number : UInt32)
    (given : ∀ value, scalarHeld optional repeated kind values = .optional kind (some value) →
      isZero kind value = false) :
    (scalarHeld optional repeated kind values).bytes native number
      = (scalarHeld false repeated kind values).bytes Struct.bytes number := by
  unfold scalarHeld at given ⊢
  cases moment : isMoment kind with
  | true =>
    rw [if_pos rfl, if_pos rfl, Held.bytes, Held.bytes, List.flatMap_map, List.flatMap_map]
    refine List.flatMap_congr fun value _ => ?_
    rw [native_momentOf writes]
  | false =>
    rw [if_neg Bool.false_ne_true, if_neg Bool.false_ne_true]
    cases repeated with
    | true => rfl
    | false =>
      cases optional with
      | false => rfl
      | true =>
        cases values with
        | nil =>
          have zero : isZero kind (.defaultFor kind) = true := by cases kind <;> cases moment <;> rfl
          simp [Held.bytes, zero]
        | cons value rest =>
          have written : isZero kind value = false := given value (by simp [moment])
          simp [Held.bytes, written]

theorem structOf_other {name : String} {input : Json} {optional : Marking}
    (other : ∀ fields members, corpus.resolvedFields name = .ok fields → input ≠ .object members) :
    corpus.structOf optional name input = [] := by
  unfold structOf
  split
  · rename_i fields members resolved
    exact absurd rfl (other fields members resolved)
  · rfl

-- Where numbers ascend and no `optional` scalar is given as zero, a native encoder writes the
-- records in the order of declaration, as if no field could be absent.
theorem native_structOf (writes : Struct.WritesAscending native) (optional : Marking) (size : Nat) :
    ∀ name input, sizeOf input < size → corpus.Ascends name →
      ¬ (corpus.structOf optional name input).HoldsZero →
      native (corpus.structOf optional name input) = (corpus.structOf unmarked name input).bytes := by
  induction size with
  | zero => exact fun _ _ impossible => absurd impossible (Nat.not_lt_zero _)
  | succ size ih =>
    intro name input below ascends given
    by_cases object : ∃ fields members, corpus.resolvedFields name = .ok fields ∧ input = .object members
    · obtain ⟨fields, members, resolved, rfl⟩ := object
      rw [structOf_object resolved] at given ⊢
      rw [Json.object.sizeOf_spec] at below
      have ascending := ascends name fields .refl resolved
      rw [structOf_object resolved, writes _ _ (.refl _) (List.pairwise_map.mpr ascending),
        Struct.bytes_eq, List.flatMap_map, List.flatMap_map]
      refine List.flatMap_congr fun field member => ?_
      have inside : (field.tag, corpus.heldOf optional name members field)
          ∈ fields.map fun field => (field.tag, corpus.heldOf optional name members field) :=
        List.mem_map_of_mem member
      show (corpus.heldOf optional name members field).bytes native field.tag
        = (corpus.heldOf unmarked name members field).bytes Struct.bytes field.tag
      cases type : field.type with
      | scalar kind =>
        have own : ∀ optional, corpus.heldOf optional name members field
            = scalarHeld (optional name field) field.repeated kind
                ((field.inputs members).map (scalarValue kind)) := by
          intro optional
          rw [heldOf, type]
        rw [own] at inside
        rw [own, own]
        refine native_scalarHeld writes field.tag fun value held => ?_
        cases zero : isZero kind value with
        | false => rfl
        | true => exact absurd (.here (held ▸ inside) zero) given
      | message nested =>
        have own : ∀ optional, corpus.heldOf optional name members field
            = .messages ((field.inputs members).map (corpus.structOf optional nested)) := by
          intro optional
          rw [heldOf, type]
        have refers : corpus.Refers name nested := ⟨fields, resolved, field, member, type⟩
        rw [own] at inside
        rw [own, own, Held.bytes, Held.bytes, List.flatMap_map, List.flatMap_map]
        refine List.flatMap_congr fun part among => ?_
        have smaller : sizeOf part < sizeOf members := sizeOf_lt_of_inputsOf among
        rw [ih nested part (by omega) (fun message others path => ascends message others (.head refers path))
          fun holds => given (.nested inside (List.mem_map_of_mem among) holds)]
    · have nothing : ∀ optional, corpus.structOf optional name input = [] := fun optional =>
        structOf_other fun fields members resolved same => object ⟨fields, members, resolved, same⟩
      rw [nothing, nothing, writes [] [] (.refl _) .nil, Struct.bytes_eq]
      rfl

end Corpus

end SigningSchema
