import SigningSchema.Proofs.Encoder.Payload
import SigningSchema.Proofs.Registry.Independence
import SigningSchema.Proofs.Wire.RoundTrip

-- What tells the fields of a message apart: the key of their records, the name their values are
-- kept under, and the names that are signed.

namespace SigningSchema

open Coercion Wire

namespace Wire

theorem base128_inj {m n : Nat} (same : base128 m = base128 n) : m = n := by
  have first := base128_roundtrip m []
  rw [same, base128_roundtrip] at first
  exact (Prod.mk.inj (Option.some.inj first)).1.symm

theorem WireType.code_inj {one other : WireType} (same : one.code.toNat = other.code.toNat) :
    one = other := by
  have first := one.code_roundtrip
  rw [same, other.code_roundtrip] at first
  exact (Option.some.inj first).symm

-- A key keeps the layout and what fits of the number.
theorem tag_eq_iff {first second : UInt32} {one other : WireType} :
    tag first one = tag second other ↔
      one = other ∧ first.toNat % numberLimit = second.toNat % numberLimit := by
  have small := one.code_lt
  have smallToo := other.code_lt
  constructor
  · intro same
    have words := base128_inj same
    rw [UInt32.toNat_toUInt64, UInt32.toNat_toUInt64, tag_toNat, tag_toNat] at words
    exact ⟨WireType.code_inj (by omega), by omega⟩
  · rintro ⟨rfl, numbers⟩
    rw [tag, tag, varint32, varint32, varint, varint, UInt32.toNat_toUInt64, UInt32.toNat_toUInt64,
      tag_toNat, tag_toNat, numbers]

-- The layout of the records of a field; a field without a kind holds messages.
def layoutOf (repeated : Bool) : Option ScalarKind → WireType
  | some kind => if repeated && kind.isPackable then .lengthDelimited else kind.wireType
  | none => .lengthDelimited

theorem layoutOf_single (kind : ScalarKind) : layoutOf false (some kind) = kind.wireType := rfl

theorem layoutOf_packed {kind : ScalarKind} (packable : kind.isPackable = true) :
    layoutOf true (some kind) = .lengthDelimited := by
  rw [layoutOf, packable]
  rfl

theorem layoutOf_separate {kind : ScalarKind} (separate : kind.isPackable = false) (repeated : Bool) :
    layoutOf repeated (some kind) = kind.wireType := by
  rw [layoutOf, separate, Bool.and_false]
  rfl

end Wire

namespace WireField

def layout (field : WireField) : WireType :=
  match field.type with
  | .scalar kind => layoutOf field.repeated (some kind)
  | .message _ => layoutOf field.repeated none

def key (field : WireField) : Bytes := Wire.tag field.tag field.layout

end WireField

namespace ResolvedField

def layout (field : ResolvedField) : WireType :=
  match field.type with
  | .scalar kind => layoutOf field.repeated (some kind)
  | .message _ => layoutOf field.repeated none

def key (field : ResolvedField) : Bytes := Wire.tag field.tag field.layout

theorem key_eq_iff {one other : ResolvedField} : one.key = other.key ↔
    one.layout = other.layout ∧ one.tag.toNat % numberLimit = other.tag.toNat % numberLimit :=
  tag_eq_iff

theorem keys_nodup {fields : List ResolvedField}
    (fits : ∀ field ∈ fields, field.tag.toNat < numberLimit)
    (distinct : (fields.map ResolvedField.tag).Nodup) : (fields.map ResolvedField.key).Nodup := by
  refine List.pairwise_map.mpr ((List.pairwise_map.mp distinct).imp_of_mem ?_)
  intro one other member memberToo differ same
  have numbers := (key_eq_iff.mp same).2
  rw [Nat.mod_eq_of_lt (fits one member), Nat.mod_eq_of_lt (fits other memberToo)] at numbers
  exact differ (UInt32.toNat_inj.mp numbers)

end ResolvedField

namespace WireSchema

variable {schema : WireSchema} {field : WireField} {value : Value}

theorem bytes_single_key (separate : field.repeated = true → isPacked field = false) (value : Value) :
    field.key <+: schema.bytes (.single field) value := by
  rw [WireField.key, WireField.layout]
  cases type : field.type with
  | message inner =>
    rw [bytes_nested schema type]
    exact List.prefix_append _ _
  | scalar kind =>
    have layout : layoutOf field.repeated (some kind) = kind.wireType := by
      cases repeated : field.repeated with
      | false => exact layoutOf_single kind
      | true =>
        have packable := separate repeated
        simp only [isPacked, type] at packable
        exact layoutOf_separate packable true
    simp only [layout]
    rw [bytes_scalar schema type]
    exact List.prefix_append _ _

-- Whatever is written of a field begins with its key.
theorem bytes_field_key (conforms : schema.Conforms (.field field) value) :
    schema.bytes (.field field) value = [] ∨ field.key <+: schema.bytes (.field field) value := by
  cases conforms with
  | unset => exact .inl (bytes_null schema field)
  | singular singular fits =>
    rw [bytes_singular schema fits.single_cases]
    split
    · exact .inl rfl
    · exact .inr (bytes_single_key (fun repeated => absurd (singular.symm.trans repeated) (by decide)) value)
  | @list _ items repeated fit =>
    cases items with
    | nil => exact .inl (bytes_empty schema field)
    | cons first rest =>
      refine .inr ?_
      cases packed : isPacked field with
      | false =>
        rw [bytes_list schema _ packed, List.flatMap_cons]
        exact (bytes_single_key (fun _ => packed) first).trans (List.prefix_append _ _)
      | true =>
        rw [bytes_packed schema packed (List.cons_ne_nil _ _), WireField.key, WireField.layout]
        cases type : field.type with
        | message inner => exact List.prefix_append _ _
        | scalar kind =>
          simp only [isPacked, type] at packed
          simp only [repeated, layoutOf_packed packed]
          exact List.prefix_append _ _

end WireSchema

namespace EncoderPlans

variable {corpus : Corpus} {config : Config} {plans : EncoderPlans} {message : String}

theorem key_of_wireField {rule : FieldRule} {field : WireField}
    (made : wireField plans.messages rule = .ok field) : field.key = rule.resolved.key := by
  have fits := matches_of_wireField made
  have layout : field.layout = rule.resolved.layout := by
    rw [WireField.layout, ResolvedField.layout, fits.repeated]
    cases type : rule.type with
    | scalar kind => simp only [fits.scalar kind type, FieldRule.resolved, type]
    | message nested =>
      obtain ⟨index, _, refers⟩ := fits.message nested type
      simp only [refers, FieldRule.resolved, type]
  rw [WireField.key, ResolvedField.key, layout, tag_of_wireField made]
  rfl

-- The fields of a reachable message stand in the schema one for one, under their camel names and
-- with their keys.
theorem fields_of_reachable (planned : ofCorpus corpus config = .ok plans)
    (reached : corpus.Reachable message) {fields : List ResolvedField}
    (resolved : corpus.resolvedFields message = .ok fields) :
    ∃ index, plans.position? message = some index ∧
      List.Forall₂ (fun field made => made.name = field.camelName ∧ made.key = field.key)
        fields (plans.schema.typeAt index).fields := by
  obtain ⟨plan, found⟩ := plan_of_reachable planned reached
  obtain ⟨index, position⟩ := position_of_plan found
  obtain ⟨other, again, _, made⟩ := (laidOut_of_ofCorpus planned).made_of_position position
  rw [found] at again
  cases again
  have own := follows_of_ofCorpus planned message plan found
  rw [resolved] at own
  cases own
  refine ⟨index, position, List.forall₂_map_left_iff.mpr (made.imp fun rule field made => ?_)⟩
  exact ⟨(matches_of_wireField made).name, key_of_wireField made⟩

theorem wellFormed_of_ofCorpus (planned : ofCorpus corpus config = .ok plans)
    (distinct : corpus.DistinctMembers) (numbered : corpus.NumberedFields) :
    plans.schema.WellFormed := by
  have laid := laidOut_of_ofCorpus planned
  have tags : ∀ type ∈ plans.schema.types, ∃ fields : List ResolvedField,
      ((∀ field ∈ fields, IsFieldNumber field.tag.toNat) ∧ (fields.map ResolvedField.tag).Nodup) ∧
      fields.map ResolvedField.tag = type.fields.map WireField.tag := by
    intro type member
    obtain ⟨_, inside, _, fields⟩ := exists_of_forall₂ laid.types.flip member
    obtain ⟨⟨name, plan⟩, entry, rfl⟩ := List.mem_map.mp inside
    have found := Table.get?_of_mem laid.ascending entry
    refine ⟨_, numbered name _ (planOf_of_plan planned found).1
      (follows_of_ofCorpus planned name plan found), ?_⟩
    rw [List.map_map]
    exact map_eq_of_forall₂ (fields.imp fun _ _ made => (tag_of_wireField made).symm)
  refine ⟨laid.distinctNames (distinctNames_of_ofCorpus planned distinct), ?_, ?_,
    fun type member field declared index => laid.index_lt member declared⟩
  · intro type member
    obtain ⟨fields, ⟨_, distinct⟩, same⟩ := tags type member
    rwa [← same]
  · intro type member field declared
    obtain ⟨fields, ⟨valid, _⟩, same⟩ := tags type member
    have inside : field.tag ∈ fields.map ResolvedField.tag := same ▸ List.mem_map_of_mem declared
    obtain ⟨origin, among, tag⟩ := List.mem_map.mp inside
    exact tag ▸ valid origin among

-- A reader finds in the bytes of an input what every field holds by itself.
theorem read_of_encode (planned : ofCorpus corpus config = .ok plans)
    (distinct : corpus.DistinctMembers) (numbered : corpus.NumberedFields) {input : Json}
    {bytes : Bytes} (encoded : plans.encode message input = .ok bytes) :
    ∃ index, plans.position? message = some index ∧
      plans.schema.read index bytes = some (corpus.valueOf message input).plainZeros := by
  have laid := laidOut_of_ofCorpus planned
  have valid := wellFormed_of_ofCorpus planned distinct numbered
  obtain ⟨index, value, written⟩ :=
    written_of_encode laid (distinctNames_of_ofCorpus planned distinct) encoded
  have reads := WireSchema.reads_of_conforms valid written.conforms (laid.position_lt written.position)
  rw [written.full, mapAt_valueOf (follows_of_ofCorpus planned) _ _ _ _ _ (Nat.lt_succ_self _)
    written.mapped] at reads
  refine ⟨index, written.position, ?_⟩
  rw [written.bytes, mapAt_valueOf (follows_of_ofCorpus planned) _ _ _ _ _ (Nat.lt_succ_self _)
    written.mapped]
  exact reads

end EncoderPlans

namespace Corpus

variable {corpus : Corpus} {message : String} {shape : Shape}

-- The fields of a message as a list of the registry has them.
structure Lists (fields : List ResolvedField) (shape : Shape) : Prop where
  names : (shape.map SigningField.name).Perm (fields.map ResolvedField.camelName)
  descending : shape.Pairwise fun a b => b.name ≤ a.name

theorem SignsAs.lists (signs : corpus.SignsAs message shape) :
    ∃ fields, corpus.resolvedFields message = .ok fields ∧ Lists fields shape := by
  obtain ⟨fields, resolved, ordered⟩ := signs
  refine ⟨fields, resolved, ?_, ordered.descending⟩
  rw [ordered.unique (Shape.canonical_ordered _)]
  have perm := (List.mergeSort_perm (fields.map signingField) Shape.notBelow).map SigningField.name
  rwa [List.map_map] at perm

-- A list goes down strictly where no two fields have one camel name, and only there.
theorem Lists.strict_iff {fields : List ResolvedField} (lists : Lists fields shape) :
    (shape.Pairwise fun a b => b.name < a.name) ↔ (fields.map ResolvedField.camelName).Nodup := by
  rw [← lists.names.nodup_iff]
  constructor
  · intro strict
    exact List.pairwise_map.mpr (strict.imp fun below => ne_of_gt below)
  · intro distinct
    exact (lists.descending.and (List.pairwise_map.mp distinct)).imp
      fun both => lt_of_le_of_ne both.1 (Ne.symm both.2)

end Corpus

namespace Registry

variable {corpus : Corpus} {config : Config} {registry : Registry}

-- The lists of fields in an entry.
def Holds (entry : RegistryEntry) (shape : Shape) : Prop :=
  shape = entry.valueFields ∨ ∃ name, entry.nestedTypes.get? name = some shape

theorem lists_of_ofCorpus (derived : ofCorpus corpus config = .ok registry) {url : String}
    {entry : RegistryEntry} (found : registry.get? url = some entry) {shape : Shape}
    (holds : Holds entry shape) :
    ∃ message fields, corpus.Reachable message ∧ corpus.resolvedFields message = .ok fields ∧
      Corpus.Lists fields shape := by
  obtain ⟨entries, determined, rfl⟩ := ofCorpus_determined derived
  have inside : url ∈ entries.keys := by
    rw [← keys_applyOverrides config.typeOverrides]
    exact Table.mem_keys_iff.mpr ⟨entry, found⟩
  obtain ⟨request, requested, rfl⟩ := (determined.urls url).mp inside
  obtain ⟨plain, known, describes, _⟩ := determined.entry request requested
  obtain ⟨final, foundToo, values, nested, _⟩ := get?_applyOverrides config.typeOverrides known
  have same : some final = some entry := foundToo.symm.trans found
  cases same
  have under : corpus.Reachable request := ⟨request, requested, .refl⟩
  rcases holds with rfl | ⟨name, found⟩
  · obtain ⟨fields, resolved, lists⟩ := describes.shape.lists
    exact ⟨request, fields, under, resolved, values ▸ lists⟩
  · obtain ⟨target, below, signs⟩ := describes.traced name shape (nested ▸ found)
    obtain ⟨fields, resolved, lists⟩ := signs.lists
    exact ⟨target, fields, Corpus.reachable_of_below requested below, resolved, lists⟩

theorem entry_of_request (derived : ofCorpus corpus config = .ok registry) {request : String}
    (requested : request ∈ corpus.requestTypes) :
    ∃ entry, registry.get? (Package.typeUrl request) = some entry ∧
      ∃ fields, corpus.resolvedFields request = .ok fields ∧
        Corpus.Lists fields entry.valueFields := by
  obtain ⟨entry, found, describes⟩ := entry_of_ofCorpus derived request requested
  exact ⟨entry, found, describes.shape.lists⟩

end Registry

namespace Corpus

-- Each tag is given once in a message.
def DistinctTags (corpus : Corpus) : Prop :=
  ∀ message fields, corpus.Reachable message → corpus.resolvedFields message = .ok fields →
    (fields.map ResolvedField.tag).Nodup

end Corpus

namespace Sample

theorem distinctTags_ordered : ordered.DistinctTags := by
  intro message fields _ resolved
  obtain rfl := named_pay resolved
  cases resolved
  decide

theorem valueOf_ordered : ordered.valueOf "pay.v1.MsgPay" (given 1)
    = .object [("first", .uint32 1), ("second", .uint32 2)] := by
  rw [given, Corpus.valueOf_object rfl]
  rfl

-- Three fields: two with one camel name, and one whose tag is two more than a key can hold.
def snakeDecl : FieldDecl := ⟨"to_name", "uint32", false, 1⟩

def camelDecl : FieldDecl := ⟨"toName", "uint32", false, 2⟩

def farDecl : FieldDecl := ⟨"far", "uint32", false, 536870914⟩

def snakeField : ResolvedField := ⟨"to_name", "toName", .scalar .uint32, false, 1⟩

def camelField : ResolvedField := ⟨"toName", "toName", .scalar .uint32, false, 2⟩

def farField : ResolvedField := ⟨"far", "far", .scalar .uint32, false, 536870914⟩

def merged : Corpus := payCorpus [snakeDecl, camelDecl, farDecl]

def mergedText : String :=
  "package pay.v1;\nservice Msg \x7b rpc Pay(MsgPay) returns (MsgPay); \x7d\nmessage MsgPay \x7b "
    ++ "uint32 to_name = 1; uint32 toName = 2; uint32 far = 536870914; \x7d\n"

def mergedFile : SourceFile where
  path := "pay.proto"
  package := "pay.v1"
  messages := [⟨"pay.v1", "MsgPay", [snakeDecl, camelDecl, farDecl], "pay.proto", none⟩]
  enums := []
  requests := ["MsgPay"]

theorem read?_merged : SourceFile.read? .standard "pay.proto" mergedText = some mergedFile := by
  unfold SourceFile.read? mergedText
  rw [String.toList_append]
  repeat rw [String.toList_ofList]
  decide +kernel

theorem ofFiles_merged : Corpus.ofFiles [mergedFile] = merged := by
  rw [Corpus.ofFiles, List.mergeSort_singleton]
  rfl

def mergedInput : Json :=
  .object [("to_name", .number (.integer 5)), ("toName", .number (.integer 7)),
    ("far", .number (.integer 9))]

def numberField (name : String) (tag : UInt32) : WireField := ⟨name, tag, .scalar .uint32, false⟩

def mergedFields : List WireField :=
  [numberField "toName" 1, numberField "toName" 2, numberField "far" 536870914]

def ruleOf (field : ResolvedField) : FieldRule :=
  ⟨field.name, field.camelName, field.tag, field.type, field.repeated, .required⟩

def mergedPlans : EncoderPlans :=
  payPlans [ruleOf snakeField, ruleOf camelField, ruleOf farField] mergedFields

theorem ofCorpus_merged : EncoderPlans.ofCorpus merged .standard = .ok mergedPlans := by
  rw [EncoderPlans.ofCorpus, merged, fullClosure_pay rfl rfl]
  rfl

def mergedMembers : List (String × Value) := [("far", .uint32 9), ("toName", .uint32 7)]

def mergedValue : Value := .object mergedMembers

theorem mapAt_merged : mergedPlans.mapAt "pay.v1.MsgPay" (.root FieldPath.defaultLabel) mergedInput
    = .ok mergedValue := by
  rw [mergedInput, EncoderPlans.mapAt_object rfl]
  simp only [ruleOf, snakeField, camelField, farField, EncoderPlans.mapFields_cons,
    EncoderPlans.mapFields_nil]
  rfl

theorem bytes_number (schema : WireSchema) (name : String) {tag n : UInt32} (given : n ≠ 0) :
    schema.bytes (.field (numberField name tag)) (.uint32 n) = Wire.tag tag .varint ++ varint32 n := by
  have fits : schema.Conforms (.single (numberField name tag)) (.uint32 n) := .scalar rfl rfl
  have nonzero : (Value.uint32 n).isWireDefault = false := decide_eq_false given
  rw [WireSchema.bytes_singular schema fits.single_cases, nonzero, Bool.and_false,
    if_neg Bool.false_ne_true, WireSchema.bytes_scalar schema rfl]
  rfl

theorem bytes_small (schema : WireSchema) (name : String) {tag n : UInt32}
    (number : tag.toNat < 16) (given : n ≠ 0) (small : n.toNat < 128) :
    schema.bytes (.field (numberField name tag)) (.uint32 n)
      = [UInt8.ofNat (8 * tag.toNat), UInt8.ofNat n.toNat] := by
  have fits : tag.toNat < numberLimit := lt_trans number (by decide)
  rw [bytes_number schema name given, ← scalarRecord_small number small, scalarRecord,
    Standard.tag_eq fits, varint32, Standard.varint_eq, UInt32.toNat_toUInt64]
  rfl

-- The number that is too large is written like the other.
theorem bytes_far (schema : WireSchema) {n : UInt32} (given : n ≠ 0) :
    schema.bytes (.field (numberField "far" 536870914)) (.uint32 n)
      = schema.bytes (.field (numberField "toName" 2)) (.uint32 n) := by
  have keys : Wire.tag 536870914 .varint = Wire.tag 2 .varint := tag_eq_iff.mpr ⟨rfl, rfl⟩
  rw [bytes_number schema "far" given, bytes_number schema "toName" given, keys]

theorem conforms_merged : mergedPlans.schema.Conforms (.message 0) mergedValue := by
  have number : ∀ name tag n, mergedPlans.schema.Conforms (.field (numberField name tag)) (.uint32 n) :=
    fun _ _ _ => .singular rfl (.scalar rfl rfl)
  refine .object fun field member value found => ?_
  have cases : field ∈ mergedFields := member
  rw [mergedFields, List.mem_cons, List.mem_cons, List.mem_singleton] at cases
  rcases cases with rfl | rfl | rfl <;> cases found <;> exact number _ _ _

theorem bytes_merged : mergedPlans.schema.bytes (.message 0) mergedValue = [8, 7, 16, 7, 16, 9] := by
  have fields : (mergedPlans.schema.typeAt 0).fields = mergedFields := rfl
  have first : mergedPlans.schema.memberBytes mergedMembers (numberField "toName" 1) = [8, 7] :=
    bytes_small mergedPlans.schema "toName" (by decide) (by decide) (by decide)
  have second : mergedPlans.schema.memberBytes mergedMembers (numberField "toName" 2) = [16, 7] :=
    bytes_small mergedPlans.schema "toName" (by decide) (by decide) (by decide)
  have third : mergedPlans.schema.memberBytes mergedMembers (numberField "far" 536870914) = [16, 9] :=
    (bytes_far mergedPlans.schema (by decide)).trans
      (bytes_small mergedPlans.schema "toName" (by decide) (by decide) (by decide))
  rw [mergedValue, WireSchema.bytes_object, fields, mergedFields, List.flatMap_cons, List.flatMap_cons,
    List.flatMap_singleton, first, second, third]
  rfl

theorem encode_merged : mergedPlans.encodePayload "/pay.v1.MsgPay" mergedInput
    = .ok [8, 7, 16, 7, 16, 9] := by
  have full : mergedPlans.schema.fill 0 mergedValue = mergedValue := by
    rw [WireSchema.fill_eq]
    rfl
  have position : mergedPlans.schema.index? "pay.v1.MsgPay" = some 0 := rfl
  have encoded : mergedPlans.encode "pay.v1.MsgPay" mergedInput = .ok [8, 7, 16, 7, 16, 9] := by
    rw [EncoderPlans.encode, EncoderPlans.map, mapAt_merged, ← bytes_merged,
      ← WireSchema.encodeMessage_of_conforms conforms_merged (.root FieldPath.defaultLabel)]
    show mergedPlans.schema.encode "pay.v1.MsgPay" mergedValue = _
    simp only [WireSchema.encode, position, full]
  exact encoded

end Sample

namespace Generation

open Sample

variable {corpus : Corpus} {config : Config} {generation : Generation}

theorem registry_of_ofCorpus (accepted : ofCorpus corpus config = .ok generation) :
    Registry.ofCorpus corpus config = .ok generation.registry := by
  obtain ⟨_, _, rest⟩ := bind_ok accepted
  obtain ⟨registry, derived, rest⟩ := bind_ok rest
  obtain ⟨builders, _, rest⟩ := bind_ok rest
  obtain ⟨plans, _, last⟩ := bind_ok rest
  cases last
  exact derived

-- Two fields of a message have one key where their layouts agree and so do their tags, as far as a
-- key keeps them; they are kept under one name where their camel names agree. Nothing rejects
-- either, and lists of the registry go down strictly only where no camel name is there twice. Where
-- camel names and tags tell fields apart, every value is written under its own number.
theorem fields_separate (accepted : ofCorpus corpus config = .ok generation) :
    (∀ message fields, corpus.Reachable message → corpus.resolvedFields message = .ok fields →
      (∀ one ∈ fields, ∀ other ∈ fields, one.key = other.key ↔
        one.layout = other.layout ∧
          one.tag.toNat % numberLimit = other.tag.toNat % numberLimit) ∧
      (∃ index, generation.plans.position? message = some index ∧
        List.Forall₂ (fun field made => made.name = field.camelName ∧
            ∀ value, generation.plans.schema.Conforms (.field made) value →
              generation.plans.schema.bytes (.field made) value = [] ∨
              field.key <+: generation.plans.schema.bytes (.field made) value)
          fields (generation.plans.schema.typeAt index).fields) ∧
      ∀ path members value,
        generation.plans.mapAt message path (.object members) = .ok value →
        value = .object (Table.ofList (fields.map fun field =>
          (field.camelName, corpus.memberOf members field)))) ∧
    (∀ url entry shape, generation.registry.get? url = some entry → Registry.Holds entry shape →
      ∃ message fields, corpus.Reachable message ∧ corpus.resolvedFields message = .ok fields ∧
        Corpus.Lists fields shape ∧
        ((shape.Pairwise fun a b => b.name < a.name) ↔
          (fields.map ResolvedField.camelName).Nodup)) ∧
    (corpus.DistinctMembers → corpus.DistinctTags → corpus.TagsFit →
      (∀ message fields, corpus.Reachable message → corpus.resolvedFields message = .ok fields →
        (fields.map ResolvedField.key).Nodup) ∧
      (∀ url entry shape, generation.registry.get? url = some entry → Registry.Holds entry shape →
        shape.Pairwise fun a b => b.name < a.name) ∧
      ∀ url input bytes, generation.plans.encodePayload url input = .ok bytes →
        ∃ name ∈ corpus.requestTypes, generation.plans.payloadAt? url = some name ∧
          bytes = (corpus.structOf unmarked name input).bytes ∧
          (corpus.NumberedFields → ∃ index, generation.plans.position? name = some index ∧
            generation.plans.schema.read index bytes
              = some (corpus.valueOf name input).plainZeros)) := by
  have planned := plans_of_ofCorpus accepted
  have derived := registry_of_ofCorpus accepted
  refine ⟨?_, ?_, ?_⟩
  · intro message fields reached resolved
    refine ⟨fun one _ other _ => ResolvedField.key_eq_iff, ?_, ?_⟩
    · obtain ⟨index, position, made⟩ := EncoderPlans.fields_of_reachable planned reached resolved
      refine ⟨index, position, made.imp fun field made same => ⟨same.1, fun value conforms => ?_⟩⟩
      rw [← same.2]
      exact WireSchema.bytes_field_key conforms
    · intro path members value mapped
      rw [← Corpus.valueOf_object resolved]
      exact EncoderPlans.mapAt_valueOf (EncoderPlans.follows_of_ofCorpus planned) _ message path _
        value (Nat.lt_succ_self _) mapped
  · intro url entry shape found holds
    obtain ⟨message, fields, reached, resolved, lists⟩ :=
      Registry.lists_of_ofCorpus derived found holds
    exact ⟨message, fields, reached, resolved, lists, lists.strict_iff⟩
  · intro distinct tags fits
    refine ⟨fun message fields reached resolved => ?_, ?_, ?_⟩
    · exact ResolvedField.keys_nodup (fits message fields reached resolved)
        (tags message fields reached resolved)
    · intro url entry shape found holds
      obtain ⟨message, fields, reached, resolved, lists⟩ :=
        Registry.lists_of_ofCorpus derived found holds
      exact lists.strict_iff.mpr (distinct message fields reached resolved)
    · intro url input bytes encoded
      obtain ⟨name, found, ran⟩ := EncoderPlans.encodePayload_ok encoded
      obtain ⟨value, mapped, _⟩ := bind_ok ran
      have written := EncoderPlans.encode_of_map planned distinct fits mapped
      rw [ran] at written
      refine ⟨name, ?_, found, Except.ok.inj written, fun numbered => ?_⟩
      · rw [← EncoderPlans.requests_of_ofCorpus planned]
        simpa using (Option.filter_eq_some_iff.mp found).2
      · exact EncoderPlans.read_of_encode planned distinct numbered ran

theorem fields_separate_ordered :
    ordered.DistinctMembers ∧ ordered.DistinctTags ∧ ordered.TagsFit ∧ ordered.NumberedFields ∧
    ∃ generation index, ofCorpus ordered .standard = .ok generation ∧
      generation.plans.encodePayload "/pay.v1.MsgPay" (given 1) = .ok [8, 1, 16, 2] ∧
      generation.plans.schema.read index [8, 1, 16, 2]
        = some (.object [("first", .uint32 1), ("second", .uint32 2)]) := by
  have fits := numberedFields_ordered.tagsFit
  refine ⟨distinctMembers_ordered, distinctTags_ordered, fits, numberedFields_ordered, ?_⟩
  obtain ⟨generation, accepted, encoded⟩ := encode_ordered
  obtain ⟨_, _, apart⟩ := fields_separate accepted
  obtain ⟨_, _, carries⟩ := apart distinctMembers_ordered distinctTags_ordered fits
  obtain ⟨name, requested, _, _, reads⟩ := carries _ _ _ encoded
  obtain rfl := List.mem_singleton.mp requested
  obtain ⟨index, _, read⟩ := reads numberedFields_ordered
  refine ⟨generation, index, accepted, encoded, read.trans ?_⟩
  rw [valueOf_ordered]
  rfl

-- Nothing rejects a message where two fields have one camel name and two have one key. Of the two
-- inputs of one name only one is taken, for both fields; the field with the large tag is written
-- under the number of another; and the list of its fields goes down, but not strictly.
theorem fields_separate_merged :
    SourceFile.read? .standard "pay.proto" mergedText = some mergedFile ∧
    Corpus.ofFiles [mergedFile] = merged ∧
    ∃ generation, ofCorpus merged .standard = .ok generation ∧
      generation.plans.encodePayload "/pay.v1.MsgPay" mergedInput = .ok [8, 7, 16, 7, 16, 9] ∧
      merged.resolvedFields "pay.v1.MsgPay" = .ok [snakeField, camelField, farField] ∧
      snakeField.camelName = camelField.camelName ∧ camelField.key = farField.key ∧
      ∃ entry, generation.registry.get? "/pay.v1.MsgPay" = some entry ∧
        ¬ entry.valueFields.Pairwise fun a b => b.name < a.name := by
  refine ⟨read?_merged, ofFiles_merged, ?_⟩
  obtain ⟨generation, accepted, plans⟩ :=
    ofCorpus_pay [snakeDecl, camelDecl, farDecl] rfl rfl ofCorpus_merged
  refine ⟨generation, accepted, ?_, rfl, rfl, ResolvedField.key_eq_iff.mpr ⟨rfl, rfl⟩, ?_⟩
  · rw [plans]
    exact encode_merged
  · obtain ⟨entry, found, lists⟩ := Registry.entry_of_request
      (registry_of_ofCorpus accepted) (List.mem_singleton.mpr rfl)
    refine ⟨entry, found, ?_⟩
    obtain ⟨fields, resolved, lists⟩ := lists
    cases resolved
    rw [lists.strict_iff]
    decide

end Generation

end SigningSchema
