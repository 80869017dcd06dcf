import SigningSchema.Proofs.Coercion.Integers
import SigningSchema.Proofs.Encoder.Reordering
import SigningSchema.Proofs.Registry.Collision
import SigningSchema.Source.Reader

-- Payloads on the wire, for every schema that all derivations accept.

namespace SigningSchema

open Coercion Wire

theorem Generation.plans_of_ofCorpus {corpus : Corpus} {config : Config} {generation : Generation}
    (accepted : ofCorpus corpus config = .ok generation) :
    EncoderPlans.ofCorpus corpus config = .ok generation.plans := by
  obtain ⟨_, _, rest⟩ := bind_ok accepted
  obtain ⟨registry, _, rest⟩ := bind_ok rest
  obtain ⟨builders, _, rest⟩ := bind_ok rest
  obtain ⟨plans, planned, last⟩ := bind_ok rest
  cases last
  exact planned

namespace Corpus

-- Tags are small enough for the keys of fields to keep them.
def TagsFit (corpus : Corpus) : Prop :=
  ∀ message fields, corpus.Reachable message → corpus.resolvedFields message = .ok fields →
    ∀ field ∈ fields, field.tag.toNat < numberLimit

-- Tags are field numbers, and each is given once in a message.
def NumberedFields (corpus : Corpus) : Prop :=
  ∀ message fields, corpus.Reachable message → corpus.resolvedFields message = .ok fields →
    (∀ field ∈ fields, IsFieldNumber field.tag.toNat) ∧ (fields.map ResolvedField.tag).Nodup

theorem NumberedFields.tagsFit {corpus : Corpus} (numbered : corpus.NumberedFields) :
    corpus.TagsFit :=
  fun message fields reached resolved field member =>
    ((numbered message fields reached resolved).1 field member).2

variable {first second : Corpus}

theorem Reordered.numberedFields (same : first.Reordered second) (numbered : first.NumberedFields) :
    second.NumberedFields := by
  intro message fields reached resolved
  obtain ⟨others, resolvedToo, perm⟩ := same.symm.resolvedFields resolved
  obtain ⟨valid, distinct⟩ :=
    numbered message others (same.symm.rearranged.reachable reached) resolvedToo
  exact ⟨fun field member => valid field (perm.subset member),
    (perm.map ResolvedField.tag).nodup_iff.mpr distinct⟩

end Corpus

namespace EncoderPlans

variable {corpus other : Corpus} {config : Config} {plans plansToo : EncoderPlans} {name : String}

theorem tagsFit_of_ofCorpus (planned : ofCorpus corpus config = .ok plans) (fits : corpus.TagsFit) :
    plans.TagsFit := by
  intro name plan found rule member
  have reached := (planOf_of_plan planned found).1
  have resolved := follows_of_ofCorpus planned name plan found
  exact fits name _ reached resolved rule.resolved (List.mem_map_of_mem member)

theorem requests_of_ofCorpus (planned : ofCorpus corpus config = .ok plans) :
    plans.requests = corpus.requestTypes := by
  obtain ⟨closure, _, more⟩ := bind_ok planned
  obtain ⟨made, _, rest⟩ := bind_ok more
  obtain ⟨schema, _, last⟩ := bind_ok rest
  cases last
  rfl

theorem planOf_reordered (same : corpus.Reordered other) {plan planToo : MessagePlan}
    (made : planOf corpus config name = .ok plan) (madeToo : planOf other config name = .ok planToo) :
    plan.fields.Perm planToo.fields := by
  obtain ⟨message, found, more⟩ := bind_ok made
  obtain ⟨fields, resolved, last⟩ := bind_ok more
  obtain ⟨messageToo, foundToo, moreToo⟩ := bind_ok madeToo
  obtain ⟨fieldsToo, resolvedToo, lastToo⟩ := bind_ok moreToo
  cases last
  cases lastToo
  obtain ⟨others, again, perm⟩ := same.resolvedFields resolved
  rw [resolvedToo] at again
  cases again
  have policies : policyOf config message name = policyOf config messageToo name := by
    obtain ⟨held, foundHeld, rearranged⟩ := same.rearranged.get? (Corpus.message_ok found)
    rw [Corpus.message_ok foundToo] at foundHeld
    cases foundHeld
    funext camelName
    rw [policyOf, policyOf, rearranged.name]
  rw [policies]
  exact perm.map _

theorem map_reordered (same : corpus.Reordered other) (planned : ofCorpus corpus config = .ok plans)
    (plannedToo : ofCorpus other config = .ok plansToo) {path : FieldPath} {input : Json} {value : Value}
    (mapped : plans.mapAt name path input = .ok value) :
    ∃ value, plansToo.mapAt name path input = .ok value := by
  refine mapAt_transfer (fun name plan found => ?_) _ input name path value (Nat.lt_succ_self _) mapped
  obtain ⟨reached, made⟩ := planOf_of_plan planned found
  obtain ⟨planToo, foundToo⟩ := plan_of_reachable plannedToo (same.rearranged.reachable reached)
  exact ⟨planToo, foundToo, planOf_reordered same made (planOf_of_plan plannedToo foundToo).2⟩

-- What a field is given is read wherever it stands, and whatever the policy of the field.
inductive Supplied (plans : EncoderPlans) (field : ResolvedField) : Option Json → Prop where
  | single {part : Json} (singular : field.repeated = false)
      (mapped : ∀ path, ∃ value, plans.mapPart field.type path part = .ok value) :
      Supplied plans field (some part)
  | array {items : List Json} (several : field.repeated = true)
      (mapped : ∀ item ∈ items, ∀ path, ∃ value, plans.mapPart field.type path item = .ok value) :
      Supplied plans field (some (.array items))

theorem coerceField_of_supplied {rule : FieldRule} {path : FieldPath} {given : Option Json}
    (supplied : plans.Supplied rule.resolved given) :
    ∃ value, plans.coerceField path rule given = .ok value := by
  cases supplied with
  | single singular mapped =>
    rw [coerceField_single singular]
    exact mapped path
  | array several mapped =>
    obtain ⟨values, ran⟩ := inTurn_of_each
      (fun item member position => mapped item member (path.index position)) 0
    rw [coerceField_array several]
    exact ⟨.array values, congrArg (Except.map Value.array) ran⟩

theorem mapAt_of_supplied (planned : ofCorpus corpus config = .ok plans)
    (reached : corpus.Reachable name) {fields : List ResolvedField}
    (resolved : corpus.resolvedFields name = .ok fields) {members : List (String × Json)}
    (supplied : ∀ field ∈ fields, plans.Supplied field (lookUp members field.camelName field.name))
    (path : FieldPath) : ∃ value, plans.mapAt name path (.object members) = .ok value := by
  obtain ⟨plan, found⟩ := plan_of_reachable planned reached
  have follows := follows_of_ofCorpus planned name plan found
  rw [resolved] at follows
  cases follows
  obtain ⟨pairs, ran⟩ : ∃ pairs, plans.mapFields path members plan.fields = .ok pairs := by
    refine mapFields_of_each fun rule member => ?_
    rw [mapField_eq_coerceField]
    exact coerceField_of_supplied (supplied rule.resolved (List.mem_map_of_mem member))
  rw [mapAt_object found, ran]
  exact ⟨_, rfl⟩

-- What coercion lets pass is written, record by record in the order of declaration.
theorem encode_of_map (planned : ofCorpus corpus config = .ok plans) (distinct : corpus.DistinctMembers)
    (fits : corpus.TagsFit) {input : Json} {value : Value}
    (mapped : plans.mapAt name (.root FieldPath.defaultLabel) input = .ok value) :
    plans.encode name input = .ok (corpus.structOf unmarked name input).bytes := by
  have laid := laidOut_of_ofCorpus planned
  have names := distinctNames_of_ofCorpus planned distinct
  obtain ⟨plan, _, _, known, _⟩ := mapAt_ok mapped
  have typed := mapAt_typed names _ name _ input value (Nat.lt_succ_self _) mapped
  obtain ⟨bytes, ran⟩ := encode_typed laid names known typed
  have encoded : plans.encode name input = .ok bytes := by
    rw [encode, map, mapped]
    exact ran
  obtain ⟨index, again, written⟩ := written_of_encode laid names encoded
  rw [encoded, written.bytes]
  exact congrArg Except.ok (bytes_mapAt laid names (tagsFit_of_ofCorpus planned fits)
    (follows_of_ofCorpus planned) _ name _ input again index (Nat.lt_succ_self _) written.mapped
    written.position)

theorem encodePayload_ok {url : String} {input : Json} {bytes : Bytes}
    (encoded : plans.encodePayload url input = .ok bytes) :
    ∃ name, plans.payloadAt? url = some name ∧ plans.encode name input = .ok bytes := by
  unfold encodePayload at encoded
  split at encoded
  · rename_i name found
    exact ⟨name, found, encoded⟩
  · cases encoded

end EncoderPlans

-- The bytes of a payload are its records in the order of declaration, each as a native encoder
-- writes it but for zeros, which are always left off. So they are the bytes of a native encoder
-- where every message declares its fields by ascending tag and no `optional` scalar is given as
-- zero; and declaring the same fields in another order only moves the bytes.
theorem Generation.encodePayload_native {corpus : Corpus} {config : Config} {generation : Generation}
    (accepted : ofCorpus corpus config = .ok generation) (distinct : corpus.DistinctMembers)
    (numbered : corpus.NumberedFields) {url : String} {input : Json} {bytes : Bytes}
    (encoded : generation.plans.encodePayload url input = .ok bytes) :
    ∃ name ∈ corpus.requestTypes, generation.plans.payloadAt? url = some name ∧
      bytes = (corpus.structOf unmarked name input).bytes ∧
      (∀ native, Struct.WritesAscending native → ∀ optional, corpus.Ascends name →
        ¬ (corpus.structOf optional name input).HoldsZero →
        bytes = native (corpus.structOf optional name input)) ∧
      ∀ other again, corpus.Reordered other → ofCorpus other config = .ok again →
        ∃ moved, again.plans.encodePayload url input = .ok moved ∧ moved.Perm bytes := by
  have planned := plans_of_ofCorpus accepted
  obtain ⟨name, found, ran⟩ := EncoderPlans.encodePayload_ok encoded
  obtain ⟨value, mapped, _⟩ := bind_ok ran
  have written := EncoderPlans.encode_of_map planned distinct numbered.tagsFit mapped
  rw [ran] at written
  cases written
  have requested : name ∈ corpus.requestTypes := by
    rw [← EncoderPlans.requests_of_ofCorpus planned]
    simpa using (Option.filter_eq_some_iff.mp found).2
  refine ⟨name, requested, found, rfl, ?_, ?_⟩
  · intro native writes optional ascends given
    exact (Corpus.native_structOf writes optional _ name input (Nat.lt_succ_self _) ascends given).symm
  · intro other again same acceptedToo
    have plannedToo := plans_of_ofCorpus acceptedToo
    obtain ⟨valueToo, mappedToo⟩ := EncoderPlans.map_reordered same planned plannedToo mapped
    have moved := EncoderPlans.encode_of_map plannedToo (same.rearranged.distinctMembers distinct)
      (same.numberedFields numbered).tagsFit mappedToo
    refine ⟨_, ?_, (same.bytes_structOf _ input name (Nat.lt_succ_self _)).symm⟩
    have foundToo : again.plans.payloadAt? url = some name := by
      rw [EncoderPlans.payloadAt?, EncoderPlans.requests_of_ofCorpus plannedToo,
        ← same.rearranged.requestTypes, ← EncoderPlans.requests_of_ofCorpus planned]
      exact found
    rw [EncoderPlans.encodePayload, foundToo]
    exact moved

namespace Sample

-- One payload message of two numbers, with its fields declared in either order.
def firstDecl : FieldDecl := ⟨"first", "uint32", false, 1⟩

def secondDecl : FieldDecl := ⟨"second", "uint32", false, 2⟩

def payCorpus (fields : List FieldDecl) : Corpus where
  messages := [("pay.v1.MsgPay", ⟨"pay.v1", "MsgPay", fields, "pay.proto", none⟩)]
  enums := []
  requestTypes := ["pay.v1.MsgPay"]

def firstRule : FieldRule := ⟨"first", "first", 1, .scalar .uint32, false, .required⟩

def secondRule : FieldRule := ⟨"second", "second", 2, .scalar .uint32, false, .required⟩

def payPlans (rules : List FieldRule) (fields : List WireField) : EncoderPlans where
  messages := [("pay.v1.MsgPay", ⟨"pay.v1.MsgPay", rules⟩)]
  requests := ["pay.v1.MsgPay"]
  schema := ⟨[⟨"pay.v1.MsgPay", fields⟩]⟩

theorem fullClosure_pay {fields : List FieldDecl} {resolved : List ResolvedField}
    (resolves : (payCorpus fields).resolvedFields "pay.v1.MsgPay" = .ok resolved)
    (alone : resolved.filterMap Corpus.messageOf? = []) :
    (payCorpus fields).fullClosure = .ok ["pay.v1.MsgPay"] :=
  Corpus.fullClosure_alone rfl resolves alone

theorem ofCorpus_pay (fields : List FieldDecl) {resolved : List ResolvedField}
    (resolves : (payCorpus fields).resolvedFields "pay.v1.MsgPay" = .ok resolved)
    (alone : resolved.filterMap Corpus.messageOf? = []) {plans : EncoderPlans}
    (planned : EncoderPlans.ofCorpus (payCorpus fields) .standard = .ok plans) :
    ∃ generation, Generation.ofCorpus (payCorpus fields) .standard = .ok generation ∧
      generation.plans = plans := by
  have closed := fullClosure_pay resolves alone
  obtain ⟨registry, derived⟩ := Registry.ofCorpus_of_flat closed (by
    rintro message inside name target ⟨others, again, field, member, _, type⟩
    rw [List.mem_singleton.mp inside, resolves] at again
    cases again
    have refers := Corpus.mem_messages.mpr ⟨field, member, type⟩
    rw [alone] at refers
    cases refers) .standard
  have builders : ∃ builders, BuilderTable.ofCorpus (payCorpus fields) .standard = .ok builders := ⟨_, rfl⟩
  obtain ⟨builders, built⟩ := builders
  refine ⟨⟨registry, builders, plans⟩, ?_, rfl⟩
  rw [Generation.ofCorpus, derived, built, planned]
  rfl

def ordered : Corpus := payCorpus [firstDecl, secondDecl]

def swapped : Corpus := payCorpus [secondDecl, firstDecl]

def swappedText : String :=
  "package pay.v1;\nservice Msg \x7b rpc Pay(MsgPay) returns (MsgPay); \x7d\n"
    ++ "message MsgPay \x7b uint32 second = 2; optional uint32 first = 1; \x7d\n"

def swappedFile : SourceFile where
  path := "pay.proto"
  package := "pay.v1"
  messages := [⟨"pay.v1", "MsgPay", [secondDecl, firstDecl], "pay.proto", none⟩]
  enums := []
  requests := ["MsgPay"]

theorem read?_swapped : SourceFile.read? .standard "pay.proto" swappedText = some swappedFile := by
  unfold SourceFile.read? swappedText
  rw [String.toList_append]
  repeat rw [String.toList_ofList]
  decide +kernel

theorem ofFiles_swapped : Corpus.ofFiles [swappedFile] = swapped := by
  rw [Corpus.ofFiles, List.mergeSort_singleton]
  rfl

-- The marking of that text.
def firstOptional : Marking := fun _ field => field.name = "first"

def orderedFields : List WireField :=
  [⟨"first", 1, .scalar .uint32, false⟩, ⟨"second", 2, .scalar .uint32, false⟩]

def swappedFields : List WireField :=
  [⟨"second", 2, .scalar .uint32, false⟩, ⟨"first", 1, .scalar .uint32, false⟩]

theorem ofCorpus_swapped : EncoderPlans.ofCorpus swapped .standard
    = .ok (payPlans [secondRule, firstRule] swappedFields) := by
  rw [EncoderPlans.ofCorpus, swapped, fullClosure_pay rfl rfl]
  rfl

theorem ofCorpus_ordered : EncoderPlans.ofCorpus ordered .standard
    = .ok (payPlans [firstRule, secondRule] orderedFields) := by
  rw [EncoderPlans.ofCorpus, ordered, fullClosure_pay rfl rfl]
  rfl

theorem named_pay {fields : List FieldDecl} {message : String} {resolved : List ResolvedField}
    (resolves : (payCorpus fields).resolvedFields message = .ok resolved) :
    message = "pay.v1.MsgPay" := by
  have declared := Corpus.mem_keys_of_declares (Corpus.declares_of_resolvedFields resolves)
  exact List.mem_singleton.mp declared

theorem reordered_swapped : ordered.Reordered swapped where
  rearranged := ⟨.cons ⟨rfl, rfl, rfl, rfl, rfl, by decide⟩ .nil, rfl, rfl⟩
  fields := by
    intro name message other found foundToo
    cases List.mem_singleton.mp (Table.mem_of_get? found)
    cases List.mem_singleton.mp (Table.mem_of_get? foundToo)
    decide

theorem distinctMembers_ordered : ordered.DistinctMembers := by
  intro message fields _ resolved
  obtain rfl := named_pay resolved
  cases resolved
  decide

theorem numberedFields_ordered : ordered.NumberedFields := by
  intro message fields _ resolved
  obtain rfl := named_pay resolved
  cases resolved
  decide

theorem ascends_ordered : ordered.Ascends "pay.v1.MsgPay" := by
  intro message fields _ resolved
  obtain rfl := named_pay resolved
  cases resolved
  decide

theorem scalarRecord_small {number n : UInt32} (tag : number.toNat < 16) (small : n.toNat < 128) :
    scalarRecord number .uint32 (.uint32 n) = [UInt8.ofNat (8 * number.toNat), UInt8.ofNat n.toNat] := by
  have key : 8 * number.toNat + 0 < 128 := by omega
  rw [scalarRecord, Standard.key, Standard.code, Standard.varint_of_lt key, Standard.payload,
    Standard.varint_of_lt small]
  rfl

-- An input that gives both fields; the second is never zero.
def given (first : Int) : Json :=
  .object [("first", .number (.integer first)), ("second", .number (.integer 2))]

def givenMembers (first : Int) : List (String × Json) :=
  [("first", .number (.integer first)), ("second", .number (.integer 2))]

theorem given_eq (first : Int) : given first = .object (givenMembers first) := rfl

def firstField : ResolvedField := ⟨"first", "first", .scalar .uint32, false, 1⟩

def secondField : ResolvedField := ⟨"second", "second", .scalar .uint32, false, 2⟩

theorem scalar_number (n : UInt32) (path : FieldPath) :
    scalar .uint32 path (.number (.integer n.toNat)) = .ok (.uint32 n) :=
  scalar_integer rfl rfl rfl path

theorem supplied_given (plans : EncoderPlans) (n : UInt32) {field : ResolvedField}
    (known : field ∈ [firstField, secondField]) :
    plans.Supplied field (lookUp (givenMembers n.toNat) field.camelName field.name) := by
  rcases List.mem_pair.mp known with rfl | rfl
  · exact .single rfl fun path => ⟨.uint32 n, scalar_number n path⟩
  · exact .single rfl fun path => ⟨.uint32 2, scalar_number 2 path⟩

theorem encode_given {decls : List FieldDecl} {plans : EncoderPlans} {fields : List ResolvedField}
    (planned : EncoderPlans.ofCorpus (payCorpus decls) .standard = .ok plans)
    (distinct : (payCorpus decls).DistinctMembers) (numbered : (payCorpus decls).NumberedFields)
    (resolved : (payCorpus decls).resolvedFields "pay.v1.MsgPay" = .ok fields)
    (known : fields ⊆ [firstField, secondField]) (n : UInt32) :
    plans.encode "pay.v1.MsgPay" (given n.toNat)
      = .ok ((payCorpus decls).structOf unmarked "pay.v1.MsgPay" (given n.toNat)).bytes := by
  have reached : (payCorpus decls).Reachable "pay.v1.MsgPay" := ⟨_, List.mem_singleton.mpr rfl, .refl⟩
  obtain ⟨value, mapped⟩ := EncoderPlans.mapAt_of_supplied planned reached resolved
    (fun field member => supplied_given plans n (known member)) (.root FieldPath.defaultLabel)
  exact EncoderPlans.encode_of_map planned distinct numbered.tagsFit mapped

theorem heldOf_given (corpus : Corpus) (optional : Marking) (n : UInt32) :
    corpus.heldOf optional "pay.v1.MsgPay" (givenMembers n.toNat) firstField
      = scalarHeld (optional "pay.v1.MsgPay" firstField) false .uint32 [.uint32 n] ∧
    corpus.heldOf optional "pay.v1.MsgPay" (givenMembers n.toNat) secondField
      = scalarHeld (optional "pay.v1.MsgPay" secondField) false .uint32 [.uint32 2] := by
  have value (n : UInt32) : scalarValue .uint32 (.number (.integer n.toNat)) = .uint32 n :=
    scalarValue_of_ok (scalar_number n (.root FieldPath.defaultLabel))
  exact ⟨congrArg (fun held => scalarHeld _ false .uint32 [held]) (value n),
    congrArg (fun held => scalarHeld _ false .uint32 [held]) (value 2)⟩

-- The first field as a marking has it held.
def firstHeld (optional : Marking) (n : UInt32) : Held :=
  scalarHeld (optional "pay.v1.MsgPay" firstField) false .uint32 [.uint32 n]

theorem firstHeld_unmarked (n : UInt32) : firstHeld unmarked n = .implicit .uint32 (.uint32 n) := rfl

theorem firstHeld_optional (n : UInt32) :
    firstHeld firstOptional n = .optional .uint32 (some (.uint32 n)) := rfl

-- The message of such an input where the second field is not marked.
def pair (first : Held) : Struct := [(2, .implicit .uint32 (.uint32 2)), (1, first)]

section Structs

variable {optional : Marking} (plain : optional "pay.v1.MsgPay" secondField = false) (n : UInt32)

include plain

theorem structOf_swapped :
    swapped.structOf optional "pay.v1.MsgPay" (given n.toNat) = pair (firstHeld optional n) := by
  have fields : swapped.resolvedFields "pay.v1.MsgPay" = .ok [secondField, firstField] := rfl
  obtain ⟨first, second⟩ := heldOf_given swapped optional n
  rw [given_eq, Corpus.structOf_object fields, List.map_cons, List.map_singleton, first, second, plain]
  rfl

theorem structOf_ordered : ordered.structOf optional "pay.v1.MsgPay" (given n.toNat)
    = [(1, firstHeld optional n), (2, .implicit .uint32 (.uint32 2))] := by
  have fields : ordered.resolvedFields "pay.v1.MsgPay" = .ok [firstField, secondField] := rfl
  obtain ⟨first, second⟩ := heldOf_given ordered optional n
  rw [given_eq, Corpus.structOf_object fields, List.map_cons, List.map_singleton, first, second, plain]
  rfl

end Structs

theorem bytes_pair (first : Held) : (pair first).bytes = [16, 2] ++ first.bytes Struct.bytes 1 := by
  rw [Struct.bytes_eq, pair, List.flatMap_cons, List.flatMap_singleton]
  simp [Held.bytes, Standard.isZero, scalarRecord_small]

theorem native_pair {native : Struct → Bytes} (writes : Struct.WritesAscending native) (first : Held) :
    native (pair first) = first.bytes native 1 ++ [16, 2] := by
  rw [writes (pair first) [(1, first), (2, .implicit .uint32 (.uint32 2))] (.swap _ _ _)
    (.cons (by simp) (List.pairwise_singleton _ _)), List.flatMap_cons, List.flatMap_singleton]
  simp [Held.bytes, Standard.isZero, scalarRecord_small]

theorem encode_swapped : ∃ generation, Generation.ofCorpus swapped .standard = .ok generation ∧
    generation.plans.encodePayload "/pay.v1.MsgPay" (given 1) = .ok [16, 2, 8, 1] ∧
    generation.plans.encodePayload "/pay.v1.MsgPay" (given 0) = .ok [16, 2] := by
  have distinct := reordered_swapped.rearranged.distinctMembers distinctMembers_ordered
  have numbered := reordered_swapped.numberedFields numberedFields_ordered
  obtain ⟨generation, accepted, plans⟩ :=
    ofCorpus_pay [secondDecl, firstDecl] rfl rfl ofCorpus_swapped
  have encoded (n : UInt32) : generation.plans.encodePayload "/pay.v1.MsgPay" (given n.toNat)
      = .ok (pair (firstHeld unmarked n)).bytes := by
    rw [plans, ← structOf_swapped rfl]
    exact encode_given ofCorpus_swapped distinct numbered rfl (by decide) n
  refine ⟨generation, accepted, (encoded 1).trans ?_, (encoded 0).trans ?_⟩ <;>
    simp [bytes_pair, firstHeld_unmarked, Held.bytes, Standard.isZero, scalarRecord_small]

theorem encode_ordered : ∃ generation, Generation.ofCorpus ordered .standard = .ok generation ∧
    generation.plans.encodePayload "/pay.v1.MsgPay" (given 1) = .ok [8, 1, 16, 2] := by
  obtain ⟨generation, accepted, plans⟩ :=
    ofCorpus_pay [firstDecl, secondDecl] rfl rfl ofCorpus_ordered
  have encoded : generation.plans.encodePayload "/pay.v1.MsgPay" (given 1)
      = .ok (Struct.bytes [(1, firstHeld unmarked 1), (2, .implicit .uint32 (.uint32 2))]) := by
    rw [plans, ← structOf_ordered rfl]
    exact encode_given ofCorpus_ordered distinctMembers_ordered numberedFields_ordered rfl (by decide) 1
  refine ⟨generation, accepted, encoded.trans ?_⟩
  rw [Struct.bytes_eq]
  simp [firstHeld_unmarked, Held.bytes, Standard.isZero, scalarRecord_small]

theorem given_ordered :
    ¬ (ordered.structOf firstOptional "pay.v1.MsgPay" (given 1)).HoldsZero := by
  have struct : ordered.structOf firstOptional "pay.v1.MsgPay" (given 1)
      = [(1, .optional .uint32 (some (.uint32 1))), (2, .implicit .uint32 (.uint32 2))] :=
    structOf_ordered rfl 1
  rw [struct]
  intro holds
  cases holds with
  | here member zero =>
    simp only [List.mem_cons, Prod.mk.injEq, Held.optional.injEq, reduceCtorEq, and_false,
      List.not_mem_nil, or_false, Option.some.injEq] at member
    obtain ⟨_, rfl, rfl⟩ := member
    cases zero
  | nested member => simp at member

end Sample

namespace Generation

open Sample

theorem encodePayload_native_ordered :
    (∃ generation, ofCorpus ordered .standard = .ok generation ∧
      generation.plans.encodePayload "/pay.v1.MsgPay" (given 1) = .ok [8, 1, 16, 2]) ∧
    ordered.DistinctMembers ∧ ordered.NumberedFields ∧ ordered.Ascends "pay.v1.MsgPay" ∧
    Struct.ascendingBytes (ordered.structOf firstOptional "pay.v1.MsgPay" (given 1)) = [8, 1, 16, 2] ∧
    ∃ again moved, ofCorpus swapped .standard = .ok again ∧
      again.plans.encodePayload "/pay.v1.MsgPay" (given 1) = .ok moved ∧ moved.Perm [8, 1, 16, 2] := by
  obtain ⟨generation, accepted, encoded⟩ := encode_ordered
  obtain ⟨again, acceptedToo, _⟩ := encode_swapped
  obtain ⟨name, requested, _, _, native, moves⟩ :=
    encodePayload_native accepted distinctMembers_ordered numberedFields_ordered encoded
  obtain rfl := List.mem_singleton.mp requested
  obtain ⟨moved, ran, perm⟩ := moves swapped again reordered_swapped acceptedToo
  exact ⟨⟨generation, accepted, encoded⟩, distinctMembers_ordered, numberedFields_ordered,
    ascends_ordered,
    (native _ Struct.ascendingBytes_writes firstOptional ascends_ordered given_ordered).symm,
    again, moved, acceptedToo, ran, perm⟩

-- Where tags do not ascend the records come in another order than a native encoder's; a zero that
-- an `optional` field is given is lost; and the bytes are not the same for both declarations.
theorem encodePayload_swapped :
    SourceFile.read? .standard "pay.proto" swappedText = some swappedFile ∧
    Corpus.ofFiles [swappedFile] = swapped ∧
    (∃ generation, ofCorpus swapped .standard = .ok generation ∧
      generation.plans.encodePayload "/pay.v1.MsgPay" (given 1) = .ok [16, 2, 8, 1] ∧
      generation.plans.encodePayload "/pay.v1.MsgPay" (given 0) = .ok [16, 2]) ∧
    swapped.DistinctMembers ∧ swapped.NumberedFields ∧
    (∀ native, Struct.WritesAscending native →
      native (swapped.structOf firstOptional "pay.v1.MsgPay" (given 1)) = [8, 1, 16, 2] ∧
      native (swapped.structOf firstOptional "pay.v1.MsgPay" (given 0)) = [8, 0, 16, 2]) ∧
    swapped.Reordered ordered ∧
    ∃ generation, ofCorpus ordered .standard = .ok generation ∧
      generation.plans.encodePayload "/pay.v1.MsgPay" (given 1) = .ok [8, 1, 16, 2] := by
  refine ⟨read?_swapped, ofFiles_swapped, encode_swapped,
    reordered_swapped.rearranged.distinctMembers distinctMembers_ordered,
    reordered_swapped.numberedFields numberedFields_ordered, ?_, reordered_swapped.symm, encode_ordered⟩
  intro native writes
  have written (n : UInt32) : native (swapped.structOf firstOptional "pay.v1.MsgPay" (given n.toNat))
      = (firstHeld firstOptional n).bytes native 1 ++ [16, 2] := by
    rw [structOf_swapped rfl, native_pair writes]
  refine ⟨(written 1).trans ?_, (written 0).trans ?_⟩ <;>
    simp [firstHeld_optional, Held.bytes, scalarRecord_small]

end Generation

end SigningSchema
