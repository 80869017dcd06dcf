import SigningSchema.Demo
import SigningSchema.Proofs.Coercion.Moments
import SigningSchema.Proofs.Corpus.Listing
import SigningSchema.Proofs.Encoder.Payload
import SigningSchema.Proofs.Generation.Stages

-- Whatever the payload, the encoder of the demo takes its document and writes what a native encoder
-- writes for the payload itself.

namespace SigningSchema.Demo

open Coercion Wire

section Declarations

def decl (name : String) (fields : List FieldDecl) (legacyName : Option String) : MessageDecl :=
  ⟨"demo.license.v1", name, fields, schemaPath, legacyName⟩

def delegateDecl : MessageDecl := decl "MsgDelegate" [
  ⟨"owner", "string", false, 1⟩,
  ⟨"operator", "string", false, 2⟩,
  ⟨"license_ids", "uint64", true, 3⟩,
  ⟨"window", "Window", false, 4⟩] (some "license/MsgDelegate")

def windowDecl : MessageDecl := decl "Window" [
  ⟨"period", "google.protobuf.Duration", false, 1⟩,
  ⟨"renewable", "bool", false, 2⟩] none

def revokeDecl : MessageDecl :=
  decl "MsgRevoke" [⟨"owner", "string", false, 1⟩, ⟨"operator", "string", false, 2⟩] none

def file : SourceFile where
  path := schemaPath
  package := "demo.license.v1"
  messages := [delegateDecl, windowDecl, decl "MsgDelegateResponse" [] none, revokeDecl,
    decl "MsgRevokeResponse" [] none]
  enums := []
  requests := ["MsgDelegate", "MsgRevoke"]

-- The lines are taken apart and made lists first: decoding them as text would take most of the time.
set_option maxRecDepth 10000 in
theorem read?_schemaText : SourceFile.read? .standard schemaPath schemaText = some file := by
  unfold SourceFile.read? schemaText
  simp only [String.toList_append]
  repeat rw [String.toList_ofList]
  decide +kernel

def declared : Corpus where
  messages := [
    ("demo.license.v1.MsgDelegate", delegateDecl),
    ("demo.license.v1.MsgDelegateResponse", decl "MsgDelegateResponse" [] none),
    ("demo.license.v1.MsgRevoke", revokeDecl),
    ("demo.license.v1.MsgRevokeResponse", decl "MsgRevokeResponse" [] none),
    ("demo.license.v1.Window", windowDecl)]
  enums := []
  requestTypes := ["demo.license.v1.MsgDelegate", "demo.license.v1.MsgRevoke"]

theorem corpus_eq : corpus = declared := by
  rw [corpus, read?_schemaText, Option.toList_some, Corpus.ofFiles, List.mergeSort_singleton]
  decide +kernel

theorem requested (payload : Payload) : payload.fullName ∈ declared.requestTypes := by
  cases payload with
  | delegate => exact List.mem_cons_self
  | revoke => exact List.mem_cons_of_mem _ List.mem_cons_self

def delegateFields : List ResolvedField := [
  ⟨"owner", "owner", .scalar .string, false, 1⟩,
  ⟨"operator", "operator", .scalar .string, false, 2⟩,
  ⟨"license_ids", "licenseIds", .scalar .uint64, true, 3⟩,
  ⟨"window", "window", .message "demo.license.v1.Window", false, 4⟩]

def revokeFields : List ResolvedField := [
  ⟨"owner", "owner", .scalar .string, false, 1⟩,
  ⟨"operator", "operator", .scalar .string, false, 2⟩]

def windowFields : List ResolvedField := [
  ⟨"period", "period", .scalar .duration, false, 1⟩,
  ⟨"renewable", "renewable", .scalar .bool, false, 2⟩]

def listing : List (String × List ResolvedField) := [
  ("demo.license.v1.MsgDelegate", delegateFields),
  ("demo.license.v1.MsgDelegateResponse", []),
  ("demo.license.v1.MsgRevoke", revokeFields),
  ("demo.license.v1.MsgRevokeResponse", []),
  ("demo.license.v1.Window", windowFields)]

theorem listed : Listed declared listing where
  resolved := by
    simp only [listing, List.forall_mem_cons]
    exact ⟨rfl, rfl, rfl, rfl, rfl, List.forall_mem_nil _⟩
  complete := by decide
  requested := by decide
  closed := by decide

theorem ofCorpus_declared : ∃ made, Generation.ofCorpus declared .standard = .ok made := by
  obtain ⟨registry, derived⟩ := listed.ofCorpus_of_shapes
    (fun _ => [⟨"period", "string"⟩, ⟨"renewable", "bool"⟩]) (by decide) .standard
  obtain ⟨made, accepted, _⟩ := Generation.ofCorpus_of_registry rfl derived
  exact ⟨made, accepted⟩

theorem distinctMembers_declared : declared.DistinctMembers := by
  have told : ∀ pair ∈ listing, (pair.2.map ResolvedField.camelName).Nodup := by decide
  exact fun message fields _ resolved => told _ (listed.mem_of_resolved resolved)

theorem tagsFit_declared : declared.TagsFit := by
  have told : ∀ pair ∈ listing, ∀ field ∈ pair.2, field.tag.toNat < numberLimit := by decide
  exact fun message fields _ resolved => told _ (listed.mem_of_resolved resolved)

theorem ascends_declared (name : String) : declared.Ascends name := by
  have told : ∀ pair ∈ listing, pair.2.Pairwise fun a b => a.tag < b.tag := by decide
  exact fun message fields _ resolved => told _ (listed.mem_of_resolved resolved)

end Declarations

section Messages

def Window.struct (window : Window) : Struct := [
  (1, .messages [momentStruct window.period.seconds window.period.nanos]),
  (2, .implicit .bool (.bool window.renewable))]

-- The message of a payload.
def Payload.struct : Payload → Struct
  | .delegate owner operator licenseIds window => [
    (1, .implicit .string (.string owner)),
    (2, .implicit .string (.string operator)),
    (3, .repeated .uint64 (licenseIds.map .uint64)),
    (4, .messages [window.struct])]
  | .revoke owner operator => [
    (1, .implicit .string (.string owner)),
    (2, .implicit .string (.string operator))]

theorem not_holdsZero_window (window : Window) : ¬ window.struct.HoldsZero := by
  intro holds
  cases holds with
  | here member => simp [Window.struct] at member
  | nested member inside deeper =>
    simp only [Window.struct, List.mem_cons, Prod.mk.injEq, Held.messages.injEq, reduceCtorEq,
      and_false, List.not_mem_nil, or_false] at member
    obtain ⟨_, rfl⟩ := member
    obtain rfl := List.mem_singleton.mp inside
    cases deeper <;> simp_all [momentStruct]

theorem not_holdsZero_payload (payload : Payload) : ¬ payload.struct.HoldsZero := by
  intro holds
  cases payload with
  | delegate owner operator licenseIds window =>
    cases holds with
    | here member => simp [Payload.struct] at member
    | nested member inside deeper =>
      simp only [Payload.struct, List.mem_cons, Prod.mk.injEq, Held.messages.injEq, reduceCtorEq,
        and_false, List.not_mem_nil, or_false, false_or] at member
      obtain ⟨_, rfl⟩ := member
      obtain rfl := List.mem_singleton.mp inside
      exact not_holdsZero_window window deeper
  | revoke owner operator => cases holds <;> simp_all [Payload.struct]

end Messages

section Documents

variable {plans : EncoderPlans}

theorem scalar_period (period : Period) (path : FieldPath) :
    scalar .duration path period.document = .ok (.duration period.seconds period.nanos) := by
  refine scalar_duration_ok_iff.mpr ⟨period.seconds.toInt, period.nanos.toInt, ?_, ?_, ?_⟩
  · exact .object rfl ⟨.integer _, nofun⟩ rfl ⟨.integer _, nofun⟩
      ⟨period.seconds.le_toInt, Int.le_of_lt_add_one period.seconds.toInt_lt⟩ period.fraction
  · have forward := period.forward
    have backward := period.backward
    unfold OpposeSigns
    omega
  · rw [Int64.ofInt_toInt, Int32.ofInt_toInt]

theorem scalar_licenseId (id : UInt64) (path : FieldPath) :
    scalar .uint64 path (.number (.integer id.toNat)) = .ok (.uint64 id) :=
  scalar_integer rfl rfl rfl path

theorem structOf_window (window : Window) :
    declared.structOf unmarked "demo.license.v1.Window" window.document = window.struct := by
  have fields : declared.resolvedFields "demo.license.v1.Window" = .ok windowFields := rfl
  have period : scalarValue .duration window.period.document
      = .duration window.period.seconds window.period.nanos :=
    scalarValue_of_ok (scalar_period window.period (.root FieldPath.defaultLabel))
  refine (Corpus.structOf_object fields unmarked _).trans ?_
  exact congrArg (fun value => ([(1, .messages [momentOf value]),
    (2, .implicit .bool (.bool window.renewable))] : Struct)) period

theorem structOf_payload (payload : Payload) :
    declared.structOf unmarked payload.fullName payload.document = payload.struct := by
  cases payload with
  | delegate owner operator licenseIds window =>
    have fields : declared.resolvedFields "demo.license.v1.MsgDelegate" = .ok delegateFields := rfl
    have ids : (licenseIds.map fun id => Json.number (.integer id.toNat)).map (scalarValue .uint64)
        = licenseIds.map .uint64 := by
      rw [List.map_map]
      exact List.map_congr_left fun id _ =>
        scalarValue_of_ok (scalar_licenseId id (.root FieldPath.defaultLabel))
    refine (Corpus.structOf_object fields unmarked _).trans ?_
    exact congrArg₂ (fun ids window => ([(1, .implicit .string (.string owner)),
      (2, .implicit .string (.string operator)), (3, .repeated .uint64 ids),
      (4, .messages [window])] : Struct)) ids (structOf_window window)
  | revoke owner operator =>
    have fields : declared.resolvedFields "demo.license.v1.MsgRevoke" = .ok revokeFields := rfl
    exact (Corpus.structOf_object fields unmarked _).trans rfl

theorem mapAt_window (planned : EncoderPlans.ofCorpus declared .standard = .ok plans)
    (window : Window) (path : FieldPath) :
    ∃ value, plans.mapAt "demo.license.v1.Window" path window.document = .ok value := by
  have refers : declared.Refers "demo.license.v1.MsgDelegate" "demo.license.v1.Window" :=
    ⟨delegateFields, rfl, _, List.mem_of_getElem? (i := 3) rfl, rfl⟩
  have fields : declared.resolvedFields "demo.license.v1.Window" = .ok windowFields := rfl
  refine EncoderPlans.mapAt_of_supplied planned ⟨_, List.mem_cons_self, .single refers⟩ fields ?_ path
  simp only [windowFields, List.forall_mem_cons]
  exact ⟨.single rfl fun path => ⟨_, scalar_period window.period path⟩,
    .single rfl fun _ => ⟨_, rfl⟩, List.forall_mem_nil _⟩

theorem mapAt_payload (planned : EncoderPlans.ofCorpus declared .standard = .ok plans)
    (payload : Payload) (path : FieldPath) :
    ∃ value, plans.mapAt payload.fullName path payload.document = .ok value := by
  have reached : declared.Reachable payload.fullName := ⟨_, requested payload, .refl⟩
  cases payload with
  | delegate owner operator licenseIds window =>
    have fields : declared.resolvedFields "demo.license.v1.MsgDelegate" = .ok delegateFields := rfl
    refine EncoderPlans.mapAt_of_supplied planned reached fields ?_ path
    simp only [delegateFields, List.forall_mem_cons]
    refine ⟨.single rfl fun _ => ⟨_, rfl⟩, .single rfl fun _ => ⟨_, rfl⟩,
      .array rfl fun item member path => ?_, .single rfl (mapAt_window planned window),
      List.forall_mem_nil _⟩
    obtain ⟨id, _, rfl⟩ := List.mem_map.mp member
    exact ⟨.uint64 id, scalar_licenseId id path⟩
  | revoke owner operator =>
    have fields : declared.resolvedFields "demo.license.v1.MsgRevoke" = .ok revokeFields := rfl
    refine EncoderPlans.mapAt_of_supplied planned reached fields ?_ path
    simp only [revokeFields, List.forall_mem_cons]
    exact ⟨.single rfl fun _ => ⟨_, rfl⟩, .single rfl fun _ => ⟨_, rfl⟩, List.forall_mem_nil _⟩

end Documents

theorem generation_encodes : ∃ made, generation = .ok made ∧
    ∀ (payload : Payload) (native : Struct → Bytes), Struct.WritesAscending native →
      made.plans.encodePayload payload.typeUrl payload.document = .ok (native payload.struct) := by
  obtain ⟨made, accepted⟩ := ofCorpus_declared
  have planned := Generation.plans_of_ofCorpus accepted
  refine ⟨made, by rw [generation, corpus_eq, accepted], fun payload native writes => ?_⟩
  obtain ⟨value, mapped⟩ := mapAt_payload planned payload (.root FieldPath.defaultLabel)
  have known : made.plans.payloadAt? payload.typeUrl = some payload.fullName := by
    refine EncoderPlans.payloadAt?_iff.mpr ⟨?_, rfl⟩
    rw [EncoderPlans.requests_of_ofCorpus planned]
    exact requested payload
  have written : native payload.struct = payload.struct.bytes := by
    rw [← structOf_payload]
    exact Corpus.native_structOf writes unmarked _ payload.fullName payload.document
      (Nat.lt_succ_self _) (ascends_declared _) (structOf_payload payload ▸ not_holdsZero_payload payload)
  rw [EncoderPlans.encodePayload, known, written, ← structOf_payload]
  exact EncoderPlans.encode_of_map planned distinctMembers_declared tagsFit_declared mapped

end SigningSchema.Demo
