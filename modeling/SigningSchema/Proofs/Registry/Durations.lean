import SigningSchema.Proofs.Corpus.Listing
import SigningSchema.Proofs.Registry.Unfolding

-- Which members a signer writes as durations. An entry lists their names alone, so the names have to
-- tell them from all other members below the payload. The comparison of shapes does not see to it: a
-- duration is signed as text, and a shape shows no more of it than that.

namespace SigningSchema

namespace Corpus

variable {corpus : Corpus}

-- A scalar member of a shape is a scalar of like text wherever that shape is found again, unless it is
-- called like its own type.
theorem scalar_of_shapes {first second name : String} {kind : ScalarKind} {fields others : List ResolvedField}
    (resolved : corpus.resolvedFields first = .ok fields)
    (resolvedToo : corpus.resolvedFields second = .ok others)
    (shapes : (canonicalFields fields).map signingField = (canonicalFields others).map signingField)
    (member : corpus.HasMember first name (.scalar kind)) (free : ¬ CalledLike name kind) :
    ∃ another, corpus.HasMember second name (.scalar another) ∧
      another.signingType = kind.signingType := by
  obtain ⟨again, resolvedAgain, field, inside, rfl, type⟩ := member
  rw [resolved] at resolvedAgain
  cases resolvedAgain
  have shown : signingField field ∈ (canonicalFields others).map signingField := by
    rw [← shapes]
    exact List.mem_map_of_mem (mem_canonicalFields.mpr inside)
  obtain ⟨twin, among, same⟩ := List.mem_map.mp shown
  have name : twin.camelName = field.camelName := congrArg SigningField.name same
  have text : Expansion.typeText twin = Expansion.typeText field := congrArg SigningField.type same
  rw [Expansion.typeText_scalar type] at text
  cases typeToo : twin.type with
  | scalar another =>
    refine ⟨another, ⟨others, resolvedToo, twin, mem_canonicalFields.mp among, name, typeToo⟩, ?_⟩
    rw [Expansion.typeText_scalar typeToo] at text
    rcases brackets_cases text with ⟨equal, _⟩ | list | list
    · exact equal
    · exact absurd list (another.signingType_ne_list _)
    · exact absurd list (kind.signingType_ne_list _)
  | message target =>
    rw [Expansion.typeText_message typeToo, name] at text
    exact absurd (calledLike_of_text text.symm) free

end Corpus

namespace Registry

variable {corpus : Corpus} {config : Config} {registry : Registry}

-- Looking members up by name finds just the durations below the payload.
def DurationsTold (corpus : Corpus) (request : String) (entry : RegistryEntry) : Prop :=
  ∀ message, corpus.Reaches request message → ∀ name type, corpus.HasMember message name type →
    (name ∈ entry.durationFields ↔ type = .scalar .duration)

theorem durationsTold_iff {request : String} {entry : RegistryEntry}
    (describes : Describes corpus request entry) : DurationsTold corpus request entry ↔
      ∀ name type, corpus.HasMemberBelow request name (.scalar .duration) →
        corpus.HasMemberBelow request name type → type = .scalar .duration := by
  constructor
  · rintro told name type duration ⟨message, path, member⟩
    exact (told message path name type member).mp ((describes.durations name).mpr duration)
  · intro free message path name type member
    constructor
    · exact fun listed => free name type ((describes.durations name).mp listed) ⟨message, path, member⟩
    · rintro rfl
      exact (describes.durations name).mpr ⟨message, path, member⟩

theorem describes_of_get? (derived : ofCorpus corpus config = .ok registry) {url : String}
    {entry : RegistryEntry} (found : registry.get? url = some entry) :
    ∃ request ∈ corpus.requestTypes, url = Package.typeUrl request ∧ Describes corpus request entry := by
  obtain ⟨entries, determined, made⟩ := ofCorpus_determined derived
  have known : url ∈ registry.entries.keys := Table.mem_keys_iff.mpr ⟨entry, found⟩
  rw [made, keys_applyOverrides, determined.urls] at known
  obtain ⟨request, requested, rfl⟩ := known
  obtain ⟨again, foundAgain, describes⟩ := entry_of_ofCorpus derived request requested
  rw [found] at foundAgain
  cases foundAgain
  exact ⟨request, requested, rfl, describes⟩

-- The names in an entry are those of all durations below its payload. They find nothing else exactly
-- where no other member below the payload is called like a duration. Between messages that are held
-- under one name the comparison of shapes helps so far: what is a duration in one of them is text in
-- the other.
theorem durationFields_told_iff (derived : ofCorpus corpus config = .ok registry) :
    (∀ url entry, registry.get? url = some entry →
      ∃ request ∈ corpus.requestTypes, url = Package.typeUrl request ∧
      ∃ closure, corpus.closure request = .ok closure ∧
        (∀ name, name ∈ entry.durationFields ↔
          ∃ message ∈ closure, corpus.HasMember message name (.scalar .duration)) ∧
        (DurationsTold corpus request entry ↔
          ∀ message ∈ closure, ∀ other ∈ closure, ∀ name type,
            corpus.HasMember message name (.scalar .duration) → corpus.HasMember other name type →
              type = .scalar .duration)) ∧
    ∀ name first second,
      (∃ message, corpus.Reachable message ∧ corpus.HasMember message name (.message first)) →
      (∃ message, corpus.Reachable message ∧ corpus.HasMember message name (.message second)) →
      ∀ member, corpus.HasMember first member (.scalar .duration) →
        ¬ Corpus.CalledLike member .duration →
        ∃ kind, corpus.HasMember second member (.scalar kind) ∧ kind.signingType = "string" := by
  have resolves := resolves_of_ofCorpus derived
  constructor
  · intro url entry found
    obtain ⟨request, requested, address, describes⟩ := describes_of_get? derived found
    obtain ⟨closure, closed⟩ := Corpus.closure_of_resolves (resolves request requested)
    have below : ∀ name type, corpus.HasMemberBelow request name type ↔
        ∃ message ∈ closure, corpus.HasMember message name type := by
      intro name type
      simp only [Corpus.mem_closure closed]
      rfl
    refine ⟨request, requested, address, closure, closed, fun name => ?_, ?_⟩
    · rw [describes.durations, below]
    · rw [durationsTold_iff describes]
      simp only [below]
      exact ⟨fun told message inside other insideToo name type left right =>
          told name type ⟨message, inside, left⟩ ⟨other, insideToo, right⟩,
        fun told name type ⟨message, inside, left⟩ ⟨other, insideToo, right⟩ =>
          told message inside other insideToo name type left right⟩
  · rintro name first second ⟨holder, held, left⟩ ⟨another, heldToo, right⟩ member duration free
    obtain ⟨_, fields, resolved, one⟩ := left.known held resolves
    obtain ⟨_, others, resolvedToo, other⟩ := right.known heldToo resolves
    have ends := ofCorpus_ends corpus config
    rw [derived] at ends
    obtain ⟨_, _, derivation, _⟩ := ends
    exact Corpus.scalar_of_shapes resolved resolvedToo (derivation.agree one other) duration free

-- Two messages under one name, each with a lock: the first is a duration, and the other is one too or
-- else a text.
def leaseCorpus (text : Bool) : Corpus where
  messages := [
    ("pay.v1.Deal", ⟨"pay.v1", "Deal", [⟨"hold", "Note", false, 1⟩], "pay.proto", none⟩),
    ("pay.v1.Lease", ⟨"pay.v1", "Lease",
      [⟨"lock", "google.protobuf.Duration", false, 1⟩], "pay.proto", none⟩),
    ("pay.v1.MsgPay", ⟨"pay.v1", "MsgPay",
      [⟨"hold", "Lease", false, 1⟩, ⟨"deal", "Deal", false, 2⟩], "pay.proto", none⟩),
    ("pay.v1.Note", ⟨"pay.v1", "Note",
      [⟨"lock", if text then "string" else "google.protobuf.Duration", false, 1⟩], "pay.proto", none⟩)]
  enums := []
  requestTypes := ["pay.v1.MsgPay"]

def leaseListing (text : Bool) : List (String × List ResolvedField) := [
  ("pay.v1.Deal", [⟨"hold", "hold", .message "pay.v1.Note", false, 1⟩]),
  ("pay.v1.Lease", [⟨"lock", "lock", .scalar .duration, false, 1⟩]),
  ("pay.v1.MsgPay", [⟨"hold", "hold", .message "pay.v1.Lease", false, 1⟩,
    ⟨"deal", "deal", .message "pay.v1.Deal", false, 2⟩]),
  ("pay.v1.Note", [⟨"lock", "lock", .scalar (if text then .string else .duration), false, 1⟩])]

theorem listed_lease (text : Bool) : Listed (leaseCorpus text) (leaseListing text) where
  resolved := by
    simp only [leaseListing, List.forall_mem_cons]
    cases text <;> exact ⟨rfl, rfl, rfl, rfl, List.forall_mem_nil _⟩
  complete := by cases text <;> decide
  requested := by cases text <;> decide
  closed := by cases text <;> decide

theorem ofCorpus_lease (text : Bool) :
    ∃ registry, ofCorpus (leaseCorpus text) .standard = .ok registry :=
  (listed_lease text).ofCorpus_of_shapes
    (fun name => if name = "hold" then [⟨"lock", "string"⟩] else [⟨"hold", "hold"⟩])
    (by cases text <;> decide) .standard

theorem members_lease (text : Bool) :
    (leaseCorpus text).HasMember "pay.v1.MsgPay" "hold" (.message "pay.v1.Lease") ∧
    (leaseCorpus text).HasMember "pay.v1.MsgPay" "deal" (.message "pay.v1.Deal") ∧
    (leaseCorpus text).HasMember "pay.v1.Deal" "hold" (.message "pay.v1.Note") ∧
    (leaseCorpus text).HasMember "pay.v1.Lease" "lock" (.scalar .duration) :=
  ⟨⟨_, rfl, _, List.mem_cons_self, rfl, rfl⟩,
    ⟨_, rfl, _, List.mem_cons_of_mem _ List.mem_cons_self, rfl, rfl⟩,
    ⟨_, rfl, _, List.mem_cons_self, rfl, rfl⟩, ⟨_, rfl, _, List.mem_cons_self, rfl, rfl⟩⟩

theorem entry_lease (text : Bool) : ∃ registry entry,
    ofCorpus (leaseCorpus text) .standard = .ok registry ∧
    registry.get? "/pay.v1.MsgPay" = some entry ∧ "lock" ∈ entry.durationFields := by
  obtain ⟨registry, derived⟩ := ofCorpus_lease text
  obtain ⟨entry, found, describes⟩ :=
    entry_of_ofCorpus derived "pay.v1.MsgPay" (List.mem_singleton.mpr rfl)
  obtain ⟨hold, _, _, duration⟩ := members_lease text
  exact ⟨registry, entry, derived, found,
    (describes.durations "lock").mpr ⟨_, .tail .refl hold.refers, duration⟩⟩

-- A text of the name of a duration, held under the name that holds the duration, is found with it.
theorem durationFields_clash_lease : ∃ registry entry,
    ofCorpus (leaseCorpus true) .standard = .ok registry ∧
    registry.get? "/pay.v1.MsgPay" = some entry ∧ "lock" ∈ entry.durationFields ∧
    (leaseCorpus true).Reaches "pay.v1.MsgPay" "pay.v1.Note" ∧
    (leaseCorpus true).HasMember "pay.v1.Note" "lock" (.scalar .string) ∧
    ¬ DurationsTold (leaseCorpus true) "pay.v1.MsgPay" entry := by
  obtain ⟨registry, entry, derived, found, listed⟩ := entry_lease true
  obtain ⟨_, deal, inner, _⟩ := members_lease true
  have path : (leaseCorpus true).Reaches "pay.v1.MsgPay" "pay.v1.Note" :=
    .tail (.tail .refl deal.refers) inner.refers
  have text : (leaseCorpus true).HasMember "pay.v1.Note" "lock" (.scalar .string) :=
    ⟨_, rfl, _, List.mem_cons_self, rfl, rfl⟩
  refine ⟨registry, entry, derived, found, listed, path, text, fun told => ?_⟩
  exact nomatch (told _ path _ _ text).mp listed

theorem durationFields_told_iff_lease : ∃ registry entry,
    ofCorpus (leaseCorpus false) .standard = .ok registry ∧
    registry.get? "/pay.v1.MsgPay" = some entry ∧ "lock" ∈ entry.durationFields ∧
    (∃ request ∈ (leaseCorpus false).requestTypes, "/pay.v1.MsgPay" = Package.typeUrl request ∧
      DurationsTold (leaseCorpus false) request entry) ∧
    ∃ kind, (leaseCorpus false).HasMember "pay.v1.Note" "lock" (.scalar kind) ∧
      kind.signingType = "string" := by
  obtain ⟨registry, entry, derived, found, listed⟩ := entry_lease false
  obtain ⟨hold, deal, inner, duration⟩ := members_lease false
  obtain ⟨each, texts⟩ := durationFields_told_iff derived
  obtain ⟨request, requested, address, closure, closed, _, told⟩ := each _ entry found
  have only : ∀ one ∈ leaseListing false, ∀ field ∈ one.2, field.type = .scalar .duration →
      ∀ other ∈ leaseListing false, ∀ twin ∈ other.2, twin.camelName = field.camelName →
        twin.type = .scalar .duration := by
    decide
  refine ⟨registry, entry, derived, found, listed, ⟨request, requested, address, told.mpr ?_⟩, ?_⟩
  · intro message _ other _ name type left right
    obtain ⟨one, inside, rfl, field, declared, rfl, holds⟩ := (listed_lease false).exists_field left
    obtain ⟨another, insideToo, rfl, twin, declaredToo, same, rfl⟩ :=
      (listed_lease false).exists_field right
    exact only one inside field declared holds another insideToo twin declaredToo same
  · have pay : (leaseCorpus false).Reachable "pay.v1.MsgPay" := ⟨_, List.mem_singleton.mpr rfl, .refl⟩
    have dealt : (leaseCorpus false).Reachable "pay.v1.Deal" :=
      ⟨_, List.mem_singleton.mpr rfl, .tail .refl deal.refers⟩
    exact texts "hold" _ _ ⟨_, pay, hold⟩ ⟨_, dealt, inner⟩ "lock" duration (by decide)

end Registry

end SigningSchema
