import SigningSchema.Proofs.Corpus.Agreement
import SigningSchema.Proofs.Registry.Independence

-- Corpora that agree below a payload message have the same entry for it, whatever other payload
-- messages share the index of shapes with it.

namespace SigningSchema

namespace Corpus.AgreeBelow

variable {first second : Corpus} {root message name : String} {type : TypeClass}

theorem hasMemberBelow_iff (agree : AgreeBelow first second root) :
    first.HasMemberBelow root name type ↔ second.HasMemberBelow root name type := by
  have below : ∀ {one other : Corpus}, AgreeBelow one other root →
      one.HasMemberBelow root name type → other.HasMemberBelow root name type := by
    rintro one other agree ⟨message, path, member⟩
    rw [HasMember, agree message path] at member
    exact ⟨message, agree.reaches_iff.mp path, member⟩
  exact ⟨below agree, below agree.symm⟩

theorem signsAs (agree : AgreeBelow first second root) (path : first.Reaches root message)
    {shape : Shape} (signs : first.SignsAs message shape) : second.SignsAs message shape := by
  rwa [SignsAs, agree message path] at signs

end Corpus.AgreeBelow

namespace Registry

variable {first second : Corpus} {config : Config} {request : String}

theorem Named.transfer {entry : RegistryEntry}
    (same : first.messages.get? request = second.messages.get? request)
    (named : Named first config request entry) : Named second config request entry :=
  ⟨same ▸ named.legacyName, named.typeUrl, named.exclude⟩

theorem entry_of_agreeBelow {one other : Registry} (ran : ofCorpus first config = .ok one)
    (ranToo : ofCorpus second config = .ok other) (agree : Corpus.AgreeBelow first second request)
    (same : first.messages.get? request = second.messages.get? request)
    (requested : request ∈ first.requestTypes) (requestedToo : request ∈ second.requestTypes) :
    ∃ entry, one.get? (Package.typeUrl request) = some entry ∧
      other.get? (Package.typeUrl request) = some entry := by
  obtain ⟨entries, determined, rfl⟩ := ofCorpus_determined ran
  obtain ⟨others, determinedToo, rfl⟩ := ofCorpus_determined ranToo
  obtain ⟨entry, found, describes, named⟩ := determined.entry request requested
  obtain ⟨again, foundToo, describesToo, namedToo⟩ := determinedToo.entry request requestedToo
  have carried : Describes second request entry :=
    describes.transfer agree.hasMemberBelow_iff fun path => agree.signsAs path
  obtain rfl := entry_unique carried describesToo (named.transfer same) namedToo
  refine ⟨overridden config.typeOverrides (Package.typeUrl request) entry, ?_, ?_⟩
  · rw [get?, get?_applyOverrides_map, found, Option.map_some]
  · rw [get?, get?_applyOverrides_map, foundToo, Option.map_some]

end Registry

end SigningSchema
