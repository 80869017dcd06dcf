import SigningSchema.Proofs.Encoder.Planning
import SigningSchema.Proofs.Registry.Collision

-- A corpus written out as what its messages resolve to. Questions about all that payloads reach become
-- questions about the list.

namespace SigningSchema

open Corpus (signingField messageOf?)

-- Everything that is declared is listed, and so is whatever is asked for.
structure Listed (corpus : Corpus) (listing : List (String × List ResolvedField)) : Prop where
  resolved : ∀ pair ∈ listing, corpus.resolvedFields pair.1 = .ok pair.2
  complete : corpus.messages.keys ⊆ listing.map Prod.fst
  requested : corpus.requestTypes ⊆ listing.map Prod.fst
  closed : ∀ pair ∈ listing, pair.2.filterMap messageOf? ⊆ listing.map Prod.fst

namespace Listed

variable {corpus : Corpus} {listing : List (String × List ResolvedField)}
  {message name : String} {type : TypeClass} {fields : List ResolvedField}

theorem mem_of_resolved (listed : Listed corpus listing)
    (resolved : corpus.resolvedFields message = .ok fields) : (message, fields) ∈ listing := by
  have declared := Corpus.mem_keys_of_declares (Corpus.declares_of_resolvedFields resolved)
  obtain ⟨⟨_, held⟩, inside, rfl⟩ := List.mem_map.mp (listed.complete declared)
  have same := (listed.resolved _ inside).symm.trans resolved
  cases same
  exact inside

theorem exists_field (listed : Listed corpus listing) (member : corpus.HasMember message name type) :
    ∃ pair ∈ listing, pair.1 = message ∧ ∃ field ∈ pair.2, field.camelName = name ∧ field.type = type := by
  obtain ⟨fields, resolved, field, inside, same, holds⟩ := member
  exact ⟨_, listed.mem_of_resolved resolved, rfl, field, inside, same, holds⟩

theorem known_of_reaches (listed : Listed corpus listing) {request : String}
    (requested : request ∈ corpus.requestTypes) (path : corpus.Reaches request message) :
    message ∈ listing.map Prod.fst := by
  rcases Relation.ReflTransGen.cases_tail path with rfl | ⟨holder, _, fields, resolved, field, inside, type⟩
  · exact listed.requested requested
  · refine listed.closed _ (listed.mem_of_resolved resolved) ?_
    exact Corpus.mem_messages.mpr ⟨field, inside, type⟩

theorem resolves (listed : Listed corpus listing) :
    ∀ request ∈ corpus.requestTypes, corpus.Resolves request := by
  intro request requested message path
  obtain ⟨pair, inside, rfl⟩ := List.mem_map.mp (listed.known_of_reaches requested path)
  exact ⟨pair.2, listed.resolved pair inside⟩

theorem fullClosure_ok (listed : Listed corpus listing) : ∃ all, corpus.fullClosure = .ok all := by
  obtain ⟨_, planned⟩ := EncoderPlans.ofCorpus_of_resolves listed.resolves .standard
  obtain ⟨all, _, closed, _⟩ := EncoderPlans.ofCorpus_ok planned
  exact ⟨all, closed⟩

-- Where the name of a member tells the shape of what it refers to nothing can clash.
theorem ofCorpus_of_shapes (listed : Listed corpus listing) (shapeOf : String → Shape)
    (told : ∀ pair ∈ listing, ∀ field ∈ pair.2, ∀ target ∈ messageOf? field,
      ∀ other ∈ listing, other.1 = target → other.2.map signingField = shapeOf field.camelName)
    (config : Config) : ∃ registry, Registry.ofCorpus corpus config = .ok registry := by
  have shaped : ∀ {message name target shape}, corpus.HasMember message name (.message target) →
      corpus.SignsAs target shape → (shapeOf name).Ordered shape := by
    intro message name target shape member signs
    obtain ⟨pair, inside, rfl, field, declared, rfl, type⟩ := listed.exists_field member
    obtain ⟨fields, resolved, ordered⟩ := signs
    have same := told pair inside field declared target (by rw [messageOf?, type]; rfl) _
      (listed.mem_of_resolved resolved) rfl
    exact same ▸ ordered
  obtain ⟨all, ran⟩ := listed.fullClosure_ok
  cases derivation : Registry.ofCorpus corpus config with
  | ok registry => exact ⟨registry, rfl⟩
  | error error =>
    obtain ⟨name, first, second, one, other, _, clash⟩ := Registry.ofCorpus_error_clash ran derivation
    obtain ⟨_, _, member⟩ := clash.left
    obtain ⟨_, _, memberToo⟩ := clash.right
    exact absurd ((shaped member clash.signs).unique (shaped memberToo clash.signsToo)) clash.differ

end Listed

end SigningSchema
