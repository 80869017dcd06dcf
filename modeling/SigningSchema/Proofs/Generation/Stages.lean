import SigningSchema.Proofs.Builder.Entries
import SigningSchema.Proofs.Encoder.Payload
import SigningSchema.Proofs.Encoder.Planning
import SigningSchema.Proofs.Registry.Independence
import SigningSchema.Proofs.Text

-- The stages of a generation agree: they fail together, and they are about the same addresses.

namespace SigningSchema

namespace BuilderTable

variable {corpus : Corpus}

theorem ofCorpus_of_declared
    (declared : ∀ request ∈ corpus.requestTypes, ∃ message, corpus.message request = .ok message)
    (config : Config) : ∃ builders, ofCorpus corpus config = .ok builders := by
  have each : ∀ request ∈ corpus.requestTypes, ∃ draft,
      (corpus.message request).map (BuilderDraft.ofMessage config request) = .ok draft := by
    intro request member
    obtain ⟨message, found⟩ := declared request member
    exact ⟨.ofMessage config request message, by rw [found]; rfl⟩
  obtain ⟨drafts, ran⟩ := mapM_of_ok each
  refine ⟨⟨(BuilderDraft.entries config drafts [] drafts).mergeSort BuilderEntry.notAfter⟩, ?_⟩
  rw [ofCorpus, ran]
  rfl

end BuilderTable

namespace EncoderPlans

variable {corpus : Corpus} {config : Config} {plans : EncoderPlans} {url : String}

theorem typeUrls_of_ofCorpus (planned : ofCorpus corpus config = .ok plans) :
    plans.typeUrls = corpus.requestTypes.map Package.typeUrl := by
  rw [typeUrls, requests_of_ofCorpus planned]

theorem payloadAt?_iff {name : String} :
    plans.payloadAt? url = some name ↔ name ∈ plans.requests ∧ url = Package.typeUrl name := by
  rw [payloadAt?, Option.filter_eq_some_iff, Text.dropBeginning?_iff, List.contains_iff_mem, and_comm]
  rfl

theorem payloadAt?_isSome : (plans.payloadAt? url).isSome ↔ url ∈ plans.typeUrls := by
  rw [Option.isSome_iff_exists, typeUrls, List.mem_map]
  exact exists_congr fun name => payloadAt?_iff.trans (and_congr_right fun _ => eq_comm)

-- A payload never meets a message without a plan, so the address is the only one to be unknown.
theorem encodePayload_unknown_iff (planned : ofCorpus corpus config = .ok plans) (input : Json) :
    plans.encodePayload url input = .error (.unknownTypeUrl url) ↔ url ∉ plans.typeUrls := by
  rw [← payloadAt?_isSome, encodePayload]
  cases found : plans.payloadAt? url with
  | none => simp
  | some name =>
    have requested : name ∈ corpus.requestTypes := by
      rw [← requests_of_ofCorpus planned]
      exact (payloadAt?_iff.mp found).1
    obtain ⟨plan, held⟩ := plan_of_reachable planned ⟨name, requested, .refl⟩
    refine iff_of_false (fun failed => ?_) (fun absent => absent rfl)
    exact (encode_located planned (Table.mem_keys_iff.mpr ⟨plan, held⟩) input _ failed).ne_unknown _ rfl

end EncoderPlans

namespace Generation

variable {corpus : Corpus} {config : Config} {generation : Generation}

-- What a generation consists of.
structure Staged (corpus : Corpus) (config : Config) (generation : Generation) : Prop where
  valid : config.validate = .ok ()
  registry : Registry.ofCorpus corpus config = .ok generation.registry
  builders : BuilderTable.ofCorpus corpus config = .ok generation.builders
  plans : EncoderPlans.ofCorpus corpus config = .ok generation.plans

theorem ofCorpus_iff_staged : ofCorpus corpus config = .ok generation ↔ Staged corpus config generation := by
  constructor
  · intro accepted
    obtain ⟨_, valid, rest⟩ := bind_ok accepted
    obtain ⟨registry, derived, rest⟩ := bind_ok rest
    obtain ⟨builders, built, rest⟩ := bind_ok rest
    obtain ⟨plans, planned, last⟩ := bind_ok rest
    cases last
    refine ⟨?_, derived, built, planned⟩
    cases checked : config.validate with
    | ok _ => rfl
    | error cause =>
      rw [checked] at valid
      cases valid
  · rintro ⟨valid, derived, built, planned⟩
    rw [ofCorpus, valid, derived, built, planned]
    rfl

-- Once a registry is derived every payload message is declared and resolves with all it reaches.
theorem stages_of_registry {registry : Registry}
    (derived : Registry.ofCorpus corpus config = .ok registry) :
    (∃ builders, BuilderTable.ofCorpus corpus config = .ok builders) ∧
      ∃ plans, EncoderPlans.ofCorpus corpus config = .ok plans := by
  have resolves := Registry.resolves_of_ofCorpus derived
  refine ⟨BuilderTable.ofCorpus_of_declared (fun request requested => ?_) config,
    EncoderPlans.ofCorpus_of_resolves resolves config⟩
  obtain ⟨fields, resolved⟩ := resolves request requested request .refl
  exact Corpus.message_of_resolvedFields resolved

theorem ofCorpus_of_registry {registry : Registry} (valid : config.validate = .ok ())
    (derived : Registry.ofCorpus corpus config = .ok registry) :
    ∃ generation, ofCorpus corpus config = .ok generation ∧ generation.registry = registry := by
  obtain ⟨⟨builders, built⟩, plans, planned⟩ := stages_of_registry derived
  exact ⟨⟨registry, builders, plans⟩, ofCorpus_iff_staged.mpr ⟨valid, derived, built, planned⟩, rfl⟩

-- A generation needs a valid configuration and a registry, and then has all its other parts; they
-- are about the same addresses, each of them once, and exactly these can be encoded for. The payload
-- messages are a set here, as in the corpus of any files.
theorem ofCorpus_stages (corpus : Corpus) (config : Config)
    (set : NameSet.Ascending corpus.requestTypes) :
    ((∃ generation, ofCorpus corpus config = .ok generation) ↔
      config.validate = .ok () ∧ ∃ registry, Registry.ofCorpus corpus config = .ok registry) ∧
    (∀ registry, Registry.ofCorpus corpus config = .ok registry →
      (∃ builders, BuilderTable.ofCorpus corpus config = .ok builders) ∧
      ∃ plans, EncoderPlans.ofCorpus corpus config = .ok plans) ∧
    ∀ generation, ofCorpus corpus config = .ok generation →
      (generation.registry.entries.keys.Nodup ∧ generation.plans.typeUrls.Nodup ∧
        (generation.builders.entries.map BuilderEntry.typeUrl).Nodup) ∧
      ∀ url, (url ∈ generation.registry.entries.keys ↔ url ∈ generation.plans.typeUrls) ∧
        (url ∈ generation.builders.entries.map BuilderEntry.typeUrl ↔ url ∈ generation.plans.typeUrls) ∧
        ((generation.plans.payloadAt? url).isSome ↔ url ∈ generation.plans.typeUrls) ∧
        ∀ input, generation.plans.encodePayload url input = .error (.unknownTypeUrl url) ↔
          url ∉ generation.plans.typeUrls := by
  refine ⟨⟨?_, ?_⟩, fun registry => stages_of_registry, ?_⟩
  · rintro ⟨generation, accepted⟩
    have staged := ofCorpus_iff_staged.mp accepted
    exact ⟨staged.valid, generation.registry, staged.registry⟩
  · rintro ⟨valid, registry, derived⟩
    obtain ⟨generation, accepted, _⟩ := ofCorpus_of_registry valid derived
    exact ⟨generation, accepted⟩
  · intro generation accepted
    have staged := ofCorpus_iff_staged.mp accepted
    have urls := EncoderPlans.typeUrls_of_ofCorpus staged.plans
    have distinct : generation.plans.typeUrls.Nodup := by
      rw [urls]
      exact List.Nodup.map (fun _ _ => Registry.typeUrl_inj.mp)
        (set.imp fun below => ne_of_lt below)
    have perm := BuilderTable.typeUrls_perm staged.builders
    rw [← urls] at perm
    obtain ⟨entries, determined, registry⟩ := Registry.ofCorpus_determined staged.registry
    refine ⟨⟨?_, distinct, perm.nodup_iff.mpr distinct⟩, fun url => ⟨?_, perm.mem_iff,
      EncoderPlans.payloadAt?_isSome, EncoderPlans.encodePayload_unknown_iff staged.plans⟩⟩
    · rw [registry, Registry.keys_applyOverrides]
      exact List.pairwise_map.mpr (determined.ascending.imp fun below => ne_of_lt below)
    · rw [registry, Registry.keys_applyOverrides, determined.urls, urls, List.mem_map]
      simp only [eq_comm]

-- The messages of an order go round in a circle.
theorem ofCorpus_stages_cyclic :
    NameSet.Ascending Registry.cyclicCorpus.requestTypes ∧
    ∃ generation, ofCorpus Registry.cyclicCorpus .standard = .ok generation ∧
      generation.registry = ⟨[("/market.MsgOrder", Registry.orderEntry)]⟩ ∧
      "/market.MsgOrder" ∈ generation.builders.entries.map BuilderEntry.typeUrl ∧
      (generation.plans.payloadAt? "/market.MsgOrder").isSome ∧
      generation.plans.encodePayload "/market.Node" .null = .error (.unknownTypeUrl "/market.Node") := by
  have set : NameSet.Ascending Registry.cyclicCorpus.requestTypes := List.pairwise_singleton _ _
  obtain ⟨succeeds, _, agree⟩ := ofCorpus_stages Registry.cyclicCorpus .standard set
  obtain ⟨generation, accepted⟩ := succeeds.mpr ⟨rfl, _, Registry.ofCorpus_cyclic⟩
  have derived := (ofCorpus_iff_staged.mp accepted).registry
  rw [Registry.ofCorpus_cyclic] at derived
  have registry := Except.ok.inj derived
  obtain ⟨_, each⟩ := agree generation accepted
  obtain ⟨keys, builders, known, _⟩ := each "/market.MsgOrder"
  have listed := keys.mp (registry ▸ List.mem_singleton.mpr rfl)
  obtain ⟨others, _, _, unknown⟩ := each "/market.Node"
  refine ⟨set, generation, accepted, registry.symm, builders.mpr listed, known.mpr listed,
    (unknown .null).mpr fun inside => ?_⟩
  have absent := others.mpr inside
  rw [← registry] at absent
  exact absurd (List.mem_singleton.mp absent) (by decide)

end Generation

end SigningSchema
