import SigningSchema.Builder.Rendered
import SigningSchema.Encoder.Mapping
import SigningSchema.Encoder.Rendered
import SigningSchema.Registry.Derivation
import SigningSchema.Registry.Document

-- All that is derived from a corpus.

namespace SigningSchema

structure Generation where
  registry : Registry
  builders : BuilderTable
  plans : EncoderPlans

structure Artifacts where
  registry : String
  builders : String
  encoders : String
  deriving DecidableEq, Repr

namespace Generation

def ofCorpus (corpus : Corpus) (config : Config) : Except GenerationError Generation := do
  config.validate.mapError .config
  let registry ← Registry.ofCorpus corpus config
  let builders ← BuilderTable.ofCorpus corpus config
  let plans ← EncoderPlans.ofCorpus corpus config
  return ⟨registry, builders, plans⟩

def render (generation : Generation) (config : Config) : Artifacts where
  registry := generation.registry.text
  builders := generation.builders.render
  encoders := generation.plans.render config

end Generation

end SigningSchema
