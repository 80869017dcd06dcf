import SigningSchema.Proofs.Corpus.Sources
import SigningSchema.Proofs.Encoder.Payload

-- What is generated depends on what files declare, not on the order in which they are read nor on
-- how declarations are spread over them. Every stage runs alike on two corpora that are alike, and
-- where one stops the other stops for the same reason.

namespace SigningSchema

namespace Expansion

variable {first second : Corpus} {stack : List String}

theorem visit_congr (deeper : ∀ state target (new : stack.contains target = false),
      expand first stack state target new = expand second stack state target new)
    (state : Expansion) (field : ResolvedField) :
    visit first stack state field = visit second stack state field := by
  unfold visit
  cases field.type with
  | scalar kind => rfl
  | message target => simp only [deeper]

theorem expandFields_congr (deeper : ∀ state target (new : stack.contains target = false),
      expand first stack state target new = expand second stack state target new)
    (state : Expansion) (fields : List ResolvedField) :
    expandFields first stack state fields = expandFields second stack state fields := by
  induction fields generalizing state with
  | nil => rw [expandFields_nil, expandFields_nil]
  | cons field rest ih => simp only [expandFields_cons, visit_congr deeper, ih]

-- By induction on the messages that are not being walked, as every walk ends.
theorem expand_congr (same : first.resolvedFields = second.resolvedFields) (state : Expansion)
    (message : String) (new : stack.contains message = false) :
    expand first stack state message new = expand second stack state message new := by
  induction size : first.unseen stack using Nat.strongRecOn generalizing stack state message with
  | _ size ih =>
    subst size
    cases found : state.expanded.get? message with
    | some shape => rw [expand_done found, expand_done found]
    | none =>
      cases resolved : first.resolvedFields message with
      | error error =>
        rw [expand_unresolved found resolved, expand_unresolved found (same ▸ resolved)]
      | ok fields =>
        rw [expand_fresh found resolved, expand_fresh found (same ▸ resolved)]
        have fewer : first.unseen (message :: stack) < first.unseen stack :=
          Corpus.unseen_lt (Corpus.declares_of_resolvedFields resolved) new List.mem_cons_self
            fun other member => List.mem_cons_of_mem _ member
        rw [expandFields_congr fun state target fresh => ih _ fewer state target fresh rfl]

theorem walk_congr (same : first.resolvedFields = second.resolvedFields)
    (known : Table (String × Shape)) (message : String) :
    walk first known message = walk second known message := by
  unfold walk
  exact congrArg (· >>= _) (expand_congr same (start known) message rfl)

end Expansion

namespace Corpus.SameButSource

variable {first second : Corpus}

theorem describeAll (alike : SameButSource first second) (config : Config)
    (known : Table (String × Shape)) (entries : Table RegistryEntry) (requests : List String) :
    Registry.describeAll first config known entries requests
      = Registry.describeAll second config known entries requests := by
  induction requests generalizing known entries with
  | nil => rfl
  | cons request rest ih =>
    rw [Registry.describeAll, Registry.describeAll, Expansion.walk_congr alike.resolvedFields]
    obtain ⟨error, failed, failedToo⟩ | ⟨message, source, found, foundToo⟩ := alike.message request
    · rw [failed, failedToo]
      rfl
    · rw [found, foundToo]
      refine congrArg (Expansion.walk second known request >>= ·) (funext fun result => ?_)
      exact ih _ _

theorem registry (alike : SameButSource first second) (config : Config) :
    Registry.ofCorpus first config = Registry.ofCorpus second config := by
  rw [Registry.ofCorpus, Registry.ofCorpus, alike.describeAll, alike.requestTypes]

theorem builders (alike : SameButSource first second) (config : Config) :
    BuilderTable.ofCorpus first config = BuilderTable.ofCorpus second config := by
  have drafts : (fun name => (first.message name).map (BuilderDraft.ofMessage config name))
      = fun name => (second.message name).map (BuilderDraft.ofMessage config name) :=
    funext fun name => alike.map_message name fun _ _ => rfl
  rw [BuilderTable.ofCorpus, BuilderTable.ofCorpus, drafts, alike.requestTypes]

theorem planOf (alike : SameButSource first second) (config : Config) :
    EncoderPlans.planOf first config = EncoderPlans.planOf second config := by
  funext name
  rw [EncoderPlans.planOf, EncoderPlans.planOf, alike.resolvedFields]
  obtain ⟨error, failed, failedToo⟩ | ⟨message, source, found, foundToo⟩ := alike.message name
  · rw [failed, failedToo]
  · rw [found, foundToo]
    rfl

theorem plans (alike : SameButSource first second) (config : Config) :
    EncoderPlans.ofCorpus first config = EncoderPlans.ofCorpus second config := by
  rw [EncoderPlans.ofCorpus, EncoderPlans.ofCorpus, alike.fullClosure, alike.planOf,
    alike.requestTypes]

theorem generation (alike : SameButSource first second) (config : Config) :
    Generation.ofCorpus first config = Generation.ofCorpus second config := by
  rw [Generation.ofCorpus, Generation.ofCorpus, alike.registry, alike.builders, alike.plans]

end Corpus.SameButSource

namespace Generation

open Corpus

-- Files of different paths make the same corpus in any order, and a name in it stands for its first
-- definition in the order of paths. Where no name is defined twice the files may be cut in any other
-- way: the three texts come out the same, or the same error.
theorem render_of_sameContent :
    (∀ files others, DistinctPaths files → files.Perm others → ofFiles files = ofFiles others) ∧
    (∀ files, DistinctPaths files → ∀ name message,
      (ofFiles files).messages.get? name = some message ↔
        ∃ file ∈ files, file.definition? name = some message ∧
          ∀ other ∈ files, (other.definition? name).isSome →
            Path.notAfter file.path other.path = true) ∧
    ∀ files others, DistinctMessages files → DistinctMessages others → SameContent files others →
      ∀ config, (Generation.ofCorpus (ofFiles files) config).map (·.render config)
        = (Generation.ofCorpus (ofFiles others) config).map (·.render config) := by
  refine ⟨fun files others => ofFiles_of_perm, ?_, ?_⟩
  · intro files distinct name message
    refine ⟨first_of_get?, ?_⟩
    rintro ⟨file, member, defined, first⟩
    exact get?_of_first distinct member defined first
  · intro files others distinct distinctToo same config
    rw [(same.alike distinct distinctToo).generation]

end Generation

namespace Sample

-- The payload message of a single file, moved to a file of its own beside that of the service.
def movedFile : SourceFile where
  path := "types/pay.proto"
  package := "pay.v1"
  messages := [⟨"pay.v1", "MsgPay", [secondDecl, firstDecl], "types/pay.proto", none⟩]
  enums := []
  requests := []

def serviceFile : SourceFile where
  path := "service.proto"
  package := "pay.v1"
  messages := []
  enums := []
  requests := ["MsgPay"]

theorem sameContent_moved : Corpus.SameContent [swappedFile] [movedFile, serviceFile] where
  messages _ := .rfl
  enums _ := by simp [swappedFile, movedFile, serviceFile, SourceFile.enumNames]
  requests _ := by simp [swappedFile, movedFile, serviceFile, SourceFile.requestNames]

end Sample

namespace Generation

open Corpus Sample

theorem render_of_sameContent_moved :
    ofFiles [movedFile, serviceFile] = ofFiles [serviceFile, movedFile] ∧
    (∃ message, (ofFiles [movedFile, serviceFile]).messages.get? "pay.v1.MsgPay" = some message ∧
      message.source = "types/pay.proto") ∧
    ∃ artifacts,
      (Generation.ofCorpus (ofFiles [swappedFile]) .standard).map (·.render .standard) = .ok artifacts ∧
      (Generation.ofCorpus (ofFiles [movedFile, serviceFile]) .standard).map (·.render .standard)
        = .ok artifacts := by
  obtain ⟨permuted, first, alike⟩ := render_of_sameContent
  have distinct : DistinctPaths [movedFile, serviceFile] := by decide
  have rendered := alike [swappedFile] [movedFile, serviceFile] (by decide) (by decide)
    sameContent_moved .standard
  obtain ⟨generation, accepted, _⟩ := ofCorpus_pay [secondDecl, firstDecl] rfl rfl ofCorpus_swapped
  have ran : Generation.ofCorpus (ofFiles [swappedFile]) .standard = .ok generation := by
    rw [ofFiles_swapped]
    exact accepted
  refine ⟨permuted _ _ distinct (.swap _ _ _), ⟨_, (first _ distinct _ _).mpr
    ⟨movedFile, List.mem_cons_self, rfl, fun other member defines => ?_⟩, rfl⟩,
    generation.render .standard, ?_, ?_⟩
  · rcases List.mem_pair.mp member with rfl | rfl
    · exact Path.notAfter_compares.refl _
    · cases defines
  · rw [ran]
    rfl
  · rw [← rendered, ran]
    rfl

end Generation

end SigningSchema
