import SigningSchema.Builder.Rendered
import SigningSchema.Proofs.Corpus.Reachability
import SigningSchema.Proofs.Naming
import SigningSchema.Proofs.Results

-- A table has one entry for each payload message, so its entries can be told apart by what they say
-- exactly where the payload messages can.

namespace SigningSchema

namespace Corpus

-- The payload messages in order, as the table takes them.
def drafts (corpus : Corpus) (config : Config) : List BuilderDraft :=
  corpus.requestTypes.filterMap fun request =>
    (corpus.messages.get? request).map (BuilderDraft.ofMessage config request)

end Corpus

namespace BuilderDraft

variable {config : Config} {all drafts : List BuilderDraft} {taken : List String}

def entryOf (config : Config) (all : List BuilderDraft) (draft : BuilderDraft) (variant : String) :
    BuilderEntry where
  module := draft.module
  method := methodAmong all draft
  fullName := draft.fullName
  typeUrl := Package.typeUrl draft.fullName
  importName := importNameAmong all draft
  importPath := importPath config draft
  variant := variant

theorem entries_cons (config : Config) (all : List BuilderDraft) (taken : List String)
    (draft : BuilderDraft) (rest : List BuilderDraft) :
    entries config all taken (draft :: rest) =
      entryOf config all draft (variantBeside taken draft (methodAmong all draft)) ::
        entries config all (variantBeside taken draft (methodAmong all draft) :: taken) rest :=
  rfl

-- Nothing but the variant of an entry depends on the entries before it.
theorem map_entries {read : BuilderEntry → α} (said : BuilderDraft → α)
    (same : ∀ draft variant, read (entryOf config all draft variant) = said draft) :
    (entries config all taken drafts).map read = drafts.map said := by
  induction drafts generalizing taken with
  | nil => rfl
  | cons draft rest ih => rw [entries_cons, List.map_cons, List.map_cons, same, ih]

theorem exists_entry {draft : BuilderDraft} (member : draft ∈ drafts) :
    ∃ variant, entryOf config all draft variant ∈ entries config all taken drafts := by
  induction drafts generalizing taken with
  | nil => cases member
  | cons first rest ih =>
    rw [entries_cons]
    rcases List.mem_cons.mp member with rfl | later
    · exact ⟨_, List.mem_cons_self⟩
    · obtain ⟨variant, inside⟩ := ih later
      exact ⟨variant, List.mem_cons_of_mem _ inside⟩

end BuilderDraft

namespace BuilderTable

variable {corpus : Corpus} {config : Config} {builders : BuilderTable}

-- What a table is made of.
structure Made (corpus : Corpus) (config : Config) (builders : BuilderTable) : Prop where
  names : (corpus.drafts config).map BuilderDraft.fullName = corpus.requestTypes
  entries : builders.entries.Perm
    (BuilderDraft.entries config (corpus.drafts config) [] (corpus.drafts config))

theorem made_of_ofCorpus (built : ofCorpus corpus config = .ok builders) :
    Made corpus config builders := by
  obtain ⟨drafts, ran, last⟩ := bind_ok built
  cases last
  have each := mapM_ok ran
  have same : corpus.drafts config = drafts := by
    unfold Corpus.drafts
    generalize corpus.requestTypes = requests at each
    clear ran built
    induction each with
    | nil => rfl
    | cons made _ ih =>
      obtain ⟨message, found, rfl⟩ := map_ok made
      rw [List.filterMap_cons, Corpus.message_ok found, Option.map_some, ih]
  refine ⟨?_, same ▸ List.mergeSort_perm _ _⟩
  rw [same, ← List.map_id corpus.requestTypes]
  refine (map_eq_of_forall₂ (each.imp fun request draft made => ?_)).symm
  obtain ⟨message, _, rfl⟩ := map_ok made
  rfl

-- One entry for each payload message, though in another order.
theorem typeUrls_perm (built : ofCorpus corpus config = .ok builders) :
    (builders.entries.map BuilderEntry.typeUrl).Perm (corpus.requestTypes.map Package.typeUrl) := by
  have made := made_of_ofCorpus built
  refine (made.entries.map _).trans (.of_eq ?_)
  rw [BuilderDraft.map_entries (fun draft => Package.typeUrl draft.fullName) fun _ _ => rfl,
    ← made.names, List.map_map]
  rfl

namespace Made

variable (made : Made corpus config builders) (set : NameSet.Ascending corpus.requestTypes)

include made

theorem exists_entry (draft : BuilderDraft) (member : draft ∈ corpus.drafts config) :
    ∃ variant, BuilderDraft.entryOf config (corpus.drafts config) draft variant ∈ builders.entries := by
  obtain ⟨variant, inside⟩ := BuilderDraft.exists_entry member
  exact ⟨variant, made.entries.mem_iff.mpr inside⟩

include set in
theorem drafts_nodup : (corpus.drafts config).Nodup := by
  refine List.Nodup.of_map BuilderDraft.fullName ?_
  rw [made.names]
  exact set.imp fun below => ne_of_lt below

include set in
theorem entries_nodup : builders.entries.Nodup := by
  have names : (builders.entries.map BuilderEntry.fullName).Perm corpus.requestTypes := by
    refine (made.entries.map _).trans (.of_eq ?_)
    rw [BuilderDraft.map_entries BuilderDraft.fullName fun _ _ => rfl, made.names]
  exact .of_map _ (names.nodup_iff.mpr (set.imp fun below => ne_of_lt below))

theorem nodup_iff {read : BuilderEntry → α} {said : BuilderDraft → α}
    (same : ∀ draft variant, read (BuilderDraft.entryOf config (corpus.drafts config) draft variant) = said draft) :
    (builders.entries.map read).Nodup ↔ ((corpus.drafts config).map said).Nodup := by
  rw [(made.entries.map read).nodup_iff, BuilderDraft.map_entries said same]

end Made

end BuilderTable

end SigningSchema
