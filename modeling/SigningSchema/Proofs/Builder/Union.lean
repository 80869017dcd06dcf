import SigningSchema.Proofs.Builder.Entries
import SigningSchema.Proofs.Text

-- When the cases of the payload union, and the types it imports, can be told apart. A case is named for
-- module and method, or for package and type where that name is taken; whether the second name is taken
-- as well is not asked. An import is qualified where two payload messages are declared under one name;
-- whether two names are spelled alike as types is not asked.

namespace SigningSchema

namespace BuilderDraft

variable {config : Config} {all drafts : List BuilderDraft}

def importNaming : Naming BuilderDraft String String where
  kind := localName
  plain draft := Identifier.typeName draft.localName
  qualified draft := Identifier.pascalCase draft.package ++ Identifier.typeName draft.localName

theorem name_import (drafts : List BuilderDraft) :
    importNaming.name drafts = importNameAmong drafts := rfl

def shortVariant (all : List BuilderDraft) (draft : BuilderDraft) : String :=
  Identifier.pascalCase draft.module ++ Identifier.pascalCase (methodAmong all draft)

def longVariant (draft : BuilderDraft) : String :=
  Identifier.pascalCase draft.package ++ Identifier.typeName draft.localName

-- The cases of the first payload messages, in the order in which they are named.
def variants (config : Config) (all drafts : List BuilderDraft) : List String :=
  (entries config all [] drafts).map BuilderEntry.variant

theorem entries_append (taken : List String) (drafts more : List BuilderDraft) :
    entries config all taken (drafts ++ more) = entries config all taken drafts ++
      entries config all (((entries config all taken drafts).map BuilderEntry.variant).reverse ++ taken)
        more := by
  induction drafts generalizing taken with
  | nil => rfl
  | cons draft rest ih =>
    simp only [List.cons_append, entries_cons, ih, List.map_cons, List.reverse_cons,
      List.append_assoc, List.nil_append, entryOf]

-- One more payload message gets its short name, or its long name if the short one is taken.
theorem variants_concat (drafts : List BuilderDraft) (draft : BuilderDraft) :
    variants config all (drafts ++ [draft]) = variants config all drafts ++
      [if shortVariant all draft ∈ variants config all drafts then longVariant draft
        else shortVariant all draft] := by
  rw [variants, entries_append, List.map_append]
  congr 1
  simp only [entries, List.map_cons, List.map_nil, variantBeside, List.contains_iff_mem,
    List.append_nil, List.mem_reverse]
  rfl

-- Cases are told apart exactly where each payload message finds one of its two names free.
theorem variants_nodup_iff : (variants config all drafts).Nodup ↔
    ∀ before draft, before ++ [draft] <+: drafts →
      shortVariant all draft ∈ variants config all before →
        longVariant draft ∉ variants config all before := by
  induction drafts using List.reverseRecOn with
  | nil => simp [variants, entries]
  | append_singleton drafts last ih =>
    have step : (variants config all (drafts ++ [last])).Nodup ↔ (variants config all drafts).Nodup ∧
        (shortVariant all last ∈ variants config all drafts →
          longVariant last ∉ variants config all drafts) := by
      rw [variants_concat, ← List.concat_eq_append, List.nodup_concat, and_comm]
      refine and_congr_right fun _ => ?_
      split
      next taken => exact ⟨fun free _ => free, fun free => free taken⟩
      next untaken => exact iff_of_true untaken fun taken => absurd taken untaken
    rw [step, ih]
    constructor
    · intro ⟨earlier, own⟩ before draft begins taken
      rcases List.prefix_concat_iff.mp begins with whole | inside
      · obtain ⟨rfl, rfl⟩ := List.append_singleton_inj.mp whole
        exact own taken
      · exact earlier before draft inside taken
    · exact fun each => ⟨fun before draft inside =>
        each before draft (inside.trans (List.prefix_append _ _)),
        each drafts last (List.prefix_refl _)⟩

theorem mem_variants {variant : String} (member : variant ∈ variants config all drafts) :
    ∃ draft ∈ drafts, variant = shortVariant all draft ∨ variant = longVariant draft := by
  induction drafts using List.reverseRecOn with
  | nil => cases member
  | append_singleton drafts last ih =>
    rw [variants_concat] at member
    rcases List.mem_append.mp member with earlier | own
    · obtain ⟨draft, inside, named⟩ := ih earlier
      exact ⟨draft, List.mem_append_left _ inside, named⟩
    · refine ⟨last, List.mem_append_right _ List.mem_cons_self, ?_⟩
      rw [List.mem_singleton] at own
      split at own
      · exact .inr own
      · exact .inl own

-- It is enough that the long names are told apart from each other and from the short names.
theorem variants_nodup (distinct : drafts.Nodup)
    (free : ∀ one ∈ drafts, ∀ other ∈ drafts, one ≠ other →
      longVariant one ≠ shortVariant all other ∧ longVariant one ≠ longVariant other) :
    (variants config all drafts).Nodup := by
  refine variants_nodup_iff.mpr fun before draft begins _ taken => ?_
  obtain ⟨earlier, inside, named⟩ := mem_variants taken
  obtain ⟨apart, short, long⟩ : draft ≠ earlier ∧ longVariant draft ≠ shortVariant all earlier ∧
      longVariant draft ≠ longVariant earlier := by
    have differ : draft ≠ earlier := by
      have split := begins.sublist.nodup distinct
      rintro rfl
      exact (List.nodup_append.mp split).2.2 draft inside draft List.mem_cons_self rfl
    refine ⟨differ, free draft (begins.subset (by simp)) earlier ?_ differ⟩
    exact begins.subset (List.mem_append_left _ inside)
  exact named.elim short long

end BuilderDraft

namespace BuilderTable

open BuilderDraft
open Text (Within)

variable {corpus : Corpus} {config : Config} {builders : BuilderTable}

-- The address that the union gives for a case: the one of the first arm that names it.
def addressOf (builders : BuilderTable) (variant : String) : Option String :=
  (builders.entries.find? fun entry => entry.variant = variant).map BuilderEntry.typeUrl

-- The module imports in turn, lists its cases in turn and asks for them in turn.
theorem render_lines (builders : BuilderTable) :
    Within (Text.concat (builders.entries.map importLine)) builders.render ∧
    Within (Text.concat (builders.entries.map variantLines)) builders.render ∧
    Within (Text.concat (builders.entries.map addressArm)) builders.render := by
  unfold render
  dsimp only
  refine ⟨?_, ?_, ?_⟩
  · exact .before (.before (.before (.before (.before (.before (.before (.before (.before (.before
      (.after _ (.refl _)) _) _) _) _) _) _) _) _) _) _
  · exact .before (.before (.before (.before (.before (.before (.after _ (.refl _)) _) _) _) _) _) _
  · refine .before (.before (.before (.before (.after _ ?_) _) _) _) _
    split
    · rename_i none
      rw [List.isEmpty_iff.mp none]
      exact .empty _
    · exact .before (.after _ (.refl _)) _

-- What an import line makes known is the import name, either as the last of its path or by renaming.
theorem importLine_binds (entry : BuilderEntry) :
    (∃ path, importLine entry = "use " ++ (path ++ "::" ++ entry.importName) ++ ";\n") ∨
    ∃ path, importLine entry = "use " ++ path ++ " as " ++ entry.importName ++ ";\n" := by
  unfold importLine
  split
  · exact .inr ⟨_, rfl⟩
  next kept =>
    have ending : ("::" ++ entry.importName).toList <:+ entry.importPath.toList := by
      rw [← List.isSuffixOf_iff_suffix]
      rw [BuilderEntry.isAliased, Bool.not_eq_true', Bool.not_eq_false] at kept
      exact kept
    obtain ⟨path, whole⟩ := ending
    refine .inl ⟨String.ofList path, ?_⟩
    have split : entry.importPath = String.ofList path ++ ("::" ++ entry.importName) := by
      rw [← String.toList_inj, String.toList_append, String.toList_ofList, whole]
    simp only [split, String.append_assoc]

-- The first arm for a case is its own arm exactly where it gives the address of the case.
theorem addressOf_iff (built : ofCorpus corpus config = .ok builders)
    (set : NameSet.Ascending corpus.requestTypes) :
    (∀ entry ∈ builders.entries, addressOf builders entry.variant = some entry.typeUrl) ↔
      (builders.entries.map BuilderEntry.variant).Nodup := by
  have urls : (builders.entries.map BuilderEntry.typeUrl).Nodup := by
    refine (typeUrls_perm built).nodup_iff.mpr (List.Nodup.map ?_ (set.imp fun below => ne_of_lt below))
    exact fun _ _ => (String.append_right_inj "/").mp
  rw [← find?_key_iff ((made_of_ofCorpus built).entries_nodup set)]
  refine forall₂_congr fun entry inside => ⟨fun address => ?_, fun found => ?_⟩
  · obtain ⟨other, found, url⟩ := Option.map_eq_some_iff.mp address
    rw [found, List.inj_on_of_nodup_map urls (List.mem_of_find?_eq_some found) inside url]
  · rw [addressOf, found, Option.map_some]

-- There is one case for each address. Cases are told apart exactly where each payload message finds one
-- of its two names free, and then, and only then, each has its own address. Imports are told apart
-- exactly where no payload messages clash.
theorem union_distinct_iff (built : ofCorpus corpus config = .ok builders)
    (set : NameSet.Ascending corpus.requestTypes) :
    (builders.entries.map BuilderEntry.typeUrl).Perm (corpus.requestTypes.map Package.typeUrl) ∧
    ((builders.entries.map BuilderEntry.variant).Nodup ↔
      ∀ before draft, before ++ [draft] <+: corpus.drafts config →
        shortVariant (corpus.drafts config) draft ∈ variants config (corpus.drafts config) before →
          longVariant draft ∉ variants config (corpus.drafts config) before) ∧
    ((∀ one ∈ corpus.drafts config, ∀ other ∈ corpus.drafts config, one ≠ other →
        longVariant one ≠ shortVariant (corpus.drafts config) other ∧
          longVariant one ≠ longVariant other) →
      (builders.entries.map BuilderEntry.variant).Nodup) ∧
    ((∀ entry ∈ builders.entries, addressOf builders entry.variant = some entry.typeUrl) ↔
      (builders.entries.map BuilderEntry.variant).Nodup) ∧
    ((builders.entries.map BuilderEntry.importName).Nodup ↔
      importNaming.Free (corpus.drafts config)) ∧
    (∀ entry ∈ builders.entries,
      (∃ path, importLine entry = "use " ++ (path ++ "::" ++ entry.importName) ++ ";\n") ∨
      ∃ path, importLine entry = "use " ++ path ++ " as " ++ entry.importName ++ ";\n") ∧
    Within (Text.concat (builders.entries.map importLine)) builders.render ∧
    Within (Text.concat (builders.entries.map variantLines)) builders.render ∧
    Within (Text.concat (builders.entries.map addressArm)) builders.render := by
  have made := made_of_ofCorpus built
  have distinct := made.drafts_nodup set
  have cases : (builders.entries.map BuilderEntry.variant).Nodup ↔
      (variants config (corpus.drafts config) (corpus.drafts config)).Nodup :=
    (made.entries.map _).nodup_iff
  refine ⟨typeUrls_perm built, cases.trans variants_nodup_iff,
    fun free => cases.mpr (variants_nodup distinct free), addressOf_iff built set, ?_,
    fun entry _ => importLine_binds entry, render_lines builders⟩
  refine (made.nodup_iff fun draft _ => ?_).trans (importNaming.nodup_iff distinct)
  rw [name_import]
  rfl

-- A case that has to fall back to its long name, and two packages that declare a name alike.
def artCorpus (third : String) : Corpus where
  messages := [
    ("demo.art.v1.MsgMintNFT", ⟨"demo.art.v1", "MsgMintNFT", [], "one.proto", none⟩),
    ("demo.art_mint.v1.MsgNFT", ⟨"demo.art_mint.v1", "MsgNFT", [], "two.proto", none⟩),
    ("demo.shop.v1." ++ third, ⟨"demo.shop.v1", third, [], "three.proto", none⟩)]
  enums := []
  requestTypes := ["demo.art.v1.MsgMintNFT", "demo.art_mint.v1.MsgNFT", "demo.shop.v1." ++ third]

-- Three messages of one package. The first case has the name to which the third one falls back.
def payCorpus : Corpus where
  messages := [
    ("pay.MsgMsgSendIt", ⟨"pay", "MsgMsgSendIt", [], "pay.proto", none⟩),
    ("pay.MsgSendIt", ⟨"pay", "MsgSendIt", [], "pay.proto", none⟩),
    ("pay.MsgSend_it", ⟨"pay", "MsgSend_it", [], "pay.proto", none⟩)]
  enums := []
  requestTypes := ["pay.MsgMsgSendIt", "pay.MsgSendIt", "pay.MsgSend_it"]

theorem union_clash : (∃ builders, ofCorpus (artCorpus "MsgMintNft") .standard = .ok builders ∧
      ¬ (builders.entries.map BuilderEntry.importName).Nodup) ∧
    ∃ builders, ofCorpus payCorpus .standard = .ok builders ∧
      ¬ (builders.entries.map BuilderEntry.variant).Nodup ∧
      ¬ ∀ entry ∈ builders.entries, addressOf builders entry.variant = some entry.typeUrl := by
  constructor
  · obtain ⟨builders, built⟩ : ∃ builders,
        ofCorpus (artCorpus "MsgMintNft") .standard = .ok builders := ⟨_, rfl⟩
    have names : (builders.entries.map BuilderEntry.importName).Perm
        ["MsgMintNft", "MsgNft", "MsgMintNft"] :=
      ((made_of_ofCorpus built).entries.map _).trans (.of_eq (by decide))
    exact ⟨builders, built, fun distinct => absurd (names.nodup_iff.mp distinct) (by decide)⟩
  · obtain ⟨builders, built⟩ : ∃ builders, ofCorpus payCorpus .standard = .ok builders := ⟨_, rfl⟩
    have made := made_of_ofCorpus built
    have cases : (builders.entries.map BuilderEntry.variant).Perm
        ["PayMsgSendIt", "PaySendIt", "PayMsgSendIt"] :=
      (made.entries.map _).trans (.of_eq (by decide +kernel))
    have repeated : ¬ (builders.entries.map BuilderEntry.variant).Nodup :=
      fun distinct => absurd (cases.nodup_iff.mp distinct) (by decide)
    have set : NameSet.Ascending payCorpus.requestTypes := by
      unfold NameSet.Ascending
      decide
    exact ⟨builders, built, repeated, fun own => repeated ((addressOf_iff built set).mp own)⟩

theorem union_distinct_iff_art : NameSet.Ascending (artCorpus "MsgMintNFT").requestTypes ∧
    ∃ builders, ofCorpus (artCorpus "MsgMintNFT") .standard = .ok builders ∧
      (builders.entries.map BuilderEntry.variant).Nodup ∧
      (∀ entry ∈ builders.entries, addressOf builders entry.variant = some entry.typeUrl) ∧
      importNaming.Free ((artCorpus "MsgMintNFT").drafts .standard) := by
  have set : NameSet.Ascending (artCorpus "MsgMintNFT").requestTypes := by
    unfold NameSet.Ascending
    decide
  obtain ⟨builders, built⟩ : ∃ builders,
      ofCorpus (artCorpus "MsgMintNFT") .standard = .ok builders := ⟨_, rfl⟩
  obtain ⟨_, _, _, addresses, imports, _⟩ := union_distinct_iff built set
  have made := made_of_ofCorpus built
  have cases : (builders.entries.map BuilderEntry.variant).Perm
      ["ArtMintNFT", "DemoArtMintV1MsgNft", "ShopMintNFT"] :=
    (made.entries.map _).trans (.of_eq (by decide +kernel))
  have names : (builders.entries.map BuilderEntry.importName).Perm
      ["DemoArtV1MsgMintNft", "MsgNft", "DemoShopV1MsgMintNft"] :=
    (made.entries.map _).trans (.of_eq (by decide))
  have distinct := cases.nodup_iff.mpr (by decide)
  exact ⟨set, builders, built, distinct, addresses.mpr distinct,
    imports.mp (names.nodup_iff.mpr (by decide))⟩

end BuilderTable

end SigningSchema
