import SigningSchema.Proofs.Builder.Constructors
import SigningSchema.Proofs.Builder.Union
import SigningSchema.Proofs.Corpus.Assembly
import SigningSchema.Proofs.Identifiers
import SigningSchema.Proofs.Source.Shapes

-- When the names of a builder module can stand in code. Of the words of the language those that are not
-- escaped come through, and what is left of a name may begin with a digit or be an underscore alone.

namespace SigningSchema

open Identifier (Legal Letters IsPlainText IsDotted initial? pascalCase snakeCase unescaped)

namespace Package

theorem beforeVersion?_mem {segments : List String} {segment : String}
    (found : beforeVersion? segments = some segment) : segment ∈ segments := by
  induction segments with
  | nil => cases found
  | cons first rest ih =>
    unfold beforeVersion? at found
    split at found
    · cases found
    · cases rest with
      | nil => cases found
      | cons next more =>
        dsimp only at found
        split at found
        · cases found
          exact List.mem_cons_self
        · exact List.mem_cons_of_mem _ (ih found)

theorem moduleName_mem (roots : List String) (package : String) :
    moduleName roots package ∈ Text.split '.' package := by
  have segment : (beforeVersion? (Text.split '.' package)).getD (Text.lastPart '.' package)
      ∈ Text.split '.' package := by
    cases found : beforeVersion? (Text.split '.' package) with
    | none => exact Text.lastPart_mem '.' package
    | some segment => exact beforeVersion?_mem found
  rw [moduleName]
  split
  · rename_i first second more parts
    split
    · rw [parts]
      exact List.mem_cons_of_mem _ List.mem_cons_self
    · exact segment
  · exact segment

theorem methodName_ne_empty {beginning localName : String} (given : localName ≠ "") :
    methodName beginning localName ≠ "" := by
  apply Identifier.lowerFirstText_ne_empty
  split
  · exact given
  · assumption

theorem methodName_plain {beginning localName : String} (plain : IsPlainText localName) :
    IsPlainText (methodName beginning localName) := by
  refine IsPlainText.lowerFirst ?_
  split
  · exact plain
  · cases dropped : Text.dropBeginning? beginning localName with
    | none => exact plain
    | some rest =>
      rw [Text.dropBeginning?_iff.mp dropped] at plain
      intro c inside
      refine plain c ?_
      rw [String.toList_append]
      exact List.mem_append_right _ inside

end Package

namespace BuilderDraft

variable {config : Config} {all drafts : List BuilderDraft} {draft : BuilderDraft} {letters : Letters}

theorem draft_of_mem_entries {taken : List String} {entry : BuilderEntry}
    (member : entry ∈ entries config all taken drafts) : ∃ draft ∈ drafts, ∃ earlier,
      entry = entryOf config all draft (variantBeside earlier draft (methodAmong all draft)) := by
  induction drafts generalizing taken with
  | nil => cases member
  | cons first rest ih =>
    rw [entries_cons] at member
    rcases List.mem_cons.mp member with here | later
    · exact ⟨first, List.mem_cons_self, taken, here⟩
    · obtain ⟨draft, inside, earlier, same⟩ := ih later
      exact ⟨draft, List.mem_cons_of_mem _ inside, earlier, same⟩

-- A payload message with the names that were read for it.
structure FromNames (config : Config) (draft : BuilderDraft) : Prop where
  package : Source.Named Source.isDotted draft.package.toList
  localName : Source.Named Unicode.isWord draft.localName.toList
  module : draft.module = Package.moduleName config.rootNamespaces draft.package
  method : draft.method = Package.methodName config.messagePrefix draft.localName

theorem fromNames {files : List SourceFile}
    (read : ∀ file ∈ files, ∃ path text, SourceFile.read? config path text = some file)
    (member : draft ∈ (Corpus.ofFiles files).drafts config) : FromNames config draft := by
  obtain ⟨name, _, made⟩ := List.mem_filterMap.mp member
  obtain ⟨message, found, rfl⟩ := Option.map_eq_some_iff.mp made
  obtain ⟨listed, _⟩ := Corpus.declared_of_get? found
  obtain ⟨file, inside, declared⟩ := List.mem_flatMap.mp listed
  obtain ⟨path, text, read⟩ := read file inside
  obtain ⟨package, localName⟩ := SourceFile.named_of_read read declared
  exact ⟨package, localName, rfl, rfl⟩

theorem FromNames.method_ne_empty (named : FromNames config draft) : draft.method ≠ "" := by
  rw [named.method]
  apply Package.methodName_ne_empty
  obtain ⟨c, rest, chars, _⟩ := named.localName
  rintro empty
  rw [empty] at chars
  cases chars

-- A qualified method is neither a word of the language nor an underscore alone.
theorem legal_functionName_iff (given : draft.method ≠ "") :
    Legal letters (Identifier.escapeReserved (snakeCase (methodAmong all draft))) ↔
      ((sharing all draft).length ≤ 1 → draft.method ≠ "_" ∧ snakeCase draft.method ∉ unescaped) ∧
        letters.Begins (snakeCase draft.method) := by
  rw [Identifier.legal_function_iff, methodAmong_eq]
  by_cases alone : (sharing all draft).length ≤ 1
  · rw [if_pos alone, forall_prop_of_true alone]
  · have notLone : draft.method ++ "_" ++ qualifier all draft ≠ "_" := by
      intro lone
      have single := congrArg String.length lone
      simp only [String.length_append] at single
      have long : draft.method.length ≠ 0 := fun none => given (String.length_eq_zero_iff.mp none)
      omega
    have free : snakeCase draft.method ++ "_" ++ snakeCase (qualifier all draft) ∉ unescaped := by
      intro inside
      exact Identifier.keywords_plain _ (Identifier.mem_unescaped.mp inside).1 (by simp)
    have begins : letters.Begins (snakeCase draft.method ++ "_" ++ snakeCase (qualifier all draft)) ↔
        letters.Begins (snakeCase draft.method) := by
      rw [String.append_assoc]
      exact letters.begins_append (Identifier.snakeCase_ne_empty given)
    rw [if_neg alone, Identifier.snakeCase_joined, begins]
    exact and_congr_left fun _ => iff_of_true ⟨notLone, free⟩ fun shared => absurd shared alone

-- The texts that the names of an entry are spelled from. Types and cases are spelled in capitals, from
-- names that are joined by underscores.
structure SpelledFrom (all : List BuilderDraft) (draft : BuilderDraft) (entry : BuilderEntry)
    (caseText typeText : String) : Prop where
  fullName : entry.fullName = draft.fullName
  module : entry.module = draft.module
  method : entry.method = methodAmong all draft
  variant : entry.variant = pascalCase caseText
  caseCases : caseText = draft.module ++ "_" ++ methodAmong all draft ∨
    caseText = draft.package ++ "_" ++ snakeCase draft.localName
  importName : entry.importName = pascalCase typeText
  typeCases : typeText = snakeCase draft.localName ∨
    typeText = draft.package ++ "_" ++ snakeCase draft.localName

theorem exists_spelledFrom (config : Config) (all : List BuilderDraft) (draft : BuilderDraft)
    (earlier : List String) : ∃ caseText typeText, SpelledFrom all draft
      (entryOf config all draft (variantBeside earlier draft (methodAmong all draft)))
      caseText typeText := by
  obtain ⟨caseText, spelled, cases⟩ : ∃ text,
      variantBeside earlier draft (methodAmong all draft) = pascalCase text ∧
        (text = draft.module ++ "_" ++ methodAmong all draft ∨
          text = draft.package ++ "_" ++ snakeCase draft.localName) := by
    rw [variantBeside]
    split
    · exact ⟨_, (Identifier.pascalCase_append _ _).symm, .inr rfl⟩
    · exact ⟨_, (Identifier.pascalCase_append _ _).symm, .inl rfl⟩
  obtain ⟨typeText, spelledToo, casesToo⟩ : ∃ text, importNameAmong all draft = pascalCase text ∧
      (text = snakeCase draft.localName ∨
        text = draft.package ++ "_" ++ snakeCase draft.localName) := by
    rw [importNameAmong]
    split
    · exact ⟨_, rfl, .inl rfl⟩
    · exact ⟨_, (Identifier.pascalCase_append _ _).symm, .inr rfl⟩
  exact ⟨caseText, typeText, rfl, rfl, rfl, spelled, cases, spelledToo, casesToo⟩

section Ascii

def IsAscii (draft : BuilderDraft) : Prop :=
  ∀ c ∈ draft.package.toList ++ draft.localName.toList, c.toNat < 0x80

variable (named : FromNames config draft) (ascii : draft.IsAscii)

include named ascii

theorem FromNames.localName_plain : IsPlainText draft.localName := fun c inside =>
  ⟨ascii c (List.mem_append_right _ inside), named.localName.forall (fun _ word => word) c inside⟩

theorem FromNames.package_dotted : IsDotted draft.package := by
  intro c inside
  have dotted := named.package.forall (fun _ => Source.isDotted_of_isWord) c inside
  cases word : Unicode.isWord c with
  | true => exact .inl ⟨ascii c (List.mem_append_left _ inside), word⟩
  | false => exact .inr (Source.eq_dot_of_dotted dotted word)

theorem FromNames.segment_plain {segment : String} (member : segment ∈ Text.split '.' draft.package) :
    IsPlainText segment := by
  intro c inside
  obtain ⟨listed, other⟩ := Text.mem_split member c inside
  exact (named.package_dotted ascii c listed).resolve_right other

theorem FromNames.module_plain : IsPlainText draft.module := by
  rw [named.module]
  exact named.segment_plain ascii (Package.moduleName_mem _ _)

theorem FromNames.method_plain : IsPlainText draft.method := by
  rw [named.method]
  exact Package.methodName_plain (named.localName_plain ascii)

theorem FromNames.methodAmong_plain (all : List BuilderDraft) : IsPlainText (methodAmong all draft) := by
  rw [methodAmong_eq]
  split
  · exact named.method_plain ascii
  · refine (named.method_plain ascii).joined ?_
    rw [qualifier]
    split
    · exact named.segment_plain ascii (Text.lastPart_mem _ _)
    · exact IsPlainText.joined_of_forall fun segment => named.segment_plain ascii

-- What cases and types are spelled from is of ASCII too.
theorem FromNames.spelled_dotted {entry : BuilderEntry} {caseText typeText : String}
    (spelled : SpelledFrom all draft entry caseText typeText) : IsDotted caseText ∧ IsDotted typeText := by
  have own := (named.localName_plain ascii).snakeCase.dotted
  have qualified := (named.package_dotted ascii).joined own
  constructor
  · rcases spelled.caseCases with rfl | rfl
    · exact ((named.module_plain ascii).joined (named.methodAmong_plain ascii all)).dotted
    · exact qualified
  · rcases spelled.typeCases with rfl | rfl
    · exact own
    · exact qualified

end Ascii

end BuilderDraft

namespace BuilderTable

open BuilderDraft (sharing SpelledFrom)

variable {config : Config} {files : List SourceFile} {builders : BuilderTable} {entry : BuilderEntry}

-- Which names can stand in code, by what they are spelled from. Of the words of the language some come
-- through for functions and modules, and one for types and cases. In names of ASCII the rest is digits.
theorem names_legal_iff (letters : Letters)
    (read : ∀ file ∈ files, ∃ path text, SourceFile.read? config path text = some file)
    (built : ofCorpus (.ofFiles files) config = .ok builders) (member : entry ∈ builders.entries) :
    ∃ draft ∈ (Corpus.ofFiles files).drafts config, ∃ caseText typeText,
      SpelledFrom ((Corpus.ofFiles files).drafts config) draft entry caseText typeText ∧
      (Legal letters entry.functionModule ↔
        (draft.module ≠ "_" ∧ snakeCase draft.module ∉ unescaped) ∧
          letters.Begins (snakeCase draft.module)) ∧
      (Legal letters entry.functionName ↔
        ((sharing ((Corpus.ofFiles files).drafts config) draft).length ≤ 1 →
          draft.method ≠ "_" ∧ snakeCase draft.method ∉ unescaped) ∧
          letters.Begins (snakeCase draft.method)) ∧
      (Legal letters entry.variant ↔ entry.variant ≠ "Self" ∧ letters.Begins entry.variant) ∧
      (Legal letters entry.importName ↔ entry.importName ≠ "Self" ∧ letters.Begins entry.importName) ∧
      (draft.IsAscii →
        (letters.Begins (snakeCase draft.module) ↔
          ∃ c ∈ draft.module.toList.head?, c.isDigit = false) ∧
        (letters.Begins (snakeCase draft.method) ↔
          ∃ c ∈ draft.method.toList.head?, c.isDigit = false) ∧
        (letters.Begins entry.variant ↔ ∃ c ∈ initial? caseText, c.isDigit = false) ∧
        (letters.Begins entry.importName ↔ ∃ c ∈ initial? typeText, c.isDigit = false)) := by
  have listed := (made_of_ofCorpus built).entries.mem_iff.mp member
  obtain ⟨draft, inside, earlier, rfl⟩ := BuilderDraft.draft_of_mem_entries listed
  have named := BuilderDraft.fromNames read inside
  obtain ⟨caseText, typeText, spelled⟩ := BuilderDraft.exists_spelledFrom config
    ((Corpus.ofFiles files).drafts config) draft earlier
  refine ⟨draft, inside, caseText, typeText, spelled, Identifier.legal_function_iff,
    BuilderDraft.legal_functionName_iff named.method_ne_empty, ?_, ?_, fun ascii => ?_⟩
  · rw [spelled.variant]
    exact Identifier.legal_type_iff
  · rw [spelled.importName]
    exact Identifier.legal_type_iff
  · obtain ⟨caseDotted, typeDotted⟩ := named.spelled_dotted ascii spelled
    rw [spelled.variant, spelled.importName]
    exact ⟨Identifier.begins_snakeCase_iff (named.module_plain ascii),
      Identifier.begins_snakeCase_iff (named.method_plain ascii),
      Identifier.begins_pascalCase_ascii caseDotted, Identifier.begins_pascalCase_ascii typeDotted⟩

-- A payload message whose method is a word that is left as it is, and one whose method is escaped.
def vaultText : String :=
  "package demo.vault.v1;\nservice Msg \x7b rpc Try(MsgTry) returns (MsgTry);\n"
    ++ "  rpc Move(MsgMove) returns (MsgMove); \x7d\nmessage MsgTry \x7b \x7d\nmessage MsgMove \x7b \x7d\n"

def vaultFile : SourceFile where
  path := "vault.proto"
  package := "demo.vault.v1"
  messages := [⟨"demo.vault.v1", "MsgTry", [], "vault.proto", none⟩,
    ⟨"demo.vault.v1", "MsgMove", [], "vault.proto", none⟩]
  enums := []
  requests := ["MsgTry", "MsgMove"]

theorem read?_vault : SourceFile.read? .standard "vault.proto" vaultText = some vaultFile := by
  unfold SourceFile.read? vaultText
  simp only [String.toList_append]
  repeat rw [String.toList_ofList]
  decide +kernel

theorem ofFiles_vault : Corpus.ofFiles [vaultFile] = [vaultFile].foldl Corpus.addFile .empty := by
  rw [Corpus.ofFiles, List.mergeSort_singleton]

def moveDraft : BuilderDraft := ⟨"demo.vault.v1.MsgMove", "demo.vault.v1", "MsgMove", "vault", "move"⟩

def tryDraft : BuilderDraft := ⟨"demo.vault.v1.MsgTry", "demo.vault.v1", "MsgTry", "vault", "try"⟩

theorem drafts_vault : (Corpus.ofFiles [vaultFile]).drafts .standard = [moveDraft, tryDraft] := by
  rw [ofFiles_vault]
  decide

theorem ofCorpus_vault : ∃ builders, ofCorpus (.ofFiles [vaultFile]) .standard = .ok builders := by
  rw [ofFiles_vault]
  exact ⟨_, rfl⟩

theorem names_illegal_try : SourceFile.read? .standard "vault.proto" vaultText = some vaultFile ∧
    ∃ builders, ofCorpus (.ofFiles [vaultFile]) .standard = .ok builders ∧
      ∃ entry ∈ builders.entries, entry.fullName = "demo.vault.v1.MsgTry" ∧
        entry.functionName = "try" ∧ ∀ letters, ¬ Legal letters entry.functionName := by
  obtain ⟨builders, built⟩ := ofCorpus_vault
  have listed : tryDraft ∈ (Corpus.ofFiles [vaultFile]).drafts .standard := by
    rw [drafts_vault]
    decide
  obtain ⟨variant, member⟩ := (made_of_ofCorpus built).exists_entry tryDraft listed
  have method : BuilderDraft.methodAmong ((Corpus.ofFiles [vaultFile]).drafts .standard) tryDraft
      = "try" := by
    rw [drafts_vault]
    decide
  have spelled : (BuilderDraft.entryOf .standard ((Corpus.ofFiles [vaultFile]).drafts .standard)
      tryDraft variant).functionName = "try" := by
    rw [BuilderEntry.functionName, BuilderDraft.entryOf, method]
    show Identifier.escapeReserved (snakeCase "try") = "try"
    decide
  refine ⟨read?_vault, builders, built, _, member, rfl, spelled, fun letters legal => ?_⟩
  rw [spelled] at legal
  exact absurd legal.free (by decide)

-- The class of just the letters of ASCII.
def asciiLetters : Letters := ⟨Char.isAlpha, fun _ _ => rfl⟩

-- The other message of that file has names that can stand in code, one of them escaped.
theorem names_legal_iff_move :
    (∀ file ∈ [vaultFile], ∃ path text, SourceFile.read? .standard path text = some file) ∧
    ∃ builders, ofCorpus (.ofFiles [vaultFile]) .standard = .ok builders ∧
      ∃ entry ∈ builders.entries, entry.fullName = "demo.vault.v1.MsgMove" ∧
        Legal asciiLetters entry.functionModule ∧ Legal asciiLetters entry.functionName ∧
        Legal asciiLetters entry.variant ∧ Legal asciiLetters entry.importName := by
  have read : ∀ file ∈ [vaultFile], ∃ path text,
      SourceFile.read? .standard path text = some file := by
    intro file inside
    obtain rfl := List.mem_singleton.mp inside
    exact ⟨_, _, read?_vault⟩
  obtain ⟨builders, built⟩ := ofCorpus_vault
  have listed : moveDraft ∈ (Corpus.ofFiles [vaultFile]).drafts .standard := by
    rw [drafts_vault]
    decide
  obtain ⟨variant, member⟩ := (made_of_ofCorpus built).exists_entry moveDraft listed
  obtain ⟨draft, inside, caseText, typeText, spelled, module, function, variants, types, plain⟩ :=
    names_legal_iff asciiLetters read built member
  rw [drafts_vault] at inside
  have same : draft = moveDraft := by
    rcases List.mem_cons.mp inside with here | other
    · exact here
    · rw [List.mem_singleton.mp other] at spelled
      have names : moveDraft.fullName = tryDraft.fullName := spelled.fullName
      exact absurd names (by decide)
  subst same
  have method : BuilderDraft.methodAmong ((Corpus.ofFiles [vaultFile]).drafts .standard) moveDraft
      = "move" := by
    rw [drafts_vault]
    decide
  have caseCases := spelled.caseCases
  have typeCases := spelled.typeCases
  rw [method] at caseCases
  have ascii : moveDraft.IsAscii := by
    have each : ((moveDraft.package.toList ++ moveDraft.localName.toList).all (·.toNat < 0x80)) = true := by
      decide
    exact fun c inside => of_decide_eq_true (List.all_eq_true.mp each c inside)
  obtain ⟨moduleBegins, methodBegins, caseBegins, typeBegins⟩ := plain ascii
  refine ⟨read, builders, built, _, member, rfl, ?_, ?_, variants.mpr ⟨?_, caseBegins.mpr ?_⟩,
    types.mpr ⟨?_, typeBegins.mpr ?_⟩⟩
  · exact module.mpr ⟨by decide, moduleBegins.mpr ⟨'v', by decide, by decide⟩⟩
  · exact function.mpr ⟨fun _ => by decide, methodBegins.mpr ⟨'m', by decide, by decide⟩⟩
  · rw [spelled.variant]
    rcases caseCases with same | same <;> rw [same] <;> decide
  · rcases caseCases with same | same <;> rw [same]
    · exact ⟨'v', by decide, by decide⟩
    · exact ⟨'d', by decide, by decide⟩
  · rw [spelled.importName]
    rcases typeCases with same | same <;> rw [same] <;> decide
  · rcases typeCases with same | same <;> rw [same]
    · exact ⟨'m', by decide, by decide⟩
    · exact ⟨'d', by decide, by decide⟩

end BuilderTable

end SigningSchema
