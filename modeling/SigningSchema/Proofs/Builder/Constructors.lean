import SigningSchema.Proofs.Builder.Entries
import SigningSchema.Proofs.Spelling
import SigningSchema.Proofs.Text

-- When constructors can be told apart. Payload messages that share a module and a method are qualified
-- by their packages, and only they are compared: a method that already reads like a qualified one, or
-- like another one once it is spelled for code, is taken as it is.

namespace SigningSchema

namespace BuilderDraft

-- How a name is spelled by itself, and as a part of a longer one.
structure Spelling where
  whole : String → String
  part : String → String
  joined : ∀ name more, whole (name ++ "_" ++ more) = part name ++ "_" ++ part more

def Spelling.asGiven : Spelling := ⟨id, id, fun _ _ => rfl⟩

def Spelling.inCode : Spelling where
  whole name := Identifier.escapeReserved (Identifier.snakeCase name)
  part := Identifier.snakeCase
  joined name more := by rw [Identifier.snakeCase_joined, Identifier.escapeReserved_joined]

variable {spelling : Spelling} {drafts : List BuilderDraft} {one other : BuilderDraft}

def SharesMethod (one other : BuilderDraft) : Prop :=
  one.module = other.module ∧ one.method = other.method

def sharing (drafts : List BuilderDraft) (draft : BuilderDraft) : List BuilderDraft :=
  drafts.filter fun other => other.module = draft.module && other.method = draft.method

-- What tells a payload message from those that share its method: the last segment of its package, or
-- all of the package where the last segments are not enough.
def qualifier (drafts : List BuilderDraft) (draft : BuilderDraft) : String :=
  if ((sharing drafts draft).map withLastSegment).Nodup then Text.lastPart '.' draft.package
  else Text.joined "_" (Text.split '.' draft.package)

def constructorNaming (spelling : Spelling) (drafts : List BuilderDraft) :
    Naming BuilderDraft (String × String) (String × String) where
  kind draft := (draft.module, draft.method)
  plain draft := (spelling.whole draft.module, spelling.whole draft.method)
  qualified draft := (spelling.whole draft.module,
    spelling.part draft.method ++ "_" ++ spelling.part (qualifier drafts draft))

theorem alike_constructor (draft : BuilderDraft) :
    (constructorNaming spelling drafts).alike drafts draft = sharing drafts draft := by
  simp only [Naming.alike, constructorNaming, sharing, Prod.mk.injEq, Bool.decide_and]

theorem methodAmong_eq (drafts : List BuilderDraft) (draft : BuilderDraft) :
    methodAmong drafts draft = if (sharing drafts draft).length ≤ 1 then draft.method
      else draft.method ++ "_" ++ qualifier drafts draft := by
  have listed : methodAmong drafts draft = if (sharing drafts draft).length ≤ 1 then draft.method
      else if ((sharing drafts draft).map withLastSegment).Nodup then draft.withLastSegment
      else draft.withPackage := rfl
  rw [listed, qualifier]
  congr 1
  split <;> rfl

theorem name_constructor (spelling : Spelling) (drafts : List BuilderDraft) (draft : BuilderDraft) :
    (constructorNaming spelling drafts).name drafts draft
      = (spelling.whole draft.module, spelling.whole (methodAmong drafts draft)) := by
  simp only [Naming.name, Naming.IsAlone, alike_constructor, methodAmong_eq]
  split
  · rfl
  · rw [spelling.joined]
    rfl

-- Among methods without underscores only the packages of those who share one can fail to tell them
-- apart.
theorem free_of_plain (plain : ∀ draft ∈ drafts, '_' ∉ draft.method.toList) :
    (constructorNaming .asGiven drafts).Free drafts ↔
    ∀ one ∈ drafts, ∀ other ∈ drafts, one ≠ other → SharesMethod one other →
      qualifier drafts one ≠ qualifier drafts other := by
  constructor
  · intro free one member other memberToo differ shared same
    refine free one member other memberToo differ
      (.sameKind (Prod.ext shared.1 shared.2) (Prod.ext shared.1 ?_))
    change one.method ++ "_" ++ qualifier drafts one = other.method ++ "_" ++ qualifier drafts other
    rw [shared.2, same]
  · intro told one member other memberToo differ clash
    cases clash with
    | sameKind shared same =>
      obtain ⟨modules, methods⟩ := Prod.mk.inj shared
      have joined : one.method ++ "_" ++ qualifier drafts one
          = other.method ++ "_" ++ qualifier drafts other := (Prod.mk.inj same).2
      rw [methods, String.append_right_inj] at joined
      exact told one member other memberToo differ ⟨modules, methods⟩ joined
    | plain apart _ _ same => exact apart same
    | mixed apart _ _ same =>
      refine plain one member ?_
      rw [show one.method = other.method ++ "_" ++ qualifier drafts other from (Prod.mk.inj same).2]
      simp
    | qualified apart _ _ same =>
      obtain ⟨modules, joined⟩ := Prod.mk.inj same
      exact apart (Prod.ext modules (Text.head_of_joined (plain one member) (plain other memberToo) joined))

end BuilderDraft

namespace BuilderTable

open BuilderDraft

variable {corpus : Corpus} {config : Config} {builders : BuilderTable}

def methodKey (entry : BuilderEntry) : String × String := (entry.module, entry.method)

def functionKey (entry : BuilderEntry) : String × String := (entry.functionModule, entry.functionName)

theorem find?_key (builders : BuilderTable) (entry : BuilderEntry) :
    builders.find? entry.module entry.method
      = builders.entries.find? fun other => methodKey other = methodKey entry := by
  rw [find?]
  congr 1
  funext other
  simp only [methodKey, Prod.mk.injEq, Bool.decide_and]

theorem eq_of_found {one other : BuilderEntry}
    (found : ∀ entry ∈ builders.entries, builders.find? entry.module entry.method = some entry)
    (inside : one ∈ builders.entries) (insideToo : other ∈ builders.entries)
    (same : methodKey one = methodKey other) : one = other := by
  have first := found one inside
  rw [find?_key, same, ← find?_key, found other insideToo] at first
  exact (Option.some.inj first).symm

theorem keys_nodup_iff (built : ofCorpus corpus config = .ok builders)
    (set : NameSet.Ascending corpus.requestTypes) (spelling : Spelling)
    (key : BuilderEntry → String × String)
    (spelled : ∀ entry, key entry = (spelling.whole entry.module, spelling.whole entry.method)) :
    (builders.entries.map key).Nodup ↔
      (constructorNaming spelling (corpus.drafts config)).Free (corpus.drafts config) := by
  have made := made_of_ofCorpus built
  refine (made.nodup_iff fun draft variant => ?_).trans
    ((constructorNaming spelling (corpus.drafts config)).nodup_iff (made.drafts_nodup set))
  rw [spelled, name_constructor]
  rfl

-- Methods, and functions in code, are given once each exactly where no payload messages clash; an entry
-- is found by its module and method exactly where methods are given once. Where no method has an
-- underscore of its own, it is enough that packages tell apart whoever shares a method.
theorem constructors_distinct_iff (built : ofCorpus corpus config = .ok builders)
    (set : NameSet.Ascending corpus.requestTypes) :
    ((builders.entries.map methodKey).Nodup ↔
      (constructorNaming .asGiven (corpus.drafts config)).Free (corpus.drafts config)) ∧
    ((∀ entry ∈ builders.entries, builders.find? entry.module entry.method = some entry) ↔
      (builders.entries.map methodKey).Nodup) ∧
    ((builders.entries.map functionKey).Nodup ↔
      (constructorNaming .inCode (corpus.drafts config)).Free (corpus.drafts config)) ∧
    ((∀ draft ∈ corpus.drafts config, '_' ∉ draft.method.toList) →
      ((builders.entries.map methodKey).Nodup ↔
        ∀ one ∈ corpus.drafts config, ∀ other ∈ corpus.drafts config, one ≠ other →
          SharesMethod one other →
            qualifier (corpus.drafts config) one ≠ qualifier (corpus.drafts config) other)) := by
  have methods := keys_nodup_iff built set .asGiven methodKey fun _ => rfl
  refine ⟨methods, ?_, keys_nodup_iff built set .inCode functionKey fun _ => rfl,
    fun plain => methods.trans (free_of_plain plain)⟩
  simp only [find?_key]
  exact find?_key_iff ((made_of_ofCorpus built).entries_nodup set) methodKey

-- Three packages of one module. Two of them declare a message of one name, and so have their last
-- segments added to its method.
def licenseCorpus (third : String) : Corpus where
  messages := [
    ("demo.license.v1.MsgDelegate", ⟨"demo.license.v1", "MsgDelegate", [], "one.proto", none⟩),
    ("demo.license.v2.MsgDelegate", ⟨"demo.license.v2", "MsgDelegate", [], "two.proto", none⟩),
    ("demo.license.v3." ++ third, ⟨"demo.license.v3", third, [], "three.proto", none⟩)]
  enums := []
  requestTypes := ["demo.license.v1.MsgDelegate", "demo.license.v2.MsgDelegate",
    "demo.license.v3." ++ third]

theorem ascending_license : NameSet.Ascending (licenseCorpus "MsgDelegate_v1").requestTypes ∧
    NameSet.Ascending (licenseCorpus "MsgRevoke").requestTypes := by
  unfold NameSet.Ascending
  decide

theorem free_license (spelling : Spelling) (either : spelling = .asGiven ∨ spelling = .inCode) :
    (constructorNaming spelling ((licenseCorpus "MsgRevoke").drafts .standard)).Free
      ((licenseCorpus "MsgRevoke").drafts .standard) := by
  refine (Naming.nodup_iff _ (by decide)).mp ?_
  have called : ((licenseCorpus "MsgRevoke").drafts .standard).map
      ((constructorNaming spelling ((licenseCorpus "MsgRevoke").drafts .standard)).name
        ((licenseCorpus "MsgRevoke").drafts .standard))
      = [("license", "delegate_v1"), ("license", "delegate_v2"), ("license", "revoke")] := by
    simp only [funext (name_constructor spelling _)]
    rcases either with rfl | rfl <;> decide
  rw [called]
  decide

-- The third message has the very method that the first one gets.
theorem constructors_clash_license : ∃ builders,
    ofCorpus (licenseCorpus "MsgDelegate_v1") .standard = .ok builders ∧
    ∃ first ∈ builders.entries, ∃ third ∈ builders.entries,
      first.fullName = "demo.license.v1.MsgDelegate" ∧
      third.fullName = "demo.license.v3.MsgDelegate_v1" ∧
      methodKey first = ("license", "delegate_v1") ∧ methodKey third = ("license", "delegate_v1") ∧
      functionKey first = functionKey third ∧
      ¬ ∀ entry ∈ builders.entries, builders.find? entry.module entry.method = some entry := by
  obtain ⟨builders, built⟩ : ∃ builders,
      ofCorpus (licenseCorpus "MsgDelegate_v1") .standard = .ok builders := ⟨_, rfl⟩
  have made := made_of_ofCorpus built
  obtain ⟨variant, inside⟩ := made.exists_entry ⟨"demo.license.v1.MsgDelegate",
    "demo.license.v1", "MsgDelegate", "license", "delegate"⟩ (by decide)
  obtain ⟨variantToo, insideToo⟩ := made.exists_entry ⟨"demo.license.v3.MsgDelegate_v1",
    "demo.license.v3", "MsgDelegate_v1", "license", "delegate_v1"⟩ (by decide)
  have method : methodAmong ((licenseCorpus "MsgDelegate_v1").drafts .standard)
      ⟨"demo.license.v1.MsgDelegate", "demo.license.v1", "MsgDelegate", "license", "delegate"⟩
      = "delegate_v1" := by decide
  have methodToo : methodAmong ((licenseCorpus "MsgDelegate_v1").drafts .standard)
      ⟨"demo.license.v3.MsgDelegate_v1", "demo.license.v3", "MsgDelegate_v1", "license", "delegate_v1"⟩
      = "delegate_v1" := by decide
  have key := congrArg (Prod.mk "license") method
  have keyToo := congrArg (Prod.mk "license") methodToo
  refine ⟨builders, built, _, inside, _, insideToo, rfl, rfl, key, keyToo, ?_, fun found => ?_⟩
  · exact congrArg (fun method => (Identifier.escapeReserved (Identifier.snakeCase "license"),
      Identifier.escapeReserved (Identifier.snakeCase method))) (method.trans methodToo.symm)
  · have same := eq_of_found found inside insideToo (key.trans keyToo.symm)
    have names : "demo.license.v1.MsgDelegate" = "demo.license.v3.MsgDelegate_v1" :=
      congrArg BuilderEntry.fullName same
    exact absurd names (by decide)

theorem constructors_distinct_iff_license :
    NameSet.Ascending (licenseCorpus "MsgRevoke").requestTypes ∧
    ∃ builders, ofCorpus (licenseCorpus "MsgRevoke") .standard = .ok builders ∧
      (builders.entries.map methodKey).Nodup ∧ (builders.entries.map functionKey).Nodup ∧
      (∀ entry ∈ builders.entries, builders.find? entry.module entry.method = some entry) ∧
      ∀ one ∈ (licenseCorpus "MsgRevoke").drafts .standard,
        ∀ other ∈ (licenseCorpus "MsgRevoke").drafts .standard, one ≠ other → SharesMethod one other →
          qualifier ((licenseCorpus "MsgRevoke").drafts .standard) one
            ≠ qualifier ((licenseCorpus "MsgRevoke").drafts .standard) other := by
  obtain ⟨builders, built⟩ : ∃ builders,
      ofCorpus (licenseCorpus "MsgRevoke") .standard = .ok builders := ⟨_, rfl⟩
  obtain ⟨methods, found, functions, plain⟩ := constructors_distinct_iff built ascending_license.2
  have distinct := methods.mpr (free_license .asGiven (.inl rfl))
  exact ⟨ascending_license.2, builders, built, distinct, functions.mpr (free_license .inCode (.inr rfl)),
    found.mpr distinct, (plain (by decide)).mp distinct⟩

end BuilderTable

end SigningSchema
