import SigningSchema.Proofs.Registry.Collision
import SigningSchema.Proofs.Registry.Rearrangement
import SigningSchema.Registry.Document

-- What is signed depends neither on the order of declarations nor on tags: a registry is
-- determined by what its corpus says of reachable messages, which a rearrangement keeps.

namespace SigningSchema

namespace Expansion

variable {first second corpus : Corpus} {root : String}

-- A description carries over to a corpus that has the same members below the message, where all that
-- the message reaches signs alike.
theorem Describes.transfer {shape : Shape} {nested : Table Shape} {durations : NameSet}
    (members : ∀ {name type}, first.HasMemberBelow root name type ↔ second.HasMemberBelow root name type)
    (signs : ∀ {target held}, first.Reaches root target → first.SignsAs target held →
      second.SignsAs target held)
    (describes : Describes first root shape nested durations) :
    Describes second root shape nested durations where
  shape := signs .refl describes.shape
  noted name target below := by
    have below := members.mpr below
    obtain ⟨held, signed, found⟩ := describes.noted name target below
    exact ⟨held, signs below.reaches signed, found⟩
  traced name held found := by
    obtain ⟨target, below, signed⟩ := describes.traced name held found
    exact ⟨target, members.mp below, signs below.reaches signed⟩
  durations name := (describes.durations name).trans members
  nestedAscending := describes.nestedAscending
  durationsAscending := describes.durationsAscending

theorem Describes.rearranged {shape : Shape} {nested : Table Shape} {durations : NameSet}
    (same : first.Rearranged second) (distinct : first.DistinctMembers)
    (requested : root ∈ first.requestTypes) (describes : Describes first root shape nested durations) :
    Describes second root shape nested durations :=
  describes.transfer ⟨same.hasMemberBelow, same.symm.hasMemberBelow⟩
    fun path => same.signsAs distinct ⟨root, requested, path⟩

theorem Describes.nested_le {shape shape' : Shape} {nested nested' : Table Shape}
    {durations durations' : NameSet} (one : Describes corpus root shape nested durations)
    (other : Describes corpus root shape' nested' durations') {name : String} {held : Shape}
    (found : nested.get? name = some held) : nested'.get? name = some held := by
  obtain ⟨target, below, signs⟩ := one.traced name held found
  obtain ⟨heldToo, signsToo, foundToo⟩ := other.noted name target below
  rw [foundToo, signs.unique signsToo]

-- There is only one way to describe a message.
theorem Describes.unique {shape shape' : Shape} {nested nested' : Table Shape}
    {durations durations' : NameSet} (one : Describes corpus root shape nested durations)
    (other : Describes corpus root shape' nested' durations') :
    shape = shape' ∧ nested = nested' ∧ durations = durations' := by
  refine ⟨one.shape.unique other.shape, ?_, ?_⟩
  · refine Table.ext_get? one.nestedAscending other.nestedAscending fun name => ?_
    cases found : nested.get? name with
    | some held => exact (one.nested_le other found).symm
    | none =>
      cases foundToo : nested'.get? name with
      | none => rfl
      | some held =>
        rw [other.nested_le one foundToo] at found
        cases found
  · exact NameSet.ext_mem one.durationsAscending other.durationsAscending fun name =>
      (one.durations name).trans (other.durations name).symm

end Expansion

namespace Registry

variable {first second corpus : Corpus} {config : Config}

-- What an entry takes from the declaration of its message and from its address.
structure Named (corpus : Corpus) (config : Config) (request : String) (entry : RegistryEntry) :
    Prop where
  legacyName : ∃ message, corpus.messages.get? request = some message ∧
    entry.legacyName = message.legacyNameIn config
  typeUrl : entry.typeUrl = Package.typeUrl request
  exclude : entry.exclude = false

theorem Named.rearranged (same : first.Rearranged second) {request : String} {entry : RegistryEntry}
    (named : Named first config request entry) : Named second config request entry := by
  obtain ⟨⟨message, found, legacyName⟩, typeUrl, exclude⟩ := named
  obtain ⟨other, foundToo, rearranged⟩ := same.get? found
  refine ⟨⟨other, foundToo, legacyName.trans ?_⟩, typeUrl, exclude⟩
  rw [MessageDecl.legacyNameIn, MessageDecl.legacyNameIn, rearranged.legacyName, rearranged.package,
    rearranged.name]

theorem Named.unique {request : String} {one other : RegistryEntry}
    (named : Named corpus config request one) (namedToo : Named corpus config request other) :
    one.legacyName = other.legacyName ∧ one.typeUrl = other.typeUrl ∧ one.exclude = other.exclude := by
  obtain ⟨⟨message, found, legacyName⟩, typeUrl, exclude⟩ := named
  obtain ⟨⟨again, foundAgain, legacyNameToo⟩, typeUrlToo, excludeToo⟩ := namedToo
  rw [found] at foundAgain
  cases foundAgain
  exact ⟨legacyName.trans legacyNameToo.symm, typeUrl.trans typeUrlToo.symm,
    exclude.trans excludeToo.symm⟩

theorem describeAll_named {requests : List String} {known : Table (String × Shape)}
    {entries result : Table RegistryEntry}
    (ran : describeAll corpus config known entries requests = .ok result)
    (named : ∀ request entry, entries.get? (Package.typeUrl request) = some entry →
      Named corpus config request entry) :
    ∀ request entry, result.get? (Package.typeUrl request) = some entry →
      Named corpus config request entry := by
  induction requests generalizing known entries with
  | nil =>
    cases ran
    exact named
  | cons next rest ih =>
    rw [describeAll] at ran
    obtain ⟨message, declared, more⟩ := bind_ok ran
    obtain ⟨⟨shape, state⟩, walked, last⟩ := bind_ok more
    refine ih last fun request entry found => ?_
    rcases Table.get?_insert_cases found with ⟨url, rfl⟩ | earlier
    · obtain rfl := typeUrl_inj.mp url
      exact ⟨⟨message, Corpus.message_ok declared, rfl⟩, rfl, rfl⟩
    · exact named request entry earlier

-- Which registry a derivation gives, said of the corpus alone; the overrides come on top of it.
structure Determined (corpus : Corpus) (config : Config) (entries : Table RegistryEntry) : Prop where
  ascending : entries.Ascending
  urls : ∀ url, url ∈ entries.keys ↔ ∃ request ∈ corpus.requestTypes, url = Package.typeUrl request
  entry : ∀ request ∈ corpus.requestTypes, ∃ entry,
    entries.get? (Package.typeUrl request) = some entry ∧ Describes corpus request entry ∧
      Named corpus config request entry

theorem ofCorpus_determined {registry : Registry} (ran : ofCorpus corpus config = .ok registry) :
    ∃ entries, Determined corpus config entries ∧
      registry = ⟨applyOverrides config.typeOverrides entries⟩ := by
  obtain ⟨entries, described, last⟩ := bind_ok ran
  cases last
  have ends := @describeAll_ends corpus config [] [] corpus.requestTypes (fun _ => id)
    (fun _ _ _ found => nomatch found)
  rw [described] at ends
  obtain ⟨final, derived⟩ := ends
  refine ⟨entries, ⟨derived.ascending .nil, ?_, ?_⟩, rfl⟩
  · intro url
    rw [derived.urls]
    exact or_iff_left List.not_mem_nil
  · intro request requested
    obtain ⟨entry, found, describes⟩ := derived.described request (.inl requested)
    exact ⟨entry, found, describes,
      describeAll_named described (fun _ _ none => nomatch none) request entry found⟩

theorem Determined.rearranged {entries : Table RegistryEntry} (same : first.Rearranged second)
    (distinct : first.DistinctMembers) (determined : Determined first config entries) :
    Determined second config entries where
  ascending := determined.ascending
  urls := same.requestTypes ▸ determined.urls
  entry request requested := by
    rw [← same.requestTypes] at requested
    obtain ⟨entry, found, describes, named⟩ := determined.entry request requested
    exact ⟨entry, found, Expansion.Describes.rearranged same distinct requested describes,
      named.rearranged same⟩

theorem entry_unique {request : String} {one other : RegistryEntry}
    (describes : Describes corpus request one) (describesToo : Describes corpus request other)
    (named : Named corpus config request one) (namedToo : Named corpus config request other) :
    one = other := by
  obtain ⟨shape, nested, durations⟩ := Expansion.Describes.unique describes describesToo
  obtain ⟨legacyName, typeUrl, exclude⟩ := named.unique namedToo
  cases one
  cases other
  simp_all

theorem Determined.get?_le {entries others : Table RegistryEntry}
    (determined : Determined corpus config entries) (determinedToo : Determined corpus config others)
    {url : String} {entry : RegistryEntry} (found : entries.get? url = some entry) :
    others.get? url = some entry := by
  obtain ⟨request, requested, rfl⟩ :=
    (determined.urls url).mp (Table.mem_keys_iff.mpr ⟨entry, found⟩)
  obtain ⟨again, foundAgain, describes, named⟩ := determined.entry request requested
  obtain ⟨other, foundOther, describesToo, namedToo⟩ := determinedToo.entry request requested
  rw [found] at foundAgain
  cases foundAgain
  rw [foundOther, entry_unique describes describesToo named namedToo]

theorem Determined.unique {entries others : Table RegistryEntry}
    (determined : Determined corpus config entries) (determinedToo : Determined corpus config others) :
    entries = others := by
  refine Table.ext_get? determined.ascending determinedToo.ascending fun url => ?_
  cases found : entries.get? url with
  | some entry => exact (determined.get?_le determinedToo found).symm
  | none =>
    cases foundToo : others.get? url with
    | none => rfl
    | some entry =>
      rw [determinedToo.get?_le determined foundToo] at found
      cases found

-- A fault met in one of two rearranged corpora would be met in the other.
theorem ofCorpus_succeeds (same : first.Rearranged second) (distinct : first.DistinctMembers)
    {registry : Registry} (ran : ofCorpus first config = .ok registry) :
    ∃ other, ofCorpus second config = .ok other := by
  have ends := ofCorpus_ends first config
  rw [ran] at ends
  obtain ⟨final, entries, derived, _⟩ := ends
  have endsToo := ofCorpus_ends second config
  cases ranToo : ofCorpus second config with
  | ok other => exact ⟨other, rfl⟩
  | error error =>
    rw [ranToo] at endsToo
    obtain ⟨request, requested, collision | ⟨message, path, unresolved⟩⟩ := endsToo
    · obtain ⟨name, one, shape, two, shape', _, left, right, differ⟩ := collision
      have distinctToo := same.distinctMembers distinct
      exact absurd (derived.agree (same.symm.known distinctToo left) (same.symm.known distinctToo right))
        differ
    · rw [← same.requestTypes] at requested
      obtain ⟨fields, resolved⟩ := derived.resolves request requested message (same.symm.reaches path)
      obtain ⟨others, resolvedToo, _⟩ := same.resolvedFields resolved
      rw [unresolved] at resolvedToo
      cases resolvedToo

-- Two corpora that differ in nothing but the order and the tags of fields have registries or have
-- none, and the registries are written alike.
theorem ofCorpus_text_rearranged (same : first.Rearranged second) (distinct : first.DistinctMembers)
    (config : Config) :
    ((∃ registry, ofCorpus first config = .ok registry) ↔
      ∃ registry, ofCorpus second config = .ok registry) ∧
    ∀ one other, ofCorpus first config = .ok one → ofCorpus second config = .ok other →
      one.text = other.text := by
  refine ⟨⟨?_, ?_⟩, ?_⟩
  · rintro ⟨registry, ran⟩
    exact ofCorpus_succeeds same distinct ran
  · rintro ⟨registry, ran⟩
    exact ofCorpus_succeeds same.symm (same.distinctMembers distinct) ran
  · intro one other ran ranToo
    obtain ⟨entries, determined, rfl⟩ := ofCorpus_determined ran
    obtain ⟨others, determinedToo, rfl⟩ := ofCorpus_determined ranToo
    rw [(determined.rearranged same distinct).unique determinedToo]

def shuffledOrder : MessageDecl :=
  { orderMessage with fields := [
      ⟨"max_wait", "google.protobuf.Duration", false, 9⟩, ⟨"root", "Node", false, 4⟩] }

def shuffledNode : MessageDecl :=
  { nodeMessage with fields := [
      ⟨"label", "string", false, 1⟩, ⟨"order", "MsgOrder", false, 1⟩, ⟨"next", "Node", true, 2⟩] }

-- A walk through it puts other fields off than a walk through the corpus it comes from.
def shuffledCorpus : Corpus :=
  { cyclicCorpus with messages := [("market.MsgOrder", shuffledOrder), ("market.Node", shuffledNode)] }

theorem rearranged_shuffled : cyclicCorpus.Rearranged shuffledCorpus where
  messages := .cons ⟨rfl, rfl, rfl, rfl, rfl, by decide⟩ (.cons ⟨rfl, rfl, rfl, rfl, rfl, by decide⟩ .nil)
  enums := rfl
  requestTypes := rfl

theorem distinctMembers_cyclic : cyclicCorpus.DistinctMembers := by
  intro message fields _ resolved
  have declared := Corpus.mem_keys_of_declares (Corpus.declares_of_resolvedFields resolved)
  simp only [cyclicCorpus, Table.keys, List.map_cons, List.map_nil, List.mem_cons, List.not_mem_nil,
    or_false] at declared
  rcases declared with rfl | rfl
  · rw [resolvedFields_order] at resolved
    cases resolved
    decide
  · rw [resolvedFields_node] at resolved
    cases resolved
    decide

theorem ofCorpus_text_rearranged_shuffled :
    cyclicCorpus.Rearranged shuffledCorpus ∧ cyclicCorpus.DistinctMembers ∧
    ∃ registry, ofCorpus shuffledCorpus .standard = .ok registry ∧
      registry.text = (⟨[("/market.MsgOrder", orderEntry)]⟩ : Registry).text := by
  refine ⟨rearranged_shuffled, distinctMembers_cyclic, ?_⟩
  obtain ⟨succeed, alike⟩ :=
    ofCorpus_text_rearranged rearranged_shuffled distinctMembers_cyclic .standard
  obtain ⟨registry, ran⟩ := succeed.mp ⟨_, ofCorpus_cyclic⟩
  exact ⟨registry, ran, (alike _ _ ofCorpus_cyclic ran).symm⟩

end Registry

end SigningSchema
