import Mathlib.Data.List.Perm.Basic
import SigningSchema.Proofs.Corpus.Agreement
import SigningSchema.Proofs.Registry.Derivation
import SigningSchema.Proofs.Results

-- The order in which fields are declared, and their tags, leave no trace in what is signed:
-- two corpora that differ in nothing else refer, reach and sign alike.

namespace SigningSchema

-- What a declaration says beside its tag.
def FieldDecl.untagged (field : FieldDecl) : FieldDecl := { field with tag := 0 }

def ResolvedField.untagged (field : ResolvedField) : ResolvedField := { field with tag := 0 }

structure MessageDecl.Rearranged (first second : MessageDecl) : Prop where
  package : first.package = second.package
  name : first.name = second.name
  source : first.source = second.source
  legacyName : first.legacyName = second.legacyName
  fields : (first.fields.map FieldDecl.untagged).Perm (second.fields.map FieldDecl.untagged)

theorem MessageDecl.Rearranged.symm {first second : MessageDecl} (same : first.Rearranged second) :
    second.Rearranged first :=
  ⟨same.package.symm, same.name.symm, same.source.symm, same.legacyName.symm, same.fields.symm⟩

namespace Corpus

structure Rearranged (first second : Corpus) : Prop where
  messages : List.Forall₂ (fun one other => one.1 = other.1 ∧ one.2.Rearranged other.2)
    first.messages second.messages
  enums : first.enums = second.enums
  requestTypes : first.requestTypes = second.requestTypes

variable {first second : Corpus}

theorem Rearranged.symm (same : Rearranged first second) : Rearranged second first where
  messages := same.messages.flip.imp fun _ _ pair => ⟨pair.1.symm, pair.2.symm⟩
  enums := same.enums.symm
  requestTypes := same.requestTypes.symm

theorem Rearranged.get? (same : Rearranged first second) {name : String} {message : MessageDecl}
    (found : first.messages.get? name = some message) :
    ∃ other, second.messages.get? name = some other ∧ message.Rearranged other := by
  have pairs := same.messages
  generalize first.messages = messages at pairs found
  generalize second.messages = others at pairs
  induction pairs with
  | nil => cases found
  | @cons one other _ _ pair _ ih =>
    obtain ⟨key, held⟩ := one
    obtain ⟨key', held'⟩ := other
    obtain ⟨rfl, rearranged⟩ := pair
    rw [Table.get?] at found ⊢
    split at found
    · cases found
      rename_i here
      exact ⟨held', if_pos here, rearranged⟩
    · rename_i elsewhere
      rw [if_neg elsewhere]
      exact ih found

theorem Rearranged.declares (same : Rearranged first second) (name : String) :
    first.declares name = second.declares name := by
  unfold Corpus.declares
  cases found : first.messages.get? name with
  | some message =>
    obtain ⟨other, foundToo, _⟩ := same.get? found
    rw [foundToo]
    rfl
  | none =>
    cases foundToo : second.messages.get? name with
    | none => rfl
    | some other =>
      obtain ⟨message, again, _⟩ := same.symm.get? foundToo
      rw [found] at again
      cases again

theorem Rearranged.resolve? (same : Rearranged first second) (typeRef package : String) :
    first.resolve? typeRef package = second.resolve? typeRef package := by
  rw [resolve?_congr (funext same.declares) same.enums]

-- What a declaration resolves to, if it does, beside its tag.
def meaning (corpus : Corpus) (package : String) (field : FieldDecl) : Option ResolvedField :=
  (corpus.resolve? field.typeRef package).map fun type =>
    ⟨field.name, Identifier.camelCase field.name, type, field.repeated, 0⟩

theorem Rearranged.meaning (same : Rearranged first second) : first.meaning = second.meaning := by
  funext package field
  rw [Corpus.meaning, Corpus.meaning, same.resolve?]

theorem resolveField_ok {corpus : Corpus} {message : MessageDecl} {field : FieldDecl}
    {resolved : ResolvedField} (ran : corpus.resolveField message field = .ok resolved) :
    corpus.meaning message.package field = some resolved.untagged := by
  unfold resolveField at ran
  unfold Corpus.meaning
  split at ran
  · rename_i type known
    cases ran
    rw [known]
    rfl
  · cases ran

theorem resolveField_of_meaning {corpus : Corpus} {message : MessageDecl} {field : FieldDecl}
    {resolved : ResolvedField} (meant : corpus.meaning message.package field = some resolved) :
    ∃ result, corpus.resolveField message field = .ok result := by
  obtain ⟨type, known, _⟩ := Option.map_eq_some_iff.mp meant
  exact ⟨_, by rw [resolveField, known]⟩

-- The fields of a message as their declarations mean them, one for one.
theorem resolvedFields_ok {corpus : Corpus} {name : String} {fields : List ResolvedField}
    (resolved : corpus.resolvedFields name = .ok fields) :
    ∃ message, corpus.messages.get? name = some message ∧
      message.fields.map (corpus.meaning message.package)
        = fields.map fun field => some field.untagged := by
  unfold resolvedFields Corpus.message at resolved
  cases found : corpus.messages.get? name with
  | none =>
    rw [found] at resolved
    cases resolved
  | some message =>
    rw [found] at resolved
    exact ⟨message, rfl, map_eq_of_forall₂ ((mapM_ok resolved).imp fun _ _ => resolveField_ok)⟩

theorem resolvedFields_of_meaning {corpus : Corpus} {name : String} {message : MessageDecl}
    (found : corpus.messages.get? name = some message)
    (meant : ∀ field ∈ message.fields, ∃ resolved, corpus.meaning message.package field = some resolved) :
    ∃ fields, corpus.resolvedFields name = .ok fields := by
  have ran := mapM_of_ok (f := corpus.resolveField message) fun field member =>
    (meant field member).elim fun _ known => resolveField_of_meaning known
  rwa [resolvedFields, Corpus.message, found]

theorem Rearranged.resolvedFields (same : Rearranged first second) {name : String}
    {fields : List ResolvedField} (resolved : first.resolvedFields name = .ok fields) :
    ∃ others, second.resolvedFields name = .ok others ∧
      (fields.map ResolvedField.untagged).Perm (others.map ResolvedField.untagged) := by
  obtain ⟨message, found, meant⟩ := resolvedFields_ok resolved
  obtain ⟨other, foundToo, rearranged⟩ := same.get? found
  have alike : (message.fields.map (first.meaning message.package)).Perm
      (other.fields.map (second.meaning other.package)) := by
    have perm := rearranged.fields.map (first.meaning message.package)
    rw [List.map_map, List.map_map] at perm
    rw [← same.meaning, ← rearranged.package]
    exact perm
  have resolves : ∃ others, second.resolvedFields name = .ok others := by
    refine resolvedFields_of_meaning foundToo fun field member => ?_
    have inside := alike.symm.subset (List.mem_map.mpr ⟨field, member, rfl⟩)
    rw [meant] at inside
    obtain ⟨resolvedField, _, equal⟩ := List.mem_map.mp inside
    exact ⟨_, equal.symm⟩
  obtain ⟨others, ran⟩ := resolves
  obtain ⟨again, foundAgain, meantToo⟩ := resolvedFields_ok ran
  rw [foundToo] at foundAgain
  cases foundAgain
  rw [meant, meantToo] at alike
  refine ⟨others, ran, ?_⟩
  have bare : ((fields.map ResolvedField.untagged).map some).Perm
      ((others.map ResolvedField.untagged).map some) := by
    rw [List.map_map, List.map_map]
    exact alike
  exact (List.map_perm_map_iff (fun _ _ => Option.some.inj)).mp bare

-- What a message says of its fields beside their order and tags.
theorem mem_of_untagged {fields others : List ResolvedField}
    (alike : (fields.map ResolvedField.untagged).Perm (others.map ResolvedField.untagged))
    {field : ResolvedField} (member : field ∈ fields) :
    ∃ other ∈ others, other.untagged = field.untagged :=
  List.mem_map.mp (alike.subset (List.mem_map_of_mem member))

theorem Rearranged.hasMember (same : Rearranged first second) {message name : String}
    {type : TypeClass} (member : first.HasMember message name type) :
    second.HasMember message name type := by
  obtain ⟨fields, resolved, field, declared, rfl, rfl⟩ := member
  obtain ⟨others, resolvedToo, alike⟩ := same.resolvedFields resolved
  obtain ⟨other, declaredToo, equal⟩ := mem_of_untagged alike declared
  have name : other.untagged.camelName = field.untagged.camelName := by rw [equal]
  have type : other.untagged.type = field.untagged.type := by rw [equal]
  exact ⟨others, resolvedToo, other, declaredToo, name, type⟩

theorem Rearranged.refers (same : Rearranged first second) {message nested : String}
    (refers : first.Refers message nested) : second.Refers message nested := by
  obtain ⟨fields, resolved, field, declared, type⟩ := refers
  exact (same.hasMember ⟨fields, resolved, field, declared, rfl, type⟩).refers

theorem Rearranged.reaches (same : Rearranged first second) {root message : String}
    (path : first.Reaches root message) : second.Reaches root message :=
  Relation.ReflTransGen.mono (fun _ _ => same.refers) _ _ path

theorem Rearranged.hasMemberBelow (same : Rearranged first second) {root name : String}
    {type : TypeClass} (below : first.HasMemberBelow root name type) :
    second.HasMemberBelow root name type := by
  obtain ⟨message, path, member⟩ := below
  exact ⟨message, same.reaches path, same.hasMember member⟩

theorem Rearranged.reachable (same : Rearranged first second) {message : String}
    (reached : first.Reachable message) : second.Reachable message := by
  obtain ⟨request, requested, path⟩ := reached
  exact ⟨request, same.requestTypes ▸ requested, same.reaches path⟩

theorem HasMemberBelow.reaches {corpus : Corpus} {root name target : String}
    (below : corpus.HasMemberBelow root name (.message target)) : corpus.Reaches root target := by
  obtain ⟨message, path, member⟩ := below
  exact path.tail member.refers

theorem reachable_of_below {corpus : Corpus} {request name target : String}
    (requested : request ∈ corpus.requestTypes)
    (below : corpus.HasMemberBelow request name (.message target)) : corpus.Reachable target :=
  ⟨request, requested, below.reaches⟩

-- Camel names tell the fields of every reachable message apart.
def DistinctMembers (corpus : Corpus) : Prop :=
  ∀ message fields, corpus.Reachable message → corpus.resolvedFields message = .ok fields →
    (fields.map ResolvedField.camelName).Nodup

theorem Rearranged.distinctMembers (same : Rearranged first second)
    (distinct : first.DistinctMembers) : second.DistinctMembers := by
  intro message fields reached resolved
  obtain ⟨others, resolvedToo, alike⟩ := same.symm.resolvedFields resolved
  have names := alike.map ResolvedField.camelName
  rw [List.map_map, List.map_map] at names
  exact names.nodup_iff.mpr (distinct message others (same.symm.reachable reached) resolvedToo)

end Corpus

namespace Shape

-- Where names tell members apart, their order before the sort is forgotten.
theorem Ordered.of_perm {fields others shape : Shape} (ordered : fields.Ordered shape)
    (perm : fields.Perm others) (distinct : (fields.map SigningField.name).Nodup) :
    others.Ordered shape where
  descending := ordered.descending
  stable name := by
    rw [ordered.stable]
    have apart : fields.Pairwise fun a b => a.name ≠ b.name := List.pairwise_map.mp distinct
    have apartToo : others.Pairwise fun a b => a.name ≠ b.name :=
      List.pairwise_map.mp ((perm.map SigningField.name).nodup_iff.mp distinct)
    refine (perm.filter _).eq_of_pairwise ?_ (apart.sublist List.filter_sublist)
      (apartToo.sublist List.filter_sublist)
    intro a b inFields inOthers differ _
    have one : a.name = name := by simpa using (List.mem_filter.mp inFields).2
    have other : b.name = name := by simpa using (List.mem_filter.mp inOthers).2
    exact absurd (one.trans other.symm) differ

end Shape

namespace Corpus

variable {first second : Corpus}

theorem Rearranged.signsAs (same : Rearranged first second) (distinct : first.DistinctMembers)
    {message : String} (reached : first.Reachable message) {shape : Shape}
    (signs : first.SignsAs message shape) : second.SignsAs message shape := by
  obtain ⟨fields, resolved, ordered⟩ := signs
  obtain ⟨others, resolvedToo, alike⟩ := same.resolvedFields resolved
  have perm := alike.map signingField
  rw [List.map_map, List.map_map] at perm
  refine ⟨others, resolvedToo, ordered.of_perm perm ?_⟩
  rw [List.map_map]
  exact distinct message fields reached resolved

theorem Rearranged.known (same : Rearranged first second) (distinct : first.DistinctMembers)
    {name target : String} {shape : Shape} (known : first.Known name target shape) :
    second.Known name target shape := by
  obtain ⟨⟨request, requested, below⟩, signs⟩ := known
  exact ⟨⟨request, same.requestTypes ▸ requested, same.hasMemberBelow below⟩,
    same.signsAs distinct (reachable_of_below requested below) signs⟩

end Corpus

end SigningSchema
