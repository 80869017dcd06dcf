import SigningSchema.Proofs.Corpus.Agreement
import SigningSchema.Proofs.Corpus.Assembly
import SigningSchema.Proofs.Results

-- Which file a message comes from matters to nothing that is derived from it. Corpora whose messages
-- differ in no more than that resolve and traverse alike, down to the first error.

namespace SigningSchema

namespace MessageDecl

def withSource (message : MessageDecl) (source : String) : MessageDecl := { message with source }

def sourceless (message : MessageDecl) : MessageDecl := message.withSource ""

theorem eq_of_sourceless {one other : MessageDecl} (same : one.sourceless = other.sourceless) :
    ∃ source, other = one.withSource source := by
  refine ⟨other.source, ?_⟩
  have again := congrArg (withSource · other.source) same
  exact again.symm

end MessageDecl

namespace Corpus

structure SameButSource (first second : Corpus) : Prop where
  messages : ∀ name, (first.messages.get? name).map MessageDecl.sourceless
    = (second.messages.get? name).map MessageDecl.sourceless
  enums : first.enums = second.enums
  requestTypes : first.requestTypes = second.requestTypes

variable {first second : Corpus}

-- A look-up fails in both corpora for the same reason, or finds the same message up to its source.
theorem SameButSource.message (alike : SameButSource first second) (name : String) :
    (∃ error, first.message name = .error error ∧ second.message name = .error error) ∨
      ∃ message source, first.message name = .ok message ∧
        second.message name = .ok (message.withSource source) := by
  have same := alike.messages name
  unfold Corpus.message
  cases found : first.messages.get? name with
  | none =>
    rw [found, eq_comm, Option.map_none, Option.map_eq_none_iff] at same
    rw [same]
    exact .inl ⟨_, rfl, rfl⟩
  | some message =>
    rw [found, eq_comm, Option.map_some, Option.map_eq_some_iff] at same
    obtain ⟨other, foundToo, equal⟩ := same
    obtain ⟨source, rfl⟩ := MessageDecl.eq_of_sourceless equal.symm
    rw [foundToo]
    exact .inr ⟨message, source, rfl, rfl⟩

theorem SameButSource.map_message (alike : SameButSource first second) (name : String)
    {f : MessageDecl → α}
    (blind : ∀ message source, f (MessageDecl.withSource message source) = f message) :
    (first.message name).map f = (second.message name).map f := by
  obtain ⟨error, failed, failedToo⟩ | ⟨message, source, found, foundToo⟩ := alike.message name
  · rw [failed, failedToo]
  · rw [found, foundToo]
    exact congrArg Except.ok (blind message source).symm

theorem SameButSource.declares (alike : SameButSource first second) (name : String) :
    first.declares name = second.declares name := by
  have same := congrArg Option.isSome (alike.messages name)
  rwa [Option.isSome_map, Option.isSome_map] at same

theorem SameButSource.resolve? (alike : SameButSource first second) :
    first.resolve? = second.resolve? :=
  resolve?_congr (funext alike.declares) alike.enums

theorem SameButSource.resolvedFields (alike : SameButSource first second) :
    first.resolvedFields = second.resolvedFields := by
  funext name
  rw [Corpus.resolvedFields, Corpus.resolvedFields]
  obtain ⟨error, failed, failedToo⟩ | ⟨message, source, found, foundToo⟩ := alike.message name
  · rw [failed, failedToo]
  · rw [found, foundToo]
    have resolve : first.resolveField message = second.resolveField (message.withSource source) := by
      funext field
      rw [resolveField, resolveField, alike.resolve?]
      rfl
    show message.fields.mapM _ = message.fields.mapM _
    rw [resolve]

theorem SameButSource.closure (alike : SameButSource first second) : first.closure = second.closure :=
  funext fun _ => AgreeBelow.closure fun name _ => congrFun alike.resolvedFields name

theorem SameButSource.fullClosure (alike : SameButSource first second) :
    first.fullClosure = second.fullClosure := by
  rw [Corpus.fullClosure, Corpus.fullClosure, alike.requestTypes, alike.closure]

variable {files others : List SourceFile} {name : String} {message : MessageDecl}

def DistinctMessages (files : List SourceFile) : Prop :=
  ((declared files).map MessageDecl.fullName).Nodup

instance (files : List SourceFile) : Decidable (DistinctMessages files) :=
  inferInstanceAs (Decidable (List.Nodup _))

-- Where no name is defined twice all definitions count.
theorem get?_ofFiles_iff (distinct : DistinctMessages files) :
    (ofFiles files).messages.get? name = some message ↔
      message ∈ declared files ∧ message.fullName = name := by
  refine ⟨declared_of_get?, ?_⟩
  rintro ⟨member, named⟩
  have known : ((ofFiles files).messages.get? name).isSome := by
    obtain ⟨file, among, inside⟩ := List.mem_flatMap.mp member
    rw [get?_ofFiles, List.findSome?_isSome_iff]
    refine ⟨file, mem_inOrder.mpr among, ?_⟩
    rw [SourceFile.definition?, List.find?_isSome]
    exact ⟨message, inside, by simpa using named⟩
  obtain ⟨held, found⟩ := Option.isSome_iff_exists.mp known
  obtain ⟨memberToo, namedToo⟩ := declared_of_get? found
  rw [found, List.inj_on_of_nodup_map distinct memberToo member (namedToo.trans named.symm)]

-- The same declarations, whichever files they stand in.
structure SameContent (files others : List SourceFile) : Prop where
  messages : ∀ message, message ∈ (declared files).map MessageDecl.sourceless ↔
    message ∈ (declared others).map MessageDecl.sourceless
  enums : ∀ name, (∃ file ∈ files, name ∈ file.enumNames) ↔ ∃ file ∈ others, name ∈ file.enumNames
  requests : ∀ name, (∃ file ∈ files, name ∈ file.requestNames) ↔
    ∃ file ∈ others, name ∈ file.requestNames

theorem SameContent.symm (same : SameContent files others) : SameContent others files :=
  ⟨fun message => (same.messages message).symm, fun name => (same.enums name).symm,
    fun name => (same.requests name).symm⟩

theorem SameContent.find (same : SameContent files others) (distinct : DistinctMessages files)
    (distinctToo : DistinctMessages others)
    (found : (ofFiles files).messages.get? name = some message) :
    ∃ other, (ofFiles others).messages.get? name = some other ∧
      other.sourceless = message.sourceless := by
  obtain ⟨member, named⟩ := (get?_ofFiles_iff distinct).mp found
  obtain ⟨other, memberToo, equal⟩ :=
    List.mem_map.mp ((same.messages _).mp (List.mem_map_of_mem member))
  refine ⟨other, (get?_ofFiles_iff distinctToo).mpr ⟨memberToo, ?_⟩, equal⟩
  obtain ⟨source, rfl⟩ := MessageDecl.eq_of_sourceless equal.symm
  exact named

theorem SameContent.alike (same : SameContent files others) (distinct : DistinctMessages files)
    (distinctToo : DistinctMessages others) : SameButSource (ofFiles files) (ofFiles others) where
  messages name := by
    cases found : (ofFiles files).messages.get? name with
    | some message =>
      obtain ⟨other, foundToo, equal⟩ := same.find distinct distinctToo found
      rw [foundToo, Option.map_some, Option.map_some, equal]
    | none =>
      cases foundToo : (ofFiles others).messages.get? name with
      | none => rfl
      | some other =>
        obtain ⟨message, again, _⟩ := same.symm.find distinctToo distinct foundToo
        rw [found] at again
        cases again
  enums := NameSet.ext_mem (ofFiles_ordered files).enums (ofFiles_ordered others).enums fun name => by
    rw [mem_enums_ofFiles, mem_enums_ofFiles, same.enums]
  requestTypes := NameSet.ext_mem (ofFiles_ordered files).requestTypes
    (ofFiles_ordered others).requestTypes fun name => by
      rw [mem_requestTypes_ofFiles, mem_requestTypes_ofFiles, same.requests]

end Corpus

end SigningSchema
