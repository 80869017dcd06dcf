import SigningSchema.Proofs.Json.Decoding
import SigningSchema.Proofs.Registry.Derivation
import SigningSchema.Registry.Document

-- The document of a registry holds all of it: what is read from the document is the registry that
-- was written, and no two registries have one document.

namespace SigningSchema

open Json

namespace SigningField

theorem carries (field : SigningField) :
    Carries field.toJson (fun tree => do
      match ← tree.record? ["name", "type"] with
      | [name, type] =>
        return (⟨← name.bind Tree.string?, ← type.bind Tree.string?⟩ : SigningField)
      | _ => none) field := by
  obtain ⟨name, writtenName, readName⟩ := carries_string field.name
  obtain ⟨type, writtenType, readType⟩ := carries_string field.type
  obtain ⟨tree, written, read⟩ := exists_record
    [("name", .string field.name), ("type", .string field.type)] [("name", name), ("type", type)]
    (.cons ⟨rfl, writtenName⟩ (.cons ⟨rfl, writtenType⟩ .nil))
  have fields : tree.record? ["name", "type"] = some [some name, some type] := by
    rw [read]
    rfl
  refine ⟨tree, written, ?_⟩
  simp only [fields, Option.bind_eq_bind, Option.bind_some, readName, readType]
  rfl

end SigningField

theorem Shape.carries (shape : Shape) : Carries shape.toJson Shape.ofTree? shape :=
  carries_list fun field _ => field.carries

namespace RegistryEntry

-- Tables and sets as they are built: one binding for a key, in the order of the keys.
structure Ordered (entry : RegistryEntry) : Prop where
  nested : entry.nestedTypes.Ascending
  durations : NameSet.Ascending entry.durationFields

theorem carries {entry : RegistryEntry} (ordered : entry.Ordered) :
    Carries entry.toJson RegistryEntry.ofTree? entry := by
  obtain ⟨legacy, writtenLegacy, readLegacy⟩ := carries_string entry.legacyName
  obtain ⟨url, writtenUrl, readUrl⟩ := carries_string entry.typeUrl
  obtain ⟨fields, writtenFields, readFields⟩ := Shape.carries entry.valueFields
  obtain ⟨nested, writtenNested, readNested⟩ :=
    carries_table ordered.nested fun pair _ => Shape.carries pair.2
  obtain ⟨durations, writtenDurations, readDurations⟩ :=
    carries_list fun name (_ : name ∈ entry.durationFields) => carries_string name
  have last : List.Forall₂ (fun member tree => member.1 = tree.1 ∧ Written member.2 tree.2)
      (if entry.exclude then [("excludeFromLegacyRegistry", Json.bool true)] else [])
      (if entry.exclude then [("excludeFromLegacyRegistry", Tree.bool true)] else []) := by
    split
    · exact .cons ⟨rfl, _, printed_bool true⟩ .nil
    · exact .nil
  obtain ⟨tree, written, read⟩ := exists_record
    (("legacyName", _) :: ("typeUrl", _) :: ("valueFields", _) :: ("nestedTypes", _) ::
      ("durationFields", _) :: _)
    (("legacyName", legacy) :: ("typeUrl", url) :: ("valueFields", fields) ::
      ("nestedTypes", nested) :: ("durationFields", durations) :: _)
    (.cons ⟨rfl, writtenLegacy⟩ (.cons ⟨rfl, writtenUrl⟩ (.cons ⟨rfl, writtenFields⟩
      (.cons ⟨rfl, writtenNested⟩ (.cons ⟨rfl, writtenDurations⟩ last)))))
  have six : tree.record? ["legacyName", "typeUrl", "valueFields", "nestedTypes", "durationFields",
      "excludeFromLegacyRegistry"] = some [some legacy, some url, some fields, some nested,
        some durations, if entry.exclude then some (.bool true) else none] := by
    rw [read]
    cases entry.exclude <;> rfl
  have exclude : Tree.optional? Tree.bool? false
      (if entry.exclude then some (.bool true) else none) = some entry.exclude := by
    cases entry.exclude <;> rfl
  refine ⟨tree, written, ?_⟩
  simp only [ofTree?, six, Option.bind_eq_bind, Option.bind_some, Tree.required?, readLegacy, readUrl,
    readFields, readNested, readDurations, exclude, NameSet.ofList_ascending ordered.durations]
  rfl

theorem ordered_of_ofTree? {tree : Tree} {entry : RegistryEntry} (read : ofTree? tree = some entry) :
    entry.Ordered := by
  unfold ofTree? at read
  obtain ⟨fields, _, read⟩ := Option.bind_eq_some_iff.mp read
  split at read
  · obtain ⟨legacyName, _, read⟩ := Option.bind_eq_some_iff.mp read
    obtain ⟨typeUrl, _, read⟩ := Option.bind_eq_some_iff.mp read
    obtain ⟨valueFields, _, read⟩ := Option.bind_eq_some_iff.mp read
    obtain ⟨nested, readNested, read⟩ := Option.bind_eq_some_iff.mp read
    obtain ⟨durations, _, read⟩ := Option.bind_eq_some_iff.mp read
    obtain ⟨exclude, _, read⟩ := Option.bind_eq_some_iff.mp read
    cases read
    obtain ⟨held, _, readNested⟩ := Option.bind_eq_some_iff.mp readNested
    exact ⟨ascending_of_table? readNested, NameSet.ascending_ofList durations⟩
  · cases read

end RegistryEntry

namespace Registry

structure Ordered (registry : Registry) : Prop where
  urls : registry.entries.Ascending
  entry : ∀ pair ∈ registry.entries, pair.2.Ordered

theorem ofText?_text {registry : Registry} (ordered : registry.Ordered) :
    ofText? registry.text = some registry := by
  have carries : Carries registry.toJson (Tree.table? RegistryEntry.ofTree?) registry.entries :=
    carries_table ordered.urls fun pair inside => RegistryEntry.carries (ordered.entry pair inside)
  have read := carries.ofText?
  obtain ⟨tree, parsed, entries⟩ := Option.bind_eq_some_iff.mp read
  simp only [ofText?, text, parsed, entries, Option.bind_eq_bind, Option.bind_some]
  rfl

theorem ordered_of_ofText? {given : String} {registry : Registry}
    (read : ofText? given = some registry) : registry.Ordered := by
  obtain ⟨tree, _, typed⟩ := Option.bind_eq_some_iff.mp read
  obtain ⟨entries, held, same⟩ := Option.bind_eq_some_iff.mp typed
  cases same
  refine ⟨ascending_of_table? held, fun pair inside => ?_⟩
  obtain ⟨_, readEntry⟩ := exists_of_mem_table? held inside
  exact RegistryEntry.ordered_of_ofTree? readEntry

theorem ordered_of_ofCorpus {corpus : Corpus} {config : Config} {registry : Registry}
    (ran : ofCorpus corpus config = .ok registry) : registry.Ordered := by
  have ends := ofCorpus_ends corpus config
  rw [ran] at ends
  obtain ⟨final, entries, derived, overridden⟩ := ends
  have urls : registry.entries.Ascending := by
    rw [overridden]
    exact ascending_applyOverrides (derived.ascending .nil)
  refine ⟨urls, fun pair inside => ?_⟩
  -- Each entry stands for a payload message, and its description is in order.
  have listed : pair.1 ∈ entries.keys := by
    rw [← keys_applyOverrides config.typeOverrides, ← overridden]
    exact List.mem_map_of_mem inside
  obtain ⟨request, requested, url⟩ := ((derived.urls pair.1).mp listed).resolve_right List.not_mem_nil
  obtain ⟨entry, found, describes⟩ := entry_of_ofCorpus ran request requested
  rw [get?, ← url, Table.get?_of_mem urls inside] at found
  cases found
  exact ⟨describes.nestedAscending, describes.durationsAscending⟩

-- What is written is read back, so a document has one registry, and writing what was read from a
-- document gives the document again. Registries that were derived or read are of this kind.
theorem text_roundtrip (registry : Registry) (ordered : registry.Ordered) :
    ofText? registry.text = some registry ∧
      (∀ other : Registry, other.Ordered → other.text = registry.text → other = registry) ∧
      (ofText? registry.text).map text = some registry.text ∧
      (∀ given read, ofText? given = some read → read.Ordered ∧ ofText? read.text = some read) ∧
      ∀ corpus config derived, ofCorpus corpus config = .ok derived →
        derived.Ordered ∧ ofText? derived.text = some derived := by
  have read := ofText?_text ordered
  refine ⟨read, ?_, ?_, ?_, ?_⟩
  · intro other orderedToo same
    have readToo := ofText?_text orderedToo
    rw [same, read] at readToo
    exact (Option.some.inj readToo).symm
  · rw [read, Option.map_some]
  · intro given found readGiven
    have orderedFound := ordered_of_ofText? readGiven
    exact ⟨orderedFound, ofText?_text orderedFound⟩
  · intro corpus config derived ran
    have orderedDerived := ordered_of_ofCorpus ran
    exact ⟨orderedDerived, ofText?_text orderedDerived⟩

def escapedEntry : RegistryEntry where
  legacyName := "say \"hi\"\\n"
  typeUrl := "/pay.v1.Msg\\\"Pay"
  valueFields := [⟨"to\x00\n", "Größe[]"⟩, ⟨"", ""⟩]
  nestedTypes := [("\t", []), ("\x7b\x7d", [⟨"\"", "\\"⟩]), ("→", [])]
  durationFields := ["", "\x1f\x7f", "𝔻"]
  exclude := true

def escapedRegistry : Registry where
  entries := [
    ("/pay.v1.MsgRest", ⟨"", "", [], [], [], false⟩),
    ("/pay.v1.Msg\\\"Pay", escapedEntry)]

theorem ordered_escaped : escapedRegistry.Ordered where
  urls := by
    unfold Table.Ascending
    decide
  entry := by
    intro pair inside
    simp only [escapedRegistry, List.mem_cons, List.not_mem_nil, or_false] at inside
    rcases inside with rfl | rfl
    · exact ⟨.nil, .nil⟩
    · constructor
      · unfold Table.Ascending
        decide
      · unfold NameSet.Ascending
        decide

theorem text_roundtrip_escaped : escapedRegistry.Ordered ∧
    ofText? escapedRegistry.text = some escapedRegistry ∧
    ∀ other : Registry, other.Ordered → other.text = escapedRegistry.text → other = escapedRegistry := by
  obtain ⟨read, unique, _⟩ := text_roundtrip escapedRegistry ordered_escaped
  exact ⟨ordered_escaped, read, unique⟩

end Registry

end SigningSchema
