import Mathlib.Data.List.TakeWhile
import SigningSchema.Proofs.Source.Headers

-- What the names look like that are read: packages and messages begin with a letter or an underscore of
-- ASCII, and go on with characters of words, packages with dots too.

namespace SigningSchema

namespace Source

open Unicode (isWord)

-- A name as it is read: its first character and those that go on with it.
def Named (continues : Char → Bool) (name : List Char) : Prop :=
  ∃ c rest, name = c :: rest ∧ beginsName c = true ∧ ∀ d ∈ rest, continues d = true

theorem Named.forall {continues : Char → Bool} {name : List Char} (named : Named continues name)
    (includes : ∀ c, isWord c = true → continues c = true) : ∀ c ∈ name, continues c = true := by
  obtain ⟨c, rest, rfl, begins, later⟩ := named
  exact List.forall_mem_cons.mpr ⟨includes c (isWord_of_beginsName begins), later⟩

theorem name?_shape {continues : Char → Bool} {text name rest : List Char}
    (read : name? continues text = some (name, rest)) : Named continues name := by
  cases text with
  | nil => cases read
  | cons c more =>
    rw [name?] at read
    split at read
    · rename_i begins
      cases read
      exact ⟨c, _, rfl, begins, fun d inside => List.mem_takeWhile_imp inside⟩
    · cases read

theorem packageAt?_shape {text name : List Char} (read : packageAt? text = some name) :
    Named isDotted name := by
  simp only [packageAt?, Option.bind_eq_bind, Option.bind_eq_some_iff] at read
  obtain ⟨_, _, _, _, ⟨found, _⟩, named, _, _, same⟩ := read
  cases same
  exact name?_shape named

theorem packageFrom?_shape {lineStart : Bool} {text name : List Char}
    (read : packageFrom? lineStart text = some name) : Named isDotted name := by
  induction text generalizing lineStart with
  | nil => cases read
  | cons c rest ih =>
    rw [packageFrom?, Option.or_eq_some_iff] at read
    rcases read with here | ⟨_, later⟩
    · split at here
      · exact packageAt?_shape here
      · cases here
    · exact ih later

theorem header?_shape {keyword : String} {text name rest : List Char}
    (read : header? keyword text = some (name, rest)) : Named isWord name := by
  simp only [header?, Option.bind_eq_bind, Option.bind_eq_some_iff] at read
  obtain ⟨_, _, _, _, ⟨found, _⟩, named, opened⟩ := read
  split at opened
  · cases opened
    exact name?_shape named
  · cases opened

theorem read?_of_mem_occurrences {read? : List Char → Option α} {afterWord : Bool} {text : List Char} {found : α}
    (member : found ∈ occurrences read? afterWord text) : ∃ rest, read? rest = some found := by
  induction text generalizing afterWord with
  | nil => cases member
  | cons c rest ih =>
    rw [occurrences] at member
    rcases List.mem_append.mp member with here | later
    · rw [Option.mem_toList] at here
      split at here
      · cases here
      · exact ⟨_, here⟩
    · exact ih later

end Source

-- Every message of a file has such a name and such a package.
theorem SourceFile.named_of_read {config : Config} {path text : String} {file : SourceFile}
    (read : SourceFile.read? config path text = some file) {message : MessageDecl}
    (member : message ∈ file.messages) :
    Source.Named Source.isDotted message.package.toList ∧
      Source.Named Unicode.isWord message.name.toList := by
  obtain ⟨package, found, rfl⟩ := Option.map_eq_some_iff.mp read
  obtain ⟨⟨name, rest⟩, listed, rfl⟩ := List.mem_map.mp member
  obtain ⟨_, here⟩ := Source.read?_of_mem_occurrences listed
  refine ⟨?_, ?_⟩
  · show Source.Named _ (String.ofList package).toList
    rw [String.toList_ofList]
    exact Source.packageFrom?_shape found
  · show Source.Named _ (String.ofList name).toList
    rw [String.toList_ofList]
    exact Source.header?_shape here

end SigningSchema
