import SigningSchema.Proofs.Files.Places

-- What the operations on a tree of files change, and that they change nothing else.

namespace SigningSchema.FileTree

variable {tree other : FileTree} {location place : Location} {path : String}

theorem isDirectoryAt_iff : tree.isDirectoryAt location = true ↔ tree.get? location = some .directory := by
  unfold isDirectoryAt
  cases tree.get? location with
  | none => simp
  | some entry => cases entry <;> simp [FileEntry.isDirectory]

theorem isDirectoryAt_top (tree : FileTree) : tree.isDirectoryAt [] = true := by
  simp [isDirectoryAt_iff, get?]

theorem ne_top (notDirectory : tree.isDirectoryAt location = false) : location ≠ [] := by
  rintro rfl
  simp [isDirectoryAt_top] at notDirectory

theorem find?_kept (entries : List (Location × FileEntry)) (keep : Location → Bool) (place : Location) :
    (entries.filter fun entry => keep entry.1).find? (fun entry => entry.1 = place)
      = if keep place then entries.find? (fun entry => entry.1 = place) else none := by
  rw [List.find?_filter]
  cases kept : keep place with
  | true =>
    rw [if_pos rfl]
    congr 1
    funext entry
    by_cases here : entry.1 = place
    · simp [here, kept]
    · simp [here]
  | false =>
    rw [if_neg Bool.false_ne_true, List.find?_eq_none]
    intro entry _
    by_cases here : entry.1 = place
    · simp [here, kept]
    · simp [here]

theorem get?_put (below : location ≠ []) (entry : FileEntry) (place : Location) :
    (tree.put location entry).get? place = if place = location then some entry else tree.get? place := by
  by_cases top : place = []
  · subst top
    simp [get?, below.symm]
  · by_cases same : place = location
    · subst same
      simp [get?, put, top]
    · have others := find?_kept tree.entries (· ≠ location) place
      simp only [get?, put, if_neg top, if_neg same, List.find?_cons, decide_eq_false (Ne.symm same)]
      rw [others]
      simp [same]

theorem get?_erase (below : location ≠ []) (place : Location) :
    (tree.erase location).get? place = if location <:+ place then none else tree.get? place := by
  by_cases top : place = []
  · subst top
    simp [get?, below]
  · have others := find?_kept tree.entries (fun place => !location.isSuffixOf place) place
    simp only [get?, erase, if_neg top]
    rw [others]
    by_cases inside : location <:+ place
    · simp [inside, List.isSuffixOf_iff_suffix.mpr inside]
    · have outside : location.isSuffixOf place = false := by
        rwa [← Bool.not_eq_true, List.isSuffixOf_iff_suffix]
      simp [inside, outside]

-- Whatever there is lies in a directory.
def Rooted (tree : FileTree) : Prop :=
  ∀ name location, (tree.get? (name :: location)).isSome → tree.isDirectoryAt location = true

theorem Rooted.above (rooted : tree.Rooted) (held : (tree.get? location).isSome) :
    tree.isDirectoryAt location.tail = true := by
  cases location with
  | nil => exact isDirectoryAt_top tree
  | cons name rest => exact rooted name rest held

theorem isSome_of_directory (directory : tree.isDirectoryAt location = true) :
    (tree.get? location).isSome := by
  simp [isDirectoryAt_iff.mp directory]

-- Beneath a file there is nothing.
theorem Rooted.beneath (rooted : tree.Rooted) (notDirectory : tree.isDirectoryAt location = false)
    (inside : location <:+ place) (differs : place ≠ location) : tree.get? place = none := by
  obtain ⟨names, rfl⟩ := inside
  have deeper : ∀ names : List String, names ≠ [] → tree.get? (names ++ location) = none := by
    intro names
    induction names with
    | nil => exact fun none => absurd rfl none
    | cons name rest ih =>
      intro _
      rw [← Option.not_isSome_iff_eq_none]
      intro held
      have directory := rooted name (rest ++ location) held
      by_cases last : rest = []
      · rw [last, List.nil_append, notDirectory] at directory
        cases directory
      · rw [isDirectoryAt_iff, ih last] at directory
        cases directory
  apply deeper
  rintro rfl
  exact differs rfl

theorem Rooted.get?_erase (rooted : tree.Rooted) (notDirectory : tree.isDirectoryAt location = false)
    (place : Location) :
    (tree.erase location).get? place = if place = location then none else tree.get? place := by
  rw [FileTree.get?_erase (ne_top notDirectory)]
  by_cases same : place = location
  · simp [same]
  · by_cases inside : location <:+ place
    · simp [inside, same, rooted.beneath notDirectory inside same]
    · simp [inside, same]

theorem locate?_above (rooted : tree.Rooted) (found : tree.locate? path = some location) :
    tree.isDirectoryAt location.tail = true := by
  have steps : ∀ (parts : List String) start, tree.isDirectoryAt start.tail = true →
      parts.foldlM tree.step? start = some location → tree.isDirectoryAt location.tail = true := by
    intro parts
    induction parts with
    | nil =>
      intro start above same
      cases same
      exact above
    | cons part rest ih =>
      intro start above taken
      rw [List.foldlM_cons] at taken
      obtain ⟨next, step, later⟩ := Option.bind_eq_some_iff.mp taken
      refine ih next ?_ later
      have entered := step?_enter step
      unfold step? at step
      split at step
      · cases step
      · rename_i notNot
        have directory : tree.isDirectoryAt start = true := by simpa using notNot
        rw [entered]
        unfold Path.enter
        split
        · exact above
        · split
          · exact rooted.above (isSome_of_directory above)
          · exact directory
  unfold locate? at found
  split at found
  · cases found
  · exact steps _ [] (isDirectoryAt_top tree) found

-- A path at which a file can be put: it can be followed, and there is no directory at its end.
def Takes (tree : FileTree) (path : String) : Prop :=
  ∃ location, tree.locate? path = some location ∧ tree.isDirectoryAt location = false

theorem SameDirectories.takes (same : tree.SameDirectories other) : tree.Takes path ↔ other.Takes path := by
  simp only [Takes, same.locate? path, same _]

theorem Takes.notDirectory (takes : tree.Takes path) : tree.isDirectoryAt (Path.place path) = false := by
  obtain ⟨location, found, notDirectory⟩ := takes
  rwa [← locate?_place found]

theorem Takes.locate? (takes : tree.Takes path) : tree.locate? path = some (Path.place path) := by
  obtain ⟨location, found, _⟩ := takes
  rwa [← locate?_place found]

theorem write?_takes (takes : tree.Takes path) (content : ByteArray) :
    tree.write? path content = some (tree.put (Path.place path) (.file content)) := by
  simp [write?, takes.locate?, takes.notDirectory]

theorem removeFile?_takes {content : ByteArray} (takes : tree.Takes path)
    (held : tree.get? (Path.place path) = some (.file content)) :
    tree.removeFile? path = some (tree.erase (Path.place path)) := by
  have below := ne_top takes.notDirectory
  simp [removeFile?, read?, at?, remove?, takes.locate?, held, below]

section Files

variable {content : ByteArray}

theorem same_put (notDirectory : tree.isDirectoryAt location = false) :
    tree.SameDirectories (tree.put location (.file content)) := by
  intro place
  rw [Bool.eq_iff_iff, isDirectoryAt_iff, isDirectoryAt_iff, get?_put (ne_top notDirectory)]
  by_cases same : place = location
  · subst same
    have absent : tree.get? place ≠ some .directory := by
      rw [ne_eq, ← isDirectoryAt_iff, notDirectory]
      exact Bool.false_ne_true
    simp [absent]
  · simp [same]

theorem same_erase (rooted : tree.Rooted) (notDirectory : tree.isDirectoryAt location = false) :
    tree.SameDirectories (tree.erase location) := by
  intro place
  rw [Bool.eq_iff_iff, isDirectoryAt_iff, isDirectoryAt_iff, rooted.get?_erase notDirectory]
  by_cases same : place = location
  · subst same
    have absent : tree.get? place ≠ some .directory := by
      rw [ne_eq, ← isDirectoryAt_iff, notDirectory]
      exact Bool.false_ne_true
    simp [absent]
  · simp [same]

theorem SameDirectories.trans {third : FileTree} (one : tree.SameDirectories other)
    (two : other.SameDirectories third) : tree.SameDirectories third :=
  fun location => (one location).trans (two location)

theorem Rooted.put (rooted : tree.Rooted) (below : location ≠ [])
    (above : tree.isDirectoryAt location.tail = true) (entry : FileEntry)
    (kept : ∀ place, tree.isDirectoryAt place = true → (tree.put location entry).isDirectoryAt place = true) :
    (tree.put location entry).Rooted := by
  intro name place held
  apply kept
  rw [get?_put below] at held
  split at held
  · rename_i same
    rwa [← same] at above
  · exact rooted name place held

theorem Rooted.put_file (rooted : tree.Rooted) (above : tree.isDirectoryAt location.tail = true)
    (notDirectory : tree.isDirectoryAt location = false) :
    (tree.put location (.file content)).Rooted := by
  apply rooted.put (ne_top notDirectory) above
  intro place directory
  rwa [← same_put notDirectory place]

theorem Rooted.erase_file (rooted : tree.Rooted) (notDirectory : tree.isDirectoryAt location = false) :
    (tree.erase location).Rooted := by
  intro name place held
  rw [← same_erase rooted notDirectory place]
  apply rooted name place
  rw [rooted.get?_erase notDirectory] at held
  split at held
  · cases held
  · exact held

end Files

end SigningSchema.FileTree
