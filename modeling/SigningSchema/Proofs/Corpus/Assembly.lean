import Mathlib.Data.List.Nodup
import SigningSchema.Corpus.Basic
import SigningSchema.Proofs.Files.PathOrder
import SigningSchema.Proofs.Table

-- What a corpus takes from files: of a message the first definition in the order of paths, of enums
-- and payload messages all of them. So it does not matter in which order the files are given.

namespace SigningSchema

namespace Table

theorem get?_insertIfNew (table : Table α) (key other : String) (value : α) :
    (table.insertIfNew key value).get? other
      = (table.get? other).or (if key = other then some value else none) := by
  unfold insertIfNew
  split
  · rename_i held
    obtain ⟨old, found⟩ := Option.isSome_iff_exists.mp held
    split
    · rename_i same
      rw [← same, found]
      rfl
    · rw [Option.or_none]
  · rename_i free
    rw [get?_insert]
    split
    · rename_i same
      rw [← same, Option.not_isSome_iff_eq_none.mp free]
      rfl
    · rw [Option.or_none]

theorem Ascending.insertIfNew {table : Table α} (ascending : table.Ascending) (key : String)
    (value : α) : (table.insertIfNew key value).Ascending := by
  unfold Table.insertIfNew
  split
  · exact ascending
  · exact ascending.insert key value

end Table

theorem NameSet.Ascending.union {names : NameSet} (ascending : names.Ascending) (more : List String) :
    (names.union more).Ascending := by
  unfold NameSet.union
  induction more generalizing names with
  | nil => exact ascending
  | cons name rest ih => exact ih (ascending.insert name)

namespace SourceFile

def enumNames (file : SourceFile) : List String := file.enums.map (file.package ++ "." ++ ·)

def requestNames (file : SourceFile) : List String := file.requests.map (qualify · file.package)

def definition? (file : SourceFile) (name : String) : Option MessageDecl :=
  file.messages.find? (·.fullName = name)

-- All that a file defines.
def names (file : SourceFile) : List String := file.messages.map MessageDecl.fullName ++ file.enumNames

end SourceFile

namespace Corpus

-- Tables and sets in ascending order, as files are always put together.
structure Ordered (corpus : Corpus) : Prop where
  messages : corpus.messages.Ascending
  enums : NameSet.Ascending corpus.enums
  requestTypes : NameSet.Ascending corpus.requestTypes

variable {corpus : Corpus} {file : SourceFile} {files others : List SourceFile} {name : String}
variable {message : MessageDecl}

theorem get?_addFile (corpus : Corpus) (file : SourceFile) (name : String) :
    (corpus.addFile file).messages.get? name = (corpus.messages.get? name).or (file.definition? name) := by
  unfold addFile SourceFile.definition?
  generalize corpus.messages = table
  generalize file.messages = messages
  dsimp only
  induction messages generalizing table with
  | nil => exact Option.or_none.symm
  | cons first rest ih =>
    rw [List.foldl_cons, ih, Table.get?_insertIfNew, Option.or_assoc, List.find?_cons]
    by_cases same : first.fullName = name <;> simp [same]

theorem Ordered.addFile (ordered : corpus.Ordered) (file : SourceFile) :
    (corpus.addFile file).Ordered where
  messages := by
    unfold Corpus.addFile
    have ascending := ordered.messages
    generalize corpus.messages = table at ascending
    generalize file.messages = messages
    dsimp only
    induction messages generalizing table with
    | nil => exact ascending
    | cons first rest ih => exact ih _ (ascending.insertIfNew _ _)
  enums := ordered.enums.union _
  requestTypes := ordered.requestTypes.union _

theorem get?_foldl_addFile (corpus : Corpus) (files : List SourceFile) (name : String) :
    (files.foldl addFile corpus).messages.get? name
      = (corpus.messages.get? name).or (files.findSome? (·.definition? name)) := by
  induction files generalizing corpus with
  | nil => exact Option.or_none.symm
  | cons file rest ih =>
    rw [List.foldl_cons, ih, get?_addFile, Option.or_assoc, List.findSome?_cons]
    cases file.definition? name <;> rfl

theorem mem_enums_foldl_addFile : name ∈ (files.foldl addFile corpus).enums ↔
    name ∈ corpus.enums ∨ ∃ file ∈ files, name ∈ file.enumNames := by
  induction files generalizing corpus with
  | nil => simp
  | cons file rest ih =>
    rw [List.foldl_cons, ih, List.exists_mem_cons_iff, ← or_assoc]
    exact or_congr_left NameSet.mem_union

theorem mem_requestTypes_foldl_addFile : name ∈ (files.foldl addFile corpus).requestTypes ↔
    name ∈ corpus.requestTypes ∨ ∃ file ∈ files, name ∈ file.requestNames := by
  induction files generalizing corpus with
  | nil => simp
  | cons file rest ih =>
    rw [List.foldl_cons, ih, List.exists_mem_cons_iff, ← or_assoc]
    exact or_congr_left NameSet.mem_union

theorem ordered_foldl_addFile (ordered : corpus.Ordered) : (files.foldl addFile corpus).Ordered := by
  induction files generalizing corpus with
  | nil => exact ordered
  | cons file rest ih => exact ih (ordered.addFile file)

-- The order in which files are taken.
def inOrder (files : List SourceFile) : List SourceFile :=
  files.mergeSort fun a b => Path.notAfter a.path b.path

theorem fileOrder_compares :
    Sorting.Compares fun a b : SourceFile => Path.notAfter a.path b.path :=
  Path.notAfter_compares.comap SourceFile.path

theorem mem_inOrder : file ∈ inOrder files ↔ file ∈ files :=
  (List.mergeSort_perm files _).mem_iff

theorem ofFiles_ordered (files : List SourceFile) : (ofFiles files).Ordered :=
  ordered_foldl_addFile ⟨.nil, .nil, .nil⟩

theorem get?_ofFiles (files : List SourceFile) (name : String) :
    (ofFiles files).messages.get? name = (inOrder files).findSome? (·.definition? name) :=
  get?_foldl_addFile empty _ name

theorem mem_enums_ofFiles : name ∈ (ofFiles files).enums ↔ ∃ file ∈ files, name ∈ file.enumNames := by
  refine mem_enums_foldl_addFile.trans ((or_iff_right List.not_mem_nil).trans ?_)
  exact exists_congr fun file => and_congr_left fun _ => mem_inOrder

theorem mem_requestTypes_ofFiles :
    name ∈ (ofFiles files).requestTypes ↔ ∃ file ∈ files, name ∈ file.requestNames := by
  refine mem_requestTypes_foldl_addFile.trans ((or_iff_right List.not_mem_nil).trans ?_)
  exact exists_congr fun file => and_congr_left fun _ => mem_inOrder

theorem definition?_iff {held : MessageDecl} (found : file.definition? name = some held) :
    held ∈ file.messages ∧ held.fullName = name :=
  ⟨List.mem_of_find?_eq_some found, by simpa using List.find?_some found⟩

def declared (files : List SourceFile) : List MessageDecl := files.flatMap SourceFile.messages

theorem declared_of_get? (found : (ofFiles files).messages.get? name = some message) :
    message ∈ declared files ∧ message.fullName = name := by
  rw [get?_ofFiles] at found
  obtain ⟨file, inside, defined⟩ := List.exists_of_findSome?_eq_some found
  obtain ⟨listed, named⟩ := definition?_iff defined
  exact ⟨List.mem_flatMap.mpr ⟨file, mem_inOrder.mp inside, listed⟩, named⟩

def DistinctPaths (files : List SourceFile) : Prop :=
  (files.map fun file => Path.components file.path).Nodup

instance (files : List SourceFile) : Decidable (DistinctPaths files) :=
  inferInstanceAs (Decidable (List.Nodup _))

theorem DistinctPaths.eq_of_level (distinct : DistinctPaths files) {first second : SourceFile}
    (member : first ∈ files) (memberToo : second ∈ files)
    (below : Path.notAfter first.path second.path = true)
    (above : Path.notAfter second.path first.path = true) : first = second :=
  List.inj_on_of_nodup_map distinct member memberToo (Path.components_eq_of_level below above)

theorem inOrder_of_perm (distinct : DistinctPaths files) (perm : files.Perm others) :
    inOrder files = inOrder others := by
  have same : (inOrder files).Perm (inOrder others) :=
    ((List.mergeSort_perm _ _).trans perm).trans (List.mergeSort_perm _ _).symm
  refine same.eq_of_pairwise ?_ (fileOrder_compares.sorted files) (fileOrder_compares.sorted others)
  intro first second inside insideToo below above
  exact distinct.eq_of_level (mem_inOrder.mp inside) (perm.symm.subset (mem_inOrder.mp insideToo))
    below above

theorem ofFiles_of_perm (distinct : DistinctPaths files) (perm : files.Perm others) :
    ofFiles files = ofFiles others :=
  congrArg (List.foldl addFile empty) (inOrder_of_perm distinct perm)

-- The file that a message is taken from comes no later than any other that defines it.
theorem first_of_get? (found : (ofFiles files).messages.get? name = some message) :
    ∃ file ∈ files, file.definition? name = some message ∧
      ∀ other ∈ files, (other.definition? name).isSome → Path.notAfter file.path other.path = true := by
  rw [get?_ofFiles, List.findSome?_eq_some_iff] at found
  obtain ⟨before, file, after, split, defined, undefined⟩ := found
  have inside : file ∈ inOrder files := split ▸ List.mem_append_right _ List.mem_cons_self
  refine ⟨file, mem_inOrder.mp inside, defined, fun other member defines => ?_⟩
  have sorted := fileOrder_compares.sorted files
  rw [show files.mergeSort (fun a b => Path.notAfter a.path b.path) = _ from split] at sorted
  have later := (List.pairwise_append.mp sorted).2.1
  have among := mem_inOrder.mpr member
  rw [split] at among
  rcases List.mem_append.mp among with early | late
  · rw [undefined other early] at defines
    cases defines
  · rcases List.mem_cons.mp late with rfl | late
    · exact Path.notAfter_compares.refl _
    · exact (List.pairwise_cons.mp later).1 other late

theorem get?_of_first (distinct : DistinctPaths files) (member : file ∈ files)
    (defined : file.definition? name = some message)
    (first : ∀ other ∈ files, (other.definition? name).isSome →
      Path.notAfter file.path other.path = true) :
    (ofFiles files).messages.get? name = some message := by
  have known : ((ofFiles files).messages.get? name).isSome := by
    rw [get?_ofFiles, List.findSome?_isSome_iff]
    exact ⟨file, mem_inOrder.mpr member, by rw [defined]; rfl⟩
  obtain ⟨held, found⟩ := Option.isSome_iff_exists.mp known
  obtain ⟨other, memberToo, definedToo, firstToo⟩ := first_of_get? found
  have same := distinct.eq_of_level member memberToo (first other memberToo (by rw [definedToo]; rfl))
    (firstToo file member (by rw [defined]; rfl))
  rw [← same, defined] at definedToo
  rw [found, definedToo]

end Corpus

end SigningSchema
