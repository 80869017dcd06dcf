import SigningSchema.Proofs.Corpus.Agreement
import SigningSchema.Proofs.Corpus.Assembly
import SigningSchema.Proofs.Results
import SigningSchema.Proofs.Text

-- Files that are added to others. Where they define nothing that the others define, nor what a dotted
-- reference of theirs may mean, whatever resolved before resolves to the same.

namespace SigningSchema

namespace Corpus

variable {files added all : List SourceFile} {name : String} {type : TypeClass}
variable {message : MessageDecl} {field : FieldDecl} {fields : List ResolvedField}

def names (files : List SourceFile) : List String := files.flatMap SourceFile.names

-- Files are added anywhere among others, which stay in their order. What they define is new, and
-- apart from what a dotted reference may mean as it is written or in its package.
structure Extends (files added all : List SourceFile) : Prop where
  kept : files.Sublist all
  parts : all.Perm (files ++ added)
  fresh : ∀ name ∈ names added, name ∉ names files
  apart : ∀ message ∈ declared files, ∀ field ∈ message.fields, '.' ∈ field.typeRef.toList →
    ∀ name ∈ names added, name ≠ field.typeRef ∧ name ≠ message.package ++ "." ++ field.typeRef

theorem classOf?_of_declares {corpus : Corpus} (declares : corpus.declares name = true) :
    corpus.classOf? name = some (.message name) := by
  rw [classOf?, if_pos declares]

theorem mem_names_of_classOf? (found : (ofFiles files).classOf? name = some type) :
    name ∈ names files := by
  unfold classOf? at found
  split at found
  · rename_i declares
    obtain ⟨message, held⟩ := Option.isSome_iff_exists.mp declares
    obtain ⟨listed, named⟩ := declared_of_get? held
    obtain ⟨file, member, inside⟩ := List.mem_flatMap.mp listed
    refine List.mem_flatMap.mpr ⟨file, member, List.mem_append_left _ ?_⟩
    exact List.mem_map.mpr ⟨message, inside, named⟩
  · split at found
    · rename_i enum
      obtain ⟨file, member, inside⟩ := mem_enums_ofFiles.mp (List.contains_iff_mem.mp enum)
      exact List.mem_flatMap.mpr ⟨file, member, List.mem_append_right _ inside⟩
    · cases found

theorem definition?_of_new (new : name ∉ names added) {file : SourceFile} (member : file ∈ added) :
    file.definition? name = none := by
  rw [SourceFile.definition?, List.find?_eq_none]
  intro message inside same
  refine new (List.mem_flatMap.mpr ⟨file, member, List.mem_append_left _ ?_⟩)
  exact List.mem_map.mpr ⟨message, inside, by simpa using same⟩

theorem findSome?_filter (f : α → Option β) (items : List α) :
    (items.filter fun item => (f item).isSome).findSome? f = items.findSome? f := by
  induction items with
  | nil => rfl
  | cons item rest ih =>
    rw [List.findSome?_cons]
    cases found : f item with
    | none => rw [List.filter_cons_of_neg (by simp [found]), ih]
    | some value => rw [List.filter_cons_of_pos (by simp [found]), List.findSome?_cons, found]

namespace Extends

theorem filter_eq (extended : Extends files added all) {keep : SourceFile → Bool}
    (others : ∀ file ∈ added, keep file = false) : all.filter keep = files.filter keep := by
  refine ((extended.kept.filter keep).eq_of_length ?_).symm
  have none : added.filter keep = [] :=
    List.filter_eq_nil_iff.mpr fun file member => Bool.eq_false_iff.mp (others file member)
  rw [(extended.parts.filter keep).length_eq, List.filter_append, none, List.append_nil]

-- A definition is looked for among the files that have one, and these are the same in the same order.
theorem get? (extended : Extends files added all) (old : name ∉ names added) :
    (ofFiles all).messages.get? name = (ofFiles files).messages.get? name := by
  rw [get?_ofFiles, get?_ofFiles, ← findSome?_filter, ← findSome?_filter _ (inOrder files)]
  rw [inOrder, inOrder, Sorting.filter_mergeSort fileOrder_compares,
    Sorting.filter_mergeSort fileOrder_compares, extended.filter_eq]
  intro file member
  rw [definition?_of_new old member]
  rfl

theorem mem_enums (extended : Extends files added all) (old : name ∉ names added) :
    name ∈ (ofFiles all).enums ↔ name ∈ (ofFiles files).enums := by
  rw [mem_enums_ofFiles, mem_enums_ofFiles]
  constructor
  · rintro ⟨file, member, inside⟩
    refine ⟨file, ?_, inside⟩
    refine (List.mem_append.mp (extended.parts.subset member)).resolve_right fun new => ?_
    exact old (List.mem_flatMap.mpr ⟨file, new, List.mem_append_right _ inside⟩)
  · rintro ⟨file, member, inside⟩
    exact ⟨file, extended.kept.subset member, inside⟩

theorem classOf? (extended : Extends files added all) (old : name ∉ names added) :
    (ofFiles all).classOf? name = (ofFiles files).classOf? name := by
  have enums := Bool.eq_iff_iff.mpr
    (List.contains_iff_mem.trans ((extended.mem_enums old).trans List.contains_iff_mem.symm))
  rw [Corpus.classOf?, Corpus.classOf?, declares, declares, extended.get? old, enums]

theorem old_of_classOf? (extended : Extends files added all)
    (found : (ofFiles files).classOf? name = some type) : name ∉ names added :=
  fun new => extended.fresh name new (mem_names_of_classOf? found)

theorem declares_of_declares (extended : Extends files added all)
    (declares : (ofFiles files).declares name = true) : (ofFiles all).declares name = true := by
  rw [Corpus.declares, extended.get? (extended.old_of_classOf? (classOf?_of_declares declares))]
  exact declares

-- Names that mean nothing new are passed over as before, and the first that had a meaning keeps it.
theorem findSome?_classOf? (extended : Extends files added all) {earlier : List String} {last : String}
    (more : List String) (old : ∀ name ∈ earlier, name ∉ names added)
    (found : (earlier ++ [last]).findSome? (ofFiles files).classOf? = some type) :
    (earlier ++ last :: more).findSome? (ofFiles all).classOf? = some type := by
  induction earlier with
  | nil =>
    rw [List.nil_append, List.findSome?_singleton] at found
    rw [List.nil_append, List.findSome?_cons, extended.classOf? (extended.old_of_classOf? found), found]
  | cons name rest ih =>
    obtain ⟨first, others⟩ := List.forall_mem_cons.mp old
    rw [List.cons_append, List.findSome?_cons] at found ⊢
    rw [extended.classOf? first]
    split at found
    · exact found
    · exact ih others found

theorem candidates (extended : Extends files added all) (listed : message ∈ declared files)
    (declared : field ∈ message.fields)
    (found : ((ofFiles files).candidates field.typeRef message.package).findSome?
      (ofFiles files).classOf? = some type) :
    ((ofFiles all).candidates field.typeRef message.package).findSome? (ofFiles all).classOf?
      = some type := by
  have alone : ∀ last more, [last].findSome? (ofFiles files).classOf? = some type →
      (last :: more).findSome? (ofFiles all).classOf? = some type :=
    fun last more => extended.findSome?_classOf? more (List.forall_mem_nil _)
  unfold Corpus.candidates at found ⊢
  split at found
  · exact alone _ [] found
  · split at found
    · rename_i outer next rest parts
      have old : ∀ name ∈ [field.typeRef, message.package ++ "." ++ field.typeRef],
          name ∉ names added := by
        have apart := extended.apart message listed field declared (Text.mem_of_split parts)
        intro name among new
        rcases List.mem_pair.mp among with same | same
        · exact (apart name new).1 same
        · exact (apart name new).2 same
      split at found
      · rename_i outerKnown
        rw [if_pos (extended.declares_of_declares outerKnown)]
        exact extended.findSome?_classOf? [] old found
      · split
        · exact alone _ _ found
        · exact alone _ [] found
    · exact alone _ [] found

theorem resolveField (extended : Extends files added all) (listed : message ∈ declared files)
    (declared : field ∈ message.fields) {resolved : ResolvedField}
    (ran : (ofFiles files).resolveField message field = .ok resolved) :
    (ofFiles all).resolveField message field = .ok resolved := by
  unfold Corpus.resolveField at ran ⊢
  split at ran
  · rename_i type known
    cases ran
    unfold Corpus.resolve? at known ⊢
    split at known
    · cases known
      rfl
    · rw [extended.candidates listed declared known]
  · cases ran

theorem find (extended : Extends files added all)
    (found : (ofFiles files).messages.get? name = some message) :
    (ofFiles all).messages.get? name = some message := by
  have declared : (ofFiles files).declares name = true := by
    rw [declares, found]
    rfl
  rw [extended.get? (extended.old_of_classOf? (classOf?_of_declares declared)), found]

theorem resolvedFields (extended : Extends files added all)
    (resolved : (ofFiles files).resolvedFields name = .ok fields) :
    (ofFiles all).resolvedFields name = .ok fields := by
  unfold Corpus.resolvedFields Corpus.message at resolved ⊢
  cases found : (ofFiles files).messages.get? name with
  | none =>
    rw [found] at resolved
    cases resolved
  | some message =>
    rw [found] at resolved
    rw [extended.find found]
    refine mapM_ok_congr resolved fun field member result ran => ?_
    exact extended.resolveField (declared_of_get? found).1 member ran

theorem agreeBelow (extended : Extends files added all) {root : String}
    (resolves : (ofFiles files).Resolves root) : AgreeBelow (ofFiles files) (ofFiles all) root := by
  intro name path
  obtain ⟨fields, resolved⟩ := resolves name path
  rw [resolved, extended.resolvedFields resolved]

theorem requested (extended : Extends files added all) (request : name ∈ (ofFiles files).requestTypes) :
    name ∈ (ofFiles all).requestTypes := by
  obtain ⟨file, member, inside⟩ := mem_requestTypes_ofFiles.mp request
  exact mem_requestTypes_ofFiles.mpr ⟨file, extended.kept.subset member, inside⟩

end Extends

end Corpus

end SigningSchema
