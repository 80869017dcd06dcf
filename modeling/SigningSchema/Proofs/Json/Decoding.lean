import SigningSchema.Json.Decode
import SigningSchema.Proofs.Json.Printing
import SigningSchema.Proofs.Table

-- Documents that carry a value: what is printed is read back by type as that value.

namespace SigningSchema

theorem Table.ofList_ascending {table : Table α} (ascending : table.Ascending) :
    Table.ofList table = table := by
  refine Table.ext_get? (Table.ascending_ofList table) ascending fun key => ?_
  have distinct : (List.map Prod.fst table).Nodup :=
    List.Pairwise.map _ (fun _ _ => ne_of_lt) ascending
  cases held : table.get? key with
  | none =>
    refine Table.get?_ofList_of_notMem fun member => ?_
    obtain ⟨value, found⟩ := Table.mem_keys_iff.mp member
    rw [held] at found
    cases found
  | some value => exact Table.get?_ofList distinct (Table.mem_of_get? held)

theorem NameSet.ascending_ofList (names : List String) : (NameSet.ofList names).Ascending := by
  unfold NameSet.ofList
  induction names using List.reverseRecOn with
  | nil => exact List.Pairwise.nil
  | append_singleton names name ih =>
    rw [List.foldl_append]
    exact ih.insert name

theorem NameSet.ofList_ascending {names : NameSet} (ascending : names.Ascending) :
    NameSet.ofList names = names := by
  refine NameSet.ext_mem (NameSet.ascending_ofList names) ascending fun name => ?_
  exact (@NameSet.mem_union [] names name).trans (by simp)

namespace Json

-- The document's text is read back as the value.
def Carries (json : Json) (read? : Tree → Option α) (value : α) : Prop :=
  ∃ tree, Written json tree ∧ read? tree = some value

theorem carries_string (text : String) : Carries (.string text) Tree.string? text := by
  obtain ⟨pieces, quoted⟩ := exists_quoted text
  exact ⟨.text pieces, ⟨_, printed_string quoted⟩, quoted.denotes⟩

theorem carries_list {toJson : α → Json} {item? : Tree → Option α} {items : List α}
    (each : ∀ item ∈ items, Carries (toJson item) item? item) :
    Carries (.array (items.map toJson)) (Tree.list? item?) items := by
  have trees : ∃ trees, List.Forall₂ Written (items.map toJson) trees ∧
      trees.mapM item? = some items := by
    induction items with
    | nil => exact ⟨[], .nil, rfl⟩
    | cons item rest ih =>
      obtain ⟨tree, written, read⟩ := each item List.mem_cons_self
      obtain ⟨trees, writtenToo, readToo⟩ :=
        ih fun other inside => each other (List.mem_cons_of_mem _ inside)
      refine ⟨tree :: trees, .cons written writtenToo, ?_⟩
      rw [List.mapM_cons, read, readToo]
      rfl
  obtain ⟨trees, written, read⟩ := trees
  exact ⟨.array trees, written_array written, read⟩

-- A member of a table.
def pairOf? (value? : Tree → Option α) (member : List Piece × Tree) : Option (String × α) :=
  (Tree.named? member).bind fun named => (value? named.2).bind fun value => some (named.1, value)

theorem table?_object (value? : Tree → Option α) (members : List (List Piece × Tree)) :
    Tree.table? value? (.object members)
      = (members.mapM (pairOf? value?)).bind fun pairs => some (Table.ofList pairs) := rfl

theorem carries_table {toJson : α → Json} {value? : Tree → Option α} {table : Table α}
    (ascending : table.Ascending) (each : ∀ pair ∈ table, Carries (toJson pair.2) value? pair.2) :
    Carries (.object (table.map fun pair => (pair.1, toJson pair.2))) (Tree.table? value?) table := by
  have members : ∃ reads, List.Forall₂ WrittenMember (table.map fun pair => (pair.1, toJson pair.2)) reads ∧
      reads.mapM (pairOf? value?) = some table := by
    clear ascending
    induction table with
    | nil => exact ⟨[], .nil, rfl⟩
    | cons pair rest ih =>
      obtain ⟨tree, written, read⟩ := each pair List.mem_cons_self
      obtain ⟨reads, writtenToo, readToo⟩ :=
        ih fun other inside => each other (List.mem_cons_of_mem _ inside)
      obtain ⟨pieces, quoted⟩ := exists_quoted pair.1
      refine ⟨(pieces, tree) :: reads, .cons ⟨quoted, written⟩ writtenToo, ?_⟩
      have named : Tree.named? (pieces, tree) = some (pair.1, tree) := by
        rw [Tree.named?, quoted.denotes]
        rfl
      have here : pairOf? value? (pieces, tree) = some pair := by
        rw [pairOf?, named, Option.bind_some, read, Option.bind_some]
      rw [List.mapM_cons, readToo, here]
      rfl
  obtain ⟨reads, written, read⟩ := members
  refine ⟨.object reads, written_object written, ?_⟩
  rw [table?_object, read]
  exact congrArg some (Table.ofList_ascending ascending)

theorem ascending_of_table? {value? : Tree → Option α} {tree : Tree} {table : Table α}
    (read : tree.table? value? = some table) : table.Ascending := by
  cases tree with
  | object members =>
    obtain ⟨pairs, _, last⟩ := Option.bind_eq_some_iff.mp read
    cases last
    exact Table.ascending_ofList pairs
  | _ => cases read

-- Every value of a table was read from a member.
theorem exists_of_mem_table? {value? : Tree → Option α} {tree : Tree} {table : Table α}
    {pair : String × α} (read : tree.table? value? = some table) (inside : pair ∈ table) :
    ∃ held, value? held = some pair.2 := by
  cases tree with
  | object members =>
    obtain ⟨pairs, each, last⟩ := Option.bind_eq_some_iff.mp read
    cases last
    replace inside := Table.mem_of_get?_ofList (Table.get?_of_mem (Table.ascending_ofList pairs) inside)
    clear read
    induction members generalizing pairs with
    | nil =>
      cases each
      cases inside
    | cons member rest ih =>
      rw [List.mapM_cons] at each
      obtain ⟨first, one, each⟩ := Option.bind_eq_some_iff.mp each
      obtain ⟨others, more, each⟩ := Option.bind_eq_some_iff.mp each
      cases each
      rcases List.mem_cons.mp inside with same | later
      · obtain ⟨named, _, one⟩ := Option.bind_eq_some_iff.mp one
        obtain ⟨value, held, one⟩ := Option.bind_eq_some_iff.mp one
        cases one
        cases congrArg Prod.snd same
        exact ⟨named.2, held⟩
      · exact ih others more later
  | _ => cases read

-- The members of a printed object, found again by their names.
theorem exists_record (members : List (String × Json)) (trees : List (String × Tree))
    (each : List.Forall₂ (fun member tree => member.1 = tree.1 ∧ Written member.2 tree.2) members trees) :
    ∃ tree, Written (.object members) tree ∧
      ∀ names, tree.record? names = names.mapM (Tree.only? trees) := by
  have reads : ∃ reads, List.Forall₂ WrittenMember members reads ∧
      reads.mapM Tree.named? = some trees := by
    induction each with
    | nil => exact ⟨[], .nil, rfl⟩
    | @cons member tree _ _ here _ ih =>
      obtain ⟨reads, written, read⟩ := ih
      obtain ⟨pieces, quoted⟩ := exists_quoted member.1
      refine ⟨(pieces, tree.2) :: reads, .cons ⟨quoted, here.2⟩ written, ?_⟩
      have named : Tree.named? (pieces, tree.2) = some tree := by
        rw [Tree.named?, quoted.denotes, here.1]
        rfl
      rw [List.mapM_cons, named, read]
      rfl
  obtain ⟨reads, written, read⟩ := reads
  refine ⟨.object reads, written_object written, fun names => ?_⟩
  rw [Tree.record?, read]
  rfl

theorem Carries.ofText? {json : Json} {read? : Tree → Option α} {value : α}
    (carries : Carries json read? value) :
    (Tree.ofText? (json.pretty 0 ++ "\n")).bind read? = some value := by
  obtain ⟨tree, written, read⟩ := carries
  rw [ofText?_pretty written, Option.bind_some, read]

end Json

end SigningSchema
