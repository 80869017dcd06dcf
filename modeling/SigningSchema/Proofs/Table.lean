import Mathlib.Data.List.Forall2
import Mathlib.Data.List.Induction
import Mathlib.Data.String.Basic
import Mathlib.Tactic.Tauto
import SigningSchema.Table

-- Laws of tables and name sets. What a table answers is all there is to it: two
-- ascending tables with the same answers are the same list.

namespace SigningSchema

namespace Table

theorem get?_insert (table : Table α) (key other : String) (value : α) :
    (table.insert key value).get? other = if key = other then some value else table.get? other := by
  induction table with
  | nil => rfl
  | cons pair rest ih =>
    obtain ⟨first, held⟩ := pair
    unfold insert
    split
    · rfl
    · split
      · rename_i same
        subst same
        by_cases equal : key = other <;> simp [get?, equal]
      · rename_i differs
        by_cases equal : first = other
        · subst equal
          simp [get?, differs]
        · simp only [get?, if_neg equal, ih]

theorem get?_insert_self (table : Table α) (key : String) (value : α) :
    (table.insert key value).get? key = some value := by
  rw [get?_insert, if_pos rfl]

theorem get?_insert_ne (table : Table α) {key other : String} (value : α) (differs : key ≠ other) :
    (table.insert key value).get? other = table.get? other := by
  rw [get?_insert, if_neg differs]

theorem get?_insert_cases {table : Table α} {key other : String} {value held : α}
    (found : (table.insert key value).get? other = some held) :
    (key = other ∧ value = held) ∨ table.get? other = some held := by
  rw [get?_insert] at found
  split at found
  · rename_i same
    exact .inl ⟨same, Option.some.inj found⟩
  · exact .inr found

theorem mem_insert {table : Table α} {key : String} {value : α} {pair : String × α}
    (member : pair ∈ table.insert key value) : pair = (key, value) ∨ pair ∈ table := by
  induction table with
  | nil => exact .inl (List.mem_singleton.mp member)
  | cons first rest ih =>
    obtain ⟨other, held⟩ := first
    unfold insert at member
    split at member
    · exact List.mem_cons.mp member
    · split at member
      · rcases List.mem_cons.mp member with equal | later
        · exact .inl equal
        · exact .inr (List.mem_cons_of_mem _ later)
      · rcases List.mem_cons.mp member with equal | later
        · exact .inr (equal ▸ List.mem_cons_self)
        · rcases ih later with new | old
          · exact .inl new
          · exact .inr (List.mem_cons_of_mem _ old)

def Ascending (table : Table α) : Prop := List.Pairwise (fun a b => a.1 < b.1) table

theorem Ascending.nil : Ascending ([] : Table α) := List.Pairwise.nil

theorem Ascending.insert {table : Table α} (ascending : table.Ascending) (key : String) (value : α) :
    (table.insert key value).Ascending := by
  induction table with
  | nil => exact List.pairwise_singleton _ _
  | cons first rest ih =>
    obtain ⟨other, held⟩ := first
    obtain ⟨below, tail⟩ := List.pairwise_cons.mp ascending
    unfold Table.insert
    split
    · rename_i before
      refine List.pairwise_cons.mpr ⟨?_, ascending⟩
      intro pair member
      rcases List.mem_cons.mp member with rfl | later
      · exact before
      · exact lt_trans before (below pair later)
    · rename_i notBefore
      split
      · rename_i same
        subst same
        exact List.pairwise_cons.mpr ⟨below, tail⟩
      · rename_i differs
        have after : other < key := (lt_trichotomy key other).resolve_left notBefore |>.resolve_left differs
        refine List.pairwise_cons.mpr ⟨?_, ih tail⟩
        intro pair member
        rcases mem_insert member with rfl | old
        · exact after
        · exact below pair old

theorem get?_of_mem {table : Table α} (ascending : table.Ascending) {key : String} {value : α}
    (member : (key, value) ∈ table) : table.get? key = some value := by
  induction table with
  | nil => cases member
  | cons first rest ih =>
    obtain ⟨other, held⟩ := first
    obtain ⟨below, tail⟩ := List.pairwise_cons.mp ascending
    rcases List.mem_cons.mp member with equal | later
    · cases equal
      simp [get?]
    · have differs : other ≠ key := ne_of_lt (below _ later)
      simp only [get?, if_neg differs, ih tail later]

theorem mem_keys_iff {table : Table α} {key : String} :
    key ∈ table.keys ↔ ∃ value, table.get? key = some value := by
  constructor
  · intro member
    induction table with
    | nil => cases member
    | cons first rest ih =>
      obtain ⟨other, held⟩ := first
      by_cases same : other = key
      · exact ⟨held, by simp [get?, same]⟩
      · have later : key ∈ Table.keys rest :=
          (List.mem_cons.mp member).resolve_left (fun equal => same equal.symm)
        obtain ⟨value, found⟩ := ih later
        exact ⟨value, by simp [get?, same, found]⟩
  · rintro ⟨value, found⟩
    exact List.mem_map.mpr ⟨_, mem_of_get? found, rfl⟩

theorem mem_keys_insert {table : Table α} {key other : String} {value : α} :
    other ∈ (table.insert key value).keys ↔ other = key ∨ other ∈ table.keys := by
  rw [mem_keys_iff, mem_keys_iff]
  by_cases same : key = other
  · subst same
    simp [get?_insert_self]
  · simp [get?_insert_ne _ _ same, Ne.symm same]

theorem get?_of_above {table : Table α} {key : String} (above : ∀ pair ∈ table, key < pair.1) :
    table.get? key = none := by
  cases found : table.get? key with
  | none => rfl
  | some value => exact absurd (above _ (mem_of_get? found)) (lt_irrefl key)

-- An ascending table is determined by its answers.
theorem ext_get? {table other : Table α} (ascending : table.Ascending)
    (ascendingOther : other.Ascending) (same : ∀ key, table.get? key = other.get? key) :
    table = other := by
  induction table generalizing other with
  | nil =>
    cases other with
    | nil => rfl
    | cons first rest => simpa [get?] using same first.1
  | cons first rest ih =>
    obtain ⟨key, value⟩ := first
    obtain ⟨below, tail⟩ := List.pairwise_cons.mp ascending
    cases other with
    | nil => simpa [get?] using same key
    | cons second others =>
      obtain ⟨key', value'⟩ := second
      obtain ⟨below', tail'⟩ := List.pairwise_cons.mp ascendingOther
      -- Each first key is found in the other table too, so neither can come before the other.
      have found : ((key, value) ∈ ((key', value') :: others)) :=
        mem_of_get? (by rw [← same key]; simp [get?])
      have found' : ((key', value') ∈ ((key, value) :: rest)) :=
        mem_of_get? (by rw [same key']; simp [get?])
      have equal : (key, value) = (key', value') := by
        rcases List.mem_cons.mp found with equal | later
        · exact equal
        · rcases List.mem_cons.mp found' with equal | later'
          · exact equal.symm
          · exact absurd (below _ later') (lt_asymm (below' _ later))
      cases equal
      refine congrArg _ (ih tail tail' ?_)
      intro wanted
      by_cases first : key = wanted
      · subst first
        rw [get?_of_above below, get?_of_above below']
      · simpa [get?, first] using same wanted

theorem insert_of_get? {table : Table α} (ascending : table.Ascending) {key : String} {value : α}
    (held : table.get? key = some value) : table.insert key value = table := by
  refine ext_get? (ascending.insert key value) ascending fun other => ?_
  rw [get?_insert]
  split
  · rename_i same
    rw [← same, held]
  · rfl

theorem insert_insert {table : Table α} (ascending : table.Ascending) (key : String)
    (earlier later : α) : (table.insert key earlier).insert key later = table.insert key later := by
  refine ext_get? ((ascending.insert _ _).insert _ _) (ascending.insert _ _) fun other => ?_
  simp only [get?_insert]
  split <;> rfl

theorem ofList_append (pairs more : List (String × α)) :
    ofList (pairs ++ more) = more.foldl (fun table pair => table.insert pair.1 pair.2) (ofList pairs) :=
  List.foldl_append

theorem ascending_foldl {table : Table α} (ascending : table.Ascending) (pairs : List (String × α)) :
    (pairs.foldl (fun table pair => table.insert pair.1 pair.2) table).Ascending := by
  induction pairs generalizing table with
  | nil => exact ascending
  | cons pair rest ih => exact ih (ascending.insert pair.1 pair.2)

theorem ascending_ofList (pairs : List (String × α)) : (ofList pairs).Ascending :=
  ascending_foldl .nil pairs

theorem get?_foldl_insert (table : Table α) (pairs : List (String × α)) (key : String) :
    (pairs.foldl (fun table pair => table.insert pair.1 pair.2) table).get? key
      = ((ofList pairs).get? key).or (table.get? key) := by
  induction pairs using List.reverseRecOn with
  | nil => rfl
  | append_singleton pairs pair ih =>
    rw [ofList_append]
    simp only [List.foldl_append, List.foldl_cons, List.foldl_nil, get?_insert]
    split
    · rfl
    · exact ih

theorem get?_ofList_concat (pairs : List (String × α)) (pair : String × α) (key : String) :
    (ofList (pairs ++ [pair])).get? key = if pair.1 = key then some pair.2 else (ofList pairs).get? key := by
  rw [ofList_append]
  exact get?_insert _ _ _ _

theorem get?_ofList_of_notMem {pairs : List (String × α)} {key : String}
    (absent : key ∉ pairs.map Prod.fst) : (ofList pairs).get? key = none := by
  induction pairs using List.reverseRecOn with
  | nil => rfl
  | append_singleton pairs pair ih =>
    simp only [List.map_append, List.map_cons, List.map_nil, List.mem_append, List.mem_singleton,
      not_or] at absent
    rw [get?_ofList_concat, if_neg (Ne.symm absent.2), ih absent.1]

-- Where the keys are all different no pair is replaced.
theorem get?_ofList {pairs : List (String × α)} (distinct : (pairs.map Prod.fst).Nodup)
    {key : String} {value : α} (member : (key, value) ∈ pairs) :
    (ofList pairs).get? key = some value := by
  induction pairs using List.reverseRecOn with
  | nil => cases member
  | append_singleton pairs pair ih =>
    simp only [List.map_append, List.map_cons, List.map_nil, List.nodup_append, List.mem_singleton,
      forall_eq] at distinct
    rw [get?_ofList_concat]
    rcases List.mem_append.mp member with earlier | last
    · have differs : pair.1 ≠ key :=
        Ne.symm (distinct.2.2 key (List.mem_map.mpr ⟨_, earlier, rfl⟩))
      rw [if_neg differs, ih distinct.1 earlier]
    · cases List.mem_singleton.mp last
      rw [if_pos rfl]

theorem mem_of_get?_ofList {pairs : List (String × α)} {key : String} {value : α}
    (found : (ofList pairs).get? key = some value) : (key, value) ∈ pairs := by
  induction pairs using List.reverseRecOn with
  | nil => simp [ofList, get?] at found
  | append_singleton pairs pair ih =>
    rw [get?_ofList_concat] at found
    split at found
    · rename_i same
      cases found
      exact List.mem_append_right _ (by simp [← same])
    · exact List.mem_append_left _ (ih found)

theorem mem_keys_ofList {pairs : List (String × α)} {key : String} :
    key ∈ (ofList pairs).keys ↔ key ∈ pairs.map Prod.fst := by
  rw [mem_keys_iff]
  constructor
  · rintro ⟨value, found⟩
    exact List.mem_map.mpr ⟨_, mem_of_get?_ofList found, rfl⟩
  · intro member
    induction pairs using List.reverseRecOn with
    | nil => cases member
    | append_singleton pairs pair ih =>
      rw [get?_ofList_concat]
      split
      · exact ⟨_, rfl⟩
      · rename_i differs
        simp only [List.map_append, List.map_cons, List.map_nil, List.mem_append,
          List.mem_singleton] at member
        exact ih (member.resolve_right (Ne.symm differs))

-- Pairs whose keys all come again leave no trace.
theorem ofList_append_of_subset {earlier later : List (String × α)}
    (again : ∀ pair ∈ earlier, pair.1 ∈ later.map Prod.fst) :
    ofList (earlier ++ later) = ofList later := by
  refine ext_get? (ascending_ofList _) (ascending_ofList _) fun key => ?_
  rw [ofList_append, get?_foldl_insert]
  cases found : (ofList later).get? key with
  | some value => rfl
  | none =>
    refine get?_ofList_of_notMem fun member => ?_
    obtain ⟨pair, inside, rfl⟩ := List.mem_map.mp member
    obtain ⟨value, given⟩ := mem_keys_iff.mp (mem_keys_ofList.mpr (again pair inside))
    rw [found] at given
    cases given

-- Tables built in step stay in step: what they hold under a key comes from related pairs.
theorem get?_foldl_related {related : String × α → String × β → Prop} {table : Table α}
    {other : Table β} (same : ∀ pair pair', related pair pair' → pair.1 = pair'.1)
    {pairs : List (String × α)} {others : List (String × β)}
    (each : List.Forall₂ related pairs others)
    (start : ∀ key, Option.Rel (fun value value' => related (key, value) (key, value'))
      (table.get? key) (other.get? key)) (key : String) :
    Option.Rel (fun value value' => related (key, value) (key, value'))
      ((pairs.foldl (fun table pair => table.insert pair.1 pair.2) table).get? key)
      ((others.foldl (fun table pair => table.insert pair.1 pair.2) other).get? key) := by
  induction each generalizing table other with
  | nil => exact start key
  | @cons pair pair' pairs others first _ ih =>
    obtain ⟨name, value⟩ := pair
    obtain ⟨name', value'⟩ := pair'
    obtain rfl : name = name' := same _ _ first
    refine ih fun other => ?_
    rw [get?_insert, get?_insert]
    split
    · rename_i here
      exact .some (here ▸ first)
    · exact start other

theorem get?_ofList_related (related : String × α → String × β → Prop)
    (same : ∀ pair pair', related pair pair' → pair.1 = pair'.1)
    {pairs : List (String × α)} {others : List (String × β)}
    (each : List.Forall₂ related pairs others) (key : String) :
    Option.Rel (fun value value' => related (key, value) (key, value'))
      ((ofList pairs).get? key) ((ofList others).get? key) :=
  get?_foldl_related same each (fun _ => .none) key

def mapValues (f : α → β) (pairs : List (String × α)) : List (String × β) :=
  pairs.map fun pair => (pair.1, f pair.2)

theorem mapValues_insert (f : α → β) (table : Table α) (key : String) (value : α) :
    mapValues f (table.insert key value) = Table.insert (mapValues f table) key (f value) := by
  induction table with
  | nil => rfl
  | cons pair rest ih =>
    obtain ⟨other, held⟩ := pair
    simp only [mapValues, List.map_cons, insert] at ih ⊢
    split
    · rfl
    · split
      · rfl
      · rw [← ih]
        rfl

theorem mapValues_ofList (f : α → β) (pairs : List (String × α)) :
    mapValues f (ofList pairs) = ofList (mapValues f pairs) := by
  induction pairs using List.reverseRecOn with
  | nil => rfl
  | append_singleton pairs pair ih =>
    have split : mapValues f (pairs ++ [pair]) = mapValues f pairs ++ [(pair.1, f pair.2)] := by
      simp [mapValues]
    rw [split, ofList_append, ofList_append, ← ih]
    exact mapValues_insert f _ _ _

end Table

namespace NameSet

def Ascending (names : NameSet) : Prop := List.Pairwise (· < ·) names

theorem Ascending.insert {names : NameSet} (ascending : names.Ascending) (name : String) :
    (names.insert name).Ascending := by
  induction names with
  | nil => exact List.pairwise_singleton _ _
  | cons other rest ih =>
    obtain ⟨below, tail⟩ := List.pairwise_cons.mp ascending
    unfold NameSet.insert
    split
    · rename_i before
      refine List.pairwise_cons.mpr ⟨?_, ascending⟩
      intro later member
      rcases List.mem_cons.mp member with rfl | member
      · exact before
      · exact lt_trans before (below later member)
    · rename_i notBefore
      split
      · exact ascending
      · rename_i differs
        have after : other < name := (lt_trichotomy name other).resolve_left notBefore |>.resolve_left differs
        refine List.pairwise_cons.mpr ⟨?_, ih tail⟩
        intro later member
        rcases NameSet.mem_insert.mp member with rfl | old
        · exact after
        · exact below later old

-- An ascending set is determined by its members.
theorem ext_mem {names others : NameSet} (ascending : names.Ascending)
    (ascendingOther : others.Ascending) (same : ∀ name, name ∈ names ↔ name ∈ others) :
    names = others := by
  have nodup : names.Nodup := ascending.imp fun below => ne_of_lt below
  have nodupOther : others.Nodup := ascendingOther.imp fun below => ne_of_lt below
  have perm : names.Perm others := (List.perm_ext_iff_of_nodup nodup nodupOther).mpr same
  exact perm.eq_of_pairwise (fun _ _ _ _ below above => absurd below (lt_asymm above)) ascending
    ascendingOther

theorem mem_union {names more : NameSet} {name : String} :
    name ∈ union names more ↔ name ∈ names ∨ name ∈ more := by
  unfold union
  induction more generalizing names with
  | nil => simp
  | cons first rest ih =>
    rw [List.foldl_cons, ih, mem_insert, List.mem_cons]
    tauto

end NameSet

end SigningSchema
