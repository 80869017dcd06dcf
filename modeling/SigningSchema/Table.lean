-- Tables keyed by text and sets of names. Both are kept in ascending order of
-- code points, so a table has one representation and lists its keys in order.

namespace SigningSchema

abbrev Table (α : Type u) := List (String × α)

namespace Table

def insert (table : Table α) (key : String) (value : α) : Table α :=
  match table with
  | [] => [(key, value)]
  | (other, held) :: rest =>
    if key < other then (key, value) :: (other, held) :: rest
    else if key = other then (key, value) :: rest
    else (other, held) :: insert rest key value

def get? (table : Table α) (key : String) : Option α :=
  match table with
  | [] => none
  | (other, held) :: rest => if other = key then some held else get? rest key

def insertIfNew (table : Table α) (key : String) (value : α) : Table α :=
  if (table.get? key).isSome then table else table.insert key value

-- Of two pairs with one key the later is kept.
def ofList (pairs : List (String × α)) : Table α :=
  pairs.foldl (fun table pair => table.insert pair.1 pair.2) []

def keys (table : Table α) : List String := List.map Prod.fst table

def values (table : Table α) : List α := List.map Prod.snd table

theorem mem_of_get? {table : Table α} {key : String} {value : α}
    (found : table.get? key = some value) : (key, value) ∈ table := by
  induction table with
  | nil => simp [get?] at found
  | cons pair rest ih =>
    rcases pair with ⟨other, held⟩
    by_cases same : other = key
    · simp_all [get?]
    · simp only [get?, if_neg same] at found
      exact List.mem_cons_of_mem _ (ih found)

end Table

abbrev NameSet := List String

namespace NameSet

def insert (names : NameSet) (name : String) : NameSet :=
  match names with
  | [] => [name]
  | other :: rest =>
    if name < other then name :: other :: rest
    else if name = other then other :: rest
    else other :: insert rest name

def ofList (names : List String) : NameSet := names.foldl insert []

theorem mem_insert {names : NameSet} {name other : String} :
    other ∈ insert names name ↔ other = name ∨ other ∈ names := by
  induction names with
  | nil => simp [insert]
  | cons first rest ih => grind [insert]

def union (names more : NameSet) : NameSet := more.foldl insert names

end NameSet

end SigningSchema
