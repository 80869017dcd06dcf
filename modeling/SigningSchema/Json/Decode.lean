import SigningSchema.Json.Reader

-- Reading documents by type. A tree either has exactly the type asked for or is refused.

namespace SigningSchema.Json.Tree

def string? : Tree → Option String
  | text pieces => textOf? pieces
  | _ => none

def bool? : Tree → Option Bool
  | bool value => some value
  | _ => none

def list? (item? : Tree → Option α) : Tree → Option (List α)
  | array items => items.mapM item?
  | _ => none

def named? (member : List Piece × Tree) : Option (String × Tree) :=
  (textOf? member.1).map (·, member.2)

def table? (value? : Tree → Option α) : Tree → Option (Table α)
  | object members => do
    let pairs ← members.mapM fun member => do
      let (name, tree) ← named? member
      let value ← value? tree
      return (name, value)
    return Table.ofList pairs
  | _ => none

def nullable? (value? : Tree → Option α) : Tree → Option (Option α)
  | null => some none
  | tree => (value? tree).map some

def only? (members : List (String × Tree)) (name : String) : Option (Option Tree) :=
  match members.filter (·.1 = name) with
  | [] => some none
  | [(_, tree)] => some (some tree)
  | _ => none

-- By name or by position. A name may not be given twice; other names are passed over.
def record? (names : List String) : Tree → Option (List (Option Tree))
  | array items =>
    if items.length ≤ names.length then
      some ((items.map some) ++ List.replicate (names.length - items.length) none)
    else none
  | object members => do
    let members ← members.mapM named?
    names.mapM (only? members)
  | _ => none

def required? (value? : Tree → Option α) (field : Option Tree) : Option α := field.bind value?

def optional? (value? : Tree → Option α) (default : α) : Option Tree → Option α
  | none => some default
  | some tree => value? tree

end SigningSchema.Json.Tree
