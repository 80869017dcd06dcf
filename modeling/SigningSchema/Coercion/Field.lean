import SigningSchema.Coercion.Scalar

-- Fields of an input object: which member a field reads, and what an absent one means.

namespace SigningSchema.Coercion

inductive Policy where
  | required
  | default
  deriving DecidableEq, Repr

def members (path : FieldPath) (input : Json) : Except CoercionError (Table Json) :=
  match input with
  | .object members => .ok members
  | other => .error (.unlike path "object" other)

def lookUp (members : Table Json) (camel declared : String) : Option Json :=
  (Json.given? members camel).or (Json.given? members declared)

def scalarField (kind : ScalarKind) (path : FieldPath) (policy : Policy) (input : Option Json) :
    Except CoercionError Value :=
  match input, policy with
  | some given, _ => scalar kind path given
  | none, .default => .ok (.defaultFor kind)
  | none, .required => .error (.missingField path kind.keyword)

def elements (path : FieldPath) (item : FieldPath → α → Except CoercionError Value)
    (position : Nat) : List α → Except CoercionError (List Value)
  | [] => .ok []
  | input :: rest =>
    match item (path.index position) input with
    | .error error => .error error
    | .ok first => (elements path item (position + 1) rest).map (first :: ·)

def IsElement (input : Option Json) (element : Json) : Prop :=
  ∃ items, input = some (.array items) ∧ element ∈ items

-- What coerces an element may use that it is one: the recursion over inputs ends by it.
def repeatedField (expected : String) (path : FieldPath) (policy : Policy) (input : Option Json)
    (item : FieldPath → (element : Json) → IsElement input element → Except CoercionError Value) :
    Except CoercionError Value :=
  match _given : input, policy with
  | some (.array items), _ =>
    let each (path : FieldPath) (element : { e // e ∈ items }) : Except CoercionError Value :=
      item path element.1 ⟨items, rfl, element.2⟩
    (elements path each 0 items.attach).map .array
  | some other, _ => .error (.unlike path ("array of " ++ expected) other)
  | none, .default => .ok (.array [])
  | none, .required => .error (.missingField path ("array of " ++ expected))

def messageField (expected : String) (path : FieldPath) (policy : Policy) (input : Option Json)
    (message : FieldPath → (given : Json) → input = some given → Except CoercionError Value) :
    Except CoercionError Value :=
  match _given : input, policy with
  | some given, _ => message path given rfl
  | none, .default => .ok .null
  | none, .required => .error (.missingField path expected)

theorem sizeOf_lt_of_given? {members : List (String × Json)} {key : String} {value : Json}
    (found : Json.given? members key = some value) : sizeOf value < sizeOf members := by
  unfold Json.given? at found
  have inside := List.sizeOf_lt_of_mem (Table.mem_of_get? (Option.filter_eq_some_iff.mp found).1)
  simp only [Prod.mk.sizeOf_spec] at inside
  omega

theorem sizeOf_lt_of_lookUp {members : List (String × Json)} {camel declared : String}
    {value : Json} (found : lookUp members camel declared = some value) :
    sizeOf value < sizeOf members := by
  unfold lookUp at found
  rcases Option.or_eq_some_iff.mp found with first | ⟨_, second⟩
  · exact sizeOf_lt_of_given? first
  · exact sizeOf_lt_of_given? second

theorem sizeOf_lt_of_isElement {members : List (String × Json)} {camel declared : String}
    {element : Json} (inside : IsElement (lookUp members camel declared) element) :
    sizeOf element < sizeOf members := by
  obtain ⟨items, found, member⟩ := inside
  have outer := sizeOf_lt_of_lookUp found
  have inner := List.sizeOf_lt_of_mem member
  simp only [Json.array.sizeOf_spec] at outer
  omega

end SigningSchema.Coercion
