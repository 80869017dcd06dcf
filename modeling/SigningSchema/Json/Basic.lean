import SigningSchema.Table

-- Untyped input and the documents that are written.

namespace SigningSchema

inductive JsonNumber where
  | integer (value : Int)
  | double (word : UInt64)
  deriving DecidableEq, Repr

-- Where a document was read, the members of an object ascend by key.
inductive Json where
  | null
  | bool (value : Bool)
  | number (value : JsonNumber)
  | string (value : String)
  | array (items : List Json)
  | object (members : List (String × Json))
  deriving Inhabited, Repr

namespace Json

def isNull : Json → Bool
  | null => true
  | _ => false

def given? (members : Table Json) (key : String) : Option Json :=
  (members.get? key).filter (fun value => !value.isNull)

end Json

end SigningSchema
