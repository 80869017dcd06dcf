import SigningSchema.Table

-- Descriptors of signed structures.

namespace SigningSchema

structure SigningField where
  name : String
  type : String
  deriving DecidableEq, Repr

abbrev Shape := List SigningField

structure RegistryEntry where
  legacyName : String
  typeUrl : String
  valueFields : Shape
  nestedTypes : Table Shape
  durationFields : NameSet
  exclude : Bool
  deriving DecidableEq, Repr

structure Registry where
  entries : Table RegistryEntry
  deriving DecidableEq, Repr

namespace Shape

def canonical (shape : Shape) : Shape :=
  shape.mergeSort fun a b => !decide (a.name < b.name)

def textOfFields : Shape → String
  | [] => ""
  | [field] => field.name ++ ": " ++ field.type
  | field :: rest => field.name ++ ": " ++ field.type ++ ", " ++ textOfFields rest

def text (shape : Shape) : String := "\x7b" ++ shape.textOfFields ++ "\x7d"

end Shape

namespace Registry

def get? (registry : Registry) (typeUrl : String) : Option RegistryEntry :=
  registry.entries.get? typeUrl

end Registry

end SigningSchema
