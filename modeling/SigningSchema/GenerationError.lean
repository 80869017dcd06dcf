import SigningSchema.Config.Basic

namespace SigningSchema

inductive GenerationError where
  | io (path : String)
  | walk
  | json
  | unresolvedType (typeRef message field : String)
  | missingMessage (name : String)
  | nestedCollision (field existingType existing incomingType incoming : String)
  | config (cause : ConfigError)
  deriving DecidableEq, Repr

-- The first three are worded by the system.
def GenerationError.message? : GenerationError → Option String
  | io _ | walk | json => none
  | unresolvedType typeRef message field =>
    some ("Unresolved type " ++ typeRef ++ " for field " ++ field ++ " of " ++ message)
  | missingMessage name => some ("No message definition for " ++ name)
  | nestedCollision field existingType existing incomingType incoming =>
    some ("Nested type collision on field " ++ field ++ ": " ++ existingType ++ " has shape "
      ++ existing ++ " but " ++ incomingType ++ " has shape " ++ incoming)
  | config cause => some ("Configuration error: " ++ cause.message)

end SigningSchema
