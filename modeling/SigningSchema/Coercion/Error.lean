import SigningSchema.FieldPath
import SigningSchema.Json.Printer

namespace SigningSchema

inductive CoercionError where
  | missingField (path : FieldPath) (expected : String)
  | wrongKind (path : FieldPath) (expected found : String)
  | outOfRange (path : FieldPath) (expected value : String)
  | invalidBase64 (path : FieldPath) (found : String)
  | invalidDuration (path : FieldPath) (expected reason : String)
  | unknownTypeUrl (url : String)
  | shape (path : FieldPath) (expected found : String)
  deriving DecidableEq, Repr

namespace CoercionError

def path? : CoercionError → Option FieldPath
  | missingField path _ | wrongKind path _ _ | outOfRange path _ _ | invalidBase64 path _
  | invalidDuration path _ _ | shape path _ _ => some path
  | unknownTypeUrl _ => none

def message : CoercionError → String
  | missingField path expected =>
    path.text ++ ": missing required field (expected " ++ expected ++ ")"
  | wrongKind path expected found => path.text ++ ": expected " ++ expected ++ ", got " ++ found
  | outOfRange path expected value =>
    path.text ++ ": " ++ value ++ " is out of range for " ++ expected
  | invalidBase64 path found => path.text ++ ": expected base64-encoded bytes, got " ++ found
  | invalidDuration path expected reason =>
    path.text ++ ": invalid " ++ expected ++ ": " ++ reason
  | unknownTypeUrl url => "No encoder registered for type url \"" ++ url ++ "\""
  | shape path expected found =>
    path.text ++ ": value does not match the schema (expected " ++ expected ++ ", got "
      ++ found ++ ")"

def unlike (path : FieldPath) (expected : String) (input : Json) : CoercionError :=
  .wrongKind path expected input.describe

end CoercionError

end SigningSchema
