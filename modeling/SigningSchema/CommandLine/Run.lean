import SigningSchema.CommandLine.Arguments
import SigningSchema.Config.Document
import SigningSchema.Files.Publish
import SigningSchema.Json.Reader
import SigningSchema.Value.Shown

-- Carrying out commands.

namespace SigningSchema

inductive CommandError where
  | generation (cause : GenerationError)
  | coercion (cause : CoercionError)
  | unknownTypeUrl (url : String)
  deriving DecidableEq, Repr

namespace Shown

def record (name : String) (members : List (String × String)) : String :=
  name ++ " \x7b "
    ++ Text.joined ", " (members.map fun (label, content) => label ++ ": " ++ text content)
    ++ " \x7d"

def wrapped (name content : String) : String := name ++ "(" ++ content ++ ")"

end Shown

def GenerationError.shown : GenerationError → String
  | io path => Shown.record "Io" [("path", path)]
  | walk => "Walk"
  | json => "Json"
  | unresolvedType typeRef message field =>
    Shown.record "UnresolvedType"
      [("type_ref", typeRef), ("message", message), ("field", field)]
  | missingMessage name => Shown.wrapped "MissingMessage" (Shown.text name)
  | nestedCollision field existingType existing incomingType incoming =>
    Shown.record "NestedCollision"
      [("field", field), ("existing_type", existingType), ("existing", existing),
        ("incoming_type", incomingType), ("incoming", incoming)]
  | config cause => Shown.wrapped "Config" (Shown.text cause.message)

def CoercionError.shown : CoercionError → String
  | missingField path expected =>
    Shown.record "MissingField" [("path", path.text), ("expected", expected)]
  | wrongKind path expected found =>
    Shown.record "WrongKind" [("path", path.text), ("expected", expected), ("found", found)]
  | outOfRange path expected value =>
    Shown.record "OutOfRange" [("path", path.text), ("expected", expected), ("value", value)]
  | invalidBase64 path found =>
    Shown.record "InvalidBase64" [("path", path.text), ("found", found)]
  | invalidDuration path expected reason =>
    Shown.record "InvalidDuration"
      [("path", path.text), ("expected", expected), ("reason", reason)]
  | unknownTypeUrl url => Shown.wrapped "UnknownTypeUrl" (Shown.text url)
  | shape path expected found =>
    Shown.record "Shape" [("path", path.text), ("expected", expected), ("found", found)]

def CommandError.shown : CommandError → String
  | generation cause => Shown.wrapped "Codegen" cause.shown
  | coercion cause => Shown.wrapped "Coerce" cause.shown
  | unknownTypeUrl url => Shown.wrapped "UnknownTypeUrl" (Shown.text url)

variable {m : Type → Type} [Monad m]

def Config.loadedWith (disk : Disk m) (path : Option String) (config : Config)
    (load : Config → String → Except GenerationError Config) :
    ExceptT GenerationError m Config := do
  match path with
  | none => return config
  | some path =>
    let text ← disk.readText path
    ExceptT.mk (pure (load config text))

namespace SchemaOptions

def load (disk : Disk m) (options : SchemaOptions) : ExceptT GenerationError m Config := do
  let config ← Config.standard.loadedWith disk options.config fun _ text => Config.ofText text
  let config ← config.loadedWith disk options.typeOverrides fun config text =>
    let (merged, outcome) := config.loadTypeOverrides text
    outcome.map fun _ => merged
  config.loadedWith disk options.fieldDefaults fun config text =>
    let (merged, outcome) := config.loadFieldDefaults text
    outcome.map fun _ => merged

end SchemaOptions

namespace Command

-- What is typed in is only asked for when it is needed.
def readInput (disk : Disk m) (typed : m ByteArray) (path : Option String) :
    ExceptT GenerationError m Json := do
  let text ← match path with
    | some path => disk.readText path
    | none =>
      match String.fromUTF8? (← typed) with
      | some text => pure text
      | none => throw (.io "<stdin>")
  match Json.ofText? text with
  | some input => return input
  | none => throw .json

def run (disk : Disk m) (typed : m ByteArray) : Command → ExceptT CommandError m String
  | generate schema directory => .adapt .generation do
    let config ← schema.load disk
    let _ ← Generation.publish disk schema.directory directory config
    return ""
  | inspect schema typeUrl => do
    let generation ← ExceptT.adapt .generation do
      Generation.load disk schema.directory (← schema.load disk)
    match typeUrl with
    | none => return generation.registry.text
    | some url =>
      match generation.registry.get? url with
      | some entry => return entry.toJson.pretty 0 ++ "\n"
      | none => throw (.unknownTypeUrl url)
  | encode schema typeUrl input => do
    let (document, generation) ← ExceptT.adapt .generation do
      let config ← schema.load disk
      let document ← readInput disk typed input
      return (document, ← Generation.load disk schema.directory config)
    match generation.plans.encodePayload typeUrl document with
    | .ok bytes => return Hex.ofBytes bytes ++ "\n"
    | .error cause => throw (.coercion cause)

end Command

end SigningSchema
