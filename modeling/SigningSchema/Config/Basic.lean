import SigningSchema.Table
import SigningSchema.Text

-- What a run can be told beyond the schema itself.

namespace SigningSchema

structure TypeOverride where
  legacyName : Option String
  exclude : Option Bool
  deriving DecidableEq, Repr

structure Config where
  messagePrefix : String
  rootNamespaces : List String
  legacyNameOption : String
  paramsSuffix : String
  protoRoot : String
  runtimeCrate : String
  extensions : List String
  typeOverrides : Table TypeOverride
  -- Message and field name, joined by a dot.
  fieldDefaults : NameSet
  deriving DecidableEq, Repr

inductive ConfigError where
  | emptyMessagePrefix
  | noExtensions
  | overrideKey (key : String)
  deriving DecidableEq, Repr

def ConfigError.message : ConfigError → String
  | emptyMessagePrefix => "messagePrefix must not be empty"
  | noExtensions => "extensions must not be empty"
  | overrideKey key =>
    "type override key " ++ key ++ " is not a type url (missing leading \"/\")"

namespace TypeOverride

def empty : TypeOverride := ⟨none, none⟩

end TypeOverride

namespace Config

def standard : Config where
  messagePrefix := "Msg"
  rootNamespaces := ["cosmos"]
  legacyNameOption := "amino.name"
  paramsSuffix := "Params"
  protoRoot := "crate::proto"
  runtimeCrate := "protosign_schema"
  extensions := ["proto"]
  typeOverrides := []
  fieldDefaults := []

def validate (config : Config) : Except ConfigError Unit :=
  if config.messagePrefix = "" then .error .emptyMessagePrefix
  else if config.extensions.isEmpty then .error .noExtensions
  else match config.typeOverrides.keys.find? (fun key => !Text.beginsWith "/" key) with
    | some key => .error (.overrideKey key)
    | none => .ok ()

def hasFieldDefault (config : Config) (fullName camelField : String) : Bool :=
  config.fieldDefaults.contains (fullName ++ "." ++ camelField)

-- Parameter messages may leave out every field; payload messages never are such.
def isParamsMessage (config : Config) (localName : String) : Bool :=
  Text.endsWith config.paramsSuffix localName && !Text.beginsWith config.messagePrefix localName

end Config

end SigningSchema
