import SigningSchema.Config.Basic
import SigningSchema.Package

-- What a schema file declares.

namespace SigningSchema

structure FieldDecl where
  name : String
  typeRef : String
  repeated : Bool
  tag : UInt32
  deriving DecidableEq, Repr

structure MessageDecl where
  package : String
  name : String
  fields : List FieldDecl
  source : String
  legacyName : Option String
  deriving DecidableEq, Repr

structure SourceFile where
  path : String
  package : String
  messages : List MessageDecl
  enums : List String
  requests : List String
  deriving DecidableEq, Repr

def MessageDecl.fullName (message : MessageDecl) : String := message.package ++ "." ++ message.name

def MessageDecl.legacyNameIn (message : MessageDecl) (config : Config) : String :=
  message.legacyName.getD
    (Package.moduleName config.rootNamespaces message.package ++ "/" ++ message.name)

end SigningSchema
