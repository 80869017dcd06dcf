import SigningSchema.Corpus.Basic
import SigningSchema.ScalarKind

-- What the type references of fields refer to.

namespace SigningSchema

inductive TypeClass where
  | scalar (kind : ScalarKind)
  | message (fullName : String)
  deriving DecidableEq, Repr

def TypeClass.expected : TypeClass → String
  | scalar kind => kind.keyword
  | message fullName => fullName

structure ResolvedField where
  name : String
  camelName : String
  type : TypeClass
  repeated : Bool
  tag : UInt32
  deriving DecidableEq, Repr

namespace Corpus

-- A dotted name is taken as it is written; but when its first part is a message of the package, it
-- may also mean a name of the package, with or without the parts before the last.
def candidates (corpus : Corpus) (typeRef package : String) : List String :=
  match Text.dropBeginning? "." typeRef with
  | some stripped => [stripped]
  | none =>
    match Text.split '.' typeRef with
    | outer :: _ :: _ =>
      if corpus.declares (package ++ "." ++ outer) then
        [typeRef, package ++ "." ++ typeRef, package ++ "." ++ Text.lastPart '.' typeRef]
      else [typeRef]
    | _ => [package ++ "." ++ typeRef]

def classOf? (corpus : Corpus) (fullName : String) : Option TypeClass :=
  if corpus.declares fullName then some (.message fullName)
  else if corpus.enums.contains fullName then some (.scalar .enum)
  else none

def resolve? (corpus : Corpus) (typeRef package : String) : Option TypeClass :=
  match (ScalarKind.ofKeyword? typeRef).or (ScalarKind.ofWellKnown? typeRef) with
  | some kind => some (.scalar kind)
  | none => (corpus.candidates typeRef package).findSome? corpus.classOf?

def resolveField (corpus : Corpus) (message : MessageDecl) (field : FieldDecl) :
    Except GenerationError ResolvedField :=
  match corpus.resolve? field.typeRef message.package with
  | some type =>
    .ok ⟨field.name, Identifier.camelCase field.name, type, field.repeated, field.tag⟩
  | none => .error (.unresolvedType field.typeRef message.fullName field.name)

def resolvedFields (corpus : Corpus) (fullName : String) :
    Except GenerationError (List ResolvedField) :=
  match corpus.message fullName with
  | .error error => .error error
  | .ok message => message.fields.mapM (corpus.resolveField message)

end Corpus

end SigningSchema
