import SigningSchema.GenerationError
import SigningSchema.Path
import SigningSchema.Source.Declaration

-- The declarations of all schema files together.

namespace SigningSchema

structure Corpus where
  messages : Table MessageDecl
  enums : NameSet
  requestTypes : NameSet
  deriving DecidableEq, Repr

def qualify (typeRef package : String) : String :=
  match Text.dropBeginning? "." typeRef with
  | some stripped => stripped
  | none => if typeRef.toList.contains '.' then typeRef else package ++ "." ++ typeRef

namespace Corpus

def empty : Corpus := ⟨[], [], []⟩

def addFile (corpus : Corpus) (file : SourceFile) : Corpus where
  messages := file.messages.foldl
    (fun messages message => messages.insertIfNew message.fullName message) corpus.messages
  enums := NameSet.union corpus.enums (file.enums.map (file.package ++ "." ++ ·))
  requestTypes := NameSet.union corpus.requestTypes (file.requests.map (qualify · file.package))

-- In the order of their paths, so the first file that declares a message defines it.
def ofFiles (files : List SourceFile) : Corpus :=
  (files.mergeSort fun a b => Path.notAfter a.path b.path).foldl addFile empty

def message (corpus : Corpus) (fullName : String) : Except GenerationError MessageDecl :=
  match corpus.messages.get? fullName with
  | some message => .ok message
  | none => .error (.missingMessage fullName)

def declares (corpus : Corpus) (fullName : String) : Bool :=
  (corpus.messages.get? fullName).isSome

end Corpus

end SigningSchema
