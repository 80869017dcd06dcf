import SigningSchema.Corpus.Basic

-- Constructors of payloads: one for each payload message, named by module and method.

namespace SigningSchema

structure BuilderEntry where
  module : String
  method : String
  fullName : String
  typeUrl : String
  importName : String
  importPath : String
  variant : String
  deriving DecidableEq, Repr

structure BuilderTable where
  entries : List BuilderEntry
  deriving DecidableEq, Repr

namespace BuilderEntry

def functionName (entry : BuilderEntry) : String :=
  Identifier.escapeReserved (Identifier.snakeCase entry.method)

def functionModule (entry : BuilderEntry) : String :=
  Identifier.escapeReserved (Identifier.snakeCase entry.module)

def isAliased (entry : BuilderEntry) : Bool :=
  !Text.endsWith ("::" ++ entry.importName) entry.importPath

def notAfter (a b : BuilderEntry) : Bool :=
  a.module < b.module || (a.module = b.module && !decide (b.method < a.method))

end BuilderEntry

structure BuilderDraft where
  fullName : String
  package : String
  localName : String
  module : String
  method : String
  deriving DecidableEq, Repr

namespace BuilderDraft

def ofMessage (config : Config) (fullName : String) (message : MessageDecl) : BuilderDraft where
  fullName := fullName
  package := message.package
  localName := message.name
  module := Package.moduleName config.rootNamespaces message.package
  method := Package.methodName config.messagePrefix message.name

def withLastSegment (draft : BuilderDraft) : String :=
  draft.method ++ "_" ++ Text.lastPart '.' draft.package

def withPackage (draft : BuilderDraft) : String :=
  draft.method ++ "_" ++ Text.joined "_" (Text.split '.' draft.package)

def methodAmong (drafts : List BuilderDraft) (draft : BuilderDraft) : String :=
  let group := drafts.filter fun other =>
    other.module = draft.module && other.method = draft.method
  if group.length ≤ 1 then draft.method
  else if (group.map withLastSegment).Nodup then draft.withLastSegment
  else draft.withPackage

def importNameAmong (drafts : List BuilderDraft) (draft : BuilderDraft) : String :=
  let same := drafts.filter fun other => other.localName = draft.localName
  let typeName := Identifier.typeName draft.localName
  if same.length ≤ 1 then typeName else Identifier.pascalCase draft.package ++ typeName

def importPath (config : Config) (draft : BuilderDraft) : String :=
  let segments := (Text.split '.' draft.package).map fun segment =>
    Identifier.escapeReserved (Identifier.snakeCase segment)
  config.protoRoot ++ "::" ++ Text.joined "::" segments ++ "::"
    ++ Identifier.typeName draft.localName

def variantBeside (taken : List String) (draft : BuilderDraft) (method : String) : String :=
  let short := Identifier.pascalCase draft.module ++ Identifier.pascalCase method
  if taken.contains short then
    Identifier.pascalCase draft.package ++ Identifier.typeName draft.localName
  else short

def entries (config : Config) (all : List BuilderDraft) (taken : List String) :
    List BuilderDraft → List BuilderEntry
  | [] => []
  | draft :: rest =>
    let method := methodAmong all draft
    let variant := variantBeside taken draft method
    { module := draft.module
      method := method
      fullName := draft.fullName
      typeUrl := Package.typeUrl draft.fullName
      importName := importNameAmong all draft
      importPath := importPath config draft
      variant := variant } :: entries config all (variant :: taken) rest

end BuilderDraft

namespace BuilderTable

def ofCorpus (corpus : Corpus) (config : Config) : Except GenerationError BuilderTable := do
  let drafts ← corpus.requestTypes.mapM fun fullName =>
    (corpus.message fullName).map (BuilderDraft.ofMessage config fullName)
  return ⟨(BuilderDraft.entries config drafts [] drafts).mergeSort BuilderEntry.notAfter⟩

def find? (table : BuilderTable) (module method : String) : Option BuilderEntry :=
  table.entries.find? fun entry => entry.module = module && entry.method = method

def modules (table : BuilderTable) : List (String × List BuilderEntry) :=
  (NameSet.ofList (table.entries.map (·.module))).map fun module =>
    (module, table.entries.filter (·.module = module))

end BuilderTable

end SigningSchema
