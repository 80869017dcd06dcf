import SigningSchema.Files.Disk
import SigningSchema.Generation
import SigningSchema.Source.Reader

-- From directories of schema files to corpora.

namespace SigningSchema

variable {m : Type → Type} [Monad m]

namespace Disk

def readText (disk : Disk m) (path : String) : ExceptT GenerationError m String := do
  match (← disk.read? path).bind String.fromUTF8? with
  | some text => return text
  | none => throw (.io path)

def discover (disk : Disk m) (root : String) (extensions : List String) :
    ExceptT GenerationError m (List String) := do
  match ← disk.filesBeneath? root with
  | some paths =>
    let wanted := paths.filter fun path => (Path.extension? path).any extensions.contains
    return wanted.mergeSort Path.notAfter
  | none => throw .walk

def load (disk : Disk m) (root : String) (extensions : List String) :
    ExceptT GenerationError m (List (String × String)) := do
  if !(← disk.isDirectory root) then throw (.io root)
  (← disk.discover root extensions).mapM fun path =>
    return (path, ← disk.readText path)

end Disk

namespace Corpus

def ofTexts (config : Config) (texts : List (String × String)) : Corpus :=
  ofFiles (texts.filterMap fun (path, text) => SourceFile.read? config path text)

def load (disk : Disk m) (root : String) (config : Config) : ExceptT GenerationError m Corpus :=
  return ofTexts config (← disk.load root config.extensions)

end Corpus

def Generation.load (disk : Disk m) (root : String) (config : Config) :
    ExceptT GenerationError m Generation := do
  let corpus ← Corpus.load disk root config
  ExceptT.mk (pure (Generation.ofCorpus corpus config))

end SigningSchema
