import SigningSchema.Files.Load

-- Putting the generated files in their places. They are written beside their places first and
-- moved only when all of them are there.

namespace SigningSchema

variable {m : Type → Type} [Monad m]

structure Placement where
  target : String
  temporary : String
  content : String
  deriving DecidableEq, Repr

namespace Placement

def into (directory : String) (file : String × String) : Placement where
  target := Path.join directory file.1
  temporary := Path.join (Path.trimmed directory) (file.1 ++ ".tmp")
  content := file.2

def discard (disk : Disk m) (placements : List Placement) : m Unit :=
  placements.forM fun placement => disk.removeFile placement.temporary

-- When one cannot be written, those before it go again.
def stage (disk : Disk m) (staged : List Placement) :
    List Placement → m (Except GenerationError Unit)
  | [] => return .ok ()
  | next :: rest => do
    if ← disk.write next.temporary next.content.toUTF8 then
      stage disk (staged ++ [next]) rest
    else
      discard disk staged
      return .error (.io next.temporary)

-- When one cannot be moved, those that have moved stay, and the others go.
def settle (disk : Disk m) : List Placement → m (Except GenerationError Unit)
  | [] => return .ok ()
  | next :: rest => do
    if ← disk.rename next.temporary next.target then settle disk rest
    else
      discard disk (next :: rest)
      return .error (.io next.target)

end Placement

namespace Artifacts

def files (artifacts : Artifacts) : List (String × String) :=
  [("registry.json", artifacts.registry),
    ("builders.rs", artifacts.builders),
    ("encoders.rs", artifacts.encoders)]

def publish (disk : Disk m) (artifacts : Artifacts) (directory : String) :
    ExceptT GenerationError m (List String) := do
  let placements := artifacts.files.map (Placement.into directory)
  if !(← disk.makeDirectories directory) then throw (.io directory)
  ExceptT.mk (Placement.stage disk [] placements)
  ExceptT.mk (Placement.settle disk placements)
  return placements.map (·.target)

end Artifacts

def Generation.publish (disk : Disk m) (root directory : String) (config : Config) :
    ExceptT GenerationError m Generation := do
  let generation ← Generation.load disk root config
  let _ ← (generation.render config).publish disk directory
  return generation

end SigningSchema
