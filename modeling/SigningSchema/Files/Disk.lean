import SigningSchema.Files.Tree

-- What the program asks of the place where files are kept.

namespace SigningSchema

structure Disk (m : Type → Type) where
  isDirectory : String → m Bool
  filesBeneath? : String → m (Option (List String))
  read? : String → m (Option ByteArray)
  makeDirectories : String → m Bool
  write : String → ByteArray → m Bool
  rename : String → String → m Bool
  removeFile : String → m Unit

-- Writes and renames that fail, known by the paths that they would bring into being.
structure Faults where
  writes : String → Bool
  renames : String → Bool

namespace Faults

def none : Faults := ⟨fun _ => false, fun _ => false⟩

end Faults

namespace FileTree

def advance (change : FileTree → Option FileTree) : StateM FileTree Bool := do
  match change (← get) with
  | some tree => set tree; return true
  | none => return false

-- A call that fails changes nothing, except that directories made on the way stay.
def disk (faults : Faults) : Disk (StateM FileTree) where
  isDirectory path := return (← get).isDirectory path
  filesBeneath? path := return (← get).filesBeneath? path
  read? path := return (← get).read? path
  makeDirectories path := do
    let (tree, succeeded) := (← get).makeDirectories path
    set tree
    return succeeded
  write path content :=
    advance fun tree => if faults.writes path then none else tree.write? path content
  rename source target :=
    advance fun tree => if faults.renames target then none else tree.rename? source target
  removeFile path := do
    let _ ← advance (·.removeFile? path)

end FileTree

end SigningSchema
