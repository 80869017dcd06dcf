import SigningSchema.Path

-- Trees of files. Paths lead from the top of a tree, and a step out of a place asks for a
-- directory there. Nothing lies above the top, and no path begins at a root.

namespace SigningSchema

-- The names that lead to a place, the innermost first.
abbrev Location := List String

inductive FileEntry where
  | file (content : ByteArray)
  | directory

def FileEntry.isDirectory : FileEntry → Bool
  | file _ => false
  | directory => true

structure FileTree where
  entries : List (Location × FileEntry)

namespace FileTree

def empty : FileTree := ⟨[]⟩

def get? (tree : FileTree) (location : Location) : Option FileEntry :=
  if location = [] then some .directory
  else (tree.entries.find? fun entry => entry.1 = location).map (·.2)

def put (tree : FileTree) (location : Location) (entry : FileEntry) : FileTree :=
  ⟨(location, entry) :: tree.entries.filter fun other => other.1 ≠ location⟩

def erase (tree : FileTree) (location : Location) : FileTree :=
  ⟨tree.entries.filter fun other => !location.isSuffixOf other.1⟩

def isDirectoryAt (tree : FileTree) (location : Location) : Bool :=
  (tree.get? location).any FileEntry.isDirectory

-- An empty step, as a final slash makes it, stays where it is.
def step? (tree : FileTree) (location : Location) (part : String) : Option Location :=
  if !tree.isDirectoryAt location then none
  else if part = "" ∨ part = "." then some location
  else if part = ".." then if location = [] then none else some location.tail
  else if Path.allowsName part then some (part :: location)
  else none

def locate? (tree : FileTree) (path : String) : Option Location :=
  if path = "" ∨ Text.beginsWith "/" path ∨ !Path.isFollowable path then none
  else (Text.split '/' path).foldlM tree.step? []

def at? (tree : FileTree) (path : String) : Option FileEntry :=
  (tree.locate? path).bind tree.get?

def isDirectory (tree : FileTree) (path : String) : Bool :=
  (tree.at? path).any FileEntry.isDirectory

def read? (tree : FileTree) (path : String) : Option ByteArray :=
  match tree.at? path with
  | some (.file content) => some content
  | _ => none

def write? (tree : FileTree) (path : String) (content : ByteArray) : Option FileTree := do
  let location ← tree.locate? path
  if tree.isDirectoryAt location then none
  else some (tree.put location (.file content))

def rename? (tree : FileTree) (source target : String) : Option FileTree := do
  let origin ← tree.locate? source
  let goal ← tree.locate? target
  match tree.get? origin with
  | some (.file content) =>
    if tree.isDirectoryAt goal then none
    else some ((tree.erase origin).put goal (.file content))
  | _ => none

def remove? (tree : FileTree) (path : String) : Option FileTree := do
  let location ← tree.locate? path
  if location = [] ∨ (tree.get? location).isNone then none
  else some (tree.erase location)

def removeFile? (tree : FileTree) (path : String) : Option FileTree :=
  if (tree.read? path).isSome then tree.remove? path else none

-- What was made before a step fails stays.
def makeSteps (tree : FileTree) (location : Location) : List Path.Component → FileTree × Bool
  | [] => (tree, true)
  | .root :: _ => (tree, false)
  | .current :: rest => makeSteps tree location rest
  | .parent :: rest =>
    if location = [] then (tree, false) else makeSteps tree location.tail rest
  | .normal name :: rest =>
    match tree.get? (name :: location) with
    | some .directory => makeSteps tree (name :: location) rest
    | some (.file _) => (tree, false)
    | none =>
      if Path.allowsName name then
        makeSteps (tree.put (name :: location) .directory) (name :: location) rest
      else (tree, false)

-- A single dot at the end asks for the directory and does not make it.
def makeDirectories (tree : FileTree) (path : String) : FileTree × Bool :=
  let steps := Path.components path
  if !Path.isFollowable path then (tree, false)
  else if Path.endsInDot path then
    let (made, succeeded) := tree.makeSteps [] steps.dropLast
    (made, succeeded && made.isDirectory path)
  else tree.makeSteps [] steps

def locationsBeneath (tree : FileTree) (location : Location) (directories : Bool) :
    List Location :=
  (tree.entries.filter fun entry =>
    location.isSuffixOf entry.1 && entry.2.isDirectory == directories).map (·.1)

def pathBeneath (path : String) (above location : Location) : String :=
  (location.take (location.length - above.length)).reverse.foldl Path.join path

def filesBeneath? (tree : FileTree) (path : String) : Option (List String) := do
  let location ← tree.locate? path
  let _ ← tree.get? location
  let paths directories :=
    (tree.locationsBeneath location directories).map (pathBeneath path location)
  if (paths true).all Path.isFollowable then some (paths false) else none

end FileTree

end SigningSchema
