import SigningSchema.Text

-- Paths in text. Their order goes by components and not by characters.

namespace SigningSchema.Path

def maxNameBytes : Nat := 255

def maxBytes : Nat := 4095

def allowsName (name : String) : Bool := name.utf8ByteSize ≤ maxNameBytes

def isFollowable (path : String) : Bool :=
  !path.toList.contains '\x00' && path.utf8ByteSize ≤ maxBytes

-- A single dot counts only at the start of a relative path.
inductive Component where
  | root
  | current
  | parent
  | normal (name : String)
  deriving DecidableEq, Repr

def Component.ofPart : String → Component
  | ".." => parent
  | part => normal part

def components (path : String) : List Component :=
  match Text.split '/' path with
  | [] => []
  | first :: rest =>
    let later := (rest.filter fun part => part ≠ "" && part ≠ ".").map Component.ofPart
    if path = "" then []
    else if first = "" then .root :: later
    else if first = "." then .current :: later
    else .ofPart first :: later

def Component.compare : Component → Component → Ordering
  | root, root | current, current | parent, parent => .eq
  | root, _ => .lt
  | _, root => .gt
  | current, _ => .lt
  | _, current => .gt
  | parent, _ => .lt
  | _, parent => .gt
  | normal a, normal b => if a < b then .lt else if a = b then .eq else .gt

def compareComponents : List Component → List Component → Ordering
  | [], [] => .eq
  | [], _ :: _ => .lt
  | _ :: _, [] => .gt
  | a :: as, b :: bs => (a.compare b).then (compareComponents as bs)

def notAfter (a b : String) : Bool :=
  compareComponents (components a) (components b) ≠ .gt

def join (directory name : String) : String :=
  if directory = "" ∨ Text.endsWith "/" directory then directory ++ name
  else directory ++ "/" ++ name

def trimReversed : List Char → List Char
  | ['/'] => ['/']
  | '/' :: rest => trimReversed rest
  | '.' :: '/' :: rest => trimReversed ('/' :: rest)
  | chars => chars

def trimmed (path : String) : String :=
  String.ofList (trimReversed path.toList.reverse).reverse

def extensionOf? (name : String) : Option String :=
  match Text.split '.' name with
  | [] | [_] | ["", _] => none
  | parts => parts.getLast?

def extension? (path : String) : Option String :=
  match (components path).getLast? with
  | some (.normal name) => extensionOf? name
  | _ => none

def endsInDot (path : String) : Bool :=
  ((Text.split '/' path).filter (· ≠ "")).getLast? = some "."

end SigningSchema.Path
