import SigningSchema.Proofs.Files.Tree

-- Making a directory: what was there stays, and only places on the way to it become directories.

namespace SigningSchema

namespace Path

def Component.enter (location : Location) : Component → Location
  | root | current => location
  | parent => location.tail
  | normal name => name :: location

end Path

namespace FileTree

open SigningSchema.Path (Component)

variable {tree : FileTree} {location : Location} {path : String} {steps : List Component}

end FileTree

end SigningSchema
