import SigningSchema.Files.Tree
import SigningSchema.Proofs.Text

-- Where a path leads is said by its text alone; a tree decides only whether it can be followed.

namespace SigningSchema

namespace Path

-- A step that leads on; above the top there is nothing.
def enter (location : Location) (part : String) : Location :=
  if part = "" ∨ part = "." then location
  else if part = ".." then location.tail
  else part :: location

def place (path : String) : Location := (Text.split '/' path).foldl enter []

-- A name that is one step of a path and not one of its dots.
structure Plain (name : String) : Prop where
  undivided : '/' ∉ name.toList
  named : name ≠ "" ∧ name ≠ "." ∧ name ≠ ".."

instance (name : String) : Decidable (Plain name) :=
  decidable_of_iff ('/' ∉ name.toList ∧ name ≠ "" ∧ name ≠ "." ∧ name ≠ "..")
    ⟨fun ⟨undivided, named⟩ => ⟨undivided, named⟩, fun plain => ⟨plain.undivided, plain.named⟩⟩

theorem Plain.split {name : String} (plain : Plain name) : Text.split '/' name = [name] := by
  rw [Text.split, Text.splitChars_of_notMem plain.undivided]
  simp

theorem Plain.enter {name : String} (plain : Plain name) (location : Location) :
    enter location name = name :: location := by
  obtain ⟨empty, dot, dots⟩ := plain.named
  simp [Path.enter, empty, dot, dots]

end Path

namespace FileTree

variable {tree other : FileTree}

theorem step?_enter {location next : Location} {part : String}
    (step : tree.step? location part = some next) : next = Path.enter location part := by
  unfold step? at step
  unfold Path.enter
  split at step
  · cases step
  · split at step
    · rename_i stays
      rw [if_pos stays]
      exact (Option.some.inj step).symm
    · rename_i moves
      rw [if_neg moves]
      split at step
      · rename_i up
        rw [if_pos up]
        split at step
        · cases step
        · exact (Option.some.inj step).symm
      · rename_i down
        rw [if_neg down]
        split at step
        · exact (Option.some.inj step).symm
        · cases step

theorem locate?_place {path : String} {location : Location}
    (found : tree.locate? path = some location) : location = Path.place path := by
  have steps : ∀ (parts : List String) start, parts.foldlM tree.step? start = some location →
      location = parts.foldl Path.enter start := by
    intro parts
    induction parts with
    | nil => exact fun start same => (Option.some.inj same).symm
    | cons part rest ih =>
      intro start taken
      rw [List.foldlM_cons] at taken
      obtain ⟨next, step, later⟩ := Option.bind_eq_some_iff.mp taken
      rw [List.foldl_cons, ← step?_enter step]
      exact ih next later
  unfold locate? at found
  split at found
  · cases found
  · exact steps _ _ found

-- Trees with the same directories: the same paths can be followed.
def SameDirectories (tree other : FileTree) : Prop :=
  ∀ location, tree.isDirectoryAt location = other.isDirectoryAt location

theorem SameDirectories.locate? (same : tree.SameDirectories other) (path : String) :
    tree.locate? path = other.locate? path := by
  have step : tree.step? = other.step? := by
    funext location part
    rw [FileTree.step?, FileTree.step?, same]
  rw [FileTree.locate?, FileTree.locate?, step]

end FileTree

end SigningSchema
