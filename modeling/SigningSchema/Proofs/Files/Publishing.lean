import Mathlib.Logic.Function.Basic
import SigningSchema.Files.Publish
import SigningSchema.Proofs.Files.Directories

-- Publishing files: whichever call fails, every file and every temporary file stands in one of four
-- ways, and nothing else has changed.

namespace SigningSchema

open FileTree (disk)

namespace FileTree

variable {change : FileTree → Option FileTree} {tree next : FileTree}

theorem advance_run (change : FileTree → Option FileTree) (tree : FileTree) :
    (advance change).run tree = match change tree with
      | some next => (true, next)
      | none => (false, tree) := by
  rw [advance, StateT.run_bind, StateT.run_get, pure_bind]
  cases change tree <;> rfl

theorem advance_some (changed : change tree = some next) : (advance change).run tree = (true, next) := by
  rw [advance_run, changed]

end FileTree

namespace Placement

def origin (placement : Placement) : Location := Path.place placement.temporary

def goal (placement : Placement) : Location := Path.place placement.target

def entry (placement : Placement) : FileEntry := .file placement.content.toUTF8

-- How far a file has come. It is moved or discarded only after it was written.
inductive Standing where
  | untouched
  | written
  | moved
  | discarded

namespace Standing

-- What is at the temporary place of a file, where there was something before.
def beside (placement : Placement) (before : Option FileEntry) : Standing → Option FileEntry
  | untouched => before
  | written => some placement.entry
  | moved | discarded => none

def inPlace (placement : Placement) (before : Option FileEntry) : Standing → Option FileEntry
  | moved => some placement.entry
  | untouched | written | discarded => before

end Standing

-- Files that do not get in each other's way.
structure Apart (placements : List Placement) : Prop where
  distinct : placements.Nodup
  origins : ∀ p ∈ placements, ∀ q ∈ placements, p.origin = q.origin → p = q
  goals : ∀ p ∈ placements, ∀ q ∈ placements, p.goal = q.goal → p = q
  across : ∀ p ∈ placements, ∀ q ∈ placements, p.origin ≠ q.goal

-- A tree in which all files stand as told; all else is as it was in the tree before.
structure Stands (before now : FileTree) (placements : List Placement)
    (standing : Placement → Standing) : Prop where
  temporaries : ∀ p ∈ placements, now.get? p.origin = (standing p).beside p (before.get? p.origin)
  targets : ∀ p ∈ placements, now.get? p.goal = (standing p).inPlace p (before.get? p.goal)
  elsewhere : ∀ place, (∀ p ∈ placements, place ≠ p.origin ∧ place ≠ p.goal) →
    now.get? place = before.get? place
  directories : before.SameDirectories now
  rooted : now.Rooted

-- Whether the calls for a file succeed: they are not made to fail, and there is room for the file.
def CanWrite (faults : Faults) (tree : FileTree) (placement : Placement) : Prop :=
  faults.writes placement.temporary = false ∧ tree.Takes placement.temporary

def CanMove (faults : Faults) (tree : FileTree) (placement : Placement) : Prop :=
  faults.renames placement.target = false ∧ tree.Takes placement.target

section Steps

variable {faults : Faults} {before now : FileTree} {placements : List Placement}
variable {standing : Placement → Standing} {placement : Placement}

theorem Stands.congr {other : Placement → Standing} (stands : Stands before now placements standing)
    (same : ∀ p ∈ placements, standing p = other p) : Stands before now placements other where
  temporaries p inside := same p inside ▸ stands.temporaries p inside
  targets p inside := same p inside ▸ stands.targets p inside
  elsewhere := stands.elsewhere
  directories := stands.directories
  rooted := stands.rooted

-- A change at the two places of one file.
theorem Stands.update {later : FileTree} {next : Standing} (apart : Apart placements)
    (inside : placement ∈ placements) (stands : Stands before now placements standing)
    (beside : later.get? placement.origin = next.beside placement (before.get? placement.origin))
    (inPlace : later.get? placement.goal = next.inPlace placement (before.get? placement.goal))
    (kept : ∀ place, place ≠ placement.origin → place ≠ placement.goal →
      later.get? place = now.get? place)
    (directories : now.SameDirectories later) (rooted : later.Rooted) :
    Stands before later placements (Function.update standing placement next) where
  temporaries := by
    intro p member
    by_cases same : p = placement
    · subst same
      rw [Function.update_self]
      exact beside
    · rw [Function.update_of_ne same, ← stands.temporaries p member]
      apply kept
      · exact fun equal => same (apart.origins p member placement inside equal)
      · exact apart.across p member placement inside
  targets := by
    intro p member
    by_cases same : p = placement
    · subst same
      rw [Function.update_self]
      exact inPlace
    · rw [Function.update_of_ne same, ← stands.targets p member]
      apply kept
      · exact (apart.across placement inside p member).symm
      · exact fun equal => same (apart.goals p member placement inside equal)
  elsewhere := by
    intro place outside
    rw [← stands.elsewhere place outside]
    exact kept place (outside placement inside).1 (outside placement inside).2
  directories := stands.directories.trans directories
  rooted := rooted

theorem Stands.write (apart : Apart placements) (inside : placement ∈ placements)
    (stands : Stands before now placements standing) (untouched : standing placement = .untouched)
    (can : CanWrite faults before placement) :
    ∃ later, ((disk faults).write placement.temporary placement.content.toUTF8).run now = (true, later) ∧
      Stands before later placements (Function.update standing placement .written) := by
  have takes : now.Takes placement.temporary := stands.directories.takes.mp can.2
  have room : now.isDirectoryAt placement.origin = false := takes.notDirectory
  have changed := @FileTree.get?_put now _ (FileTree.ne_top room) placement.entry
  have differs : placement.goal ≠ placement.origin := (apart.across _ inside _ inside).symm
  refine ⟨now.put placement.origin placement.entry, ?_, ?_⟩
  · apply FileTree.advance_some
    rw [can.1]
    exact FileTree.write?_takes takes placement.content.toUTF8
  · apply stands.update apart inside
    · exact (changed placement.origin).trans (if_pos rfl)
    · have target := stands.targets placement inside
      rw [untouched] at target
      exact ((changed placement.goal).trans (if_neg differs)).trans target
    · intro place notOrigin _
      exact (changed place).trans (if_neg notOrigin)
    · exact FileTree.same_put room
    · exact stands.rooted.put_file (FileTree.locate?_above stands.rooted takes.locate?) room

theorem Stands.remove (faults : Faults) (apart : Apart placements) (inside : placement ∈ placements)
    (stands : Stands before now placements standing) (written : standing placement = .written)
    (room : before.Takes placement.temporary) :
    ∃ later, ((disk faults).removeFile placement.temporary).run now = ((), later) ∧
      Stands before later placements (Function.update standing placement .discarded) := by
  have source : now.Takes placement.temporary := stands.directories.takes.mp room
  have held : now.get? placement.origin = some placement.entry := by
    rw [stands.temporaries placement inside, written]
    rfl
  have vacant : now.isDirectoryAt placement.origin = false := source.notDirectory
  have erased := stands.rooted.get?_erase vacant
  have differs : placement.goal ≠ placement.origin := (apart.across _ inside _ inside).symm
  refine ⟨now.erase placement.origin, ?_, ?_⟩
  · have removed := @FileTree.advance_some (·.removeFile? placement.temporary) now _
      (FileTree.removeFile?_takes source held)
    show StateT.run (FileTree.advance (·.removeFile? placement.temporary) >>= _) now = _
    rw [StateT.run_bind, removed]
    rfl
  · apply stands.update apart inside
    · exact (erased placement.origin).trans (if_pos rfl)
    · have target := stands.targets placement inside
      rw [written] at target
      exact ((erased placement.goal).trans (if_neg differs)).trans target
    · intro place notOrigin _
      exact (erased place).trans (if_neg notOrigin)
    · exact FileTree.same_erase stands.rooted vacant
    · exact stands.rooted.erase_file vacant

theorem Stands.discard (faults : Faults) {leaving : List Placement} (apart : Apart placements)
    (inside : ∀ p ∈ leaving, p ∈ placements) (distinct : leaving.Nodup)
    (stands : Stands before now placements standing) (written : ∀ p ∈ leaving, standing p = .written)
    (room : ∀ p ∈ leaving, before.Takes p.temporary) :
    ∃ later, (discard (disk faults) leaving).run now = ((), later) ∧
      Stands before later placements fun p => if p ∈ leaving then .discarded else standing p := by
  induction leaving generalizing now standing with
  | nil => exact ⟨now, rfl, stands.congr (by simp)⟩
  | cons p rest ih =>
    obtain ⟨here, others⟩ := List.forall_mem_cons.mp inside
    obtain ⟨first, more⟩ := List.forall_mem_cons.mp written
    obtain ⟨ownRoom, otherRoom⟩ := List.forall_mem_cons.mp room
    obtain ⟨absent, distinctRest⟩ := List.nodup_cons.mp distinct
    obtain ⟨next, removed, standsNext⟩ := stands.remove faults apart here first ownRoom
    have still : ∀ q ∈ rest, Function.update standing p .discarded q = .written := by
      intro q member
      have differs : q ≠ p := fun same => absent (by rwa [← same])
      rw [Function.update_of_ne differs, more q member]
    obtain ⟨later, ran, standsLater⟩ := ih others distinctRest standsNext still otherRoom
    refine ⟨later, ?_, standsLater.congr ?_⟩
    · show StateT.run ((disk faults).removeFile p.temporary >>= fun _ => Placement.discard _ rest) now = _
      rw [StateT.run_bind, removed]
      exact ran
    · intro q _
      by_cases same : q = p
      · subst same
        simp [Function.update_self]
      · simp [same]

end Steps

end Placement

end SigningSchema
