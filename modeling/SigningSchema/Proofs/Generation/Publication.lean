import Mathlib.Data.List.Nodup
import SigningSchema.Proofs.Files.Publishing

-- What a directory holds after generated files were published into it, or after that failed.

namespace SigningSchema

open FileTree (disk)

namespace Placement

-- How publishing ends, and what it leaves: it depends on the first call that cannot succeed.
inductive Ends (faults : Faults) (before final : FileTree) (placements : List Placement) :
    Except GenerationError (List String) → Prop where
  | complete (writable : ∀ p ∈ placements, CanWrite faults before p)
      (movable : ∀ p ∈ placements, CanMove faults before p)
      (stands : Stands before final placements fun _ => .moved)
      (contents : ∀ p ∈ placements, final.read? p.target = some p.content.toUTF8) :
      Ends faults before final placements (.ok (placements.map (·.target)))
  | unwritten {earlier later : List Placement} {p : Placement}
      (split : placements = earlier ++ p :: later)
      (writable : ∀ q ∈ earlier, CanWrite faults before q) (refused : ¬ CanWrite faults before p)
      (stands : Stands before final placements fun q => if q ∈ earlier then .discarded else .untouched) :
      Ends faults before final placements (.error (.io p.temporary))
  | unmoved {earlier later : List Placement} {p : Placement}
      (split : placements = earlier ++ p :: later)
      (writable : ∀ q ∈ placements, CanWrite faults before q)
      (movable : ∀ q ∈ earlier, CanMove faults before q) (refused : ¬ CanMove faults before p)
      (stands : Stands before final placements fun q => if q ∈ earlier then .moved else .discarded)
      (contents : ∀ q ∈ earlier, final.read? q.target = some q.content.toUTF8) :
      Ends faults before final placements (.error (.io p.target))

theorem Stands.read? {before now : FileTree} {placements : List Placement} {placement : Placement}
    {standing : Placement → Standing} {faults : Faults} (stands : Stands before now placements standing)
    (inside : placement ∈ placements) (moved : standing placement = .moved)
    (can : CanMove faults before placement) :
    now.read? placement.target = some placement.content.toUTF8 := by
  have room : now.Takes placement.target := stands.directories.takes.mp can.2
  have held : now.get? (Path.place placement.target) = some placement.entry := by
    have there := stands.targets placement inside
    rwa [moved] at there
  simp [FileTree.read?, FileTree.at?, room.locate?, held, entry]

end Placement

section Runs

variable {σ ε α β : Type} {action : ExceptT ε (StateM σ) α} {next : α → ExceptT ε (StateM σ) β}
variable {before after : σ}

theorem run_bind_ok {value : α} (ran : action.run.run before = (.ok value, after)) :
    (action >>= next).run.run before = (next value).run.run after := by
  rw [ExceptT.run_bind, StateT.run_bind, ran]
  rfl

theorem run_bind_error {error : ε} (ran : action.run.run before = (.error error, after)) :
    (action >>= next).run.run before = (.error error, after) := by
  rw [ExceptT.run_bind, StateT.run_bind, ran]
  rfl

-- Actions that only look at the state.
def Reads (action : ExceptT ε (StateM σ) α) : Prop := ∀ state, (action.run.run state).2 = state

theorem Reads.pure (value : α) : Reads (pure value : ExceptT ε (StateM σ) α) := fun _ => rfl

theorem Reads.throw (error : ε) : Reads (throw error : ExceptT ε (StateM σ) α) := fun _ => rfl

theorem Reads.bind (reads : Reads action) (later : ∀ value, Reads (next value)) :
    Reads (action >>= next) := by
  intro state
  have still := reads state
  rcases ran : action.run.run state with ⟨result, after⟩
  rw [ran] at still
  subst still
  cases result with
  | ok value =>
    rw [run_bind_ok ran]
    exact later value after
  | error error => rw [run_bind_error ran]

theorem Reads.mapM {f : α → ExceptT ε (StateM σ) β} (each : ∀ item, Reads (f item)) (items : List α) :
    Reads (items.mapM f) := by
  induction items with
  | nil => exact .pure []
  | cons item rest ih =>
    rw [List.mapM_cons]
    apply (each item).bind
    intro first
    apply ih.bind
    intro others
    exact .pure (first :: others)

end Runs

namespace Artifacts

variable (faults : Faults) (artifacts : Artifacts) (directory : String) {tree : FileTree}

end Artifacts

namespace Generation

variable (faults : Faults)

end Generation

end SigningSchema
