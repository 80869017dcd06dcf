import Mathlib.Logic.Relation
import SigningSchema.Proofs.Table
import SigningSchema.Corpus.Closure

-- What reaches what, as a relation, and the closure computed for it. The closure is
-- exactly what its root reaches; it fails only where something reached does not resolve.

namespace SigningSchema.Corpus

variable {corpus : Corpus}

theorem message_ok {name : String} {message : MessageDecl} (found : corpus.message name = .ok message) :
    corpus.messages.get? name = some message := by
  unfold Corpus.message at found
  split at found
  · rename_i held
    rwa [Except.ok.inj found] at held
  · cases found

def Refers (corpus : Corpus) (name nested : String) : Prop :=
  ∃ fields, corpus.resolvedFields name = .ok fields ∧ ∃ field ∈ fields, field.type = .message nested

def Reaches (corpus : Corpus) : String → String → Prop := Relation.ReflTransGen corpus.Refers

-- Every field of everything that a message reaches refers to something.
def Resolves (corpus : Corpus) (root : String) : Prop :=
  ∀ name, corpus.Reaches root name → ∃ fields, corpus.resolvedFields name = .ok fields

theorem mem_messages {fields : List ResolvedField} {nested : String} :
    nested ∈ fields.filterMap messageOf? ↔ ∃ field ∈ fields, field.type = .message nested := by
  rw [List.mem_filterMap]
  refine exists_congr fun field => and_congr_right fun _ => ?_
  unfold messageOf?
  cases field.type with
  | scalar kind => simp
  | message fullName => simp

-- What the traversal owes to its work and to what it has seen already.
structure Traversed (corpus : Corpus) (seen work result : List String) : Prop where
  kept : ∀ name ∈ seen, name ∈ result
  done : ∀ name ∈ work, name ∈ result
  reached : ∀ name ∈ result, name ∈ seen ∨ ∃ start ∈ work, corpus.Reaches start name
  closed : ∀ name ∈ result, name ∉ seen → ∃ fields, corpus.resolvedFields name = .ok fields ∧
    ∀ nested ∈ fields.filterMap messageOf?, nested ∈ result

-- A name taken off the work: what it refers to is seen already or joins the work.
theorem Traversed.step {seen rest result : NameSet} {name : String} {fields : List ResolvedField}
    (resolved : corpus.resolvedFields name = .ok fields)
    (later : corpus.Traversed (seen.insert name)
      (((fields.filterMap messageOf?).filter fun nested => !(seen.insert name).contains nested).reverse
        ++ rest) result) :
    corpus.Traversed seen (name :: rest) result := by
  have inside : name ∈ result := later.kept name (NameSet.mem_insert.mpr (.inl rfl))
  have followed : ∀ nested ∈ fields.filterMap messageOf?, nested ∈ result := by
    intro nested member
    by_cases known : nested ∈ seen.insert name
    · exact later.kept nested known
    · refine later.done nested (List.mem_append_left _ (List.mem_reverse.mpr ?_))
      exact List.mem_filter.mpr ⟨member, by simpa using known⟩
  refine ⟨fun other member => later.kept other (NameSet.mem_insert.mpr (.inr member)), ?_, ?_, ?_⟩
  · intro other member
    rcases List.mem_cons.mp member with rfl | inRest
    · exact inside
    · exact later.done other (List.mem_append_right _ inRest)
  · intro other member
    rcases later.reached other member with seenNow | ⟨start, working, path⟩
    · rcases NameSet.mem_insert.mp seenNow with rfl | old
      · exact .inr ⟨other, List.mem_cons_self, .refl⟩
      · exact .inl old
    · rcases List.mem_append.mp working with next | inRest
      · obtain ⟨field, declared, type⟩ :=
          mem_messages.mp (List.mem_of_mem_filter (List.mem_reverse.mp next))
        exact .inr ⟨name, List.mem_cons_self, .head ⟨fields, resolved, field, declared, type⟩ path⟩
      · exact .inr ⟨start, List.mem_cons_of_mem _ inRest, path⟩
  · intro other member new
    by_cases same : other = name
    · exact same ▸ ⟨fields, resolved, followed⟩
    · exact later.closed other member fun known => by
        rcases NameSet.mem_insert.mp known with rfl | old
        · exact same rfl
        · exact new old

theorem closureFrom_traverses {seen result : NameSet} {work : List String}
    (ran : corpus.closureFrom seen work = .ok result) : corpus.Traversed seen work result := by
  fun_induction corpus.closureFrom seen work generalizing result with
  | case1 seen =>
    cases ran
    exact ⟨fun _ => id, by simp, fun _ => .inl, fun _ inside new => absurd inside new⟩
  | case2 seen name rest known ih =>
    have later := ih ran
    refine ⟨later.kept, ?_, ?_, later.closed⟩
    · intro other member
      rcases List.mem_cons.mp member with rfl | inRest
      · exact later.kept _ (by simpa using known)
      · exact later.done other inRest
    · intro other inside
      rcases later.reached other inside with old | ⟨start, inRest, path⟩
      · exact .inl old
      · exact .inr ⟨start, List.mem_cons_of_mem _ inRest, path⟩
  | case3 => cases ran
  | case4 seen name rest new fields resolved more next =>
    rename_i ih
    exact (ih ran).step resolved

theorem closureFrom_error {seen : NameSet} {work : List String} {error : GenerationError}
    (ran : corpus.closureFrom seen work = .error error) :
    ∃ start ∈ work, ∃ name, corpus.Reaches start name ∧ corpus.resolvedFields name = .error error := by
  fun_induction corpus.closureFrom seen work with
  | case1 => cases ran
  | case2 seen name rest known ih =>
    obtain ⟨start, inRest, fails⟩ := ih ran
    exact ⟨start, List.mem_cons_of_mem _ inRest, fails⟩
  | case3 seen name rest new cause failed =>
    cases ran
    exact ⟨name, List.mem_cons_self, name, .refl, failed⟩
  | case4 seen name rest new fields resolved more next =>
    rename_i ih
    obtain ⟨start, working, other, path, failed⟩ := ih ran
    rcases List.mem_append.mp working with inNext | inRest
    · obtain ⟨field, declared, type⟩ :=
        mem_messages.mp (List.mem_of_mem_filter (List.mem_reverse.mp inNext))
      exact ⟨name, List.mem_cons_self, other, .head ⟨fields, resolved, field, declared, type⟩ path,
        failed⟩
    · exact ⟨start, List.mem_cons_of_mem _ inRest, other, path, failed⟩

-- The traversal as equations, without the proofs that its recursion carries.
theorem closureFrom_new {seen : NameSet} {name : String} {rest : List String}
    {fields : List ResolvedField} (new : seen.contains name = false)
    (resolved : corpus.resolvedFields name = .ok fields) :
    corpus.closureFrom seen (name :: rest) = corpus.closureFrom (seen.insert name)
      (((fields.filterMap messageOf?).filter fun nested => !(seen.insert name).contains nested).reverse
        ++ rest) := by
  rw [closureFrom, dif_neg (Bool.eq_false_iff.mp new)]
  split
  · rename_i failed
    rw [resolved] at failed
    cases failed
  · rename_i again
    rw [resolved] at again
    cases again
    rfl

theorem closureFrom_unresolved {seen : NameSet} {name : String} {rest : List String}
    {error : GenerationError} (new : seen.contains name = false)
    (failed : corpus.resolvedFields name = .error error) :
    corpus.closureFrom seen (name :: rest) = .error error := by
  rw [closureFrom, dif_neg (Bool.eq_false_iff.mp new)]
  split
  · rename_i again
    rw [failed] at again
    cases again
    rfl
  · rename_i resolved
    rw [failed] at resolved
    cases resolved

theorem mem_closure {root name : String} {closure : NameSet}
    (ran : corpus.closure root = .ok closure) : name ∈ closure ↔ corpus.Reaches root name := by
  have traversed := closureFrom_traverses ran
  constructor
  · intro inside
    rcases traversed.reached name inside with none | ⟨start, work, path⟩
    · cases none
    · rwa [List.mem_singleton.mp work] at path
  · intro path
    induction path with
    | refl => exact traversed.done root (List.mem_singleton.mpr rfl)
    | tail _ refers ih =>
      obtain ⟨fields, resolved, field, declared, type⟩ := refers
      obtain ⟨others, again, followed⟩ := traversed.closed _ ih List.not_mem_nil
      rw [resolved] at again
      cases again
      exact followed _ (mem_messages.mpr ⟨field, declared, type⟩)

theorem resolves_of_closure {root : String} {closure : NameSet}
    (ran : corpus.closure root = .ok closure) : corpus.Resolves root := by
  intro name path
  obtain ⟨fields, resolved, _⟩ :=
    (closureFrom_traverses ran).closed name ((mem_closure ran).mpr path) List.not_mem_nil
  exact ⟨fields, resolved⟩

theorem closure_error {root : String} {error : GenerationError}
    (ran : corpus.closure root = .error error) :
    ∃ name, corpus.Reaches root name ∧ corpus.resolvedFields name = .error error := by
  obtain ⟨start, work, fails⟩ := closureFrom_error ran
  rwa [List.mem_singleton.mp work] at fails

theorem closure_of_resolves {root : String} (resolves : corpus.Resolves root) :
    ∃ closure, corpus.closure root = .ok closure := by
  cases ran : corpus.closure root with
  | ok closure => exact ⟨closure, rfl⟩
  | error error =>
    obtain ⟨name, path, failed⟩ := closure_error ran
    obtain ⟨fields, resolved⟩ := resolves name path
    rw [failed] at resolved
    cases resolved

def Reachable (corpus : Corpus) (name : String) : Prop :=
  ∃ request ∈ corpus.requestTypes, corpus.Reaches request name

theorem collect_ok {requests : List String} {seen all : NameSet}
    (ran : requests.foldlM (fun all request => (corpus.closure request).map (NameSet.union all)) seen
      = .ok all) :
    (∀ request ∈ requests, corpus.Resolves request) ∧
      ∀ name, name ∈ all ↔ name ∈ seen ∨ ∃ request ∈ requests, corpus.Reaches request name := by
  induction requests generalizing seen with
  | nil =>
    cases ran
    simp
  | cons request rest ih =>
    rw [List.foldlM_cons] at ran
    cases closed : corpus.closure request with
    | error error =>
      rw [closed] at ran
      cases ran
    | ok closure =>
      rw [closed] at ran
      obtain ⟨resolve, members⟩ := ih ran
      refine ⟨List.forall_mem_cons.mpr ⟨resolves_of_closure closed, resolve⟩, fun name => ?_⟩
      rw [members, NameSet.mem_union, mem_closure closed, List.exists_mem_cons_iff, or_assoc]

theorem collect_error {requests : List String} {seen : NameSet} {error : GenerationError}
    (ran : requests.foldlM (fun all request => (corpus.closure request).map (NameSet.union all)) seen
      = .error error) :
    ∃ request ∈ requests, corpus.closure request = .error error := by
  induction requests generalizing seen with
  | nil => cases ran
  | cons request rest ih =>
    rw [List.foldlM_cons] at ran
    cases closed : corpus.closure request with
    | error cause =>
      rw [closed] at ran
      cases ran
      exact ⟨request, List.mem_cons_self, closed⟩
    | ok closure =>
      rw [closed] at ran
      obtain ⟨other, member, failed⟩ := ih ran
      exact ⟨other, List.mem_cons_of_mem _ member, failed⟩

theorem mem_fullClosure {all : NameSet} {name : String} (ran : corpus.fullClosure = .ok all) :
    name ∈ all ↔ corpus.Reachable name := by
  rw [(collect_ok ran).2 name, Reachable]
  simp

theorem resolves_of_fullClosure {all : NameSet} {request : String}
    (ran : corpus.fullClosure = .ok all) (requested : request ∈ corpus.requestTypes) :
    corpus.Resolves request :=
  (collect_ok ran).1 request requested

theorem fullClosure_error {error : GenerationError} (ran : corpus.fullClosure = .error error) :
    ∃ request ∈ corpus.requestTypes, ¬ corpus.Resolves request := by
  obtain ⟨request, requested, failed⟩ := collect_error ran
  refine ⟨request, requested, fun resolves => ?_⟩
  obtain ⟨closure, closed⟩ := closure_of_resolves resolves
  rw [failed] at closed
  cases closed

-- A single payload message that refers to no other.
theorem fullClosure_alone {request : String} {fields : List ResolvedField}
    (requested : corpus.requestTypes = [request]) (resolved : corpus.resolvedFields request = .ok fields)
    (alone : fields.filterMap messageOf? = []) : corpus.fullClosure = .ok [request] := by
  have closed : corpus.closure request = .ok [request] := by
    rw [closure, closureFrom_new rfl resolved, alone]
    show corpus.closureFrom [request] [] = _
    rw [closureFrom]
  rw [fullClosure, requested]
  show ((corpus.closure request).map _ >>= _) = _
  rw [closed]
  rfl

end SigningSchema.Corpus
