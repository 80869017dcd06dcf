import SigningSchema.Proofs.Corpus.Reachability

-- Corpora that resolve all that a message reaches in the same way. Whatever else they hold, from
-- there they reach the same messages, and a traversal that starts there runs alike in both.

namespace SigningSchema.Corpus

variable {first second : Corpus} {root name nested : String}

-- Resolution asks no more of a corpus than what it declares and which enums it has.
theorem resolve?_congr (declares : first.declares = second.declares) (enums : first.enums = second.enums) :
    first.resolve? = second.resolve? := by
  have classes : first.classOf? = second.classOf? := by
    funext name
    rw [classOf?, classOf?, declares, enums]
  have names : first.candidates = second.candidates := by
    unfold candidates
    rw [declares]
  funext typeRef package
  rw [Corpus.resolve?, Corpus.resolve?, classes, names]

def AgreeBelow (first second : Corpus) (root : String) : Prop :=
  ∀ name, first.Reaches root name → first.resolvedFields name = second.resolvedFields name

namespace AgreeBelow

theorem of_reaches (agree : AgreeBelow first second root) (path : first.Reaches root name) :
    AgreeBelow first second name :=
  fun other more => agree other (path.trans more)

theorem refers_iff (agree : AgreeBelow first second root) (path : first.Reaches root name) :
    first.Refers name nested ↔ second.Refers name nested := by
  rw [Refers, Refers, agree name path]

theorem reaches_iff (agree : AgreeBelow first second root) :
    first.Reaches root name ↔ second.Reaches root name := by
  constructor
  · intro path
    induction path with
    | refl => exact .refl
    | tail path refers ih => exact ih.tail ((agree.refers_iff path).mp refers)
  · intro path
    induction path with
    | refl => exact .refl
    | tail _ refers ih => exact ih.tail ((agree.refers_iff ih).mpr refers)

theorem symm (agree : AgreeBelow first second root) : AgreeBelow second first root :=
  fun name path => (agree name (agree.reaches_iff.mpr path)).symm

end AgreeBelow

theorem closureFrom_congr (seen : NameSet) {work : List String}
    (agree : ∀ start ∈ work, AgreeBelow first second start) :
    first.closureFrom seen work = second.closureFrom seen work := by
  fun_induction first.closureFrom seen work with
  | case1 seen => rw [closureFrom]
  | case2 seen name rest known ih =>
    rw [ih fun start inRest => agree start (List.mem_cons_of_mem _ inRest), closureFrom, dif_pos known]
  | case3 seen name rest new error failed =>
    rw [agree name List.mem_cons_self name .refl] at failed
    exact (closureFrom_unresolved (Bool.eq_false_iff.mpr new) failed).symm
  | case4 seen name rest new fields resolved more next =>
    rename_i ih
    have resolvedToo := (agree name List.mem_cons_self name .refl).symm.trans resolved
    rw [closureFrom_new (Bool.eq_false_iff.mpr new) resolvedToo]
    refine ih fun start working => ?_
    -- What joins the work is reached from the name that was taken off it.
    rcases List.mem_append.mp working with inNext | inRest
    · obtain ⟨field, declared, type⟩ :=
        mem_messages.mp (List.mem_of_mem_filter (List.mem_reverse.mp inNext))
      have refers : first.Refers name start := ⟨fields, resolved, field, declared, type⟩
      exact (agree name List.mem_cons_self).of_reaches (.single refers)
    · exact agree start (List.mem_cons_of_mem _ inRest)

theorem AgreeBelow.closure (agree : AgreeBelow first second root) :
    first.closure root = second.closure root :=
  closureFrom_congr [] fun _ start => List.mem_singleton.mp start ▸ agree

end SigningSchema.Corpus
