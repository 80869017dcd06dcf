import Mathlib.Order.Bounds.Defs
import Mathlib.Order.WellFounded
import SigningSchema.Proofs.Corpus.Assembly
import SigningSchema.Proofs.Corpus.Reachability
import SigningSchema.Proofs.Results

-- The traversal that computes closures: its turns come to an end, it answers the least set that holds
-- the root and whatever the fields of its messages refer to, and its errors name what is missing.

namespace SigningSchema.Corpus

variable {corpus : Corpus} {root name nested : String}

-- A field of one message refers to another, whatever its other fields refer to.
def Leads (corpus : Corpus) (name nested : String) : Prop :=
  ∃ message, corpus.messages.get? name = some message ∧
    ∃ field ∈ message.fields,
      corpus.resolve? field.typeRef message.package = some (.message nested)

def LeadsTo (corpus : Corpus) : String → String → Prop := Relation.ReflTransGen corpus.Leads

-- Everything that a message leads to is declared, and each of its fields refers to something.
def Whole (corpus : Corpus) (root : String) : Prop :=
  ∀ name, corpus.LeadsTo root name → ∃ message, corpus.messages.get? name = some message ∧
    ∀ field ∈ message.fields, (corpus.resolve? field.typeRef message.package).isSome

def Closed (corpus : Corpus) (names : Set String) : Prop :=
  ∀ name ∈ names, ∀ nested, corpus.Leads name nested → nested ∈ names

-- Why a closure cannot be computed.
inductive ClosureFault (corpus : Corpus) (root : String) : GenerationError → Prop where
  | undefined (absent : corpus.messages.get? root = none) :
      ClosureFault corpus root (.missingMessage root)
  | unresolved {known message : MessageDecl} {name : String} {field : FieldDecl}
      (defined : corpus.messages.get? root = some known) (path : corpus.LeadsTo root name)
      (found : corpus.messages.get? name = some message) (inside : field ∈ message.fields)
      (refersToNothing : corpus.resolve? field.typeRef message.package = none) :
      ClosureFault corpus root (.unresolvedType field.typeRef name field.name)

-- One turn of the traversal. A name that was seen is dropped; from another one the messages join the
-- work that were not seen.
inductive Turn (corpus : Corpus) : NameSet × List String → NameSet × List String → Prop where
  | known {seen : NameSet} {name : String} {rest : List String} (old : name ∈ seen) :
      Turn corpus (seen, name :: rest) (seen, rest)
  | new {seen : NameSet} {name : String} {rest : List String} {fields : List ResolvedField}
      (fresh : name ∉ seen) (resolved : corpus.resolvedFields name = .ok fields) :
      Turn corpus (seen, name :: rest) (seen.insert name,
        ((fields.filterMap messageOf?).filter fun nested => !(seen.insert name).contains nested).reverse
          ++ rest)

section Fields

variable {message : MessageDecl} {fields : List ResolvedField}

theorem declares_of_resolve? {typeRef package : String}
    (known : corpus.resolve? typeRef package = some (.message name)) : corpus.declares name = true := by
  rw [resolve?] at known
  split at known
  · cases known
  · obtain ⟨candidate, _, found⟩ := List.exists_of_findSome?_eq_some known
    rw [classOf?] at found
    split at found
    · cases found
      assumption
    · split at found <;> cases found

theorem resolvedFields_of_found (found : corpus.messages.get? name = some message) :
    corpus.resolvedFields name = message.fields.mapM (corpus.resolveField message) := by
  rw [resolvedFields, Corpus.message, found]

theorem resolveField_type {field : FieldDecl} {resolved : ResolvedField}
    (ran : corpus.resolveField message field = .ok resolved) :
    corpus.resolve? field.typeRef message.package = some resolved.type := by
  rw [resolveField] at ran
  split at ran
  · cases ran
    assumption
  · cases ran

theorem found_of_resolvedFields (resolved : corpus.resolvedFields name = .ok fields) :
    ∃ message, corpus.messages.get? name = some message ∧
      message.fields.mapM (corpus.resolveField message) = .ok fields := by
  have declared := declares_of_resolvedFields resolved
  obtain ⟨message, found⟩ := Option.isSome_iff_exists.mp declared
  exact ⟨message, found, (resolvedFields_of_found found).symm.trans resolved⟩

theorem resolvedFields_of_each (found : corpus.messages.get? name = some message)
    (each : ∀ field ∈ message.fields, (corpus.resolve? field.typeRef message.package).isSome) :
    ∃ fields, corpus.resolvedFields name = .ok fields := by
  rw [resolvedFields_of_found found]
  refine mapM_of_ok fun field inside => ?_
  obtain ⟨type, known⟩ := Option.isSome_iff_exists.mp (each field inside)
  exact ⟨_, by rw [resolveField, known]⟩

theorem resolvedFields_error {error : GenerationError}
    (failed : corpus.resolvedFields name = .error error) :
    (corpus.messages.get? name = none ∧ error = .missingMessage name) ∨
      ∃ message, corpus.messages.get? name = some message ∧ ∃ field ∈ message.fields,
        corpus.resolve? field.typeRef message.package = none ∧
          error = .unresolvedType field.typeRef message.fullName field.name := by
  cases found : corpus.messages.get? name with
  | none =>
    rw [resolvedFields, Corpus.message, found] at failed
    cases failed
    exact .inl ⟨rfl, rfl⟩
  | some message =>
    rw [resolvedFields_of_found found] at failed
    obtain ⟨field, inside, fails⟩ := mapM_error failed
    rw [resolveField] at fails
    split at fails
    · cases fails
    · cases fails
      exact .inr ⟨message, rfl, field, inside, by assumption, rfl⟩

end Fields

section Paths

-- Where all fields of a message resolve, both say what it refers to.
theorem refers_of_leads {fields : List ResolvedField} (resolved : corpus.resolvedFields name = .ok fields)
    (leads : corpus.Leads name nested) : corpus.Refers name nested := by
  obtain ⟨message, found, field, inside, known⟩ := leads
  obtain ⟨again, foundToo, ran⟩ := found_of_resolvedFields resolved
  rw [found] at foundToo
  cases foundToo
  obtain ⟨result, member, made⟩ := exists_of_forall₂ (mapM_ok ran) inside
  rw [resolveField_type made] at known
  exact ⟨fields, resolved, result, member, Option.some.inj known⟩

theorem leads_of_refers (refers : corpus.Refers name nested) : corpus.Leads name nested := by
  obtain ⟨fields, resolved, result, member, type⟩ := refers
  obtain ⟨message, found, ran⟩ := found_of_resolvedFields resolved
  obtain ⟨field, inside, made⟩ := exists_of_forall₂ (List.Forall₂.flip (mapM_ok ran)) member
  exact ⟨message, found, field, inside, by rw [resolveField_type made, type]⟩

theorem leadsTo_of_reaches (path : corpus.Reaches root name) : corpus.LeadsTo root name :=
  Relation.ReflTransGen.mono (fun _ _ => leads_of_refers) _ _ path

theorem reaches_of_leadsTo (resolves : corpus.Resolves root) (path : corpus.LeadsTo root name) :
    corpus.Reaches root name := by
  induction path with
  | refl => exact .refl
  | tail _ leads ih =>
    obtain ⟨fields, resolved⟩ := resolves _ ih
    exact ih.tail (refers_of_leads resolved leads)

theorem whole_iff_resolves : corpus.Whole root ↔ corpus.Resolves root := by
  constructor
  · intro whole name path
    obtain ⟨message, found, each⟩ := whole name (leadsTo_of_reaches path)
    exact resolvedFields_of_each found each
  · intro resolves name path
    obtain ⟨fields, resolved⟩ := resolves name (reaches_of_leadsTo resolves path)
    obtain ⟨message, found, ran⟩ := found_of_resolvedFields resolved
    refine ⟨message, found, fun field inside => ?_⟩
    obtain ⟨result, _, made⟩ := exists_of_forall₂ (mapM_ok ran) inside
    rw [resolveField_type made]
    rfl

-- Only the root can be missing: fields refer to nothing that is not declared.
theorem defined_of_path (path : corpus.Reaches root name) (absent : corpus.messages.get? name = none) :
    root = name := by
  rcases Relation.ReflTransGen.cases_tail path with same | ⟨holder, _, refers⟩
  · exact same.symm
  · obtain ⟨_, _, field, _, known⟩ := leads_of_refers refers
    have declared := declares_of_resolve? known
    rw [declares, absent] at declared
    cases declared

end Paths

section Turns

variable {seen : NameSet} {work : List String}

theorem turn_wellFounded (corpus : Corpus) : WellFounded fun next now => corpus.Turn now next := by
  have decreases : Subrelation (fun next now => corpus.Turn now next)
      (InvImage (Prod.Lex (· < ·) (· < ·))
        fun state : NameSet × List String => (corpus.unseen state.1, state.2.length)) := by
    intro next now turn
    cases turn with
    | known old => exact Prod.Lex.right _ (Nat.lt_succ_self _)
    | new fresh resolved =>
      refine Prod.Lex.left _ _ (unseen_lt (declares_of_resolvedFields resolved) ?_ ?_ ?_)
      · simpa using fresh
      · exact NameSet.mem_insert.mpr (.inl rfl)
      · exact fun other member => NameSet.mem_insert.mpr (.inr member)
  exact decreases.wf (InvImage.wf _ (WellFounded.prod_lex Nat.lt_wfRel.wf Nat.lt_wfRel.wf))

theorem closureFrom_turn {now next : NameSet × List String} (turn : corpus.Turn now next) :
    corpus.closureFrom now.1 now.2 = corpus.closureFrom next.1 next.2 := by
  cases turn with
  | known old => rw [closureFrom, dif_pos (by simpa using old)]
  | new fresh resolved => exact closureFrom_new (by simpa using fresh) resolved

theorem turns_of_closureFrom {result : NameSet} (ran : corpus.closureFrom seen work = .ok result) :
    Relation.ReflTransGen corpus.Turn (seen, work) (result, []) := by
  fun_induction corpus.closureFrom seen work with
  | case1 seen =>
    cases ran
    exact .refl
  | case2 seen name rest known ih => exact .head (.known (by simpa using known)) (ih ran)
  | case3 => cases ran
  | case4 seen name rest new fields resolved more next =>
    rename_i ih
    exact .head (.new (by simpa using new) resolved) (ih ran)

theorem closureFrom_turns {now last : NameSet × List String}
    (turns : Relation.ReflTransGen corpus.Turn now last) :
    corpus.closureFrom now.1 now.2 = corpus.closureFrom last.1 last.2 := by
  induction turns with
  | refl => rfl
  | tail _ turn ih => rw [ih, closureFrom_turn turn]

-- What the traversal answers is where its turns end.
theorem closure_iff_turns {closure : NameSet} : corpus.closure root = .ok closure ↔
    Relation.ReflTransGen corpus.Turn ([], [root]) (closure, []) := by
  refine ⟨turns_of_closureFrom, fun turns => ?_⟩
  rw [Corpus.closure, closureFrom_turns turns, closureFrom]

end Turns

section Answers

variable {closure : NameSet}

theorem closureFrom_ascending {seen result : NameSet} {work : List String}
    (ascending : NameSet.Ascending seen) (ran : corpus.closureFrom seen work = .ok result) :
    NameSet.Ascending result := by
  fun_induction corpus.closureFrom seen work with
  | case1 => 
    cases ran
    exact ascending
  | case2 seen name rest known ih => exact ih ascending ran
  | case3 => cases ran
  | case4 seen name rest new fields resolved more next =>
    rename_i ih
    exact ih (ascending.insert name) ran

theorem closure_least (ran : corpus.closure root = .ok closure) :
    IsLeast {names : Set String | root ∈ names ∧ corpus.Closed names} {name | name ∈ closure} := by
  have resolves := resolves_of_closure ran
  refine ⟨⟨(mem_closure ran).mpr .refl, ?_⟩, ?_⟩
  · intro name inside nested leads
    have path := (mem_closure ran).mp inside
    obtain ⟨fields, resolved⟩ := resolves name path
    exact (mem_closure ran).mpr (path.tail (refers_of_leads resolved leads))
  · rintro names ⟨begins, closed⟩ name inside
    have path := (mem_closure ran).mp inside
    induction path with
    | refl => exact begins
    | tail path refers ih => exact closed _ (ih ((mem_closure ran).mpr path)) _ (leads_of_refers refers)

end Answers

section Built

variable {files : List SourceFile}

-- Messages of files are kept under their full names, so an error names the one that was reached.
theorem closure_fault {error : GenerationError} (ran : (ofFiles files).closure root = .error error) :
    (ofFiles files).ClosureFault root error := by
  obtain ⟨name, path, failed⟩ := closure_error ran
  rcases resolvedFields_error failed with ⟨absent, rfl⟩ | ⟨message, found, field, inside, unknown, rfl⟩
  · cases defined_of_path path absent
    exact .undefined absent
  · rw [(declared_of_get? found).2]
    obtain ⟨known, defined⟩ : ∃ known, (ofFiles files).messages.get? root = some known := by
      rcases Relation.ReflTransGen.cases_head path with rfl | ⟨_, refers, _⟩
      · exact ⟨message, found⟩
      · obtain ⟨known, defined, _⟩ := leads_of_refers refers
        exact ⟨known, defined⟩
    exact .unresolved defined (leadsTo_of_reaches path) found inside unknown

end Built

section Full

theorem collect_ascending {requests : List String} {seen all : NameSet}
    (ascending : NameSet.Ascending seen)
    (ran : requests.foldlM (fun all request => (corpus.closure request).map (NameSet.union all)) seen
      = .ok all) : NameSet.Ascending all := by
  induction requests generalizing seen with
  | nil =>
    cases ran
    exact ascending
  | cons request rest ih =>
    rw [List.foldlM_cons] at ran
    obtain ⟨next, joined, later⟩ := bind_ok ran
    obtain ⟨closure, _, rfl⟩ := map_ok joined
    exact ih (ascending.union closure) later

theorem fullClosure_fails_iff : (∃ error, corpus.fullClosure = .error error) ↔
    ∃ request ∈ corpus.requestTypes, ∃ error, corpus.closure request = .error error := by
  constructor
  · rintro ⟨error, ran⟩
    obtain ⟨request, requested, failed⟩ := collect_error ran
    exact ⟨request, requested, error, failed⟩
  · rintro ⟨request, requested, error, failed⟩
    cases ran : corpus.fullClosure with
    | error cause => exact ⟨cause, rfl⟩
    | ok all =>
      obtain ⟨closure, closed⟩ := closure_of_resolves (resolves_of_fullClosure ran requested)
      rw [failed] at closed
      cases closed

theorem fullClosure_union {all : NameSet} (ran : corpus.fullClosure = .ok all) (name : String) :
    name ∈ all ↔
      ∃ request ∈ corpus.requestTypes, ∃ closure, corpus.closure request = .ok closure ∧ name ∈ closure := by
  rw [mem_fullClosure ran]
  refine exists_congr fun request => and_congr_right fun requested => ?_
  obtain ⟨closure, closed⟩ := closure_of_resolves (resolves_of_fullClosure ran requested)
  constructor
  · intro path
    exact ⟨closure, closed, (mem_closure closed).mpr path⟩
  · rintro ⟨other, closedToo, inside⟩
    exact (mem_closure closedToo).mp inside

end Full

-- Closures are least closed sets, whatever refers to whatever; and it is known why there is none.
theorem closure_exact (files : List SourceFile) (root : String) :
    let corpus := ofFiles files
    (WellFounded (fun next now => corpus.Turn now next) ∧
      ∀ closure, corpus.closure root = .ok closure ↔
        Relation.ReflTransGen corpus.Turn ([], [root]) (closure, [])) ∧
    ((∃ closure, corpus.closure root = .ok closure) ↔ corpus.Whole root) ∧
    (∀ closure, corpus.closure root = .ok closure → NameSet.Ascending closure ∧
      IsLeast {names : Set String | root ∈ names ∧ corpus.Closed names} {name | name ∈ closure}) ∧
    (∀ error, corpus.closure root = .error error → corpus.ClosureFault root error) ∧
    ((∃ error, corpus.fullClosure = .error error) ↔
      ∃ request ∈ corpus.requestTypes, ∃ error, corpus.closure request = .error error) ∧
    ∀ all, corpus.fullClosure = .ok all → NameSet.Ascending all ∧ ∀ name, name ∈ all ↔
      ∃ request ∈ corpus.requestTypes, ∃ closure, corpus.closure request = .ok closure ∧ name ∈ closure := by
  intro corpus
  refine ⟨⟨turn_wellFounded corpus, fun closure => closure_iff_turns⟩, ?_, ?_, ?_, ?_, ?_⟩
  · rw [whole_iff_resolves]
    exact ⟨fun ⟨closure, ran⟩ => resolves_of_closure ran, closure_of_resolves⟩
  · intro closure ran
    exact ⟨closureFrom_ascending .nil ran, closure_least ran⟩
  · intro error ran
    exact closure_fault ran
  · exact fullClosure_fails_iff
  · intro all ran
    exact ⟨collect_ascending .nil ran, fullClosure_union ran⟩

section Cyclic

def ringFile : SourceFile where
  path := "ring.proto"
  package := "ring"
  messages :=
    [⟨"ring", "MsgTurn", [⟨"link", "Link", true, 1⟩, ⟨"note", "string", false, 2⟩], "ring.proto", none⟩,
     ⟨"ring", "Link", [⟨"next", ".ring.Link", false, 1⟩, ⟨"turn", "MsgTurn", false, 2⟩], "ring.proto", none⟩,
     ⟨"ring", "MsgStop", [⟨"turn", "MsgTurn", false, 1⟩, ⟨"end", "Gone", false, 2⟩], "ring.proto", none⟩]
  enums := []
  requests := ["MsgTurn", "MsgStop"]

theorem closure_ring : (ofFiles [ringFile]).closure "ring.MsgTurn" = .ok ["ring.Link", "ring.MsgTurn"] := by
  have turn : (ofFiles [ringFile]).resolvedFields "ring.MsgTurn" = .ok
      [⟨"link", "link", .message "ring.Link", true, 1⟩, ⟨"note", "note", .scalar .string, false, 2⟩] := by
    rw [ofFiles, List.mergeSort_singleton]
    rfl
  have link : (ofFiles [ringFile]).resolvedFields "ring.Link" = .ok
      [⟨"next", "next", .message "ring.Link", false, 1⟩,
       ⟨"turn", "turn", .message "ring.MsgTurn", false, 2⟩] := by
    rw [ofFiles, List.mergeSort_singleton]
    rfl
  rw [closure, closureFrom_new rfl turn]
  show (ofFiles [ringFile]).closureFrom ["ring.MsgTurn"] ["ring.Link"] = _
  rw [closureFrom_new rfl link]
  show (ofFiles [ringFile]).closureFrom ["ring.Link", "ring.MsgTurn"] [] = _
  rw [closureFrom]

-- Messages in a ring, and one beside it whose last field refers to nothing.
theorem closure_exact_ring :
    (ofFiles [ringFile]).closure "ring.MsgTurn" = .ok ["ring.Link", "ring.MsgTurn"] ∧
    IsLeast {names : Set String | "ring.MsgTurn" ∈ names ∧ (ofFiles [ringFile]).Closed names}
      {name | name ∈ ["ring.Link", "ring.MsgTurn"]} ∧
    ∃ error, (ofFiles [ringFile]).closure "ring.MsgStop" = .error error ∧
      (ofFiles [ringFile]).ClosureFault "ring.MsgStop" error := by
  have stop : (ofFiles [ringFile]).resolvedFields "ring.MsgStop"
      = .error (.unresolvedType "Gone" "ring.MsgStop" "end") := by
    rw [ofFiles, List.mergeSort_singleton]
    rfl
  have failed : (ofFiles [ringFile]).closure "ring.MsgStop"
      = .error (.unresolvedType "Gone" "ring.MsgStop" "end") :=
    closureFrom_unresolved rfl stop
  obtain ⟨_, _, least, _⟩ := closure_exact [ringFile] "ring.MsgTurn"
  obtain ⟨_, _, _, fault, _⟩ := closure_exact [ringFile] "ring.MsgStop"
  exact ⟨closure_ring, (least _ closure_ring).2, _, failed, fault _ failed⟩

end Cyclic

end SigningSchema.Corpus
