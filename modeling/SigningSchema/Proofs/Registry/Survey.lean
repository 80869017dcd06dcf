import SigningSchema.Proofs.Registry.Walk

-- Whole walks. A walk that ends well has noted exactly what is below its root, and a walk
-- that fails met two shapes under one name or something that does not resolve. The end of a
-- walk, where the fields put off are noted, never misses a message.

namespace SigningSchema

namespace Expansion

variable {corpus : Corpus} {root message : String} {stack : List String}
variable {Origin : String → String → Shape → Prop} {state earlier later : Expansion}

-- What a walk may take for known: at least what it may find itself.
def Originates (corpus : Corpus) (root : String) (Origin : String → String → Shape → Prop) : Prop :=
  ∀ name target shape, corpus.HasMemberBelow root name (.message target) →
    corpus.SignsAs target shape → Origin name target shape

-- How a part of a walk ends: with a result that is as it should be, or for a reason.
def Ends (corpus : Corpus) (root : String) (Origin : String → String → Shape → Prop)
    (good : α → Prop) : Except GenerationError α → Prop
  | .ok result => good result
  | .error error => Fault corpus root Origin error

theorem new_of_absent {target : String} (absent : ¬ stack.contains target = true) :
    stack.contains target = false :=
  Bool.eq_false_iff.mpr absent

-- The part of a walk that belongs to one field.
def visit (corpus : Corpus) (stack : List String) (state : Expansion) (field : ResolvedField) :
    Except GenerationError Expansion :=
  match field.type with
  | .scalar kind => .ok (state.noteDuration kind field.camelName)
  | .message target =>
    if open_ : stack.contains target then .ok (state.putOff field.camelName target)
    else
      match expand corpus stack state target (new_of_absent open_) with
      | .error error => .error error
      | .ok (shape, state) => state.register field.camelName target shape

theorem expandFields_cons (field : ResolvedField) (rest : List ResolvedField) :
    expandFields corpus stack state (field :: rest) =
      match visit corpus stack state field with
      | .error error => .error error
      | .ok state =>
        match expandFields corpus stack state rest with
        | .error error => .error error
        | .ok (shape, state) => .ok (⟨field.camelName, typeText field⟩ :: shape, state) := by
  rw [expandFields]
  rfl

theorem expandFields_nil : expandFields corpus stack state [] = .ok ([], state) := by
  rw [expandFields]

theorem expand_done {shape : Shape} (done : state.expanded.get? message = some shape)
    (new : stack.contains message = false) :
    expand corpus stack state message new = .ok (shape, state) := by
  rw [expand, done]

theorem expand_unresolved {error : GenerationError} (fresh : state.expanded.get? message = none)
    (failed : corpus.resolvedFields message = .error error) (new : stack.contains message = false) :
    expand corpus stack state message new = .error error := by
  rw [expand, fresh]
  dsimp only
  split
  · rename_i again
    rw [failed] at again
    cases again
    rfl
  · rename_i resolved
    rw [failed] at resolved
    cases resolved

theorem expand_fresh {fields : List ResolvedField} (fresh : state.expanded.get? message = none)
    (resolved : corpus.resolvedFields message = .ok fields) (new : stack.contains message = false) :
    expand corpus stack state message new =
      match expandFields corpus (message :: stack) state fields with
      | .error error => .error error
      | .ok (shape, state) => .ok (shape.canonical,
          { state with expanded := state.expanded.insert message shape.canonical }) := by
  rw [expand, fresh]
  dsimp only
  split
  · rename_i failed
    rw [resolved] at failed
    cases failed
  · rename_i again
    rw [resolved] at again
    cases again
    rfl

-- What is owed at every call with this stack.
def Expands (corpus : Corpus) (root : String) (Origin : String → String → Shape → Prop)
    (stack : List String) : Prop :=
  ∀ state message, (new : stack.contains message = false) → corpus.Reaches root message →
    state.Sound corpus root Origin → state.Covered corpus stack →
    Ends corpus root Origin
      (fun (shape, later) => later.expanded.get? message = some shape ∧
        Advances corpus root Origin stack state later)
      (expand corpus stack state message new)

theorem visit_ends (origin : Originates corpus root Origin) (path : corpus.Reaches root message)
    {fields : List ResolvedField} (resolved : corpus.resolvedFields message = .ok fields)
    (expands : Expands corpus root Origin stack) {field : ResolvedField} (member : field ∈ fields)
    (sound : state.Sound corpus root Origin) (covered : state.Covered corpus stack) :
    Ends corpus root Origin
      (fun later => Advances corpus root Origin stack state later ∧ later.Settled corpus stack field)
      (visit corpus stack state field) := by
  unfold visit
  cases type : field.type with
  | scalar kind =>
    have below : corpus.HasMemberBelow root field.camelName (.scalar kind) :=
      ⟨message, path, fields, resolved, field, member, rfl, type⟩
    obtain ⟨advances, noted⟩ := noteDuration_advances sound covered below
    refine ⟨advances, ?_⟩
    simp only [Settled, type]
    exact noted
  | message target =>
    have below : corpus.HasMemberBelow root field.camelName (.message target) :=
      ⟨message, path, fields, resolved, field, member, rfl, type⟩
    have refers : corpus.Reaches root target := path.tail ⟨fields, resolved, field, member, type⟩
    dsimp only
    split
    · rename_i walking
      obtain ⟨advances, put⟩ := putOff_advances sound covered below
      refine ⟨advances, ?_⟩
      simp only [Settled, type]
      exact ⟨.inl (by simpa using walking), .inr put⟩
    · rename_i new
      have ends := expands state target (by simpa using new) refers sound covered
      split
      · rename_i error failed
        rwa [failed] at ends
      · rename_i shape middle ran
        rw [ran] at ends
        obtain ⟨found, advances⟩ := ends
        have signs := advances.sound.expanded target shape found
        have traced := origin field.camelName target shape below signs
        cases registered : middle.register field.camelName target shape with
        | error error => exact .inl (register_error advances.sound traced registered)
        | ok later =>
          obtain ⟨further, noted⟩ :=
            register_advances advances.sound advances.covered traced below signs registered
          refine ⟨advances.trans further, ?_⟩
          simp only [Settled, type]
          exact ⟨.inr (further.grows.done target ⟨shape, found⟩), .inl noted⟩

theorem expandFields_ends (origin : Originates corpus root Origin)
    (path : corpus.Reaches root message) {fields : List ResolvedField}
    (resolved : corpus.resolvedFields message = .ok fields)
    (expands : Expands corpus root Origin stack) {part : List ResolvedField}
    (inside : ∀ field ∈ part, field ∈ fields)
    (sound : state.Sound corpus root Origin) (covered : state.Covered corpus stack) :
    Ends corpus root Origin
      (fun (shape, later) => shape = part.map Corpus.signingField ∧
        Advances corpus root Origin stack state later ∧
        ∀ field ∈ part, later.Settled corpus stack field)
      (expandFields corpus stack state part) := by
  induction part generalizing state with
  | nil =>
    rw [expandFields_nil]
    exact ⟨rfl, ⟨sound, covered, .refl state⟩, fun _ none => nomatch none⟩
  | cons field rest ih =>
    rw [expandFields_cons]
    have first := visit_ends origin path resolved expands (inside field List.mem_cons_self) sound covered
    cases visited : visit corpus stack state field with
    | error error => rwa [visited] at first
    | ok middle =>
      rw [visited] at first
      obtain ⟨advances, settled⟩ := first
      have others := ih (fun field member => inside field (List.mem_cons_of_mem _ member))
        advances.sound advances.covered
      dsimp only
      cases ran : expandFields corpus stack middle rest with
      | error error => rwa [ran] at others
      | ok result =>
        obtain ⟨shape, later⟩ := result
        rw [ran] at others
        obtain ⟨rfl, further, settledRest⟩ := others
        exact ⟨rfl, advances.trans further,
          List.forall_mem_cons.mpr ⟨settled.grow further.grows, settledRest⟩⟩

-- A message is done once its fields are: it leaves the stack and joins what is expanded.
theorem finish_advances {shape : Shape} {fields : List ResolvedField}
    (resolved : corpus.resolvedFields message = .ok fields)
    (signs : corpus.SignsAs message shape)
    (advances : Advances corpus root Origin (message :: stack) earlier later)
    (settled : ∀ field ∈ fields, later.Settled corpus (message :: stack) field) :
    Advances corpus root Origin stack earlier
      { later with expanded := later.expanded.insert message shape } := by
  obtain ⟨sound, covered, grows⟩ := advances
  have done : Done { later with expanded := later.expanded.insert message shape } message :=
    ⟨shape, Table.get?_insert_self _ _ _⟩
  have last : later.Grows { later with expanded := later.expanded.insert message shape } := by
    refine ⟨fun _ _ => id, ?_, fun _ _ => id, fun _ => id, fun _ => id⟩
    rintro other ⟨held, found⟩
    by_cases same : message = other
    · exact same ▸ done
    · exact ⟨held, (Table.get?_insert_ne _ _ same).trans found⟩
  have leaves : ∀ target ∈ message :: stack, target ∈ stack ∨
      Done { later with expanded := later.expanded.insert message shape } target := by
    intro target member
    rcases List.mem_cons.mp member with rfl | below
    · exact .inr done
    · exact .inl below
  refine ⟨⟨sound.known, ?_, sound.nested, sound.agreed, sound.durations, sound.pending,
    sound.nestedAscending, sound.durationsAscending⟩, ?_, grows.trans last⟩
  · intro other held found
    rcases Table.get?_insert_cases found with ⟨rfl, rfl⟩ | old
    · exact signs
    · exact sound.expanded other held old
  · rintro other ⟨held, found⟩ others resolvedOther field member
    rcases Table.get?_insert_cases found with ⟨rfl, _⟩ | old
    · rw [resolved] at resolvedOther
      cases resolvedOther
      exact ((settled field member).grow last).restack leaves
    · exact ((covered other ⟨held, old⟩ others resolvedOther field member).grow last).restack leaves

-- By induction on the messages that are not being walked: each call puts one more on the stack.
theorem expand_ends (origin : Originates corpus root Origin) (stack : List String) :
    Expands corpus root Origin stack := by
  induction size : corpus.unseen stack using Nat.strong_induction_on generalizing stack with
  | _ size ih =>
    subst size
    intro state message new path sound covered
    cases found : state.expanded.get? message with
    | some shape =>
      rw [expand_done found]
      exact ⟨found, sound, covered, .refl state⟩
    | none =>
      cases resolved : corpus.resolvedFields message with
      | error error =>
        rw [expand_unresolved found resolved]
        exact .inr ⟨message, path, resolved⟩
      | ok fields =>
        have deeper : Expands corpus root Origin (message :: stack) := by
          refine ih _ (Corpus.unseen_lt (Corpus.declares_of_resolvedFields resolved) new ?_ ?_) _ rfl
          · exact List.mem_cons_self
          · exact fun other member => List.mem_cons_of_mem _ member
        have ends := expandFields_ends origin path resolved deeper (fun _ => id) sound
          (covered.restack fun target member => .inl (List.mem_cons_of_mem _ member))
        rw [expand_fresh found resolved]
        cases ran : expandFields corpus (message :: stack) state fields with
        | error error => rwa [ran] at ends
        | ok result =>
          obtain ⟨shape, later⟩ := result
          rw [ran] at ends
          obtain ⟨rfl, advances, settled⟩ := ends
          exact ⟨Table.get?_insert_self _ _ _,
            finish_advances resolved (Corpus.signsAs_canonical resolved) advances settled⟩

-- Where nothing is being walked any more, everything that a done message reaches is done.
theorem Covered.done_of_reaches (covered : state.Covered corpus []) (done : state.Done root)
    (path : corpus.Reaches root message) : state.Done message := by
  induction path with
  | refl => exact done
  | tail _ refers ih =>
    obtain ⟨fields, resolved, field, member, type⟩ := refers
    have settled := covered _ ih fields resolved field member
    simp only [Settled, type] at settled
    exact settled.1.resolve_left List.not_mem_nil

theorem backfill_ends (origin : Originates corpus root Origin)
    (sound : state.Sound corpus root Origin) (covered : state.Covered corpus [])
    {pairs : List (String × String)} (done : ∀ pair ∈ pairs, state.Done pair.2)
    (below : ∀ pair ∈ pairs, corpus.HasMemberBelow root pair.1 (.message pair.2)) :
    match state.backfill pairs with
    | .ok later => Advances corpus root Origin [] state later ∧
        ∀ pair ∈ pairs, later.Noted corpus pair.1 pair.2
    | .error error => Collision Origin error := by
  induction pairs generalizing state with
  | nil =>
    rw [backfill]
    exact ⟨⟨sound, covered, .refl state⟩, fun _ none => nomatch none⟩
  | cons pair rest ih =>
    obtain ⟨name, target⟩ := pair
    obtain ⟨⟨shape, found⟩, doneRest⟩ := List.forall_mem_cons.mp done
    obtain ⟨member, belowRest⟩ := List.forall_mem_cons.mp below
    have signs := sound.expanded target shape found
    have traced := origin name target shape member signs
    rw [backfill, found]
    dsimp only
    cases registered : state.register name target shape with
    | error error => exact register_error sound traced registered
    | ok middle =>
      obtain ⟨advances, noted⟩ := register_advances sound covered traced member signs registered
      have others := ih advances.sound advances.covered
        (fun pair inside => advances.grows.done pair.2 (doneRest pair inside)) belowRest
      dsimp only
      cases ran : middle.backfill rest with
      | error error => rwa [ran] at others
      | ok later =>
        rw [ran] at others
        obtain ⟨further, notedRest⟩ := others
        exact ⟨advances.trans further,
          List.forall_mem_cons.mpr ⟨noted.grow further.grows, notedRest⟩⟩

-- The state in which a walk from the root has expanded all there is.
theorem expand_start {known : Table (String × Shape)} {shape : Shape}
    (origin : Originates corpus root Origin)
    (origins : ∀ name first shape, known.get? name = some (first, shape) → Origin name first shape)
    (ran : expand corpus [] (start known) root rfl = .ok (shape, state)) :
    Advances corpus root Origin [] (start known) state ∧ corpus.SignsAs root shape ∧
      ∀ message, corpus.Reaches root message → state.Done message := by
  have ends := expand_ends origin [] (start known) root rfl .refl (start_sound origins) start_covered
  rw [ran] at ends
  obtain ⟨found, advances⟩ := ends
  exact ⟨advances, advances.sound.expanded root shape found,
    fun message path => advances.covered.done_of_reaches ⟨shape, found⟩ path⟩

theorem backfill_pending {known : Table (String × Shape)} {shape : Shape}
    (origin : Originates corpus root Origin)
    (origins : ∀ name first shape, known.get? name = some (first, shape) → Origin name first shape)
    (ran : expand corpus [] (start known) root rfl = .ok (shape, state)) :
    match state.backfill state.pending with
    | .ok later => Advances corpus root Origin [] state later ∧
        ∀ pair ∈ state.pending, later.Noted corpus pair.1 pair.2
    | .error error => Collision Origin error := by
  obtain ⟨advances, _, done⟩ := expand_start origin origins ran
  refine backfill_ends origin advances.sound advances.covered (fun pair inside => ?_)
    advances.sound.pending
  obtain ⟨message, path, member⟩ := advances.sound.pending pair inside
  exact done pair.2 (path.tail member.refers)

-- A walk never misses a message when it notes the fields put off, whatever it takes for known.
theorem backfill_collides {known : Table (String × Shape)} {shape : Shape} {error : GenerationError}
    (ran : expand corpus [] (start known) root rfl = .ok (shape, state))
    (failed : state.backfill state.pending = .error error) : Collision (fun _ _ _ => True) error := by
  have anything : Originates corpus root fun _ _ _ => True := fun _ _ _ _ _ => trivial
  have ends := backfill_pending anything (fun _ _ _ _ => trivial) ran
  rwa [failed] at ends

-- What a descriptor says of the messages below its root, no more and no less.
structure Describes (corpus : Corpus) (root : String) (valueFields : Shape)
    (nestedTypes : Table Shape) (durationFields : NameSet) : Prop where
  shape : corpus.SignsAs root valueFields
  noted : ∀ name target, corpus.HasMemberBelow root name (.message target) →
    ∃ shape, corpus.SignsAs target shape ∧ nestedTypes.get? name = some shape
  traced : ∀ name shape, nestedTypes.get? name = some shape →
    ∃ target, corpus.HasMemberBelow root name (.message target) ∧ corpus.SignsAs target shape
  durations : ∀ name, name ∈ durationFields ↔ corpus.HasMemberBelow root name (.scalar .duration)
  nestedAscending : nestedTypes.Ascending
  durationsAscending : NameSet.Ascending durationFields

structure Surveyed (corpus : Corpus) (root : String) (Origin : String → String → Shape → Prop)
    (known : Table (String × Shape)) (shape : Shape) (state : Expansion) : Prop where
  described : Describes corpus root shape state.nested state.durations
  resolves : corpus.Resolves root
  origins : ∀ name first shape, state.known.get? name = some (first, shape) → Origin name first shape
  kept : ∀ name pair, known.get? name = some pair → state.known.get? name = some pair
  agreed : ∀ name shape, state.nested.get? name = some shape →
    ∃ first, state.known.get? name = some (first, shape)

theorem describes_of_advances {shape : Shape} (signs : corpus.SignsAs root shape)
    (advances : Advances corpus root Origin [] earlier later)
    (done : ∀ message, corpus.Reaches root message → earlier.Done message)
    (noted : ∀ pair ∈ earlier.pending, later.Noted corpus pair.1 pair.2)
    (covered : earlier.Covered corpus []) :
    Describes corpus root shape later.nested later.durations where
  shape := signs
  noted := by
    rintro name target ⟨message, path, fields, resolved, field, member, rfl, type⟩
    have settled := covered message (done message path) fields resolved field member
    simp only [Settled, type] at settled
    exact settled.2.elim (·.grow advances.grows) (noted _)
  traced := advances.sound.nested
  durations := by
    refine fun name => ⟨advances.sound.durations name, ?_⟩
    rintro ⟨message, path, fields, resolved, field, member, rfl, type⟩
    have settled := covered message (done message path) fields resolved field member
    simp only [Settled, type] at settled
    exact advances.grows.durations _ (settled trivial)
  nestedAscending := advances.sound.nestedAscending
  durationsAscending := advances.sound.durationsAscending

theorem walk_of {known : Table (String × Shape)} {shape : Shape}
    (ran : expand corpus [] (start known) root rfl = .ok (shape, earlier))
    (filled : earlier.backfill earlier.pending = .ok later) :
    walk corpus known root = .ok (shape, later) := by
  unfold walk
  rw [ran]
  simp only [bind, Except.bind, filled]
  rfl

theorem walk_ends {known : Table (String × Shape)} (origin : Originates corpus root Origin)
    (origins : ∀ name first shape, known.get? name = some (first, shape) → Origin name first shape) :
    Ends corpus root Origin (fun (shape, state) => Surveyed corpus root Origin known shape state)
      (walk corpus known root) := by
  unfold walk
  cases ran : expand corpus [] (start known) root rfl with
  | error error =>
    have ends := expand_ends origin [] (start known) root rfl .refl (start_sound origins) start_covered
    rwa [ran] at ends
  | ok result =>
    obtain ⟨shape, middle⟩ := result
    obtain ⟨advances, signs, done⟩ := expand_start origin origins ran
    have ends := backfill_pending origin origins ran
    simp only [bind, Except.bind]
    cases filled : middle.backfill middle.pending with
    | error error =>
      rw [filled] at ends
      exact .inl ends
    | ok later =>
      rw [filled] at ends
      obtain ⟨further, noted⟩ := ends
      refine ⟨describes_of_advances signs further done noted advances.covered, ?_,
        further.sound.known, ?_, further.sound.agreed⟩
      · intro message path
        obtain ⟨held, found⟩ := done message path
        obtain ⟨fields, resolved, _⟩ := advances.sound.expanded message held found
        exact ⟨fields, resolved⟩
      · exact fun name pair found => further.grows.known name pair (advances.grows.known name pair found)

end Expansion

end SigningSchema
