import SigningSchema.Proofs.Table
import SigningSchema.Proofs.Registry.Shape

-- What holds while a walk is under way. Everything found is there to be found, and nothing
-- of a message that the walk is done with is missing: each of its fields is noted, or put
-- off, and what it refers to is done or still being walked.

namespace SigningSchema

namespace Corpus

def HasMemberBelow (corpus : Corpus) (root name : String) (type : TypeClass) : Prop :=
  ∃ message, corpus.Reaches root message ∧ corpus.HasMember message name type

end Corpus

namespace Expansion

variable {corpus : Corpus} {root : String} {stack : List String}
variable {Origin : String → String → Shape → Prop} {state earlier later : Expansion}

def Done (state : Expansion) (message : String) : Prop :=
  ∃ shape, state.expanded.get? message = some shape

-- All that was found comes from messages below the root; `Origin` says where the shapes known from
-- walks before come from.
structure Sound (corpus : Corpus) (root : String) (Origin : String → String → Shape → Prop)
    (state : Expansion) : Prop where
  known : ∀ name first shape, state.known.get? name = some (first, shape) → Origin name first shape
  expanded : ∀ message shape, state.expanded.get? message = some shape → corpus.SignsAs message shape
  nested : ∀ name shape, state.nested.get? name = some shape →
    ∃ target, corpus.HasMemberBelow root name (.message target) ∧ corpus.SignsAs target shape
  agreed : ∀ name shape, state.nested.get? name = some shape →
    ∃ first, state.known.get? name = some (first, shape)
  durations : ∀ name ∈ state.durations, corpus.HasMemberBelow root name (.scalar .duration)
  pending : ∀ pair ∈ state.pending, corpus.HasMemberBelow root pair.1 (.message pair.2)
  nestedAscending : state.nested.Ascending
  durationsAscending : NameSet.Ascending state.durations

-- Nothing found is lost or replaced.
structure Grows (earlier later : Expansion) : Prop where
  known : ∀ name pair, earlier.known.get? name = some pair → later.known.get? name = some pair
  done : ∀ message, earlier.Done message → later.Done message
  nested : ∀ name shape, earlier.nested.get? name = some shape → later.nested.get? name = some shape
  durations : ∀ name ∈ earlier.durations, name ∈ later.durations
  pending : ∀ pair ∈ earlier.pending, pair ∈ later.pending

-- The shape of a field's message is noted under the name of the field.
def Noted (corpus : Corpus) (state : Expansion) (name target : String) : Prop :=
  ∃ shape, corpus.SignsAs target shape ∧ state.nested.get? name = some shape

-- A field is dealt with: now, or later because it was put off.
def Settled (corpus : Corpus) (stack : List String) (state : Expansion) (field : ResolvedField) :
    Prop :=
  match field.type with
  | .scalar kind => kind = .duration → field.camelName ∈ state.durations
  | .message target => (target ∈ stack ∨ state.Done target) ∧
      (state.Noted corpus field.camelName target ∨ (field.camelName, target) ∈ state.pending)

def Covered (corpus : Corpus) (stack : List String) (state : Expansion) : Prop :=
  ∀ message, state.Done message → ∀ fields, corpus.resolvedFields message = .ok fields →
    ∀ field ∈ fields, state.Settled corpus stack field

-- What is kept from one state of a walk to the next.
structure Advances (corpus : Corpus) (root : String) (Origin : String → String → Shape → Prop)
    (stack : List String) (earlier later : Expansion) : Prop where
  sound : later.Sound corpus root Origin
  covered : later.Covered corpus stack
  grows : earlier.Grows later

def Collision (Origin : String → String → Shape → Prop) (error : GenerationError) : Prop :=
  ∃ name first one second other, error = .nestedCollision name first one.text second other.text ∧
    Origin name first one ∧ Origin name second other ∧ one ≠ other

def Fault (corpus : Corpus) (root : String) (Origin : String → String → Shape → Prop)
    (error : GenerationError) : Prop :=
  Collision Origin error ∨
    ∃ message, corpus.Reaches root message ∧ corpus.resolvedFields message = .error error

theorem Grows.refl (state : Expansion) : state.Grows state :=
  ⟨fun _ _ => id, fun _ => id, fun _ _ => id, fun _ => id, fun _ => id⟩

theorem Grows.trans {middle : Expansion} (first : earlier.Grows middle) (second : middle.Grows later) :
    earlier.Grows later where
  known name pair found := second.known name pair (first.known name pair found)
  done message done := second.done message (first.done message done)
  nested name shape found := second.nested name shape (first.nested name shape found)
  durations name member := second.durations name (first.durations name member)
  pending pair member := second.pending pair (first.pending pair member)

theorem Noted.grow {name target : String} (noted : earlier.Noted corpus name target)
    (grows : earlier.Grows later) : later.Noted corpus name target := by
  obtain ⟨shape, signs, found⟩ := noted
  exact ⟨shape, signs, grows.nested name shape found⟩

theorem Settled.grow {field : ResolvedField} (settled : earlier.Settled corpus stack field)
    (grows : earlier.Grows later) : later.Settled corpus stack field := by
  unfold Settled at settled ⊢
  cases type : field.type with
  | scalar kind =>
    simp only [type] at settled ⊢
    exact fun duration => grows.durations _ (settled duration)
  | message target =>
    simp only [type] at settled ⊢
    obtain ⟨walked, noted⟩ := settled
    exact ⟨walked.imp id (grows.done target), noted.imp (·.grow grows) (grows.pending _)⟩

-- A message joins the stack, or leaves it because it is done.
theorem Settled.restack {more : List String} {field : ResolvedField}
    (settled : state.Settled corpus stack field)
    (kept : ∀ target ∈ stack, target ∈ more ∨ state.Done target) :
    state.Settled corpus more field := by
  unfold Settled at settled ⊢
  cases type : field.type with
  | scalar kind =>
    simp only [type] at settled ⊢
    exact settled
  | message target =>
    simp only [type] at settled ⊢
    exact ⟨settled.1.elim (kept target) .inr, settled.2⟩

theorem Covered.restack {more : List String} (covered : state.Covered corpus stack)
    (kept : ∀ target ∈ stack, target ∈ more ∨ state.Done target) : state.Covered corpus more :=
  fun message done fields resolved field member =>
    (covered message done fields resolved field member).restack kept

-- As long as no further message is done nothing more has to be settled.
theorem Covered.grow (covered : earlier.Covered corpus stack) (grows : earlier.Grows later)
    (same : later.expanded = earlier.expanded) : later.Covered corpus stack := by
  intro message done fields resolved field member
  refine (covered message ?_ fields resolved field member).grow grows
  unfold Done at done
  rwa [same] at done

theorem Advances.trans {middle : Expansion} {more : List String}
    (first : Advances corpus root Origin more earlier middle)
    (second : Advances corpus root Origin stack middle later) :
    Advances corpus root Origin stack earlier later :=
  ⟨second.sound, second.covered, first.grows.trans second.grows⟩

theorem start_sound {known : Table (String × Shape)}
    (origin : ∀ name first shape, known.get? name = some (first, shape) → Origin name first shape) :
    (start known).Sound corpus root Origin where
  known := origin
  expanded _ _ found := nomatch found
  nested _ _ found := nomatch found
  agreed _ _ found := nomatch found
  durations _ member := nomatch member
  pending _ member := nomatch member
  nestedAscending := .nil
  durationsAscending := .nil

theorem start_covered {known : Table (String × Shape)} : (start known).Covered corpus stack := by
  rintro message ⟨shape, found⟩
  cases found

theorem register_ok {name target : String} {shape : Shape}
    (ran : earlier.register name target shape = .ok later) :
    ∃ known, later = { earlier with known, nested := earlier.nested.insert name shape } ∧
      ((∃ first, earlier.known.get? name = some (first, shape) ∧ known = earlier.known) ∨
        earlier.known.get? name = none ∧ known = earlier.known.insert name (target, shape)) := by
  unfold register at ran
  split at ran
  · rename_i first held found
    split at ran
    · rename_i same
      cases ran
      exact ⟨_, rfl, .inl ⟨first, same ▸ found, rfl⟩⟩
    · cases ran
  · rename_i free
    cases ran
    exact ⟨_, rfl, .inr ⟨free, rfl⟩⟩

theorem register_error {name target : String} {shape : Shape} {error : GenerationError}
    (sound : earlier.Sound corpus root Origin) (origin : Origin name target shape)
    (ran : earlier.register name target shape = .error error) : Collision Origin error := by
  unfold register at ran
  split at ran
  · rename_i first held found
    split at ran
    · cases ran
    · rename_i differs
      cases ran
      exact ⟨name, first, held, target, shape, rfl, sound.known name first held found, origin, differs⟩
  · cases ran

theorem register_grows {name target : String} {shape : Shape}
    (sound : earlier.Sound corpus root Origin)
    (ran : earlier.register name target shape = .ok later) : earlier.Grows later := by
  obtain ⟨known, rfl, index⟩ := register_ok ran
  refine ⟨?_, fun _ => id, ?_, fun _ => id, fun _ => id⟩
  · intro other pair found
    obtain ⟨first, _, rfl⟩ | ⟨free, rfl⟩ := index
    · exact found
    · have differs : name ≠ other := by
        rintro rfl
        rw [free] at found
        cases found
      exact (Table.get?_insert_ne _ _ differs).trans found
  · intro other held found
    by_cases same : name = other
    · subst same
      -- What is noted already is the known shape, and only that one is accepted.
      obtain ⟨first, indexed⟩ := sound.agreed name held found
      obtain ⟨again, known, _⟩ | ⟨free, _⟩ := index
      · rw [indexed] at known
        cases known
        exact Table.get?_insert_self _ _ _
      · rw [indexed] at free
        cases free
    · exact (Table.get?_insert_ne _ _ same).trans found

theorem register_sound {name target : String} {shape : Shape}
    (sound : earlier.Sound corpus root Origin) (origin : Origin name target shape)
    (member : corpus.HasMemberBelow root name (.message target)) (signs : corpus.SignsAs target shape)
    (ran : earlier.register name target shape = .ok later) : later.Sound corpus root Origin := by
  have grows := register_grows sound ran
  obtain ⟨known, rfl, index⟩ := register_ok ran
  refine ⟨?_, sound.expanded, ?_, ?_, sound.durations, sound.pending,
    sound.nestedAscending.insert name shape, sound.durationsAscending⟩
  · intro other first held found
    obtain ⟨_, _, rfl⟩ | ⟨_, rfl⟩ := index
    · exact sound.known other first held found
    · rcases Table.get?_insert_cases found with ⟨rfl, same⟩ | old
      · cases same
        exact origin
      · exact sound.known other first held old
  · intro other held found
    rcases Table.get?_insert_cases found with ⟨rfl, rfl⟩ | old
    · exact ⟨target, member, signs⟩
    · exact sound.nested other held old
  · intro other held found
    rcases Table.get?_insert_cases found with ⟨rfl, rfl⟩ | old
    · obtain ⟨first, known, rfl⟩ | ⟨_, rfl⟩ := index
      · exact ⟨first, known⟩
      · exact ⟨target, Table.get?_insert_self _ _ _⟩
    · obtain ⟨first, indexed⟩ := sound.agreed other held old
      exact ⟨first, grows.known other _ indexed⟩

theorem register_advances {name target : String} {shape : Shape}
    (sound : earlier.Sound corpus root Origin) (covered : earlier.Covered corpus stack)
    (origin : Origin name target shape)
    (member : corpus.HasMemberBelow root name (.message target)) (signs : corpus.SignsAs target shape)
    (ran : earlier.register name target shape = .ok later) :
    Advances corpus root Origin stack earlier later ∧ later.Noted corpus name target := by
  have grows := register_grows sound ran
  have sound' := register_sound sound origin member signs ran
  obtain ⟨known, rfl, _⟩ := register_ok ran
  exact ⟨⟨sound', covered.grow grows rfl, grows⟩, shape, signs, Table.get?_insert_self _ _ _⟩

theorem noteDuration_advances {name : String} {kind : ScalarKind}
    (sound : state.Sound corpus root Origin) (covered : state.Covered corpus stack)
    (member : corpus.HasMemberBelow root name (.scalar kind)) :
    Advances corpus root Origin stack state (state.noteDuration kind name) ∧
      (kind = .duration → name ∈ (state.noteDuration kind name).durations) := by
  unfold noteDuration
  split
  · rename_i duration
    have same : kind = .duration := of_decide_eq_true duration
    subst same
    have grows : state.Grows { state with durations := state.durations.insert name } :=
      ⟨fun _ _ => id, fun _ => id, fun _ _ => id,
        fun _ member => NameSet.mem_insert.mpr (.inr member), fun _ => id⟩
    refine ⟨⟨⟨sound.known, sound.expanded, sound.nested, sound.agreed, ?_, sound.pending,
      sound.nestedAscending, sound.durationsAscending.insert name⟩, covered.grow grows rfl, grows⟩,
      fun _ => NameSet.mem_insert.mpr (.inl rfl)⟩
    intro other inside
    rcases NameSet.mem_insert.mp inside with rfl | old
    · exact member
    · exact sound.durations other old
  · rename_i other
    exact ⟨⟨sound, covered, .refl state⟩, fun same => absurd (decide_eq_true same) other⟩

theorem putOff_advances {name target : String} (sound : state.Sound corpus root Origin)
    (covered : state.Covered corpus stack)
    (member : corpus.HasMemberBelow root name (.message target)) :
    Advances corpus root Origin stack state (state.putOff name target) ∧
      (name, target) ∈ (state.putOff name target).pending := by
  have grows : state.Grows (state.putOff name target) :=
    ⟨fun _ _ => id, fun _ => id, fun _ _ => id, fun _ => id,
      fun _ member => List.mem_append_left _ member⟩
  refine ⟨⟨⟨sound.known, sound.expanded, sound.nested, sound.agreed, sound.durations, ?_,
    sound.nestedAscending, sound.durationsAscending⟩, covered.grow grows rfl, grows⟩,
    List.mem_append_right _ (List.mem_singleton.mpr rfl)⟩
  intro pair inside
  rcases List.mem_append.mp inside with old | new
  · exact sound.pending pair old
  · exact List.mem_singleton.mp new ▸ member

end Expansion

end SigningSchema
