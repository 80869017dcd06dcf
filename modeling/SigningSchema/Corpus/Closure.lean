import SigningSchema.Corpus.Resolution

-- The messages that a message reaches through its fields.

namespace SigningSchema.Corpus

def unseen (corpus : Corpus) (seen : List String) : Nat :=
  (corpus.messages.keys.filter fun name => !seen.contains name).length

theorem length_filter_lt {names : List String} {p q : String → Bool} {name : String}
    (member : name ∈ names) (fits : p name = true) (fails : q name = false)
    (weaker : ∀ other, q other = true → p other = true) :
    (names.filter q).length < (names.filter p).length := by
  induction names with
  | nil => simp at member
  | cons first rest ih =>
    have shorter : (rest.filter q).length ≤ (rest.filter p).length := by
      clear ih member
      induction rest with
      | nil => simp
      | cons a as ih =>
        by_cases hq : q a = true
        · simp [hq, weaker a hq, ih]
        · by_cases hp : p a = true <;> simp [hq, hp] <;> omega
    rcases List.mem_cons.mp member with rfl | later
    · simp [fits, fails]
      omega
    · have := ih later
      by_cases hq : q first = true
      · simp [hq, weaker first hq, this]
      · by_cases hp : p first = true <;> simp [hq, hp] <;> omega

theorem mem_keys_of_declares {corpus : Corpus} {name : String}
    (declared : corpus.declares name = true) : name ∈ corpus.messages.keys := by
  unfold declares at declared
  obtain ⟨message, found⟩ := Option.isSome_iff_exists.mp declared
  exact List.mem_map.mpr ⟨(name, message), Table.mem_of_get? found, rfl⟩

theorem declares_of_resolvedFields {corpus : Corpus} {name : String}
    {fields : List ResolvedField} (resolved : corpus.resolvedFields name = .ok fields) :
    corpus.declares name = true := by
  unfold resolvedFields message at resolved
  unfold declares
  cases found : corpus.messages.get? name with
  | none => simp [found] at resolved
  | some message => rfl

theorem unseen_lt {corpus : Corpus} {seen more : List String} {name : String}
    (declared : corpus.declares name = true) (new : seen.contains name = false)
    (inside : name ∈ more) (kept : ∀ other ∈ seen, other ∈ more) :
    corpus.unseen more < corpus.unseen seen := by
  refine length_filter_lt (mem_keys_of_declares declared) ?_ ?_ ?_
  · simpa using new
  · simpa using inside
  · intro other absent
    have : other ∉ more := by simpa using absent
    simpa using fun h => this (kept other h)

def messageOf? (field : ResolvedField) : Option String :=
  match field.type with
  | .message fullName => some fullName
  | .scalar _ => none

def closureFrom (corpus : Corpus) (seen : NameSet) (work : List String) :
    Except GenerationError NameSet :=
  match work with
  | [] => .ok seen
  | name :: rest =>
    if _known : seen.contains name then closureFrom corpus seen rest
    else
      match _resolved : corpus.resolvedFields name with
      | .error error => .error error
      | .ok fields =>
        let seen' := seen.insert name
        let next := (fields.filterMap messageOf?).filter fun nested => !seen'.contains nested
        closureFrom corpus seen' (next.reverse ++ rest)
termination_by (corpus.unseen seen, work.length)
decreasing_by
  · exact Prod.Lex.right _ (by simp)
  · refine Prod.Lex.left _ _ (unseen_lt (declares_of_resolvedFields _resolved) ?_ ?_ ?_)
    · simpa using _known
    · exact NameSet.mem_insert.mpr (.inl rfl)
    · exact fun other member => NameSet.mem_insert.mpr (.inr member)

def closure (corpus : Corpus) (root : String) : Except GenerationError NameSet :=
  corpus.closureFrom [] [root]

def fullClosure (corpus : Corpus) : Except GenerationError NameSet :=
  corpus.requestTypes.foldlM
    (fun all request => (corpus.closure request).map (NameSet.union all)) []

end SigningSchema.Corpus
