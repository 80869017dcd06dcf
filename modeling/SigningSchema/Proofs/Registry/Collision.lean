import SigningSchema.Proofs.Registry.Derivation

-- The derivation fails exactly where two members of one name sign differently, in whatever
-- order the walks come upon them, or where something does not resolve.

namespace SigningSchema.Registry

variable {corpus : Corpus} {config : Config}

-- Two members of one name, in messages of a set, that sign differently.
structure Clash (corpus : Corpus) (all : NameSet) (name first second : String) (one other : Shape) :
    Prop where
  left : ∃ message ∈ all, corpus.HasMember message name (.message first)
  right : ∃ message ∈ all, corpus.HasMember message name (.message second)
  signs : corpus.SignsAs first one
  signsToo : corpus.SignsAs second other
  differ : one ≠ other

theorem below_iff_mem {all : NameSet} (ran : corpus.fullClosure = .ok all) {name : String}
    {type : TypeClass} :
    (∃ request ∈ corpus.requestTypes, corpus.HasMemberBelow request name type) ↔
      ∃ message ∈ all, corpus.HasMember message name type := by
  constructor
  · rintro ⟨request, requested, message, path, member⟩
    exact ⟨message, (Corpus.mem_fullClosure ran).mpr ⟨request, requested, path⟩, member⟩
  · rintro ⟨message, inside, member⟩
    obtain ⟨request, requested, path⟩ := (Corpus.mem_fullClosure ran).mp inside
    exact ⟨request, requested, message, path, member⟩

-- All walks compare with one index, so no shape can differ from one that was met elsewhere.
theorem Derived.agree {known final : Table (String × Shape)} {entries result : Table RegistryEntry}
    (derived : Derived corpus corpus.requestTypes known final entries result)
    {name first second : String} {one other : Shape} (left : corpus.Known name first one)
    (right : corpus.Known name second other) : one = other := by
  obtain ⟨⟨request, requested, below⟩, signs⟩ := left
  obtain ⟨⟨request', requested', below'⟩, signs'⟩ := right
  obtain ⟨_, held, same, found⟩ := derived.indexed request requested name first below
  obtain ⟨_, held', same', found'⟩ := derived.indexed request' requested' name second below'
  rw [found] at found'
  cases found'
  exact (signs.unique same).trans (same'.unique signs')

-- Where everything resolves an error can only be a clash.
theorem ofCorpus_error_clash {all : NameSet} (ran : corpus.fullClosure = .ok all)
    {error : GenerationError} (failed : ofCorpus corpus config = .error error) :
    ∃ name first second one other, error = .nestedCollision name first one.text second other.text ∧
      Clash corpus all name first second one other := by
  have ends := ofCorpus_ends corpus config
  rw [failed] at ends
  obtain ⟨request, requested, collision | ⟨message, path, unresolved⟩⟩ := ends
  · obtain ⟨name, first, one, second, other, rfl, left, right, differ⟩ := collision
    exact ⟨name, first, second, one, other, rfl, (below_iff_mem ran).mp left.1,
      (below_iff_mem ran).mp right.1, left.2, right.2, differ⟩
  · obtain ⟨fields, resolved⟩ := Corpus.resolves_of_fullClosure ran requested message path
    rw [unresolved] at resolved
    cases resolved

-- Where the name of a member tells what it refers to nothing can clash.
theorem ofCorpus_of_told {all : NameSet} (ran : corpus.fullClosure = .ok all) (target : String → String)
    (told : ∀ message ∈ all, ∀ name nested, corpus.HasMember message name (.message nested) →
      nested = target name)
    (config : Config) : ∃ registry, ofCorpus corpus config = .ok registry := by
  cases derivation : ofCorpus corpus config with
  | ok registry => exact ⟨registry, rfl⟩
  | error error =>
    obtain ⟨name, first, second, one, other, _, clash⟩ := ofCorpus_error_clash ran derivation
    obtain ⟨message, inside, member⟩ := clash.left
    obtain ⟨messageToo, insideToo, memberToo⟩ := clash.right
    obtain rfl := told message inside name first member
    obtain rfl := told messageToo insideToo name second memberToo
    exact absurd (clash.signs.unique clash.signsToo) clash.differ

theorem ofCorpus_of_flat {all : NameSet} (ran : corpus.fullClosure = .ok all)
    (flat : ∀ message ∈ all, ∀ name target, ¬ corpus.HasMember message name (.message target))
    (config : Config) : ∃ registry, ofCorpus corpus config = .ok registry :=
  ofCorpus_of_told ran id (fun message inside name target member =>
    absurd member (flat message inside name target)) config

-- The derivation fails exactly on a clash, and reports one; it fails too where the messages
-- reachable from payload messages do not all resolve.
theorem ofCorpus_fails_iff_clash (corpus : Corpus) (config : Config) :
    (∀ all, corpus.fullClosure = .ok all →
      ((∃ error, ofCorpus corpus config = .error error) ↔
        ∃ name first second one other, Clash corpus all name first second one other) ∧
      ∀ error, ofCorpus corpus config = .error error → ∃ name first second one other,
        error = .nestedCollision name first one.text second other.text ∧
        Clash corpus all name first second one other) ∧
    ∀ error, corpus.fullClosure = .error error →
      ∃ other, ofCorpus corpus config = .error other := by
  have ends := ofCorpus_ends corpus config
  constructor
  · intro all ran
    refine ⟨⟨?_, ?_⟩, fun error => ofCorpus_error_clash ran⟩
    · rintro ⟨error, failed⟩
      obtain ⟨name, first, second, one, other, _, clash⟩ := ofCorpus_error_clash ran failed
      exact ⟨name, first, second, one, other, clash⟩
    · rintro ⟨name, first, second, one, other, clash⟩
      cases derivation : ofCorpus corpus config with
      | error error => exact ⟨error, rfl⟩
      | ok registry =>
        rw [derivation] at ends
        obtain ⟨final, entries, derived, _⟩ := ends
        exact absurd (derived.agree ⟨(below_iff_mem ran).mpr clash.left, clash.signs⟩
          ⟨(below_iff_mem ran).mpr clash.right, clash.signsToo⟩) clash.differ
  · intro error failed
    obtain ⟨request, requested, unresolved⟩ := Corpus.fullClosure_error failed
    cases derivation : ofCorpus corpus config with
    | error other => exact ⟨other, rfl⟩
    | ok registry =>
      rw [derivation] at ends
      obtain ⟨final, entries, derived, _⟩ := ends
      exact absurd (derived.resolves request requested) unresolved

-- Both members called `next` are put off: they meet only after the walk.
def clashingCorpus : Corpus where
  messages := [
    ("m.Bid", ⟨"m", "Bid", [⟨"next", "Bid", false, 1⟩, ⟨"step", "Step", false, 2⟩], "", none⟩),
    ("m.Step", ⟨"m", "Step", [⟨"next", "Step", false, 1⟩], "", none⟩)]
  enums := []
  requestTypes := ["m.Bid"]

def danglingCorpus : Corpus where
  messages := [("m.Bid", ⟨"m", "Bid", [⟨"next", "Gone", false, 1⟩], "", none⟩)]
  enums := []
  requestTypes := ["m.Bid"]

theorem fullClosure_clashing : clashingCorpus.fullClosure = .ok ["m.Bid", "m.Step"] := by
  have bid : clashingCorpus.resolvedFields "m.Bid" = .ok [
      ⟨"next", "next", .message "m.Bid", false, 1⟩, ⟨"step", "step", .message "m.Step", false, 2⟩] := rfl
  have step : clashingCorpus.resolvedFields "m.Step" = .ok [
      ⟨"next", "next", .message "m.Step", false, 1⟩] := rfl
  have closed : clashingCorpus.closure "m.Bid" = .ok ["m.Bid", "m.Step"] := by
    rw [Corpus.closure, Corpus.closureFrom_new rfl bid]
    show clashingCorpus.closureFrom ["m.Bid"] ["m.Step"] = _
    rw [Corpus.closureFrom_new rfl step]
    show clashingCorpus.closureFrom ["m.Bid", "m.Step"] [] = _
    rw [Corpus.closureFrom]
  show ((clashingCorpus.closure "m.Bid").map _ >>= _) = _
  rw [closed]
  rfl

theorem fullClosure_dangling :
    danglingCorpus.fullClosure = .error (.unresolvedType "Gone" "m.Bid" "next") := by
  show ((danglingCorpus.closure "m.Bid").map _ >>= _) = _
  rw [Corpus.closure, Corpus.closureFrom_unresolved rfl rfl]
  rfl

theorem clash_clashing : ∃ name first second one other,
    Clash clashingCorpus ["m.Bid", "m.Step"] name first second one other := by
  refine ⟨"next", "m.Bid", "m.Step", _, _, ⟨"m.Bid", List.mem_cons_self, _, rfl, _,
    List.mem_cons_self, rfl, rfl⟩, ⟨"m.Step", by simp, _, rfl, _, List.mem_cons_self, rfl, rfl⟩,
    Corpus.signsAs_canonical rfl, Corpus.signsAs_canonical rfl, fun same => ?_⟩
  have lengths := congrArg List.length same
  simp only [Shape.canonical, List.length_mergeSort] at lengths
  cases lengths

theorem ofCorpus_fails_clashing :
    clashingCorpus.fullClosure = .ok ["m.Bid", "m.Step"] ∧
    (∃ name first second one other, ofCorpus clashingCorpus .standard
        = .error (.nestedCollision name first (Shape.text one) second (Shape.text other)) ∧
      Clash clashingCorpus ["m.Bid", "m.Step"] name first second one other) ∧
    danglingCorpus.fullClosure = .error (.unresolvedType "Gone" "m.Bid" "next") ∧
    ∃ error, ofCorpus danglingCorpus .standard = .error error := by
  obtain ⟨fails, reports⟩ := (ofCorpus_fails_iff_clash clashingCorpus .standard).1 _ fullClosure_clashing
  obtain ⟨error, failed⟩ := fails.mpr clash_clashing
  obtain ⟨name, first, second, one, other, rfl, clash⟩ := reports error failed
  exact ⟨fullClosure_clashing, ⟨name, first, second, one, other, failed, clash⟩,
    fullClosure_dangling,
    (ofCorpus_fails_iff_clash danglingCorpus .standard).2 _ fullClosure_dangling⟩

end SigningSchema.Registry
