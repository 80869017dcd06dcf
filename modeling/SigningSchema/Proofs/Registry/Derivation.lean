import SigningSchema.Proofs.Registry.Survey

-- The registry of a corpus: one walk after the other, with one index of shapes for all of
-- them. Each payload message is described by what is below it.

namespace SigningSchema

namespace Corpus

-- A shape that a member below some payload message has.
def Known (corpus : Corpus) (name target : String) (shape : Shape) : Prop :=
  (∃ request ∈ corpus.requestTypes, corpus.HasMemberBelow request name (.message target)) ∧
    corpus.SignsAs target shape

theorem known_originates {corpus : Corpus} {request : String}
    (requested : request ∈ corpus.requestTypes) :
    Expansion.Originates corpus request corpus.Known :=
  fun _ _ _ below signs => ⟨⟨request, requested, below⟩, signs⟩

end Corpus

namespace Registry

variable {corpus : Corpus} {config : Config}

def Describes (corpus : Corpus) (request : String) (entry : RegistryEntry) : Prop :=
  Expansion.Describes corpus request entry.valueFields entry.nestedTypes entry.durationFields

theorem typeUrl_inj {first second : String} : Package.typeUrl first = Package.typeUrl second ↔
    first = second :=
  String.append_right_inj "/"

-- What a run over payload messages leaves behind, from the index and the entries before it.
structure Derived (corpus : Corpus) (requests : List String) (known final : Table (String × Shape))
    (entries result : Table RegistryEntry) : Prop where
  origins : ∀ name first shape, final.get? name = some (first, shape) → corpus.Known name first shape
  kept : ∀ name pair, known.get? name = some pair → final.get? name = some pair
  resolves : ∀ request ∈ requests, corpus.Resolves request
  indexed : ∀ request ∈ requests, ∀ name target, corpus.HasMemberBelow request name (.message target) →
    ∃ first shape, corpus.SignsAs target shape ∧ final.get? name = some (first, shape)
  urls : ∀ url, url ∈ result.keys ↔
    (∃ request ∈ requests, url = Package.typeUrl request) ∨ url ∈ entries.keys
  described : ∀ request, (request ∈ requests ∨
      ∃ entry, entries.get? (Package.typeUrl request) = some entry ∧ Describes corpus request entry) →
    ∃ entry, result.get? (Package.typeUrl request) = some entry ∧ Describes corpus request entry
  ascending : entries.Ascending → result.Ascending

-- One payload message more, in front of a run.
theorem Derived.cons {request : String} {rest : List String} {entry : RegistryEntry}
    {shape : Shape} {state : Expansion} {known final : Table (String × Shape)}
    {entries result : Table RegistryEntry}
    (surveyed : Expansion.Surveyed corpus request corpus.Known known shape state)
    (describes : Describes corpus request entry)
    (derived : Derived corpus rest state.known final
      (entries.insert (Package.typeUrl request) entry) result) :
    Derived corpus (request :: rest) known final entries result where
  origins := derived.origins
  kept name pair found := derived.kept name pair (surveyed.kept name pair found)
  resolves := List.forall_mem_cons.mpr ⟨surveyed.resolves, derived.resolves⟩
  indexed := by
    refine List.forall_mem_cons.mpr ⟨fun name target below => ?_, derived.indexed⟩
    obtain ⟨held, signs, found⟩ := surveyed.described.noted name target below
    obtain ⟨first, known⟩ := surveyed.agreed name held found
    exact ⟨first, held, signs, derived.kept name _ known⟩
  urls url := by
    rw [derived.urls, Table.mem_keys_insert, List.exists_mem_cons_iff]
    exact or_left_comm.trans or_assoc.symm
  described other := by
    intro given
    refine derived.described other ?_
    by_cases same : request = other
    · subst same
      exact .inr ⟨entry, Table.get?_insert_self _ _ _, describes⟩
    · rw [Table.get?_insert_ne _ _ fun equal => same (typeUrl_inj.mp equal)]
      exact given.imp_left fun member => (List.mem_cons.mp member).resolve_left (Ne.symm same)
  ascending ascending := derived.ascending (ascending.insert _ _)

theorem describeAll_ends {known : Table (String × Shape)} {entries : Table RegistryEntry}
    {requests : List String} (requested : ∀ request ∈ requests, request ∈ corpus.requestTypes)
    (origins : ∀ name first shape, known.get? name = some (first, shape) →
      corpus.Known name first shape) :
    match describeAll corpus config known entries requests with
    | .ok result => ∃ final, Derived corpus requests known final entries result
    | .error error => ∃ request ∈ requests, Expansion.Fault corpus request corpus.Known error := by
  induction requests generalizing known entries with
  | nil =>
    rw [describeAll]
    refine ⟨known, origins, fun _ _ => id, ?_, ?_, ?_, ?_, id⟩
    · exact fun _ none => nomatch none
    · exact fun _ none => nomatch none
    · simp
    · exact fun _ given => given.resolve_left List.not_mem_nil
  | cons request rest ih =>
    obtain ⟨first, others⟩ := List.forall_mem_cons.mp requested
    rw [describeAll]
    cases declared : corpus.message request with
    | error error =>
      refine ⟨request, List.mem_cons_self, .inr ⟨request, .refl, ?_⟩⟩
      rw [Corpus.resolvedFields, declared]
    | ok message =>
      have ends := Expansion.walk_ends (Corpus.known_originates first) origins
      cases walked : Expansion.walk corpus known request with
      | error error =>
        rw [walked] at ends
        exact ⟨request, List.mem_cons_self, ends⟩
      | ok result =>
        obtain ⟨shape, state⟩ := result
        rw [walked] at ends
        have later := @ih state.known (entries.insert (Package.typeUrl request)
          ⟨message.legacyNameIn config, Package.typeUrl request, shape, state.nested,
            state.durations, false⟩) others ends.origins
        simp only [bind, Except.bind]
        split at later
        · rename_i result ran
          obtain ⟨final, derived⟩ := later
          refine ⟨final, .cons ends ?_ derived⟩
          exact ends.described
        · rename_i error ran
          obtain ⟨other, member, fault⟩ := later
          exact ⟨other, List.mem_cons_of_mem _ member, fault⟩

theorem keys_applyOverrides (overrides : Table TypeOverride) (entries : Table RegistryEntry) :
    (applyOverrides overrides entries).keys = entries.keys := by
  rw [Table.keys, Table.keys, applyOverrides, List.map_map]
  rfl

theorem ascending_applyOverrides {overrides : Table TypeOverride} {entries : Table RegistryEntry}
    (ascending : entries.Ascending) : (applyOverrides overrides entries).Ascending :=
  List.pairwise_map.mpr ascending

def overridden (overrides : Table TypeOverride) (url : String) (entry : RegistryEntry) : RegistryEntry :=
  match overrides.get? url with
  | some override => applyOverride entry override
  | none => entry

theorem get?_applyOverrides_map (overrides : Table TypeOverride) (entries : Table RegistryEntry)
    (url : String) :
    (applyOverrides overrides entries).get? url = (entries.get? url).map (overridden overrides url) := by
  induction entries with
  | nil => rfl
  | cons pair rest ih =>
    obtain ⟨other, held⟩ := pair
    rw [applyOverrides, List.map_cons, Table.get?, Table.get?]
    split
    · rename_i same
      subst same
      rfl
    · exact ih

-- An override changes neither what is signed nor under which address.
theorem get?_applyOverrides (overrides : Table TypeOverride) {entries : Table RegistryEntry}
    {url : String} {entry : RegistryEntry} (found : entries.get? url = some entry) :
    ∃ final, (applyOverrides overrides entries).get? url = some final ∧
      final.valueFields = entry.valueFields ∧ final.nestedTypes = entry.nestedTypes ∧
      final.durationFields = entry.durationFields := by
  refine ⟨_, by rw [get?_applyOverrides_map, found, Option.map_some], ?_⟩
  unfold overridden
  split <;> exact ⟨rfl, rfl, rfl⟩

-- All payload messages in one run.
theorem ofCorpus_ends (corpus : Corpus) (config : Config) :
    match ofCorpus corpus config with
    | .ok registry => ∃ final entries, Derived corpus corpus.requestTypes [] final [] entries ∧
        registry.entries = applyOverrides config.typeOverrides entries
    | .error error =>
        ∃ request ∈ corpus.requestTypes, Expansion.Fault corpus request corpus.Known error := by
  have ends := @describeAll_ends corpus config [] [] corpus.requestTypes (fun _ => id)
    (fun _ _ _ found => nomatch found)
  unfold ofCorpus
  cases ran : describeAll corpus config [] [] corpus.requestTypes with
  | error error =>
    rw [ran] at ends
    exact ends
  | ok entries =>
    rw [ran] at ends
    obtain ⟨final, derived⟩ := ends
    exact ⟨final, entries, derived, rfl⟩

theorem resolves_of_ofCorpus {registry : Registry} (ran : ofCorpus corpus config = .ok registry) :
    ∀ request ∈ corpus.requestTypes, corpus.Resolves request := by
  have ends := ofCorpus_ends corpus config
  rw [ran] at ends
  obtain ⟨_, _, derived, _⟩ := ends
  exact derived.resolves

theorem entry_of_ofCorpus {registry : Registry} (ran : ofCorpus corpus config = .ok registry) :
    ∀ request ∈ corpus.requestTypes, ∃ entry,
      registry.get? (Package.typeUrl request) = some entry ∧ Describes corpus request entry := by
  have ends := ofCorpus_ends corpus config
  rw [ran] at ends
  obtain ⟨_, _, derived, overridden⟩ := ends
  intro request requested
  obtain ⟨entry, found, describes⟩ := derived.described request (.inl requested)
  obtain ⟨last, foundLast, fields, nested, durations⟩ :=
    get?_applyOverrides config.typeOverrides found
  refine ⟨last, ?_, ?_⟩
  · rw [get?, overridden, foundLast]
  · rwa [Describes, fields, nested, durations]

-- A registry describes every payload message, and nothing else, by the messages in its closure. A
-- walk ends whatever the messages refer to and whatever is known before it, and the fields put off
-- never lack a shape at its end.
theorem ofCorpus_describes (corpus : Corpus) (config : Config) :
    (∀ registry, ofCorpus corpus config = .ok registry →
      registry.entries.Ascending ∧
      (∀ url, url ∈ registry.entries.keys ↔
        ∃ request ∈ corpus.requestTypes, url = Package.typeUrl request) ∧
      ∀ request ∈ corpus.requestTypes, ∃ closure entry, corpus.closure request = .ok closure ∧
        (∀ message, message ∈ closure ↔ corpus.Reaches request message) ∧
        registry.get? (Package.typeUrl request) = some entry ∧ Describes corpus request entry) ∧
    (∀ known request, match Expansion.walk corpus known request with
      | .ok (shape, state) => Expansion.Describes corpus request shape state.nested state.durations
      | .error error => (∃ name first one second other,
            error = .nestedCollision name first one second other) ∨
          ∃ message, corpus.Reaches request message ∧ corpus.resolvedFields message = .error error) ∧
    ∀ known request shape state,
      Expansion.expand corpus [] (.start known) request rfl = .ok (shape, state) →
      ∀ name, state.backfill state.pending ≠ .error (.missingMessage name) := by
  refine ⟨?_, ?_, ?_⟩
  · intro registry ran
    have ends := ofCorpus_ends corpus config
    rw [ran] at ends
    obtain ⟨final, entries, derived, overridden⟩ := ends
    refine ⟨?_, ?_, ?_⟩
    · rw [overridden]
      exact ascending_applyOverrides (derived.ascending .nil)
    · intro url
      rw [overridden, keys_applyOverrides, derived.urls]
      exact or_iff_left List.not_mem_nil
    · intro request requested
      obtain ⟨closure, closed⟩ := Corpus.closure_of_resolves (derived.resolves request requested)
      obtain ⟨entry, found, describes⟩ := entry_of_ofCorpus ran request requested
      exact ⟨closure, entry, closed, fun _ => Corpus.mem_closure closed, found, describes⟩
  · intro known request
    have anything : Expansion.Originates corpus request fun _ _ _ => True :=
      fun _ _ _ _ _ => trivial
    have ends := @Expansion.walk_ends corpus request _ known anything fun _ _ _ _ => trivial
    cases walked : Expansion.walk corpus known request with
    | ok result =>
      rw [walked] at ends
      exact ends.described
    | error error =>
      rw [walked] at ends
      rcases ends with ⟨name, first, one, second, other, rfl, _⟩ | unresolved
      · exact .inl ⟨name, first, _, second, _, rfl⟩
      · exact .inr unresolved
  · intro known request shape state expanded name failed
    obtain ⟨_, _, _, _, _, collides, _⟩ := Expansion.backfill_collides expanded failed
    cases collides

def orderMessage : MessageDecl where
  package := "market"
  name := "MsgOrder"
  fields := [⟨"root", "Node", false, 1⟩, ⟨"max_wait", "google.protobuf.Duration", false, 2⟩]
  source := "market.proto"
  legacyName := none

def nodeMessage : MessageDecl where
  package := "market"
  name := "Node"
  fields := [⟨"next", "Node", true, 1⟩, ⟨"order", "MsgOrder", false, 2⟩, ⟨"label", "string", false, 3⟩]
  source := "market.proto"
  legacyName := none

-- A node refers to itself and back to the order.
def cyclicCorpus : Corpus where
  messages := [("market.MsgOrder", orderMessage), ("market.Node", nodeMessage)]
  enums := []
  requestTypes := ["market.MsgOrder"]

def nodeShape : Shape := [⟨"order", "order"⟩, ⟨"next", "next[]"⟩, ⟨"label", "string"⟩]

def orderShape : Shape := [⟨"root", "root"⟩, ⟨"maxWait", "string"⟩]

def orderEntry : RegistryEntry where
  legacyName := "market/MsgOrder"
  typeUrl := "/market.MsgOrder"
  valueFields := orderShape
  nestedTypes := [("next", nodeShape), ("order", orderShape), ("root", nodeShape)]
  durationFields := ["maxWait"]
  exclude := false

theorem resolvedFields_order : cyclicCorpus.resolvedFields "market.MsgOrder" = .ok [
    ⟨"root", "root", .message "market.Node", false, 1⟩,
    ⟨"max_wait", "maxWait", .scalar .duration, false, 2⟩] := by
  rfl

theorem resolvedFields_node : cyclicCorpus.resolvedFields "market.Node" = .ok [
    ⟨"next", "next", .message "market.Node", true, 1⟩,
    ⟨"order", "order", .message "market.MsgOrder", false, 2⟩,
    ⟨"label", "label", .scalar .string, false, 3⟩] := by
  rfl

def nodePending : List (String × String) := [("next", "market.Node"), ("order", "market.MsgOrder")]

theorem expand_node (new : ["market.MsgOrder"].contains "market.Node" = false) :
    Expansion.expand cyclicCorpus ["market.MsgOrder"] (.start []) "market.Node" new =
      .ok (nodeShape, ⟨[], [("market.Node", nodeShape)], [], [], nodePending⟩) := by
  have sorted : Shape.canonical [⟨"next", "next[]"⟩, ⟨"order", "order"⟩, ⟨"label", "string"⟩]
      = nodeShape := by
    refine (Shape.canonical_ordered _).unique ⟨by decide, fun name => ?_⟩
    by_cases next : "next" = name
    · subst next
      decide
    · simp [nodeShape, List.filter_cons, next]
  rw [Expansion.expand_fresh rfl resolvedFields_node]
  simp only [Expansion.expandFields_cons, Expansion.expandFields_nil]
  show Except.ok (Shape.canonical [_, _, _], _) = _
  rw [← sorted]
  rfl

theorem expand_order (new : List.contains [] "market.MsgOrder" = false) :
    Expansion.expand cyclicCorpus [] (.start []) "market.MsgOrder" new =
      .ok (orderShape, ⟨[("root", ("market.Node", nodeShape))],
        [("market.MsgOrder", orderShape), ("market.Node", nodeShape)],
        [("root", nodeShape)], ["maxWait"], nodePending⟩) := by
  have sorted : Shape.canonical [⟨"root", "root"⟩, ⟨"maxWait", "string"⟩] = orderShape :=
    (Shape.canonical_ordered _).unique ⟨by decide, fun _ => rfl⟩
  have visited : Expansion.visit cyclicCorpus ["market.MsgOrder"] (.start [])
      ⟨"root", "root", .message "market.Node", false, 1⟩ =
        .ok ⟨[("root", ("market.Node", nodeShape))], [("market.Node", nodeShape)],
          [("root", nodeShape)], [], nodePending⟩ := by
    simp only [Expansion.visit, expand_node]
    rfl
  rw [Expansion.expand_fresh rfl resolvedFields_order]
  simp only [Expansion.expandFields_cons, Expansion.expandFields_nil, visited]
  show Except.ok (Shape.canonical [_, _], _) = _
  rw [← sorted]
  rfl

theorem ofCorpus_cyclic :
    ofCorpus cyclicCorpus .standard = .ok ⟨[("/market.MsgOrder", orderEntry)]⟩ := by
  have walked : Expansion.walk cyclicCorpus [] "market.MsgOrder" = .ok (orderShape,
      ⟨[("next", ("market.Node", nodeShape)), ("order", ("market.MsgOrder", orderShape)),
        ("root", ("market.Node", nodeShape))],
      [("market.MsgOrder", orderShape), ("market.Node", nodeShape)],
      orderEntry.nestedTypes, ["maxWait"], nodePending⟩) :=
    Expansion.walk_of (expand_order rfl) rfl
  show (describeAll cyclicCorpus .standard [] [] ["market.MsgOrder"] >>= _) = _
  rw [describeAll, walked]
  rfl

theorem ofCorpus_describes_cyclic :
    ofCorpus cyclicCorpus .standard = .ok ⟨[("/market.MsgOrder", orderEntry)]⟩ ∧
    (∃ closure entry, cyclicCorpus.closure "market.MsgOrder" = .ok closure ∧
      (∀ message, message ∈ closure ↔ cyclicCorpus.Reaches "market.MsgOrder" message) ∧
      Registry.get? ⟨[("/market.MsgOrder", orderEntry)]⟩ "/market.MsgOrder" = some entry ∧
      Describes cyclicCorpus "market.MsgOrder" entry) ∧
    ∃ state, Expansion.expand cyclicCorpus [] (.start []) "market.MsgOrder" rfl
        = .ok (orderShape, state) ∧
      ∀ name, state.backfill state.pending ≠ .error (.missingMessage name) := by
  obtain ⟨describes, _, filled⟩ := ofCorpus_describes cyclicCorpus .standard
  obtain ⟨_, _, all⟩ := describes _ ofCorpus_cyclic
  exact ⟨ofCorpus_cyclic, all "market.MsgOrder" (List.mem_singleton.mpr rfl),
    _, expand_order rfl, filled _ _ _ _ (expand_order rfl)⟩

end Registry

end SigningSchema
