import SigningSchema.Proofs.Encoder.Rooting

-- The path of an error leads through the input to what is wrong with it: whatever it passes goes
-- wrong in the same way by itself, and whatever comes before goes well.

namespace SigningSchema

namespace Coercion

-- An error about what is given at a place, not about nothing being there.
def About (path : FieldPath) (error : CoercionError) : Prop :=
  error.path? = some path ∧ ¬ error.Missing

theorem about_of_alike {path : FieldPath} {one two : Except CoercionError α} {error : CoercionError}
    (alike : Alike Blunt path path one two) (failed : errorOf one = some error) : About path error := by
  cases alike with
  | ok value => cases failed
  | error about accounts =>
    obtain ⟨rfl, given⟩ := accounts
    cases failed
    exact ⟨by rw [about, FieldPath.append_nil], given⟩

end Coercion

theorem errorOf_bind {result : Except ε α} {next : α → Except ε β} {error : ε}
    (failed : errorOf (result >>= next) = some error) :
    errorOf result = some error ∨ ∃ value, errorOf (next value) = some error := by
  cases result with
  | error cause => exact .inl failed
  | ok value => exact .inr ⟨value, failed⟩

namespace EncoderPlans

open Coercion

-- What coercion meets on its way through an input under a path of its own: a value of a type, a field
-- with what the input gives for it, and the parts of bytes and of moments.
inductive Spot where
  | single (type : TypeClass) (input : Json)
  | field (rule : FieldRule) (given : Option Json)
  | byte (item : Json)
  | seconds (given : Option Json)
  | nanos (given : Option Json)

-- Null under a key is as good as no key; null in a list is an input like any other.
def Spot.Absent : Spot → Prop
  | field _ none | seconds none | nanos none => True
  | _ => False

-- What goes wrong where a spot is coerced by itself under a path.
def failure? (plans : EncoderPlans) (path : FieldPath) : Spot → Option CoercionError
  | .single type input => errorOf (plans.mapPart type path input)
  | .field rule given => errorOf (plans.coerceField path rule given)
  | .byte item => errorOf (readByte path item)
  | .seconds given => errorOf (readSeconds path given)
  | .nanos given => errorOf (readNanos path given)

def rulesOf (plans : EncoderPlans) (name : String) : List FieldRule :=
  match plans.plan? name with
  | some plan => plan.fields
  | none => []

-- What a value of a type consists of, with the steps that lead there, in the order of the
-- declarations and of the positions.
def partsOf (plans : EncoderPlans) : TypeClass → Json → List (PathStep × Spot)
  | .message name, .object members => (plans.rulesOf name).map fun rule =>
      (.field rule.camelName, .field rule (lookUp members rule.camelName rule.name))
  | .scalar .bytes, .array items => items.zipIdx.map fun part => (.index part.2, .byte part.1)
  | .scalar .duration, .object members | .scalar .timestamp, .object members =>
    [(.field "seconds", .seconds (Json.given? members "seconds")),
      (.field "nanos", .nanos (Json.given? members "nanos"))]
  | _, _ => []

def parts (plans : EncoderPlans) : Spot → List (PathStep × Spot)
  | .single type input => plans.partsOf type input
  | .field rule (some given) =>
    match rule.repeated, given with
    | false, given => plans.partsOf rule.type given
    | true, .array items => items.zipIdx.map fun part => (.index part.2, .single rule.type part.1)
    | true, _ => []
  | _ => []

def firstFailure? (plans : EncoderPlans) (path : FieldPath) (parts : List (PathStep × Spot)) :
    Option CoercionError :=
  parts.findSome? fun part => plans.failure? (path.append [part.1]) part.2

-- The way of an error from a spot to the one that it is about. All of it fails with this error, and
-- whatever is read before it at any level does not fail.
inductive Leads (plans : EncoderPlans) (error : CoercionError) :
    FieldPath → Spot → FieldPath → Spot → Prop
  | here {path : FieldPath} {spot : Spot} (fails : plans.failure? path spot = some error) :
      Leads plans error path spot path spot
  | inside {path last : FieldPath} {spot next final : Spot} {step : PathStep}
      {before after : List (PathStep × Spot)} (fails : plans.failure? path spot = some error)
      (split : plans.parts spot = before ++ (step, next) :: after)
      (clean : ∀ part ∈ before, plans.failure? (path.append [part.1]) part.2 = none)
      (rest : Leads plans error (path.append [step]) next last final) :
      Leads plans error path spot last final

noncomputable def Spot.size : Spot → Nat
  | single _ input | field _ (some input) => sizeOf input
  | _ => 0

def Knows (plans : EncoderPlans) (type : TypeClass) : Prop :=
  ∀ nested, type = .message nested → nested ∈ plans.messages.keys

def Spot.Planned (plans : EncoderPlans) : Spot → Prop
  | single type _ => plans.Knows type
  | field rule _ => plans.Knows rule.type
  | _ => True

variable {corpus : Corpus} {config : Config} {plans : EncoderPlans} {path : FieldPath}
  {error : CoercionError} {name : String}

theorem firstFailure?_map (f : α → PathStep × Spot) (items : List α) :
    plans.firstFailure? path (items.map f)
      = items.findSome? fun item => plans.failure? (path.append [(f item).1]) (f item).2 := by
  rw [firstFailure?, List.findSome?_map]
  rfl

-- A moment fails as one of its two parts does, or as the nanos of a second go too far.
theorem moment_failure {kind : ScalarKind} (moment : kind = .duration ∨ kind = .timestamp) {input : Json}
    (failed : errorOf (readMoment kind path input) = some error) :
    plans.firstFailure? path (plans.partsOf (.scalar kind) input) = some error ∨ About path error := by
  cases input with
  | object members =>
    have parts : plans.partsOf (.scalar kind) (.object members)
        = [(.field "seconds", .seconds (Json.given? members "seconds")),
          (.field "nanos", .nanos (Json.given? members "nanos"))] := by
      rcases moment with rfl | rfl <;> rfl
    rw [readMoment_object] at failed
    generalize first : readSeconds (path.field "seconds") (Json.given? members "seconds") = seconds at failed
    generalize second : readNanos (path.field "nanos") (Json.given? members "nanos") = nanos at failed
    have firstPart : plans.failure? (path.append [.field "seconds"])
      (.seconds (Json.given? members "seconds")) = errorOf seconds := congrArg errorOf first
    have secondPart : plans.failure? (path.append [.field "nanos"])
      (.nanos (Json.given? members "nanos")) = errorOf nanos := congrArg errorOf second
    rw [parts, firstFailure?, List.findSome?_cons, List.findSome?_cons, firstPart, secondPart]
    cases seconds with
    | error cause => exact .inl failed
    | ok whole =>
      cases nanos with
      | error cause => exact .inl failed
      | ok rest =>
        dsimp only [bind, Except.bind] at failed
        split at failed
        · cases failed
          exact .inr ⟨rfl, id⟩
        · cases failed
  | _ =>
    cases failed
    exact .inr ⟨rfl, id⟩

theorem scalar_failure {kind : ScalarKind} {input : Json}
    (failed : errorOf (scalar kind path input) = some error) :
    plans.firstFailure? path (plans.partsOf (.scalar kind) input) = some error ∨ About path error := by
  by_cases simple : Simple kind
  · exact .inr (about_of_alike (scalar_alike_blunt simple input) failed)
  · cases kind
    case bytes =>
      cases input with
      | string text =>
        simp only [scalar] at failed
        split at failed <;> cases failed
        exact .inr ⟨rfl, id⟩
      | array items =>
        simp only [scalar, readBytes_eq_inTurn, errorOf_map, errorOf_inTurn] at failed
        exact .inl ((firstFailure?_map _ _).trans failed)
      | _ =>
        cases failed
        exact .inr ⟨rfl, id⟩
    case duration =>
      rcases errorOf_bind failed with before | ⟨moment, apart⟩
      · exact moment_failure (.inl rfl) before
      · dsimp only at apart
        split at apart <;> cases apart
        exact .inr ⟨rfl, id⟩
    case timestamp =>
      rcases errorOf_bind failed with before | ⟨moment, apart⟩
      · exact moment_failure (.inr rfl) before
      · cases apart
    all_goals exact absurd trivial simple

theorem message_failure (known : name ∈ plans.messages.keys) {input : Json}
    (failed : errorOf (plans.mapAt name path input) = some error) :
    plans.firstFailure? path (plans.partsOf (.message name) input) = some error ∨ About path error := by
  obtain ⟨plan, planned⟩ := Table.mem_keys_iff.mp known
  have found : plans.plan? name = some plan := planned
  cases input with
  | object members =>
    have each : plans.firstFailure? path (plans.partsOf (.message name) (.object members))
        = plan.fields.findSome? fun rule => errorOf (plans.mapField path members rule) := by
      rw [partsOf, rulesOf, found, firstFailure?_map]
      exact congrArg (plan.fields.findSome? ·) (funext fun rule =>
        (congrArg errorOf (mapField_eq_coerceField members)).symm)
    rw [mapAt_object planned, errorOf_map, mapFields_eq_inTurn _ _ 0, errorOf_inTurn] at failed
    simp only [errorOf_map] at failed
    refine .inl (each.trans (Eq.trans ?_ failed))
    conv_lhs => rw [← List.zipIdx_map_fst 0 plan.fields, List.findSome?_map]
    rfl
  | _ =>
    rw [mapAt, found] at failed
    cases failed
    exact .inr ⟨rfl, id⟩

theorem part_failure {type : TypeClass} (known : plans.Knows type) {input : Json}
    (failed : errorOf (plans.mapPart type path input) = some error) :
    plans.firstFailure? path (plans.partsOf type input) = some error ∨ About path error := by
  cases type with
  | scalar kind => exact scalar_failure failed
  | message nested => exact message_failure (known nested rfl) failed

-- What an error that is about a spot itself says of it.
def Spot.Blamed (path : FieldPath) (error : CoercionError) (spot : Spot) : Prop :=
  error.path? = some path ∧ (spot.Absent ↔ ∃ expected, error = .missingField path expected)

theorem blamed_of_about {spot : Spot} (given : ¬ spot.Absent) (about : About path error) :
    spot.Blamed path error := by
  refine ⟨about.1, fun absent => absurd absent given, ?_⟩
  rintro ⟨expected, rfl⟩
  exact absurd trivial about.2

theorem blamed_of_missing {spot : Spot} {expected : String} (absent : spot.Absent) :
    spot.Blamed path (.missingField path expected) :=
  ⟨rfl, fun _ => ⟨expected, rfl⟩, fun _ => absent⟩

-- A spot that fails does so as the first of its parts that fails, or the error is its own.
theorem failure_step {spot : Spot} (known : spot.Planned plans)
    (failed : plans.failure? path spot = some error) :
    plans.firstFailure? path (plans.parts spot) = some error ∨ spot.Blamed path error := by
  cases spot with
  | single type input => exact (part_failure known failed).imp_right (blamed_of_about id)
  | byte item => exact .inr (blamed_of_about id (about_of_alike (readByte_alike item) failed))
  | seconds given =>
    cases given with
    | none =>
      cases failed
      exact .inr (blamed_of_missing trivial)
    | some input => exact .inr (blamed_of_about id (about_of_alike (readBounded_alike _ _ input) failed))
  | nanos given =>
    cases given with
    | none =>
      cases failed
      exact .inr (blamed_of_missing trivial)
    | some input => exact .inr (blamed_of_about id (about_of_alike (readInteger_alike input) failed))
  | field rule given =>
    simp only [failure?] at failed
    cases given with
    | none =>
      rw [coerceField_none] at failed
      cases policy : rule.policy <;> rw [policy] at failed <;> cases failed
      exact .inr (blamed_of_missing trivial)
    | some part =>
      cases several : rule.repeated with
      | false =>
        rw [coerceField_single several] at failed
        simp only [parts, several]
        exact (part_failure known failed).imp_right (blamed_of_about id)
      | true =>
        cases part with
        | array items =>
          rw [coerceField_array several, errorOf_map, errorOf_inTurn] at failed
          simp only [parts, several]
          exact .inl ((firstFailure?_map _ _).trans failed)
        | _ =>
          rw [coerceField_unlike several (fun _ => Json.noConfusion)] at failed
          cases failed
          exact .inr (blamed_of_about id ⟨rfl, id⟩)

-- Parts are of planned messages and smaller than what they are parts of.
structure Smaller (plans : EncoderPlans) (size : Nat) (spot : Spot) : Prop where
  planned : spot.Planned plans
  size_lt : spot.size < size

theorem smaller_of_partsOf (closed : Closed plans.messages) {type : TypeClass} {input : Json}
    {part : PathStep × Spot} (inside : part ∈ plans.partsOf type input) :
    plans.Smaller (sizeOf input) part.2 := by
  unfold partsOf at inside
  split at inside
  · rename_i name members
    obtain ⟨rule, member, rfl⟩ := List.mem_map.mp inside
    unfold rulesOf at member
    split at member
    · rename_i plan planned
      refine ⟨closed name plan planned rule member, ?_⟩
      cases given : lookUp members rule.camelName rule.name with
      | none => simp [Spot.size]
      | some value =>
        have smaller := sizeOf_lt_of_lookUp given
        simp only [Spot.size, Json.object.sizeOf_spec]
        omega
    · cases member
  · obtain ⟨item, _, rfl⟩ := List.mem_map.mp inside
    exact ⟨trivial, by simp [Spot.size]⟩
  · simp only [List.mem_cons, List.not_mem_nil, or_false] at inside
    rcases inside with rfl | rfl <;> exact ⟨trivial, by simp [Spot.size]⟩
  · simp only [List.mem_cons, List.not_mem_nil, or_false] at inside
    rcases inside with rfl | rfl <;> exact ⟨trivial, by simp [Spot.size]⟩
  · cases inside

theorem smaller_of_parts (closed : Closed plans.messages) {spot : Spot} (known : spot.Planned plans)
    {part : PathStep × Spot} (inside : part ∈ plans.parts spot) : plans.Smaller spot.size part.2 := by
  unfold parts at inside
  split at inside
  · exact smaller_of_partsOf closed inside
  · split at inside
    · exact smaller_of_partsOf closed inside
    · obtain ⟨⟨item, position⟩, among, rfl⟩ := List.mem_map.mp inside
      have smaller : sizeOf item < sizeOf _ := List.sizeOf_lt_of_mem (List.fst_mem_of_mem_zipIdx among)
      refine ⟨known, ?_⟩
      simp only [Spot.size, Json.array.sizeOf_spec]
      omega
    · cases inside
  · cases inside

-- From a spot that fails the way leads down to a spot that is to blame, part by part.
theorem leads_of_failure (closed : Closed plans.messages) {spot : Spot} (known : spot.Planned plans)
    (failed : plans.failure? path spot = some error) :
    ∃ steps final, plans.Leads error path spot (path.append steps) final ∧
      final.Blamed (path.append steps) error := by
  induction size : spot.size using Nat.strongRecOn generalizing spot path with
  | _ size ih =>
    subst size
    rcases failure_step known failed with below | blamed
    · obtain ⟨before, ⟨step, next⟩, after, split, fails, clean⟩ := List.findSome?_eq_some_iff.mp below
      have inside : (step, next) ∈ plans.parts spot := split ▸ List.mem_append_right _ List.mem_cons_self
      have smaller := smaller_of_parts closed known inside
      obtain ⟨steps, final, leads, blamed⟩ := ih _ smaller.size_lt smaller.planned fails rfl
      rw [← FieldPath.append_cons] at leads blamed
      exact ⟨step :: steps, final, .inside failed split clean leads, blamed⟩
    · refine ⟨[], spot, ?_⟩
      rw [FieldPath.append_nil]
      exact ⟨.here failed, blamed⟩

-- Where a mapping fails, the path of the error starts at the label and leads through the message to a
-- spot that fails by itself in the same way, after others that do not fail; and that spot is absent
-- from the input exactly where the error is that it is missing.
theorem map_error_leads (planned : ofCorpus corpus config = .ok plans) {plan : MessagePlan}
    (known : plans.plan? name = some plan) {label : String} {input : Json}
    (failed : plans.map name label input = .error error) :
    ∃ steps spot, error.path? = some ⟨label, steps⟩ ∧
      plans.Leads error (.root label) (.single (.message name) input) ⟨label, steps⟩ spot ∧
      (spot.Absent ↔ ∃ expected, error = .missingField ⟨label, steps⟩ expected) := by
  have inside : name ∈ plans.messages.keys := Table.mem_keys_iff.mpr ⟨plan, known⟩
  have start : (Spot.single (.message name) input).Planned plans := by
    rintro _ ⟨⟩
    exact inside
  obtain ⟨steps, spot, leads, about, absent⟩ :=
    leads_of_failure (closed_of_ofCorpus planned) start (errorOf_eq_some.mpr failed)
  exact ⟨steps, spot, about, leads, absent⟩

-- The second toll is no number; it is there all the same.
def tolled : Json :=
  .object [("route", .object [("tolls", .array [.number (.integer 5), .null])])]

theorem map_tolled (label : String) : payPlans.map "m.MsgPay" label tolled
    = .error (.unlike ⟨label, [.field "route", .field "tolls", .index 1]⟩ "sint32" .null) := by
  have route : ∀ path, payPlans.mapAt "m.RouteParams" path
      (.object [("tolls", .array [.number (.integer 5), .null])])
      = .error (.unlike ((path.field "tolls").index 1) "sint32" .null) := by
    intro path
    rw [mapAt_object planned_route]
    simp only [routePlan, mapFields_cons, mapFields_nil]
    rfl
  have first : payPlans.mapField (.root label)
      [("route", .object [("tolls", .array [.number (.integer 5), .null])])]
      ⟨"route", "route", 1, .message "m.RouteParams", false, .required⟩
      = .error (.unlike ⟨label, [.field "route", .field "tolls", .index 1]⟩ "sint32" .null) := route _
  rw [tolled, map, mapAt_object planned_pay]
  simp only [payPlan, mapFields_cons, first]
  rfl

theorem map_error_leads_pay :
    ofCorpus payCorpus .standard = .ok payPlans ∧ payPlans.plan? "m.MsgPay" = some payPlan ∧
    (∃ spot, payPlans.Leads (.missingField ⟨"tx", [.field "maxWait"]⟩ "duration") (.root "tx")
        (.single (.message "m.MsgPay") unpaid) ⟨"tx", [.field "maxWait"]⟩ spot ∧ spot.Absent) ∧
    ∃ spot, payPlans.Leads
        (.unlike ⟨"tx", [.field "route", .field "tolls", .index 1]⟩ "sint32" .null) (.root "tx")
        (.single (.message "m.MsgPay") tolled) ⟨"tx", [.field "route", .field "tolls", .index 1]⟩ spot ∧
      ¬ spot.Absent := by
  refine ⟨ofCorpus_pay, planned_pay, ?_, ?_⟩
  · obtain ⟨steps, spot, about, leads, absent⟩ :=
      map_error_leads ofCorpus_pay planned_pay (map_unpaid "tx")
    cases about
    exact ⟨spot, leads, absent.mpr ⟨_, rfl⟩⟩
  · obtain ⟨steps, spot, about, leads, absent⟩ :=
      map_error_leads ofCorpus_pay planned_pay (map_tolled "tx")
    cases about
    refine ⟨spot, leads, fun missing => ?_⟩
    obtain ⟨expected, impossible⟩ := absent.mp missing
    cases impossible

end EncoderPlans

end SigningSchema
