import SigningSchema.Proofs.Encoder.Layout

-- What coercion gives, the writer takes: an input that has a value has bytes.

namespace SigningSchema.EncoderPlans

variable {corpus : Corpus} {config : Config} {plans : EncoderPlans} {name : String}

-- What a typed value owes to the wire schema, place by place.
def Fits (plans : EncoderPlans) (value : Value) : Place → Prop
  | .message name => ∀ index, plans.position? name = some index →
      plans.schema.Conforms (.message index) value
  | .field rule => ∀ field, plans.Matches rule field → plans.schema.Conforms (.field field) value
  | .single type => ∀ rule field, plans.Matches rule field → rule.type = type →
      plans.schema.Conforms (.single field) value

theorem fits_of_typed (laid : plans.LaidOut) {place : Place} {input : Option Json} {value : Value}
    (typed : plans.Typed place input value) : plans.Fits value place := by
  induction typed with
  | @object name plan inputs members planned _ _ _ ih =>
    intro index found
    obtain ⟨other, same, _, fields⟩ := laid.type_of_position found
    rw [planned] at same
    cases same
    refine .object fun field declared value given => ?_
    obtain ⟨rule, member, fits⟩ := exists_of_forall₂ fields.flip declared
    exact ih rule member value (fits.name ▸ given) field fits
  | unset => exact fun _ _ => .unset
  | zero singular _ type _ fits =>
    intro field agrees
    exact .singular (agrees.repeated.trans singular) (.scalar (agrees.scalar _ type) fits)
  | empty repeated =>
    intro field agrees
    exact .list (agrees.repeated.trans repeated) fun _ none => nomatch none
  | @given rule _ _ singular _ ih =>
    intro field agrees
    exact .singular (agrees.repeated.trans singular) (ih rule field agrees rfl)
  | @list rule inputs values repeated lengths _ ih =>
    intro field agrees
    have each : List.Forall₂ (fun _ value => plans.Fits value (.single rule.type)) inputs values :=
      List.forall₂_iff_zip.mpr ⟨lengths, fun inside => ih _ inside⟩
    refine .list (agrees.repeated.trans repeated) fun value member => ?_
    obtain ⟨_, _, fits⟩ := exists_of_forall₂ each.flip member
    exact fits rule field agrees rfl
  | scalar fits =>
    intro rule field agrees type
    exact .scalar (agrees.scalar _ type) fits
  | message _ ih =>
    intro rule field agrees type
    obtain ⟨index, found, refers⟩ := agrees.message _ type
    exact .message refers (ih index found)

theorem encode_typed (laid : plans.LaidOut) (distinct : plans.DistinctNames) {plan : MessagePlan}
    (planned : plans.plan? name = some plan) {input : Json} {value : Value}
    (typed : plans.Typed (.message name) (some input) value) :
    ∃ bytes, plans.schema.encode name value = .ok bytes := by
  obtain ⟨index, found⟩ := position_of_plan planned
  have filled : plans.schema.Conforms (.message index) (plans.schema.fill index value) :=
    WireSchema.fillAt_conforms (laid.distinctNames distinct) (fits_of_typed laid typed index found)
  refine ⟨plans.schema.bytes (.message index) (plans.schema.fill index value), ?_⟩
  rw [WireSchema.encode, laid.index?_of_position found]
  exact WireSchema.encodeMessage_of_conforms filled _

-- Coercion is sound for the writer: what it gives is of the declared types and has bytes, so an
-- input fails to be encoded exactly where it fails to be coerced, for the same reason.
theorem encode_fails_iff_map_fails (planned : ofCorpus corpus config = .ok plans)
    (distinct : ∀ message fields, corpus.Reachable message →
      corpus.resolvedFields message = .ok fields → (fields.map ResolvedField.camelName).Nodup)
    {plan : MessagePlan} (known : plans.plan? name = some plan) :
    (∀ label input value, plans.map name label input = .ok value →
      plans.Typed (.message name) (some input) value ∧
        ∃ bytes, plans.schema.encode name value = .ok bytes) ∧
    (∀ input error, plans.encode name input = .error error ↔
      plans.map name FieldPath.defaultLabel input = .error error) ∧
    (∃ index, plans.schema.index? name = some index ∧ index < plans.schema.types.length) ∧
    ∀ type ∈ plans.schema.types, ∀ field ∈ type.fields, ∀ index,
      field.type = .message index → index < plans.schema.types.length := by
  have laid := laidOut_of_ofCorpus planned
  have names := distinctNames_of_ofCorpus planned distinct
  have sound : ∀ label input value, plans.map name label input = .ok value →
      plans.Typed (.message name) (some input) value ∧
        ∃ bytes, plans.schema.encode name value = .ok bytes := by
    intro label input value mapped
    have typed := mapAt_typed names _ name _ input value (Nat.lt_succ_self _) mapped
    exact ⟨typed, encode_typed laid names known typed⟩
  refine ⟨sound, ?_, ?_, fun type member field declared index => laid.index_lt member declared⟩
  · intro input error
    unfold encode
    cases mapped : plans.map name FieldPath.defaultLabel input with
    | error cause => simp [bind, Except.bind]
    | ok value =>
      obtain ⟨_, bytes, written⟩ := sound _ input value mapped
      simp [bind, Except.bind, written]
  · obtain ⟨index, found⟩ := position_of_plan known
    exact ⟨index, laid.index?_of_position found, laid.position_lt found⟩

-- The route is a parameter message and may leave out what it likes; the payment may not.
def payMessage : MessageDecl where
  package := "m"
  name := "MsgPay"
  fields := [⟨"route", "RouteParams", false, 1⟩, ⟨"max_wait", "google.protobuf.Duration", false, 2⟩]
  source := "m.proto"
  legacyName := none

def routeMessage : MessageDecl where
  package := "m"
  name := "RouteParams"
  fields := [⟨"next", "RouteParams", false, 1⟩, ⟨"max_hops", "uint64", false, 2⟩,
    ⟨"tolls", "sint32", true, 3⟩]
  source := "m.proto"
  legacyName := none

def payCorpus : Corpus where
  messages := [("m.MsgPay", payMessage), ("m.RouteParams", routeMessage)]
  enums := []
  requestTypes := ["m.MsgPay"]

def payPlan : MessagePlan := ⟨"m.MsgPay", [
    ⟨"route", "route", 1, .message "m.RouteParams", false, .required⟩,
    ⟨"max_wait", "maxWait", 2, .scalar .duration, false, .required⟩]⟩

def routePlan : MessagePlan := ⟨"m.RouteParams", [
    ⟨"next", "next", 1, .message "m.RouteParams", false, .default⟩,
    ⟨"max_hops", "maxHops", 2, .scalar .uint64, false, .default⟩,
    ⟨"tolls", "tolls", 3, .scalar .sint32, true, .default⟩]⟩

def payPlans : EncoderPlans where
  messages := [("m.MsgPay", payPlan), ("m.RouteParams", routePlan)]
  requests := ["m.MsgPay"]
  schema := ⟨[
    ⟨"m.MsgPay", [⟨"route", 1, .message 1, false⟩, ⟨"maxWait", 2, .scalar .duration, false⟩]⟩,
    ⟨"m.RouteParams", [⟨"next", 1, .message 1, false⟩, ⟨"maxHops", 2, .scalar .uint64, false⟩,
      ⟨"tolls", 3, .scalar .sint32, true⟩]⟩]⟩

theorem fullClosure_pay : payCorpus.fullClosure = .ok ["m.MsgPay", "m.RouteParams"] := by
  have closed : payCorpus.closure "m.MsgPay" = .ok ["m.MsgPay", "m.RouteParams"] := by
    rw [Corpus.closure, Corpus.closureFrom_new rfl rfl]
    show payCorpus.closureFrom ["m.MsgPay"] ["m.RouteParams"] = _
    rw [Corpus.closureFrom_new rfl rfl]
    show payCorpus.closureFrom ["m.MsgPay", "m.RouteParams"] [] = _
    rw [Corpus.closureFrom]
  show ((payCorpus.closure "m.MsgPay").map _ >>= _) = _
  rw [closed]
  rfl

theorem ofCorpus_pay : ofCorpus payCorpus .standard = .ok payPlans := by
  rw [ofCorpus, fullClosure_pay]
  rfl

def routeMembers : List (String × Json) := [("max_hops", .number (.integer 7)), ("next", .object [])]

def payMembers : List (String × Json) := [
  ("maxWait", .object [("nanos", .number (.integer 0)), ("seconds", .number (.integer 3))]),
  ("route", .object routeMembers)]

-- Where the input ends, the defaults of the parameters begin.
def lastRoute : Value := .object [("maxHops", .uint64 0), ("next", .null), ("tolls", .array [])]

def firstRoute : Value := .object [("maxHops", .uint64 7), ("next", lastRoute), ("tolls", .array [])]

def payValue : Value := .object [("maxWait", .duration 3 0), ("route", firstRoute)]

theorem planned_route : payPlans.plan? "m.RouteParams" = some routePlan := rfl

theorem planned_pay : payPlans.plan? "m.MsgPay" = some payPlan := rfl

theorem map_emptyRoute (path : FieldPath) :
    payPlans.mapAt "m.RouteParams" path (.object []) = .ok lastRoute := by
  rw [mapAt_object planned_route]
  simp only [routePlan, mapFields_cons, mapFields_nil]
  rfl

theorem map_pay : payPlans.map "m.MsgPay" "value" (.object payMembers) = .ok payValue := by
  have route : ∀ path, payPlans.mapAt "m.RouteParams" path (.object routeMembers) = .ok firstRoute := by
    intro path
    have next : payPlans.mapField path routeMembers
        ⟨"next", "next", 1, .message "m.RouteParams", false, .default⟩ = .ok lastRoute := map_emptyRoute _
    rw [mapAt_object planned_route]
    simp only [routePlan, mapFields_cons, mapFields_nil, next]
    rfl
  have first : payPlans.mapField (.root "value") payMembers
      ⟨"route", "route", 1, .message "m.RouteParams", false, .required⟩ = .ok firstRoute := route _
  rw [map, mapAt_object planned_pay]
  simp only [payPlan, mapFields_cons, mapFields_nil, first]
  rfl

theorem distinct_pay (message : String) (fields : List ResolvedField)
    (reached : payCorpus.Reachable message) (resolved : payCorpus.resolvedFields message = .ok fields) :
    (fields.map ResolvedField.camelName).Nodup := by
  have inside := (Corpus.mem_fullClosure fullClosure_pay).mpr reached
  simp only [List.mem_cons, List.not_mem_nil, or_false] at inside
  rcases inside with rfl | rfl
  · cases resolved
    decide
  · cases resolved
    decide

theorem encode_pay :
    ofCorpus payCorpus .standard = .ok payPlans ∧ payPlans.plan? "m.MsgPay" = some payPlan ∧
    (∀ message fields, payCorpus.Reachable message → payCorpus.resolvedFields message = .ok fields →
      (fields.map ResolvedField.camelName).Nodup) ∧
    payPlans.map "m.MsgPay" "value" (.object payMembers) = .ok payValue ∧
    payPlans.Typed (.message "m.MsgPay") (some (.object payMembers)) payValue ∧
    (∃ bytes, payPlans.schema.encode "m.MsgPay" payValue = .ok bytes) ∧
    payPlans.encode "m.MsgPay" .null = .error (.unlike (.root "value") "object" .null) := by
  obtain ⟨sound, fails, _⟩ := encode_fails_iff_map_fails ofCorpus_pay distinct_pay planned_pay
  obtain ⟨typed, written⟩ := sound "value" (.object payMembers) payValue map_pay
  refine ⟨ofCorpus_pay, planned_pay, distinct_pay, map_pay, typed, written, (fails _ _).mpr ?_⟩
  rw [map, mapAt, planned_pay]
  rfl

end SigningSchema.EncoderPlans
