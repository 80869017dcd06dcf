import SigningSchema.Proofs.Encoder.Fullness
import SigningSchema.Proofs.Encoder.Omission

-- More field defaults, and how two runs over one input then compare: they agree, or the stricter one
-- misses a field that the other may go without.

namespace SigningSchema

open Coercion

-- The same configuration but for more fields that may be left out.
structure Config.Relaxes (first second : Config) : Prop where
  only : second = { first with fieldDefaults := second.fieldDefaults }
  more : ∀ key ∈ first.fieldDefaults, key ∈ second.fieldDefaults

-- A field of a message that only the second configuration has a default for.
def Config.Frees (first second : Config) (message : String) (rule : FieldRule) : Prop :=
  message ++ "." ++ rule.camelName ∈ second.fieldDefaults ∧
    message ++ "." ++ rule.camelName ∉ first.fieldDefaults

namespace Coercion

-- A run and a laxer one: they end alike, or the first ends with an error that the second is spared.
inductive Relaxed (grants : CoercionError → Prop) :
    Except CoercionError α → Except CoercionError α → Prop where
  | same (result : Except CoercionError α) : Relaxed grants result result
  | granted {error : CoercionError} (grant : grants error) (other : Except CoercionError α) :
      Relaxed grants (.error error) other

namespace Relaxed

variable {grants more : CoercionError → Prop} {one two : Except CoercionError α}

theorem imp (relaxed : Relaxed grants one two) (wider : ∀ error, grants error → more error) :
    Relaxed more one two := by
  cases relaxed with
  | same => exact .same _
  | granted grant => exact .granted (wider _ grant) _

theorem bind (next : α → Except CoercionError β) (relaxed : Relaxed grants one two) :
    Relaxed grants (one >>= next) (two >>= next) := by
  cases relaxed with
  | same => exact .same _
  | granted grant => exact .granted grant _

theorem map (f : α → β) (relaxed : Relaxed grants one two) :
    Relaxed grants (one.map f) (two.map f) := by
  cases relaxed with
  | same => exact .same _
  | granted grant => exact .granted grant _

-- The first part on which the runs differ is where the first of them ends.
theorem inTurn {item again : Nat → α → Except CoercionError β} {inputs : List α} {position : Nat}
    (each : ∀ part ∈ inputs.zipIdx position, Relaxed grants (item part.2 part.1) (again part.2 part.1)) :
    Relaxed grants (inTurn item position inputs) (inTurn again position inputs) := by
  induction inputs generalizing position with
  | nil => exact .same _
  | cons input rest ih =>
    simp only [List.zipIdx_cons, List.mem_cons, forall_eq_or_imp] at each
    obtain ⟨first, later⟩ := each
    simp only [SigningSchema.inTurn]
    generalize item position input = one at first
    generalize again position input = two at first
    cases first with
    | granted grant => exact .granted grant _
    | same =>
      cases one with
      | error error => exact .same _
      | ok value => exact (ih later).map _

theorem ok {value : α} (relaxed : Relaxed grants one two) (ran : one = .ok value) : two = .ok value := by
  cases relaxed with
  | same => exact ran
  | granted => cases ran

theorem error {error : CoercionError} {value : α} (relaxed : Relaxed grants one two)
    (failed : one = .error error) (ran : two = .ok value) : grants error := by
  cases relaxed with
  | same => cases failed.symm.trans ran
  | granted grant =>
    cases failed
    exact grant

end Relaxed

end Coercion

-- A field that a configuration may let go.
def FieldRule.relaxed (config : Config) (fullName : String) (rule : FieldRule) : FieldRule :=
  { rule with
    policy := if config.hasFieldDefault fullName rule.camelName then .default else rule.policy }

def MessagePlan.relaxed (config : Config) (plan : MessagePlan) : MessagePlan :=
  { plan with fields := plan.fields.map (FieldRule.relaxed config plan.fullName) }

namespace EncoderPlans

def relaxed (config : Config) (plans : EncoderPlans) : EncoderPlans :=
  { plans with messages := Table.mapValues (MessagePlan.relaxed config) plans.messages }

variable {corpus : Corpus} {first second config : Config} {plans : EncoderPlans} {name : String}

theorem policyOf_relaxed (relaxes : first.Relaxes second) (message : MessageDecl)
    (fullName camelName : String) : policyOf second message fullName camelName
      = if second.hasFieldDefault fullName camelName then .default
        else policyOf first message fullName camelName := by
  have params : second.isParamsMessage message.name = first.isParamsMessage message.name := by
    rw [relaxes.only]
    rfl
  have kept : first.hasFieldDefault fullName camelName = true →
      second.hasFieldDefault fullName camelName = true := by
    simpa [Config.hasFieldDefault] using relaxes.more (fullName ++ "." ++ camelName)
  unfold policyOf
  rw [params]
  cases given : second.hasFieldDefault fullName camelName with
  | true => simp
  | false =>
    have absent : first.hasFieldDefault fullName camelName = false :=
      Bool.eq_false_iff.mpr fun held => by simp [kept held] at given
    simp [absent]

theorem planOf_relaxed (relaxes : first.Relaxes second) (name : String) :
    planOf corpus second name = (planOf corpus first name).map (MessagePlan.relaxed second) := by
  unfold planOf
  cases corpus.message name with
  | error error => rfl
  | ok message =>
    cases corpus.resolvedFields name with
    | error error => rfl
    | ok fields =>
      simp only [bind, Except.bind, pure, Except.pure, Except.map, MessagePlan.relaxed, List.map_map,
        policyOf_relaxed relaxes]
      rfl

theorem mapM_map {f : α → Except ε β} {g : β → γ} (items : List α) :
    items.mapM (fun item => (f item).map g) = (items.mapM f).map (List.map g) := by
  induction items with
  | nil => rfl
  | cons item rest ih =>
    rw [List.mapM_cons, List.mapM_cons, ih]
    cases f item with
    | error error => rfl
    | ok first => cases rest.mapM f <;> rfl

theorem wireSchema_relaxed (messages : Table MessagePlan) :
    wireSchema (Table.mapValues (MessagePlan.relaxed config) messages) = wireSchema messages := by
  have keys : Table.keys (Table.mapValues (MessagePlan.relaxed config) messages) = messages.keys := by
    simp [Table.keys, Table.mapValues]
  have fields : ∀ rules : List FieldRule, ∀ fullName : String,
      (rules.map (FieldRule.relaxed config fullName)).mapM
          (wireField (Table.mapValues (MessagePlan.relaxed config) messages))
        = rules.mapM (wireField messages) := by
    intro rules fullName
    rw [List.mapM_map]
    refine congrArg (fun f => List.mapM f rules) (funext fun rule => ?_)
    simp only [Function.comp_apply, wireField, keys]
    rfl
  unfold wireSchema
  have values : Table.values (Table.mapValues (MessagePlan.relaxed config) messages)
      = messages.values.map (MessagePlan.relaxed config) := by
    simp [Table.values, Table.mapValues]
  rw [values, List.mapM_map]
  simp only [Function.comp_def, MessagePlan.relaxed, fields]

-- The plans of the laxer configuration are those of the other with some fields let go.
theorem ofCorpus_relaxed (relaxes : first.Relaxes second) :
    ofCorpus corpus second = (ofCorpus corpus first).map (relaxed second) := by
  unfold ofCorpus
  cases corpus.fullClosure with
  | error error => rfl
  | ok closure =>
    have plans : closure.mapM (planOf corpus second)
        = (closure.mapM (planOf corpus first)).map (List.map (MessagePlan.relaxed second)) := by
      rw [funext (planOf_relaxed relaxes), mapM_map]
    simp only [bind, Except.bind, plans]
    cases closure.mapM (planOf corpus first) with
    | error error => rfl
    | ok made =>
      have messages : Table.ofList ((made.map (MessagePlan.relaxed second)).map fun plan =>
          (plan.fullName, plan))
          = Table.mapValues (MessagePlan.relaxed second)
            (Table.ofList (made.map fun plan => (plan.fullName, plan))) := by
        rw [Table.mapValues_ofList]
        simp [Table.mapValues, Function.comp_def, MessagePlan.relaxed]
      simp only [Except.map, messages, wireSchema_relaxed]
      cases wireSchema (Table.ofList (made.map fun plan => (plan.fullName, plan))) <;> rfl

theorem get?_mapValues (f : α → β) (table : Table α) (key : String) :
    Table.get? (Table.mapValues f table) key = (table.get? key).map f := by
  induction table with
  | nil => rfl
  | cons pair rest ih =>
    obtain ⟨other, held⟩ := pair
    simp only [Table.mapValues, List.map_cons, Table.get?] at ih ⊢
    split
    · rfl
    · exact ih

theorem plan?_relaxed : (plans.relaxed config).plan? name = (plans.plan? name).map (MessagePlan.relaxed config) :=
  get?_mapValues _ _ _

-- The error that a field is missing which the input leaves out, of the message itself or of one that
-- its fields hold.
inductive Misses (plans : EncoderPlans) (may : String → FieldRule → Prop) :
    String → Json → FieldPath → CoercionError → Prop where
  | here {name : String} {plan : MessagePlan} {members : Table Json} {rule : FieldRule}
      {path : FieldPath} (planned : plans.plan? name = some plan) (member : rule ∈ plan.fields)
      (allowed : may name rule) (absent : lookUp members rule.camelName rule.name = none) :
      Misses plans may name (.object members) path
        (.missingField (path.field rule.camelName) rule.wanted)
  | field {name nested : String} {plan : MessagePlan} {members : Table Json} {rule : FieldRule}
      {path : FieldPath} {part : Json} {error : CoercionError}
      (planned : plans.plan? name = some plan) (member : rule ∈ plan.fields)
      (type : rule.type = .message nested) (singular : rule.repeated = false)
      (given : lookUp members rule.camelName rule.name = some part)
      (inner : Misses plans may nested part (path.field rule.camelName) error) :
      Misses plans may name (.object members) path error
  | element {name nested : String} {plan : MessagePlan} {members : Table Json} {rule : FieldRule}
      {path : FieldPath} {items : List Json} {position : Nat} {part : Json} {error : CoercionError}
      (planned : plans.plan? name = some plan) (member : rule ∈ plan.fields)
      (type : rule.type = .message nested) (several : rule.repeated = true)
      (given : lookUp members rule.camelName rule.name = some (.array items))
      (placed : items[position]? = some part)
      (inner : Misses plans may nested part ((path.field rule.camelName).index position) error) :
      Misses plans may name (.object members) path error

section Compared

variable {may : String → FieldRule → Prop} {path : FieldPath}

-- Whatever the two runs go through in step; a part that is given is read alike but for what is inside.
theorem mapPart_relaxed {type : TypeClass} {part : Json} {grants : CoercionError → Prop}
    (inner : ∀ nested, type = .message nested →
      Relaxed grants (plans.mapAt nested path part) ((plans.relaxed config).mapAt nested path part)) :
    Relaxed grants (plans.mapPart type path part) ((plans.relaxed config).mapPart type path part) := by
  cases type with
  | scalar kind => exact .same _
  | message nested => exact inner nested rfl

theorem mapField_relaxed {plan : MessagePlan} {rule : FieldRule} {members : List (String × Json)}
    (planned : plans.plan? name = some plan) (member : rule ∈ plan.fields)
    (allowed : rule.policy = .required → config.hasFieldDefault name rule.camelName = true → may name rule)
    (inner : ∀ nested part, sizeOf part < sizeOf members → ∀ path,
      Relaxed (plans.Misses may nested part path) (plans.mapAt nested path part)
        ((plans.relaxed config).mapAt nested path part)) :
    Relaxed (plans.Misses may name (.object members) path) (plans.mapField path members rule)
      ((plans.relaxed config).mapField path members (rule.relaxed config name)) := by
  rw [mapField_eq_coerceField, mapField_eq_coerceField]
  show Relaxed _ _ ((plans.relaxed config).coerceField (path.field rule.camelName) _
    (lookUp members rule.camelName rule.name))
  cases given : lookUp members rule.camelName rule.name with
  | none =>
    have freed : (rule.relaxed config name).policy
        = if config.hasFieldDefault name rule.camelName then Policy.default else rule.policy := rfl
    rw [coerceField_none, coerceField_none, freed]
    cases policy : rule.policy with
    | default =>
      rw [ite_self]
      exact .same _
    | required =>
      by_cases listed : config.hasFieldDefault name rule.camelName = true
      · exact .granted (.here planned member (allowed policy listed) given) _
      · simp only [listed]
        exact .same _
  | some part =>
    have smaller := sizeOf_lt_of_lookUp given
    have again : (rule.relaxed config name).repeated = rule.repeated := rfl
    cases several : rule.repeated with
    | false =>
      rw [coerceField_single several, coerceField_single (again.trans several)]
      refine mapPart_relaxed fun nested type => (inner nested part smaller _).imp fun error misses => ?_
      exact .field planned member type several given misses
    | true =>
      cases part with
      | array items =>
        rw [coerceField_array several, coerceField_array (again.trans several)]
        refine Relaxed.map _ (Relaxed.inTurn fun part inside => mapPart_relaxed fun nested type => ?_)
        have placed := (List.mem_zipIdx_iff_getElem?.mp inside)
        have lower := List.sizeOf_lt_of_mem (List.mem_of_getElem? placed)
        simp only [Json.array.sizeOf_spec] at smaller
        refine (inner nested part.1 (by omega) _).imp fun error misses => ?_
        exact .element planned member type several given placed misses
      | _ =>
        rw [coerceField_unlike several fun _ => Json.noConfusion,
          coerceField_unlike (again.trans several) fun _ => Json.noConfusion]
        exact .same _

theorem mapFields_relaxed {plan : MessagePlan} {members : List (String × Json)}
    {grants : CoercionError → Prop}
    (each : ∀ rule ∈ plan.fields, Relaxed grants (plans.mapField path members rule)
      ((plans.relaxed config).mapField path members (rule.relaxed config plan.fullName))) :
    Relaxed grants (plans.mapFields path members plan.fields)
      ((plans.relaxed config).mapFields path members (plan.relaxed config).fields) := by
  rw [mapFields_eq_inTurn members _ 0, mapFields_eq_inTurn members _ 0, MessagePlan.relaxed, inTurn_map]
  refine Relaxed.inTurn fun part inside => Relaxed.map _ (each part.1 ?_)
  exact List.mem_of_getElem? (List.mem_zipIdx_iff_getElem?.mp inside)

theorem mapAt_relaxed
    (named : ∀ name plan, plans.plan? name = some plan → plan.fullName = name)
    (allowed : ∀ name plan, plans.plan? name = some plan → ∀ rule ∈ plan.fields,
      rule.policy = .required → config.hasFieldDefault name rule.camelName = true → may name rule)
    (input : Json) (name : String) (path : FieldPath) :
    Relaxed (plans.Misses may name input path) (plans.mapAt name path input)
      ((plans.relaxed config).mapAt name path input) := by
  induction size : sizeOf input using Nat.strongRecOn generalizing input name path with
  | _ size ih =>
    subst size
    cases planned : plans.plan? name with
    | none =>
      rw [mapAt, mapAt, plan?_relaxed, planned]
      exact .same _
    | some plan =>
      have plannedToo : (plans.relaxed config).plan? name = some (plan.relaxed config) := by
        rw [plan?_relaxed, planned]
        rfl
      cases input with
      | object members =>
        rw [mapAt_object planned, mapAt_object plannedToo]
        refine Relaxed.map _ (mapFields_relaxed fun rule member => ?_)
        rw [named name plan planned]
        refine mapField_relaxed planned member (allowed name plan planned rule member) ?_
        intro nested part smaller path
        exact ih _ (by simp only [Json.object.sizeOf_spec]; omega) part nested path rfl
      | _ =>
        rw [mapAt, mapAt, planned, plannedToo]
        exact .same _

end Compared

theorem policy_of_plan (planned : ofCorpus corpus config = .ok plans) {plan : MessagePlan}
    (found : plans.plan? name = some plan) {rule : FieldRule} (member : rule ∈ plan.fields) :
    ∃ message, rule.policy = policyOf config message name rule.camelName := by
  obtain ⟨message, _, more⟩ := bind_ok (planOf_of_plan planned found).2
  obtain ⟨fields, _, last⟩ := bind_ok more
  cases last
  obtain ⟨field, _, rfl⟩ := List.mem_map.mp member
  exact ⟨message, rfl⟩

-- A field that had to be given before is freed by the second configuration alone.
theorem frees_of_required (planned : ofCorpus corpus first = .ok plans) {plan : MessagePlan}
    (found : plans.plan? name = some plan) {rule : FieldRule} (member : rule ∈ plan.fields)
    (required : rule.policy = .required) (listed : second.hasFieldDefault name rule.camelName = true) :
    first.Frees second name rule := by
  obtain ⟨message, policy⟩ := policy_of_plan planned found member
  refine ⟨by simpa [Config.hasFieldDefault] using listed, fun given => ?_⟩
  have default : policyOf first message name rule.camelName = .default := by
    simp [policyOf, Config.hasFieldDefault, given]
  rw [required, default] at policy
  cases policy

theorem mapAt_freed (planned : ofCorpus corpus first = .ok plans) (name : String) (path : FieldPath)
    (input : Json) :
    Relaxed (plans.Misses (first.Frees second) name input path) (plans.mapAt name path input)
      ((plans.relaxed second).mapAt name path input) := by
  refine mapAt_relaxed (fun name plan found => ?_) (fun name plan found rule member => ?_) input name path
  · exact (planOf_ok (planOf_of_plan planned found).2).1
  · exact frees_of_required planned found member

-- Field defaults only relax, and what they fill in is not on the wire: a laxer configuration gives the
-- same values and bytes, and where it gives some to an input that had none, a field was missing that it
-- frees.
theorem relaxed_agrees (relaxes : first.Relaxes second) (planned : ofCorpus corpus first = .ok plans) :
    ∃ others, ofCorpus corpus second = .ok others ∧
      ∀ name plan, plans.plan? name = some plan →
        (∀ label input,
          (∀ value, plans.map name label input = .ok value → others.map name label input = .ok value) ∧
          ∀ error value, plans.map name label input = .error error →
            others.map name label input = .ok value →
              plans.Misses (first.Frees second) name input (.root label) error) ∧
        (∀ input,
          (∀ bytes, plans.encode name input = .ok bytes → others.encode name input = .ok bytes) ∧
          ∀ error bytes, plans.encode name input = .error error → others.encode name input = .ok bytes →
            plans.Misses (first.Frees second) name input (.root FieldPath.defaultLabel) error) ∧
        ∀ input bytes, plans.encode name input = .ok bytes →
          ∃ index value, plans.schema.index? name = some index ∧
            plans.map name FieldPath.defaultLabel input = .ok value ∧
            plans.schema.encodeMessage index (.root FieldPath.defaultLabel)
              (plans.bare (.message name) false input value) = .ok bytes := by
  refine ⟨plans.relaxed second, by rw [ofCorpus_relaxed relaxes, planned]; rfl, ?_⟩
  intro name plan known
  have mapped : ∀ label input, Relaxed (plans.Misses (first.Frees second) name input (.root label))
      (plans.map name label input) ((plans.relaxed second).map name label input) :=
    fun label input => mapAt_freed planned name _ input
  have encoded : ∀ input, Relaxed (plans.Misses (first.Frees second) name input
      (.root FieldPath.defaultLabel)) (plans.encode name input)
      ((plans.relaxed second).encode name input) :=
    fun input => (mapped _ input).bind _
  refine ⟨fun label input => ⟨fun _ => (mapped label input).ok, fun _ _ => (mapped label input).error⟩,
    fun input => ⟨fun _ => (encoded input).ok, fun _ _ => (encoded input).error⟩, ?_⟩
  intro input bytes ran
  have laid := laidOut_of_ofCorpus planned
  obtain ⟨index, found⟩ := position_of_plan known
  rw [encode_eq_bind laid found] at ran
  obtain ⟨value, mapped, written⟩ := bind_ok ran
  exact ⟨index, value, laid.index?_of_position found, mapped,
    WireSchema.encodeMessage_thinned (thinned_bare input name _ value mapped) written⟩

def waitless : Config := { Config.standard with fieldDefaults := ["m.MsgPay.maxWait"] }

-- Without the wait, which only the second configuration lets be left out.
def routed : Json := .object [("route", .object [])]

def routedValue : Value := .object [("maxWait", .null), ("route", lastRoute)]

def barePay : Value :=
  .object [("maxWait", .duration 3 0), ("route", .object [("maxHops", .uint64 7), ("next", .object [])])]

theorem map_routed : payPlans.map "m.MsgPay" "value" routed
    = .error (.missingField ((FieldPath.root "value").field "maxWait") "duration") := by
  have route : payPlans.mapField (.root "value") [("route", .object [])]
      ⟨"route", "route", 1, .message "m.RouteParams", false, .required⟩ = .ok lastRoute :=
    map_emptyRoute _
  rw [map, routed, mapAt_object planned_pay]
  simp only [payPlan, mapFields_cons, mapFields_nil, route]
  rfl

theorem map_routed_waitless :
    (payPlans.relaxed waitless).map "m.MsgPay" "value" routed = .ok routedValue := by
  have planned : (payPlans.relaxed waitless).plan? "m.MsgPay" = some (payPlan.relaxed waitless) := rfl
  have route : (payPlans.relaxed waitless).mapField (.root "value") [("route", .object [])]
      (FieldRule.relaxed waitless "m.MsgPay"
        ⟨"route", "route", 1, .message "m.RouteParams", false, .required⟩) = .ok lastRoute :=
    (mapAt_freed ofCorpus_pay _ _ _).ok (map_emptyRoute _)
  rw [map, routed, mapAt_object planned]
  simp only [MessagePlan.relaxed, payPlan, List.map_cons, List.map_nil, mapFields_cons, mapFields_nil, route]
  rfl

theorem relaxed_agrees_waitless :
    Config.standard.Relaxes waitless ∧ ofCorpus payCorpus .standard = .ok payPlans ∧
    (∃ others, ofCorpus payCorpus waitless = .ok others ∧
      others.map "m.MsgPay" "value" (.object payMembers) = .ok payValue ∧
      others.map "m.MsgPay" "value" routed = .ok routedValue) ∧
    payPlans.Misses (Config.standard.Frees waitless) "m.MsgPay" routed (.root "value")
      (.missingField ((FieldPath.root "value").field "maxWait") "duration") ∧
    ∃ bytes, payPlans.encode "m.MsgPay" (.object payMembers) = .ok bytes ∧
      payPlans.schema.encodeMessage 0 (.root "value") barePay = .ok bytes := by
  have relaxes : Config.standard.Relaxes waitless := ⟨rfl, by simp [Config.standard]⟩
  have lax : ofCorpus payCorpus waitless = .ok (payPlans.relaxed waitless) := by
    rw [ofCorpus_relaxed relaxes, ofCorpus_pay]
    rfl
  obtain ⟨others, plannedToo, agree⟩ := relaxed_agrees relaxes ofCorpus_pay
  obtain rfl := Except.ok.inj (lax.symm.trans plannedToo)
  obtain ⟨maps, _, omits⟩ := agree _ _ planned_pay
  refine ⟨relaxes, ofCorpus_pay, ⟨_, lax, (maps _ _).1 _ map_pay, map_routed_waitless⟩,
    (maps _ _).2 _ _ map_routed map_routed_waitless, ?_⟩
  obtain ⟨bytes, ran⟩ : ∃ bytes, payPlans.encode "m.MsgPay" (.object payMembers) = .ok bytes := by
    have laid := laidOut_of_ofCorpus ofCorpus_pay
    have names := distinctNames_of_ofCorpus ofCorpus_pay distinct_pay
    obtain ⟨bytes, written⟩ := encode_typed laid names planned_pay
      (mapAt_typed names _ _ _ _ _ (Nat.lt_succ_self _) map_pay)
    exact ⟨bytes, (congrArg (· >>= payPlans.schema.encode "m.MsgPay") map_pay).trans written⟩
  obtain ⟨index, value, found, mapped, written⟩ := omits _ _ ran
  obtain rfl : 0 = index := Option.some.inj found
  obtain rfl := Except.ok.inj (mapped.symm.trans map_pay)
  exact ⟨bytes, ran, written⟩

end EncoderPlans

end SigningSchema
