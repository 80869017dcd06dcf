import Mathlib.Data.List.Nodup
import Mathlib.Logic.Relation
import SigningSchema.Proofs.Encoder.Soundness
import SigningSchema.Proofs.Encoder.Fields
import SigningSchema.Proofs.Spelling

-- What no field of an input sees: nulls, members that no field is named after, and which of its two
-- names a field is given by.

namespace SigningSchema

open Coercion

namespace Table

def without (table : Table α) (key : String) : Table α := table.filter fun pair => pair.1 ≠ key

theorem get?_without (table : Table α) (key other : String) :
    (table.without key).get? other = if key = other then none else table.get? other := by
  induction table with
  | nil => simp [without, get?]
  | cons pair rest ih =>
    obtain ⟨first, held⟩ := pair
    by_cases gone : first = key
    · subst gone
      by_cases same : first = other <;> simp_all [without, get?]
    · by_cases same : first = other <;> simp_all [without, get?]
      exact fun equal => absurd equal.symm gone

end Table

namespace Json

variable {members : Table Json} {key other : String} {value : Json}

theorem given?_insert : given? (members.insert key value) other
    = if key = other then (some value).filter fun value => !value.isNull else given? members other := by
  unfold given?
  rw [Table.get?_insert]
  split <;> rfl

theorem given?_without :
    given? (members.without key) other = if key = other then none else given? members other := by
  unfold given?
  rw [Table.get?_without]
  split <;> rfl

end Json

-- The members that may give a field its input.
def FieldRule.Reads (rule : FieldRule) (key : String) : Prop := key = rule.camelName ∨ key = rule.name

def MessagePlan.Reads (plan : MessagePlan) (key : String) : Prop := ∃ rule ∈ plan.fields, rule.Reads key

namespace Coercion

variable {rule : FieldRule} {members others : Table Json} {key : String} {value : Json}

theorem lookUp_congr
    (same : ∀ key, rule.Reads key → Json.given? members key = Json.given? others key) :
    lookUp members rule.camelName rule.name = lookUp others rule.camelName rule.name := by
  rw [lookUp, lookUp, same _ (.inl rfl), same _ (.inr rfl)]

theorem lookUp_insert_unread (unread : ¬ rule.Reads key) :
    lookUp (members.insert key value) rule.camelName rule.name
      = lookUp members rule.camelName rule.name := by
  refine lookUp_congr fun other reads => ?_
  rw [Json.given?_insert, if_neg]
  exact fun same => unread (same ▸ reads)

theorem lookUp_without_unread (unread : ¬ rule.Reads key) :
    lookUp (members.without key) rule.camelName rule.name
      = lookUp members rule.camelName rule.name := by
  refine lookUp_congr fun other reads => ?_
  rw [Json.given?_without, if_neg]
  exact fun same => unread (same ▸ reads)

theorem lookUp_without_null (null : members.get? key = some .null) (camel declared : String) :
    lookUp (members.without key) camel declared = lookUp members camel declared := by
  have absent : Json.given? members key = none := by simp [Json.given?, null, Json.isNull]
  have same : ∀ other, Json.given? (members.without key) other = Json.given? members other := by
    intro other
    rw [Json.given?_without]
    split
    · rename_i equal
      rw [← equal, absent]
    · rfl
  rw [lookUp, lookUp, same, same]

-- The declared name is moved to the written one, where that is free.
theorem lookUp_renamed {camel declared : String} (free : Json.given? members camel = none)
    (held : members.get? declared = some value) :
    lookUp ((members.without declared).insert camel value) camel declared
      = lookUp members camel declared := by
  have given : Json.given? members declared = (some value).filter fun value => !value.isNull := by
    rw [Json.given?, held]
  rw [lookUp, lookUp, free, given, Option.none_or, Json.given?_insert, if_pos rfl]
  by_cases same : camel = declared
  · simp [Json.given?_insert, same]
  · simp [Json.given?_insert, Json.given?_without, same]

-- A new value for a member that a field may read is seen by it, or there is another one before it.
theorem lookUp_replaced {input : Json} (reads : rule.Reads key)
    (held : Json.given? members key = some input) (present : value.isNull = false) :
    lookUp (members.insert key value) rule.camelName rule.name
        = lookUp members rule.camelName rule.name ∨
      lookUp members rule.camelName rule.name = some input ∧
        lookUp (members.insert key value) rule.camelName rule.name = some value := by
  by_cases written : key = rule.camelName
  · subst written
    simp [lookUp, held, Json.given?_insert, present]
  · obtain rfl := reads.resolve_left written
    cases camel : Json.given? members rule.camelName with
    | some other => simp [lookUp, camel, Json.given?_insert, written]
    | none => simp [lookUp, camel, held, Json.given?_insert, present, written]

end Coercion

theorem Corpus.camelName_of_resolvedFields {corpus : Corpus} {name : String}
    {fields : List ResolvedField} (resolved : corpus.resolvedFields name = .ok fields)
    {field : ResolvedField} (member : field ∈ fields) :
    field.camelName = Identifier.camelCase field.name := by
  unfold Corpus.resolvedFields at resolved
  split at resolved
  · cases resolved
  · obtain ⟨declared, _, made⟩ := exists_of_forall₂ (mapM_ok resolved).flip member
    unfold Corpus.resolveField at made
    split at made <;> cases made
    rfl

namespace EncoderPlans

variable {corpus : Corpus} {config : Config} {plans : EncoderPlans} {name : String}

-- One change to an input of a message, at the message itself or inside one of its fields.
inductive Respelled (plans : EncoderPlans) : String → Json → Json → Prop where
  | dropNull {name : String} {plan : MessagePlan} {members : Table Json} {key : String}
      (planned : plans.plan? name = some plan) (null : members.get? key = some .null) :
      Respelled plans name (.object members) (.object (members.without key))
  | drop {name : String} {plan : MessagePlan} {members : Table Json} {key : String}
      (planned : plans.plan? name = some plan) (unread : ¬ plan.Reads key) :
      Respelled plans name (.object members) (.object (members.without key))
  | add {name : String} {plan : MessagePlan} {members : Table Json} {key : String}
      (planned : plans.plan? name = some plan) (unread : ¬ plan.Reads key) (value : Json) :
      Respelled plans name (.object members) (.object (members.insert key value))
  | rename {name : String} {plan : MessagePlan} {members : Table Json} {rule : FieldRule} {value : Json}
      (planned : plans.plan? name = some plan) (member : rule ∈ plan.fields)
      (free : Json.given? members rule.camelName = none) (held : members.get? rule.name = some value) :
      Respelled plans name (.object members)
        (.object ((members.without rule.name).insert rule.camelName value))
  | single {name nested : String} {plan : MessagePlan} {members : Table Json} {rule : FieldRule}
      {key : String} {input other : Json}
      (planned : plans.plan? name = some plan) (member : rule ∈ plan.fields)
      (type : rule.type = .message nested) (singular : rule.repeated = false) (reads : rule.Reads key)
      (held : members.get? key = some input) (inner : Respelled plans nested input other) :
      Respelled plans name (.object members) (.object (members.insert key other))
  | element {name nested : String} {plan : MessagePlan} {members : Table Json} {rule : FieldRule}
      {key : String} {before after : List Json} {input other : Json}
      (planned : plans.plan? name = some plan) (member : rule ∈ plan.fields)
      (type : rule.type = .message nested) (several : rule.repeated = true) (reads : rule.Reads key)
      (held : members.get? key = some (.array (before ++ input :: after)))
      (inner : Respelled plans nested input other) :
      Respelled plans name (.object members)
        (.object (members.insert key (.array (before ++ other :: after))))

-- Every member is read by one field at most.
def ReadsApart (plan : MessagePlan) : Prop :=
  ∀ one ∈ plan.fields, ∀ two ∈ plan.fields, ∀ key, one.Reads key → two.Reads key → one = two

theorem Respelled.present {input other : Json} (respelled : plans.Respelled name input other) :
    input.isNull = false ∧ other.isNull = false := by
  cases respelled <;> exact ⟨rfl, rfl⟩

theorem mapAt_members {plan : MessagePlan} {members others : Table Json} {path : FieldPath}
    (planned : plans.plan? name = some plan)
    (each : ∀ rule ∈ plan.fields, ∀ path,
      plans.coerceField path rule (lookUp members rule.camelName rule.name)
        = plans.coerceField path rule (lookUp others rule.camelName rule.name)) :
    plans.mapAt name path (.object members) = plans.mapAt name path (.object others) := by
  rw [mapAt_object planned, mapAt_object planned]
  refine congrArg (Except.map _) (mapFields_congr fun rule member => ?_)
  rw [mapField_eq_coerceField, mapField_eq_coerceField, each rule member]

-- A member that one field reads gets a new value, which makes no difference to that field.
theorem mapAt_replaced {plan : MessagePlan} {members : Table Json} {rule : FieldRule} {key : String}
    {input other : Json} {path : FieldPath} (planned : plans.plan? name = some plan)
    (apart : ReadsApart plan) (member : rule ∈ plan.fields) (reads : rule.Reads key)
    (held : members.get? key = some input) (present : input.isNull = false ∧ other.isNull = false)
    (same : ∀ path, plans.coerceField path rule (some input) = plans.coerceField path rule (some other)) :
    plans.mapAt name path (.object members)
      = plans.mapAt name path (.object (Table.insert members key other)) := by
  have given : Json.given? members key = some input := by simp [Json.given?, held, present.1]
  refine mapAt_members planned fun another inside path => ?_
  by_cases reader : another.Reads key
  · obtain rfl := apart rule member another inside key reads reader
    rcases lookUp_replaced reads given present.2 with unseen | ⟨before, after⟩
    · rw [unseen]
    · rw [before, after, same]
  · rw [lookUp_insert_unread reader]

theorem Respelled.mapAt (apart : ∀ name plan, plans.plan? name = some plan → ReadsApart plan)
    {input other : Json} (respelled : plans.Respelled name input other) (path : FieldPath) :
    plans.mapAt name path input = plans.mapAt name path other := by
  induction respelled generalizing path with
  | dropNull planned null =>
    refine mapAt_members planned fun rule _ path => ?_
    rw [lookUp_without_null null]
  | drop planned unread =>
    refine mapAt_members planned fun rule member path => ?_
    rw [lookUp_without_unread fun reads => unread ⟨rule, member, reads⟩]
  | add planned unread value =>
    refine mapAt_members planned fun rule member path => ?_
    rw [lookUp_insert_unread fun reads => unread ⟨rule, member, reads⟩]
  | @rename name plan members rule value planned member free held =>
    refine mapAt_members planned fun another inside path => ?_
    by_cases same : another = rule
    · rw [same, lookUp_renamed free held]
    · -- Neither of the two names is one of another field.
      have written : ¬ another.Reads rule.camelName := fun reads =>
        same (apart name plan planned another inside rule member _ reads (.inl rfl))
      have declared : ¬ another.Reads rule.name := fun reads =>
        same (apart name plan planned another inside rule member _ reads (.inr rfl))
      rw [lookUp_insert_unread written, lookUp_without_unread declared]
  | @single name nested plan members rule key input other planned member type singular reads held inner ih =>
    refine mapAt_replaced planned (apart name plan planned) member reads held inner.present fun path => ?_
    rw [coerceField_single singular, coerceField_single singular, type]
    exact ih path
  | @element name nested plan members rule key before after input other planned member type several reads
      held inner ih =>
    refine mapAt_replaced planned (apart name plan planned) member reads held ⟨rfl, rfl⟩ fun path => ?_
    rw [coerceField_array several, coerceField_array several, type]
    exact congrArg (Except.map _) (inTurn_replaced before after (fun position => ih _) 0)

theorem camelName_of_plan (planned : ofCorpus corpus config = .ok plans) {plan : MessagePlan}
    (found : plans.plan? name = some plan) {rule : FieldRule} (member : rule ∈ plan.fields) :
    rule.camelName = Identifier.camelCase rule.name := by
  obtain ⟨message, _, more⟩ := bind_ok (planOf_of_plan planned found).2
  obtain ⟨fields, resolved, last⟩ := bind_ok more
  cases last
  obtain ⟨field, inside, rfl⟩ := List.mem_map.mp member
  exact Corpus.camelName_of_resolvedFields resolved inside

-- A member is named after the field whose written name is its own in camelCase.
theorem camelCase_of_reads {rule : FieldRule} {key : String} (reads : rule.Reads key)
    (written : rule.camelName = Identifier.camelCase rule.name) :
    Identifier.camelCase key = rule.camelName := by
  rcases reads with rfl | rfl
  · rw [written, Identifier.camelCase_camelCase]
  · exact written.symm

theorem readsApart_of_ofCorpus (planned : ofCorpus corpus config = .ok plans)
    (distinct : plans.DistinctNames) {plan : MessagePlan} (found : plans.plan? name = some plan) :
    ReadsApart plan := by
  intro one inside two insideToo key reads readsToo
  have same := (camelCase_of_reads reads (camelName_of_plan planned found inside)).symm.trans
    (camelCase_of_reads readsToo (camelName_of_plan planned found insideToo))
  exact List.inj_on_of_nodup_map (distinct name plan found) inside insideToo same

-- However an input is respelled, inside whatever messages and however often, it is mapped to the same
-- value, or fails with the same error.
theorem map_respelled (planned : ofCorpus corpus config = .ok plans)
    (distinct : ∀ message fields, corpus.Reachable message →
      corpus.resolvedFields message = .ok fields → (fields.map ResolvedField.camelName).Nodup) :
    (∀ name input other, Relation.ReflTransGen (plans.Respelled name) input other →
      ∀ label, plans.map name label input = plans.map name label other) ∧
    ∀ name plan, plans.plan? name = some plan → ReadsApart plan := by
  have names := distinctNames_of_ofCorpus planned distinct
  have apart : ∀ name plan, plans.plan? name = some plan → ReadsApart plan :=
    fun name plan found => readsApart_of_ofCorpus planned names found
  refine ⟨fun name input other path label => ?_, apart⟩
  induction path with
  | refl => rfl
  | tail _ last ih => exact ih.trans (last.mapAt apart _)

-- The wait is given by its declared name, the route has a null, and there is a note that no field asks
-- for.
def waitInput : Json := .object [("nanos", .number (.integer 0)), ("seconds", .number (.integer 3))]

def nulledRoute : Table Json := routeMembers ++ [("tolls", .null)]

def scrawledMembers : Table Json :=
  [("max_wait", waitInput), ("note", .string "soon"), ("route", .object nulledRoute)]

def waitRule : FieldRule := ⟨"max_wait", "maxWait", 2, .scalar .duration, false, .required⟩

def routeRule : FieldRule := ⟨"route", "route", 1, .message "m.RouteParams", false, .required⟩

theorem respelled_scrawled :
    Relation.ReflTransGen (payPlans.Respelled "m.MsgPay") (.object scrawledMembers) (.object payMembers) := by
  have unread : ¬ payPlan.Reads "note" := by simp [MessagePlan.Reads, FieldRule.Reads, payPlan]
  have wait : waitRule ∈ payPlan.fields := by simp [waitRule, payPlan]
  have route : routeRule ∈ payPlan.fields := by simp [routeRule, payPlan]
  have noted : payPlans.Respelled "m.MsgPay" (.object scrawledMembers)
      (.object (scrawledMembers.without "note")) := .drop planned_pay unread
  have waited : payPlans.Respelled "m.MsgPay" (.object (scrawledMembers.without "note"))
      (.object [("maxWait", waitInput), ("route", .object nulledRoute)]) :=
    .rename planned_pay wait rfl rfl
  have inner : payPlans.Respelled "m.RouteParams" (.object nulledRoute)
      (.object (nulledRoute.without "tolls")) := .dropNull planned_route rfl
  have routed : payPlans.Respelled "m.MsgPay"
      (.object [("maxWait", waitInput), ("route", .object nulledRoute)]) (.object payMembers) :=
    .single planned_pay route rfl rfl (.inl rfl) rfl inner
  exact ((Relation.ReflTransGen.single noted).tail waited).tail routed

theorem map_respelled_scrawled :
    ofCorpus payCorpus .standard = .ok payPlans ∧
    (∀ message fields, payCorpus.Reachable message → payCorpus.resolvedFields message = .ok fields →
      (fields.map ResolvedField.camelName).Nodup) ∧
    payPlans.map "m.MsgPay" "value" (.object scrawledMembers) = .ok payValue := by
  obtain ⟨same, _⟩ := map_respelled ofCorpus_pay distinct_pay
  exact ⟨ofCorpus_pay, distinct_pay, (same _ _ _ respelled_scrawled "value").trans map_pay⟩

end EncoderPlans

end SigningSchema
