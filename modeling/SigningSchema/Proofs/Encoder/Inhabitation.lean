import Mathlib.Data.Set.Finite.List
import Mathlib.Order.WellFounded
import SigningSchema.Proofs.Encoder.Planning
import SigningSchema.Proofs.Encoder.Respelling
import SigningSchema.Proofs.Registry.Derivation

-- The messages that some input stands for at all: those that do not have to hold themselves, however
-- far down.

namespace SigningSchema

section Relations

variable {related : α → α → Prop} {start : α}

theorem acyclic_of_acc (acc : Acc (Function.swap related) start) :
    ¬ ∃ other, Relation.ReflTransGen related start other ∧ Relation.TransGen related other other := by
  induction acc with
  | intro start _ ih =>
    rintro ⟨other, path, loop⟩
    rcases path.cases_head with rfl | ⟨next, first, rest⟩
    · obtain ⟨next, first, back⟩ := Relation.TransGen.head'_iff.mp loop
      exact ih next first ⟨start, back, loop⟩
    · exact ih next first ⟨other, rest, loop⟩

-- What is reached without ever coming round is well-founded where it is finite.
theorem acc_of_acyclic (finite : {other | Relation.ReflTransGen related start other}.Finite)
    (acyclic : ∀ other, Relation.ReflTransGen related start other → ¬ Relation.TransGen related other other) :
    Acc (Function.swap related) start := by
  let Reached := {other // Relation.ReflTransGen related start other}
  let After : Reached → Reached → Prop := fun one two => Relation.TransGen related two.1 one.1
  have : Finite Reached := finite.to_subtype
  have : IsTrans Reached After := ⟨fun _ _ _ one two => two.trans one⟩
  have : Std.Irrefl After := ⟨fun other => acyclic other.1 other.2⟩
  have founded : WellFounded After := Finite.wellFounded_of_trans_of_irrefl After
  have all : ∀ other : Reached, Acc (Function.swap related) other.1 := by
    intro other
    induction other using founded.induction with
    | _ other ih =>
      exact Acc.intro other.1 fun next first => ih ⟨next, other.2.tail first⟩ (.single first)
  exact all ⟨start, .refl⟩

end Relations

namespace Json

-- As inputs are read: the members of every object ascend.
inductive Sorted : Json → Prop where
  | flat {json : Json} (items : ∀ items, json ≠ .array items)
      (members : ∀ members, json ≠ .object members) : Sorted json
  | array {items : List Json} (inside : ∀ item ∈ items, Sorted item) : Sorted (.array items)
  | object {members : List (String × Json)} (ascending : Table.Ascending members)
      (inside : ∀ name value, (name, value) ∈ members → Sorted value) : Sorted (.object members)

end Json

namespace EncoderPlans

open Coercion

variable {corpus : Corpus} {config : Config} {plans : EncoderPlans} {name : String}

-- A message that another one has to hold, by a field of its own that may neither be left out nor be
-- empty.
def Requires (plans : EncoderPlans) (name nested : String) : Prop :=
  ∃ plan, plans.plan? name = some plan ∧ ∃ rule ∈ plan.fields,
    rule.type = .message nested ∧ rule.repeated = false ∧ rule.policy = .required

-- It leads to a message that has to hold itself, through others or directly.
def Circular (plans : EncoderPlans) (name : String) : Prop :=
  ∃ nested, Relation.ReflTransGen plans.Requires name nested ∧ Relation.TransGen plans.Requires nested nested

theorem given_of_required {rule : FieldRule} {path : FieldPath} {given : Option Json} {value : Value}
    (required : rule.policy = .required) (coerced : plans.coerceField path rule given = .ok value) :
    ∃ part, given = some part := by
  cases given with
  | some part => exact ⟨part, rfl⟩
  | none =>
    rw [coerceField_none, required] at coerced
    cases coerced

-- By induction on the input: what a message has to hold is made of a part of it.
theorem acc_of_mapAt (input : Json) (name : String) (path : FieldPath) (value : Value)
    (mapped : plans.mapAt name path input = .ok value) : Acc (Function.swap plans.Requires) name := by
  induction size : sizeOf input using Nat.strongRecOn generalizing input name path value with
  | _ size ih =>
    subst size
    refine Acc.intro name fun nested required => ?_
    obtain ⟨plan, planned, rule, member, type, singular, policy⟩ := required
    obtain ⟨again, members, pairs, held, rfl, ran, rfl⟩ := mapAt_ok mapped
    obtain rfl := Option.some.inj (planned.symm.trans held)
    obtain ⟨pair, _, _, made⟩ := exists_of_forall₂ (mapFields_ok ran) member
    rw [mapField_eq_coerceField] at made
    obtain ⟨part, given⟩ := given_of_required policy made
    have smaller := sizeOf_lt_of_lookUp given
    rw [given, coerceField_single singular, type] at made
    exact ih _ (by simp only [Json.object.sizeOf_spec]; omega) part nested _ _ made rfl

-- An input that is read as a value of a type wherever it stands.
structure Sample (plans : EncoderPlans) (type : TypeClass) (input : Json) : Prop where
  sorted : input.Sorted
  present : input.isNull = false
  mapped : ∀ path, ∃ value, plans.mapPart type path input = .ok value

def sampleOf : ScalarKind → Json
  | .string | .bytes => .string ""
  | .bool => .bool false
  | .duration | .timestamp =>
    .object [("nanos", .number (.integer 0)), ("seconds", .number (.integer 0))]
  | _ => .number (.integer 0)

theorem sample_scalar (kind : ScalarKind) : plans.Sample (.scalar kind) (sampleOf kind) := by
  have zero : Json.Sorted (.number (.integer 0)) :=
    .flat (fun _ => Json.noConfusion) fun _ => Json.noConfusion
  have moment : Json.Sorted (sampleOf .duration) := by
    refine .object (List.pairwise_pair.mpr (by decide)) fun name value member => ?_
    have held : value = .number (.integer 0) := by
      rcases List.mem_cons.mp member with same | later
      · cases same; rfl
      · cases List.mem_singleton.mp later; rfl
    exact held ▸ zero
  refine ⟨?_, ?_, fun path => ?_⟩
  · cases kind
    case duration => exact moment
    case timestamp => exact moment
    all_goals exact .flat (fun _ => Json.noConfusion) fun _ => Json.noConfusion
  · cases kind <;> rfl
  · cases kind <;> exact ⟨_, rfl⟩

-- What a field may be given: nothing where it can be left out, and else a sample.
theorem exists_given {rule : FieldRule}
    (nested : ∀ nested, rule.type = .message nested → rule.repeated = false → rule.policy = .required →
      ∃ input, plans.Sample (.message nested) input) :
    ∃ given : Option Json, (∀ part, given = some part → part.Sorted ∧ part.isNull = false) ∧
      ∀ path, ∃ value, plans.coerceField path rule given = .ok value := by
  cases policy : rule.policy with
  | default =>
    refine ⟨none, fun _ => nofun, fun path => ?_⟩
    rw [coerceField_none, policy]
    exact ⟨_, rfl⟩
  | required =>
    cases several : rule.repeated with
    | true =>
      refine ⟨some (.array []), fun part given => ?_, fun path => ?_⟩
      · cases given
        exact ⟨.array fun _ => nofun, rfl⟩
      · rw [coerceField_array several]
        exact ⟨_, rfl⟩
    | false =>
      obtain ⟨input, sample⟩ : ∃ input, plans.Sample rule.type input := by
        cases type : rule.type with
        | scalar kind => exact ⟨_, sample_scalar kind⟩
        | message inner => exact nested inner type several policy
      refine ⟨some input, fun part given => ?_, fun path => ?_⟩
      · cases given
        exact ⟨sample.sorted, sample.present⟩
      · rw [coerceField_single several]
        exact sample.mapped path

-- The input that gives each field what is chosen for it.
def membersOf (plan : MessagePlan) (given : FieldRule → Option Json) : Table Json :=
  Table.ofList (plan.fields.map fun rule => (rule.camelName, (given rule).getD .null))

section Members

variable {plan : MessagePlan} {given : FieldRule → Option Json}

theorem given?_membersOf (distinct : (plan.fields.map FieldRule.camelName).Nodup)
    (present : ∀ rule ∈ plan.fields, ∀ part, given rule = some part → part.isNull = false)
    {rule : FieldRule} (member : rule ∈ plan.fields) :
    Json.given? (membersOf plan given) rule.camelName = given rule := by
  have held : (membersOf plan given).get? rule.camelName = some ((given rule).getD .null) := by
    refine Table.get?_ofList ?_ (List.mem_map.mpr ⟨rule, member, rfl⟩)
    simpa [Function.comp_def] using distinct
  rw [Json.given?, held]
  cases chosen : given rule with
  | none => rfl
  | some part => simp [present rule member part chosen]

-- A field is found under its written name, and no other field's value under its declared one.
theorem lookUp_membersOf (distinct : (plan.fields.map FieldRule.camelName).Nodup) (apart : ReadsApart plan)
    (present : ∀ rule ∈ plan.fields, ∀ part, given rule = some part → part.isNull = false)
    {rule : FieldRule} (member : rule ∈ plan.fields) :
    lookUp (membersOf plan given) rule.camelName rule.name = given rule := by
  rw [lookUp, given?_membersOf distinct present member]
  cases chosen : given rule with
  | some part => rfl
  | none =>
    by_contra other
    obtain ⟨part, found⟩ := Option.ne_none_iff_exists'.mp other
    have inside := Table.mem_of_get?_ofList (Option.filter_eq_some_iff.mp found).1
    obtain ⟨another, memberToo, same⟩ := List.mem_map.mp inside
    have named : another.camelName = rule.name := congrArg Prod.fst same
    obtain rfl := apart another memberToo rule member rule.name (.inl named.symm) (.inr rfl)
    rw [Option.none_or, ← named, given?_membersOf distinct present member, chosen] at found
    cases found

end Members

theorem sample_message (distinct : plans.DistinctNames)
    (apart : ∀ name plan, plans.plan? name = some plan → ReadsApart plan)
    {plan : MessagePlan} (planned : plans.plan? name = some plan)
    (nested : ∀ rule ∈ plan.fields, ∀ nested, rule.type = .message nested → rule.repeated = false →
      rule.policy = .required → ∃ input, plans.Sample (.message nested) input) :
    ∃ input, plans.Sample (.message name) input := by
  have each : ∀ rule ∈ plan.fields, ∃ given : Option Json,
      (∀ part, given = some part → part.Sorted ∧ part.isNull = false) ∧
        ∀ path, ∃ value, plans.coerceField path rule given = .ok value :=
    fun rule member => exists_given (nested rule member)
  choose! given proper coerced using each
  have present : ∀ rule ∈ plan.fields, ∀ part, given rule = some part → part.isNull = false :=
    fun rule member part chosen => (proper rule member part chosen).2
  refine ⟨.object (membersOf plan given), .object (Table.ascending_ofList _) ?_, rfl, fun path => ?_⟩
  · intro key value member
    have held := Table.get?_of_mem (Table.ascending_ofList _) member
    obtain ⟨rule, inside, same⟩ := List.mem_map.mp (Table.mem_of_get?_ofList held)
    cases same
    cases chosen : given rule with
    | none => exact .flat (fun _ => Json.noConfusion) fun _ => Json.noConfusion
    | some part => exact (proper rule inside part chosen).1
  · have read : ∀ rule ∈ plan.fields,
        ∃ value, plans.mapField path (membersOf plan given) rule = .ok value := by
      intro rule member
      rw [mapField_eq_coerceField, lookUp_membersOf (distinct name plan planned)
        (apart name plan planned) present member]
      exact coerced rule member _
    obtain ⟨pairs, ran⟩ := mapFields_of_each read
    refine ⟨.object (Table.ofList pairs), ?_⟩
    show plans.mapAt name path _ = _
    rw [mapAt_object planned, ran]
    rfl

-- By induction on what a message requires.
theorem sample_of_acc (distinct : plans.DistinctNames)
    (apart : ∀ name plan, plans.plan? name = some plan → ReadsApart plan) (closed : Closed plans.messages)
    (acc : Acc (Function.swap plans.Requires) name) {plan : MessagePlan}
    (planned : plans.plan? name = some plan) : ∃ input, plans.Sample (.message name) input := by
  induction acc generalizing plan with
  | intro name _ ih =>
    refine sample_message distinct apart planned fun rule member nested type singular required => ?_
    obtain ⟨inner, plannedToo⟩ := Table.mem_keys_iff.mp (closed name plan planned rule member nested type)
    exact ih nested ⟨plan, planned, rule, member, type, singular, required⟩ plannedToo

theorem requires_finite (closed : Closed plans.messages) {plan : MessagePlan}
    (planned : plans.plan? name = some plan) :
    {other | Relation.ReflTransGen plans.Requires name other}.Finite := by
  refine (List.finite_toSet plans.messages.keys).subset fun other path => ?_
  rcases path.cases_tail with rfl | ⟨_, _, inner, found, rule, member, type, _⟩
  · exact Table.mem_keys_iff.mpr ⟨plan, planned⟩
  · exact closed _ inner found rule member _ type

-- A message has an input if and only if nothing that it requires, itself included, requires itself.
-- The input that there is then can be read, and is encoded.
theorem exists_input_iff (planned : ofCorpus corpus config = .ok plans)
    (distinct : ∀ message fields, corpus.Reachable message →
      corpus.resolvedFields message = .ok fields → (fields.map ResolvedField.camelName).Nodup)
    {plan : MessagePlan} (known : plans.plan? name = some plan) :
    (∀ label, (∃ input value, plans.map name label input = .ok value) ↔ ¬ plans.Circular name) ∧
    ((∃ input bytes, plans.encode name input = .ok bytes) ↔ ¬ plans.Circular name) ∧
    (¬ plans.Circular name → ∃ input, input.Sorted ∧
      (∀ label, ∃ value, plans.map name label input = .ok value) ∧
      ∃ bytes, plans.encode name input = .ok bytes) := by
  have closed := closed_of_ofCorpus planned
  have names := distinctNames_of_ofCorpus planned distinct
  have straight : ∀ label input value, plans.map name label input = .ok value → ¬ plans.Circular name :=
    fun label input value mapped => acyclic_of_acc (acc_of_mapAt input name _ value mapped)
  have sample : ¬ plans.Circular name → ∃ input, input.Sorted ∧
      (∀ label, ∃ value, plans.map name label input = .ok value) ∧
      ∃ bytes, plans.encode name input = .ok bytes := by
    intro acyclic
    have acc := acc_of_acyclic (requires_finite closed known)
      fun nested path loop => acyclic ⟨nested, path, loop⟩
    obtain ⟨input, sample⟩ := sample_of_acc names
      (fun name plan found => readsApart_of_ofCorpus planned names found) closed acc known
    have mapped : ∀ label, ∃ value, plans.map name label input = .ok value :=
      fun label => sample.mapped (.root label)
    obtain ⟨value, ran⟩ := mapped FieldPath.defaultLabel
    have typed := mapAt_typed names _ name _ input value (Nat.lt_succ_self _) ran
    obtain ⟨bytes, written⟩ := encode_typed (laidOut_of_ofCorpus planned) names known typed
    exact ⟨input, sample.sorted, mapped, bytes,
      (congrArg (· >>= plans.schema.encode name) ran).trans written⟩
  refine ⟨fun label => ⟨?_, fun acyclic => ?_⟩, ⟨?_, fun acyclic => ?_⟩, sample⟩
  · rintro ⟨input, value, mapped⟩
    exact straight label input value mapped
  · obtain ⟨input, _, mapped, _⟩ := sample acyclic
    exact ⟨input, mapped label⟩
  · rintro ⟨input, bytes, ran⟩
    obtain ⟨value, mapped, _⟩ := bind_ok ran
    exact straight _ input value mapped
  · obtain ⟨input, _, _, written⟩ := sample acyclic
    exact ⟨input, written⟩

-- An order holds a node and a node its order, neither of which may be left out.
def orderPlan : MessagePlan := ⟨"market.MsgOrder", [
    ⟨"root", "root", 1, .message "market.Node", false, .required⟩,
    ⟨"max_wait", "maxWait", 2, .scalar .duration, false, .required⟩]⟩

def nodePlan : MessagePlan := ⟨"market.Node", [
    ⟨"next", "next", 1, .message "market.Node", true, .required⟩,
    ⟨"order", "order", 2, .message "market.MsgOrder", false, .required⟩,
    ⟨"label", "label", 3, .scalar .string, false, .required⟩]⟩

def orderPlans : EncoderPlans where
  messages := [("market.MsgOrder", orderPlan), ("market.Node", nodePlan)]
  requests := ["market.MsgOrder"]
  schema := ⟨[
    ⟨"market.MsgOrder", [⟨"root", 1, .message 1, false⟩, ⟨"maxWait", 2, .scalar .duration, false⟩]⟩,
    ⟨"market.Node", [⟨"next", 1, .message 1, true⟩, ⟨"order", 2, .message 0, false⟩,
      ⟨"label", 3, .scalar .string, false⟩]⟩]⟩

theorem fullClosure_order :
    Registry.cyclicCorpus.fullClosure = .ok ["market.MsgOrder", "market.Node"] := by
  have closed : Registry.cyclicCorpus.closure "market.MsgOrder" = .ok ["market.MsgOrder", "market.Node"] := by
    rw [Corpus.closure, Corpus.closureFrom_new rfl rfl]
    show Registry.cyclicCorpus.closureFrom ["market.MsgOrder"] ["market.Node"] = _
    rw [Corpus.closureFrom_new rfl rfl]
    show Registry.cyclicCorpus.closureFrom ["market.MsgOrder", "market.Node"] [] = _
    rw [Corpus.closureFrom]
  show ((Registry.cyclicCorpus.closure "market.MsgOrder").map _ >>= _) = _
  rw [closed]
  rfl

theorem ofCorpus_order : ofCorpus Registry.cyclicCorpus .standard = .ok orderPlans := by
  rw [ofCorpus, fullClosure_order]
  rfl

theorem distinct_order (message : String) (fields : List ResolvedField)
    (reached : Registry.cyclicCorpus.Reachable message)
    (resolved : Registry.cyclicCorpus.resolvedFields message = .ok fields) :
    (fields.map ResolvedField.camelName).Nodup := by
  have inside := (Corpus.mem_fullClosure fullClosure_order).mpr reached
  simp only [List.mem_cons, List.not_mem_nil, or_false] at inside
  rcases inside with rfl | rfl
  · cases Registry.resolvedFields_order.symm.trans resolved
    decide
  · cases Registry.resolvedFields_node.symm.trans resolved
    decide

theorem circular_order : orderPlans.Circular "market.MsgOrder" := by
  have node : orderPlans.Requires "market.MsgOrder" "market.Node" :=
    ⟨orderPlan, rfl, _, List.mem_cons_self, rfl, rfl, rfl⟩
  have order : orderPlans.Requires "market.Node" "market.MsgOrder" :=
    ⟨nodePlan, rfl, _, List.mem_cons_of_mem _ List.mem_cons_self, rfl, rfl, rfl⟩
  exact ⟨"market.MsgOrder", .refl, (Relation.TransGen.single node).tail order⟩

-- A route may end where it will, so a payment has an input; an order has none.
theorem exists_input_iff_order :
    ofCorpus payCorpus .standard = .ok payPlans ∧
    ofCorpus Registry.cyclicCorpus .standard = .ok orderPlans ∧
    (∀ message fields, payCorpus.Reachable message → payCorpus.resolvedFields message = .ok fields →
      (fields.map ResolvedField.camelName).Nodup) ∧
    (∀ message fields, Registry.cyclicCorpus.Reachable message →
      Registry.cyclicCorpus.resolvedFields message = .ok fields →
      (fields.map ResolvedField.camelName).Nodup) ∧
    ¬ payPlans.Circular "m.MsgPay" ∧
    ∀ input bytes, orderPlans.encode "market.MsgOrder" input ≠ .ok bytes := by
  obtain ⟨paid, _, _⟩ := exists_input_iff ofCorpus_pay distinct_pay planned_pay
  have known : orderPlans.plan? "market.MsgOrder" = some orderPlan := rfl
  obtain ⟨_, ordered, _⟩ := exists_input_iff ofCorpus_order distinct_order known
  refine ⟨ofCorpus_pay, ofCorpus_order, distinct_pay, distinct_order,
    (paid "value").mp ⟨_, _, map_pay⟩, fun input bytes ran => ?_⟩
  exact ordered.mp ⟨input, bytes, ran⟩ circular_order

end EncoderPlans

end SigningSchema
