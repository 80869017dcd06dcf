import SigningSchema.Encoder.Rendered
import SigningSchema.Proofs.Corpus.Listing
import SigningSchema.Proofs.Generation.Stages
import SigningSchema.Proofs.Text

-- The encoder module as a list of functions that call each other by name. Whatever is called has been
-- rendered for the message that is meant, but the names come from full names by a spelling that does not
-- keep all of them apart, and nothing checks that it does.

namespace SigningSchema

open Text (Within)

namespace EncoderPlans

variable {corpus : Corpus} {config : Config} {plans : EncoderPlans}

def tableLines (plans : EncoderPlans) : String :=
  "/// Type URL -> composed encoder.\n"
    ++ "pub fn encoders() -> BTreeMap<&'static str, Encoder> \x7b\n"
    ++ "    let mut table: BTreeMap<&'static str, Encoder> = BTreeMap::new();\n"
    ++ Text.concat (plans.requests.map tableLine) ++ "    table\n\x7d\n\n"

def dispatchLines (plans : EncoderPlans) : String :=
  "pub fn encode(type_url: &str, input: &Json) -> Result<Vec<u8>, CoerceError> \x7b\n"
    ++ "    match type_url \x7b\n" ++ Text.concat (plans.requests.map dispatchArm)
    ++ "        other => Err(CoerceError::UnknownTypeUrl(other.to_string())),\n"
    ++ "    \x7d\n\x7d\n"

-- The functions of the module, each as what it is for.
inductive Routine where
  | schema
  | mapping (message : String)
  | encoding (request : String)
  | table
  | dispatch
  deriving DecidableEq

namespace Routine

def name : Routine → String
  | schema => "schema"
  | mapping message => mapFunction message
  | encoding request => encodeFunction request
  | table => "encoders"
  | dispatch => "encode"

-- What stands behind the name where a function is defined.
def parameters : Routine → String
  | schema => "() -> &'static Schema \x7b\n"
  | mapping _ => "(input: &Json, label: Option<&str>) -> Result<Value, CoerceError> \x7b\n"
  | encoding _ => "(input: &Json) -> Result<Vec<u8>, CoerceError> \x7b\n"
  | table => "() -> BTreeMap<&'static str, Encoder> \x7b\n"
  | dispatch => "(type_url: &str, input: &Json) -> Result<Vec<u8>, CoerceError> \x7b\n"

def signature (routine : Routine) : String := "pub fn " ++ routine.name ++ routine.parameters

def text (plans : EncoderPlans) : Routine → String
  | schema => schemaFunction plans.schema
  | mapping message => ((plans.plan? message).map mapFunctionLines).getD ""
  | encoding request => encodeFunctionLines request
  | table => tableLines plans
  | dispatch => dispatchLines plans

-- The message that the function is for, and is called after.
def message? : Routine → Option String
  | mapping message => some message
  | encoding request => some request
  | _ => none

end Routine

def routines (plans : EncoderPlans) : List Routine :=
  .schema :: (plans.messages.keys.map .mapping ++ plans.requests.map .encoding ++ [.table, .dispatch])

-- Who uses whom, and how that is written. The callee is what is meant by the call.
inductive Calls (plans : EncoderPlans) : Routine → String → Routine → Prop where
  | field {message nested : String} {plan : MessagePlan} {rule : FieldRule}
      (planned : plans.plan? message = some plan) (declared : rule ∈ plan.fields)
      (type : rule.type = .message nested) :
      Calls plans (.mapping message) (mapFunction nested ++ "(v, Some(p))") (.mapping nested)
  | value {request : String} (requested : request ∈ plans.requests) :
      Calls plans (.encoding request) (mapFunction request ++ "(input, None)?;\n") (.mapping request)
  | layout {request : String} (requested : request ∈ plans.requests) :
      Calls plans (.encoding request) "    schema().encode(" .schema
  | entry {request : String} (requested : request ∈ plans.requests) :
      Calls plans .table (tableLine request) (.encoding request)
  | arm {request : String} (requested : request ∈ plans.requests) :
      Calls plans .dispatch (dispatchArm request) (.encoding request)

theorem mem_routines {routine : Routine} : routine ∈ plans.routines ↔ match routine with
    | .mapping message => message ∈ plans.messages.keys
    | .encoding request => request ∈ plans.requests
    | _ => True := by
  cases routine <;> simp [routines]

theorem text_of_planned {message : String} {plan : MessagePlan} (planned : plans.plan? message = some plan) :
    (Routine.mapping message).text plans = mapFunctionLines plan := by
  simp only [Routine.text, planned, Option.map_some, Option.getD_some]

-- The module is its imports and then its functions.
theorem render_eq (ascending : plans.messages.Ascending) : plans.render config =
    generatedHeader ++ "\n" ++ imports config
      ++ Text.concat (plans.routines.map (Routine.text plans)) := by
  have mappings : plans.messages.values.map mapFunctionLines
      = (plans.messages.keys.map Routine.mapping).map (Routine.text plans) := by
    rw [Table.values, Table.keys, List.map_map, List.map_map, List.map_map]
    refine List.map_congr_left fun pair inside => ?_
    exact (text_of_planned (Table.get?_of_mem ascending inside)).symm
  have encodings : plans.requests.map encodeFunctionLines
      = (plans.requests.map Routine.encoding).map (Routine.text plans) := by
    simp only [List.map_map, Function.comp_def, Routine.text]
  rw [render, mappings, encodings]
  simp only [routines, List.map_cons, List.map_append, List.map_nil, Text.concat_eq_join,
    String.join_cons, String.join_append, String.join_nil, Routine.text]
  unfold tableLines dispatchLines
  simp only [Text.concat_eq_join, String.append_assoc, String.append_empty]

theorem exists_plan (laid : plans.LaidOut) {message : String} (known : message ∈ plans.messages.keys) :
    ∃ plan, plans.plan? message = some plan ∧ plan.fullName = message := by
  obtain ⟨plan, held⟩ := Table.mem_keys_iff.mp known
  exact ⟨plan, held, laid.named message plan (Table.mem_of_get? held)⟩

theorem signature_fixed :
    Routine.schema.signature = "pub fn schema() -> &'static Schema \x7b\n" ∧
    Routine.table.signature = "pub fn encoders() -> BTreeMap<&'static str, Encoder> \x7b\n" ∧
    Routine.dispatch.signature
      = "pub fn encode(type_url: &str, input: &Json) -> Result<Vec<u8>, CoerceError> \x7b\n" := by
  decide

-- What is rendered for a function defines it under its name.
theorem signature_within (laid : plans.LaidOut) {routine : Routine} (member : routine ∈ plans.routines) :
    Within routine.signature (routine.text plans) := by
  obtain ⟨schema, table, dispatch⟩ := signature_fixed
  cases routine with
  | schema =>
    rw [schema, Routine.text]
    unfold schemaFunction
    exact .before (.before (.before (.before (.refl _) _) _) _) _
  | mapping message =>
    obtain ⟨plan, planned, rfl⟩ := exists_plan laid (mem_routines.mp member)
    rw [text_of_planned planned]
    unfold mapFunctionLines
    refine .before (.before (.before (.before ⟨"/// `" ++ plan.fullName ++ "`\n", "", ?_⟩ _) _) _) _
    simp only [Routine.signature, Routine.name, Routine.parameters, String.append_assoc,
      String.append_empty]
  | encoding request =>
    rw [Routine.text]
    unfold encodeFunctionLines
    exact .before (.before (.before (.before (.before (.before (.refl _) _) _) _) _) _) _
  | table =>
    rw [table, Routine.text]
    unfold tableLines
    exact .before (.before (.before (.after _ (.refl _)) _) _) _
  | dispatch =>
    rw [dispatch, Routine.text]
    unfold dispatchLines
    exact .before (.before (.before (.before (.refl _) _) _) _) _

theorem coercionCall_within {rule : FieldRule} {nested : String} (type : rule.type = .message nested) :
    Within (mapFunction nested ++ "(v, Some(p))") (coercionCall rule) := by
  rw [coercionCall, type]
  cases rule.repeated with
  | false => exact .after _ (.before (.after _ (.refl _)) _)
  | true => exact .after _ (.before (.after _ (.refl _)) _)

theorem fieldCall_within {plan : MessagePlan} {rule : FieldRule} {nested : String}
    (declared : rule ∈ plan.fields) (type : rule.type = .message nested) :
    Within (mapFunction nested ++ "(v, Some(p))") (mapFunctionLines plan) := by
  have declares : ¬ plan.fields.isEmpty = true := by
    rw [List.isEmpty_iff]
    exact List.ne_nil_of_mem declared
  unfold mapFunctionLines
  rw [if_neg declares]
  refine .before (.after _ (.before (.after _ (.concat (List.mem_map_of_mem declared) ?_)) _)) _
  unfold fieldLines
  dsimp only
  exact .before (.before (.before (.before (.before (.before (.after _ (coercionCall_within type))
    _) _) _) _) _) _

-- Whatever is called is a function of the module, and the call names it.
theorem Calls.linked (closed : Closed plans.messages)
    (requested : ∀ request ∈ plans.requests, request ∈ plans.messages.keys)
    {caller callee : Routine} {written : String} (calls : Calls plans caller written callee) :
    caller ∈ plans.routines ∧ callee ∈ plans.routines ∧
      Within written (caller.text plans) ∧ Within callee.name written := by
  cases calls with
  | field planned declared type =>
    refine ⟨mem_routines.mpr (Table.mem_keys_iff.mpr ⟨_, planned⟩),
      mem_routines.mpr (closed _ _ planned _ declared _ type), ?_, .before (.refl _) _⟩
    rw [text_of_planned planned]
    exact fieldCall_within declared type
  | value known =>
    refine ⟨mem_routines.mpr known, mem_routines.mpr (requested _ known), ?_, .before (.refl _) _⟩
    rw [Routine.text]
    unfold encodeFunctionLines
    exact .before (.before (.before (.joined _ _ _) _) _) _
  | layout known =>
    refine ⟨mem_routines.mpr known, mem_routines.mpr trivial, ?_, ⟨"    ", "().encode(", by decide⟩⟩
    rw [Routine.text]
    unfold encodeFunctionLines
    exact .before (.before (.after _ (.refl _)) _) _
  | entry known =>
    refine ⟨mem_routines.mpr trivial, mem_routines.mpr known, ?_, .before (.after _ (.refl _)) _⟩
    rw [Routine.text]
    unfold tableLines
    exact .before (.after _ (.concat (List.mem_map_of_mem known) (.refl _))) _
  | arm known =>
    refine ⟨mem_routines.mpr trivial, mem_routines.mpr known, ?_, .before (.after _ (.refl _)) _⟩
    rw [Routine.text]
    unfold dispatchLines
    exact .before (.before (.after _ (.concat (List.mem_map_of_mem known) (.refl _))) _) _

-- The kinds of functions differ in the first or the seventh characters of their names.
theorem eq_of_name {one other : Routine} (same : one.name = other.name)
    (told : ∀ message ∈ one.message?, ∀ another ∈ other.message?,
      Identifier.flatName message = Identifier.flatName another → message = another) : one = other := by
  have first := congrArg (fun name => name.toList.head?) same
  have seventh := congrArg (fun name => name.toList[6]?) same
  simp only [Routine.name] at first seventh same
  cases one <;> cases other
  case mapping.mapping message another =>
    rw [told message rfl another rfl ((String.append_right_inj "map_").mp same)]
  case encoding.encoding request another =>
    rw [told request rfl another rfl ((String.append_right_inj "encode_").mp same)]
  all_goals first
    | rfl
    | simp [mapFunction, encodeFunction] at first seventh

-- What the module rests on: each message that payloads reach has a plan of its own, made of its fields.
structure Linked (corpus : Corpus) (plans : EncoderPlans) : Prop where
  laid : plans.LaidOut
  closed : Closed plans.messages
  follows : plans.Follows corpus
  planned : ∀ message, message ∈ plans.messages.keys ↔ corpus.Reachable message
  requests : plans.requests = corpus.requestTypes

theorem linked_of_ofCorpus (made : ofCorpus corpus config = .ok plans) : Linked corpus plans where
  laid := laidOut_of_ofCorpus made
  closed := closed_of_ofCorpus made
  follows := follows_of_ofCorpus made
  planned message := by
    constructor
    · intro known
      obtain ⟨plan, held⟩ := Table.mem_keys_iff.mp known
      exact (planOf_of_plan made held).1
    · intro reached
      obtain ⟨plan, held⟩ := plan_of_reachable made reached
      exact Table.mem_keys_iff.mpr ⟨plan, held⟩
  requests := requests_of_ofCorpus made

namespace Linked

variable (linked : Linked corpus plans)

include linked

theorem planned_of_requested {request : String} (requested : request ∈ plans.requests) :
    request ∈ plans.messages.keys :=
  (linked.planned request).mpr ⟨request, linked.requests ▸ requested, .refl⟩

theorem planned_of_message {routine : Routine} (member : routine ∈ plans.routines) {message : String}
    (about : message ∈ routine.message?) : message ∈ plans.messages.keys := by
  cases routine with
  | mapping name =>
    cases about
    exact mem_routines.mp member
  | encoding request =>
    cases about
    exact linked.planned_of_requested (mem_routines.mp member)
  | _ => cases about

-- Every message that payloads reach is mapped by a call from where it is reached.
theorem called {message : String} (reached : corpus.Reachable message) :
    ∃ caller written, Calls plans caller written (.mapping message) := by
  obtain ⟨request, requested, path⟩ := reached
  rcases Relation.ReflTransGen.cases_tail path with rfl | ⟨holder, before, refers⟩
  · exact ⟨_, _, .value (linked.requests ▸ requested)⟩
  · obtain ⟨plan, held⟩ := Table.mem_keys_iff.mp
      ((linked.planned holder).mpr ⟨request, requested, before⟩)
    obtain ⟨fields, resolved, field, declared, type⟩ := refers
    rw [linked.follows holder plan held] at resolved
    cases resolved
    obtain ⟨rule, among, rfl⟩ := List.mem_map.mp declared
    exact ⟨_, _, .field held among type⟩

theorem routines_nodup (set : NameSet.Ascending corpus.requestTypes) : plans.routines.Nodup := by
  have messages : plans.messages.keys.Nodup :=
    List.pairwise_map.mpr (linked.laid.ascending.imp fun below => ne_of_lt below)
  have requests : plans.requests.Nodup := by
    rw [linked.requests]
    exact set.imp fun below => ne_of_lt below
  have mappings : (plans.messages.keys.map Routine.mapping).Nodup :=
    messages.map fun _ _ same => Routine.mapping.inj same
  have encodings : (plans.requests.map Routine.encoding).Nodup :=
    requests.map fun _ _ same => Routine.encoding.inj same
  refine List.nodup_cons.mpr ⟨by simp, (mappings.append encodings ?_).append (by decide) ?_⟩
  · intro routine left right
    obtain ⟨message, _, rfl⟩ := List.mem_map.mp left
    simp at right
  · intro routine left right
    rcases List.mem_pair.mp right with rfl | rfl <;> simp at left

theorem names_nodup (set : NameSet.Ascending corpus.requestTypes)
    (told : ∀ one, corpus.Reachable one → ∀ other, corpus.Reachable other →
      Identifier.flatName one = Identifier.flatName other → one = other) :
    (plans.routines.map Routine.name).Nodup := by
  refine (List.nodup_map_iff_inj_on (linked.routines_nodup set)).mpr fun one member other memberToo same => ?_
  refine eq_of_name same fun message about another aboutToo => ?_
  exact told message ((linked.planned _).mp (linked.planned_of_message member about))
    another ((linked.planned _).mp (linked.planned_of_message memberToo aboutToo))

-- Calls meet the functions that are meant, and no others, exactly where names keep messages apart.
theorem unique_iff (set : NameSet.Ascending corpus.requestTypes) :
    (∀ caller written callee, Calls plans caller written callee →
      plans.routines.filter (fun routine => routine.name = callee.name) = [callee]) ↔
    ∀ one, corpus.Reachable one → ∀ other, corpus.Reachable other →
      Identifier.flatName one = Identifier.flatName other → one = other := by
  constructor
  · intro unique one reached other reachedToo same
    obtain ⟨caller, written, calls⟩ := linked.called reached
    have inside : Routine.mapping other ∈ plans.routines :=
      mem_routines.mpr ((linked.planned other).mpr reachedToo)
    have alike : (Routine.mapping other).name = (Routine.mapping one).name :=
      congrArg ("map_" ++ ·) same.symm
    have found : Routine.mapping other ∈ [Routine.mapping one] := by
      rw [← unique caller written _ calls]
      exact List.mem_filter.mpr ⟨inside, decide_eq_true alike⟩
    exact (Routine.mapping.inj (List.mem_singleton.mp found)).symm
  · intro told caller written callee calls
    obtain ⟨_, member, _⟩ := calls.linked linked.closed fun _ => linked.planned_of_requested
    exact filter_key_eq (linked.names_nodup set told) member

end Linked

end EncoderPlans

namespace Generation

open EncoderPlans

variable {corpus : Corpus} {config : Config} {generation : Generation}

-- The encoder module is a list of functions, each under its name. What is called is among them, and it
-- is the only one of its name exactly where the spelling keeps the messages of the closure apart.
theorem dispatch_unique_iff (accepted : ofCorpus corpus config = .ok generation)
    (set : NameSet.Ascending corpus.requestTypes) :
    generation.plans.render config = generatedHeader ++ "\n" ++ imports config
      ++ Text.concat (generation.plans.routines.map (Routine.text generation.plans)) ∧
    (∀ routine ∈ generation.plans.routines,
      Within routine.signature (routine.text generation.plans)) ∧
    (∀ caller written callee, Calls generation.plans caller written callee →
      caller ∈ generation.plans.routines ∧ callee ∈ generation.plans.routines ∧
        Within written (caller.text generation.plans) ∧ Within callee.name written) ∧
    ∃ closure, corpus.fullClosure = .ok closure ∧
      (∀ message ∈ closure, .mapping message ∈ generation.plans.routines) ∧
      ((∀ caller written callee, Calls generation.plans caller written callee →
          generation.plans.routines.filter (fun routine => routine.name = callee.name) = [callee]) ↔
        ∀ one ∈ closure, ∀ other ∈ closure,
          Identifier.flatName one = Identifier.flatName other → one = other) := by
  have made := (ofCorpus_iff_staged.mp accepted).plans
  have linked := linked_of_ofCorpus made
  obtain ⟨closure, _, closed, _⟩ := ofCorpus_ok made
  refine ⟨render_eq linked.laid.ascending, fun routine => signature_within linked.laid,
    fun caller written callee calls => calls.linked linked.closed fun _ => linked.planned_of_requested,
    closure, closed, fun message inside => ?_, ?_⟩
  · exact mem_routines.mpr ((linked.planned message).mpr ((Corpus.mem_fullClosure closed).mp inside))
  · simp only [Corpus.mem_fullClosure closed]
    exact linked.unique_iff set

-- Two packages that send: the second one is another version of the first, or else it is spelled like it.
def sendPackage (version : Bool) : String := if version then "demo.pay.v2" else "demo.pay_v1"

def sendCorpus (version : Bool) : Corpus where
  messages := [
    ("demo.pay.v1.Coin", ⟨"demo.pay.v1", "Coin", [⟨"denom", "string", false, 1⟩], "one.proto", none⟩),
    ("demo.pay.v1.MsgSend",
      ⟨"demo.pay.v1", "MsgSend", [⟨"amount", "Coin", false, 1⟩], "one.proto", none⟩),
    (sendPackage version ++ ".MsgSend",
      ⟨sendPackage version, "MsgSend", [⟨"memo", "string", false, 1⟩], "two.proto", none⟩)]
  enums := []
  requestTypes := ["demo.pay.v1.MsgSend", sendPackage version ++ ".MsgSend"]

def sendListing (version : Bool) : List (String × List ResolvedField) := [
  ("demo.pay.v1.Coin", [⟨"denom", "denom", .scalar .string, false, 1⟩]),
  ("demo.pay.v1.MsgSend", [⟨"amount", "amount", .message "demo.pay.v1.Coin", false, 1⟩]),
  (sendPackage version ++ ".MsgSend", [⟨"memo", "memo", .scalar .string, false, 1⟩])]

theorem listed_send (version : Bool) : Listed (sendCorpus version) (sendListing version) where
  resolved := by
    simp only [sendListing, List.forall_mem_cons]
    cases version <;> exact ⟨rfl, rfl, rfl, List.forall_mem_nil _⟩
  complete := by cases version <;> decide
  requested := by cases version <;> decide
  closed := by cases version <;> decide

theorem ofCorpus_send (version : Bool) :
    ∃ generation, ofCorpus (sendCorpus version) .standard = .ok generation := by
  obtain ⟨registry, derived⟩ := (listed_send version).ofCorpus_of_shapes
    (fun _ => [⟨"denom", "string"⟩]) (by cases version <;> decide) .standard
  obtain ⟨generation, accepted, _⟩ := ofCorpus_of_registry rfl derived
  exact ⟨generation, accepted⟩

-- Both packages are given functions of one name, which is then defined twice.
theorem dispatch_clash_send : ∃ generation, ofCorpus (sendCorpus false) .standard = .ok generation ∧
    "demo.pay.v1.MsgSend" ∈ generation.plans.requests ∧
    "demo.pay_v1.MsgSend" ∈ generation.plans.requests ∧
    mapFunction "demo.pay.v1.MsgSend" = mapFunction "demo.pay_v1.MsgSend" ∧
    ¬ ∀ caller written callee, Calls generation.plans caller written callee →
      generation.plans.routines.filter (fun routine => routine.name = callee.name) = [callee] := by
  obtain ⟨generation, accepted⟩ := ofCorpus_send false
  have linked := linked_of_ofCorpus (ofCorpus_iff_staged.mp accepted).plans
  have requests : generation.plans.requests = ["demo.pay.v1.MsgSend", "demo.pay_v1.MsgSend"] :=
    linked.requests
  have first : "demo.pay.v1.MsgSend" ∈ generation.plans.requests := by simp [requests]
  have second : "demo.pay_v1.MsgSend" ∈ generation.plans.requests := by simp [requests]
  refine ⟨generation, accepted, first, second, by decide, fun unique => ?_⟩
  have same := (linked.unique_iff (by unfold NameSet.Ascending; decide)).mp unique
    _ ((linked.planned _).mp (linked.planned_of_requested first))
    _ ((linked.planned _).mp (linked.planned_of_requested second)) (by decide)
  exact absurd same (by decide)

theorem dispatch_unique_iff_send : NameSet.Ascending (sendCorpus true).requestTypes ∧
    ∃ generation, ofCorpus (sendCorpus true) .standard = .ok generation ∧
      ∀ caller written callee, Calls generation.plans caller written callee →
        Within callee.name written ∧
        generation.plans.routines.filter (fun routine => routine.name = callee.name) = [callee] := by
  have set : NameSet.Ascending (sendCorpus true).requestTypes := by
    unfold NameSet.Ascending
    decide
  obtain ⟨generation, accepted⟩ := ofCorpus_send true
  obtain ⟨_, _, linked, closure, closed, _, unique⟩ := dispatch_unique_iff accepted set
  have listed : ∀ message ∈ closure, message ∈ (sendListing true).map Prod.fst := by
    intro message inside
    obtain ⟨request, requested, path⟩ := (Corpus.mem_fullClosure closed).mp inside
    exact (listed_send true).known_of_reaches requested path
  have told : ∀ one ∈ (sendListing true).map Prod.fst, ∀ other ∈ (sendListing true).map Prod.fst,
      Identifier.flatName one = Identifier.flatName other → one = other := by
    decide
  refine ⟨set, generation, accepted, fun caller written callee calls =>
    ⟨(linked caller written callee calls).2.2.2, unique.mpr ?_ caller written callee calls⟩⟩
  exact fun one inside other insideToo => told one (listed one inside) other (listed other insideToo)

end Generation

end SigningSchema
