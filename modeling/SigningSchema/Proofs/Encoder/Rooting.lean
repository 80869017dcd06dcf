import SigningSchema.Proofs.Encoder.Planning
import SigningSchema.Proofs.Encoder.Soundness

-- The label of an input is where the paths of its errors start and nothing else.

namespace SigningSchema

theorem FieldPath.text_eq_append (label : String) (steps : List PathStep) :
    (⟨label, steps⟩ : FieldPath).text = label ++ (⟨"", steps⟩ : FieldPath).text := by
  have walks : ∀ start, steps.foldl (fun text step => text ++ step.text) (label ++ start)
      = label ++ steps.foldl (fun text step => text ++ step.text) start := by
    induction steps with
    | nil => exact fun _ => rfl
    | cons step rest ih =>
      intro start
      rw [List.foldl_cons, List.foldl_cons, String.append_assoc, ih]
  have whole := walks ""
  rwa [String.append_empty] at whole

namespace CoercionError

variable {error : CoercionError} {path : FieldPath}

theorem movedTo_path (about : error.path? = some path) (place : FieldPath) :
    (error.movedTo place).path? = some place := by
  cases error <;> first | rfl | cases about

theorem movedTo_self (about : error.path? = some path) : error.movedTo path = error := by
  cases error with
  | unknownTypeUrl url => cases about
  | _ =>
    obtain rfl := Option.some.inj about
    rfl

-- A message starts with the place, and the rest does not tell it again.
theorem movedTo_message (about : error.path? = some path) (place : FieldPath) :
    (error.movedTo place).message = place.text ++ (error.movedTo (.root "")).message := by
  have blank : (FieldPath.root "").text = "" := rfl
  cases error with
  | unknownTypeUrl url => cases about
  | _ =>
    dsimp only [movedTo, message]
    simp only [blank, String.empty_append, String.append_assoc]

end CoercionError

namespace EncoderPlans

open Coercion

variable {corpus : Corpus} {config : Config} {plans : EncoderPlans} {name : String}

-- Two runs over one input under two labels: they give the same value, or they fail for the same
-- reason at the same steps from where they were told to start.
theorem map_label_roots_errors (planned : ofCorpus corpus config = .ok plans) {plan : MessagePlan}
    (known : plans.plan? name = some plan) (input : Json) (one other : String) :
    (∃ value, plans.map name one input = .ok value ∧ plans.map name other input = .ok value) ∨
    ∃ (error : CoercionError) (steps : List PathStep) (suffix rest : String),
      plans.map name one input = .error (error.movedTo ⟨one, steps⟩) ∧
      plans.map name other input = .error (error.movedTo ⟨other, steps⟩) ∧
      ∀ label, (error.movedTo ⟨label, steps⟩).path? = some ⟨label, steps⟩ ∧
        (⟨label, steps⟩ : FieldPath).text = label ++ suffix ∧
        (error.movedTo ⟨label, steps⟩).message = label ++ suffix ++ rest := by
  have alike : Alike anyError (.root one) (.root other) (plans.map name one input) (plans.map name other input) :=
    mapAt_alike (closed_of_ofCorpus planned) input (Table.mem_keys_iff.mpr ⟨plan, known⟩) _ _
  generalize plans.map name one input = first at alike ⊢
  generalize plans.map name other input = second at alike ⊢
  cases alike with
  | ok value => exact .inl ⟨value, rfl, rfl⟩
  | @error error steps about _ =>
    have here : error.movedTo ⟨one, steps⟩ = error := CoercionError.movedTo_self about
    refine .inr ⟨error, steps, (⟨"", steps⟩ : FieldPath).text, (error.movedTo (.root "")).message,
      by rw [here], rfl, fun label => ?_⟩
    have texts := FieldPath.text_eq_append label steps
    have messages := CoercionError.movedTo_message about ⟨label, steps⟩
    exact ⟨CoercionError.movedTo_path about _, texts, messages.trans (by rw [texts])⟩

-- The wait is not given: no route makes up for it.
def unpaid : Json := .object [("route", .object [])]

theorem map_unpaid (label : String) :
    payPlans.map "m.MsgPay" label unpaid = .error (.missingField ⟨label, [.field "maxWait"]⟩ "duration") := by
  have route : payPlans.mapField (.root label) [("route", .object [])]
      ⟨"route", "route", 1, .message "m.RouteParams", false, .required⟩ = .ok lastRoute := map_emptyRoute _
  rw [unpaid, map, mapAt_object planned_pay]
  simp only [payPlan, mapFields_cons, mapFields_nil, route]
  rfl

theorem map_unpaid_moves :
    ofCorpus payCorpus .standard = .ok payPlans ∧ payPlans.plan? "m.MsgPay" = some payPlan ∧
    ∃ (error : CoercionError) (steps : List PathStep),
      payPlans.map "m.MsgPay" "tx" unpaid = .error (error.movedTo ⟨"tx", steps⟩) ∧
      payPlans.map "m.MsgPay" "value" unpaid = .error (error.movedTo ⟨"value", steps⟩) ∧
      steps = [.field "maxWait"] := by
  refine ⟨ofCorpus_pay, planned_pay, ?_⟩
  have runs := map_label_roots_errors ofCorpus_pay planned_pay unpaid "tx" "value"
  rcases runs with ⟨value, ran, _⟩ | ⟨error, steps, _, _, failed, failedToo, told⟩
  · cases (map_unpaid "tx").symm.trans ran
  · refine ⟨error, steps, failed, failedToo, ?_⟩
    have same := Except.error.inj ((map_unpaid "tx").symm.trans failed)
    have place := (congrArg CoercionError.path? same).trans (told "tx").1
    cases place
    rfl

end EncoderPlans

end SigningSchema
