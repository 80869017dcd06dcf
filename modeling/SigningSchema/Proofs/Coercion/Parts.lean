import SigningSchema.Coercion.Field
import SigningSchema.Proofs.Results

-- The readers that go through parts of an input: in turn, up to the first part that goes wrong, and
-- what is read of one part.

namespace SigningSchema

def errorOf : Except ε α → Option ε
  | .ok _ => none
  | .error error => some error

@[simp] theorem errorOf_ok (value : α) : errorOf (.ok value : Except ε α) = none := rfl

@[simp] theorem errorOf_error (error : ε) : errorOf (.error error : Except ε α) = some error := rfl

@[simp] theorem errorOf_map (f : α → β) (result : Except ε α) :
    errorOf (result.map f) = errorOf result := by
  cases result <;> rfl

theorem errorOf_eq_some {result : Except ε α} {error : ε} :
    errorOf result = some error ↔ result = .error error := by
  cases result <;> simp

-- A list of parts, each told its position.
def inTurn (item : Nat → α → Except ε β) (position : Nat) : List α → Except ε (List β)
  | [] => .ok []
  | input :: rest =>
    match item position input with
    | .error error => .error error
    | .ok first => (inTurn item (position + 1) rest).map (first :: ·)

-- The run fails as the first part that fails.
theorem errorOf_inTurn (item : Nat → α → Except ε β) (position : Nat) (inputs : List α) :
    errorOf (inTurn item position inputs)
      = (inputs.zipIdx position).findSome? fun part => errorOf (item part.2 part.1) := by
  induction inputs generalizing position with
  | nil => rfl
  | cons input rest ih =>
    rw [inTurn, List.zipIdx_cons, List.findSome?_cons]
    cases item position input with
    | error error => rfl
    | ok first => rw [errorOf_map, ih, errorOf_ok]

theorem inTurn_ok {item : Nat → α → Except ε β} {position : Nat} {inputs : List α} {values : List β}
    (ran : inTurn item position inputs = .ok values) :
    List.Forall₂ (fun input value => ∃ position, item position input = .ok value) inputs values := by
  induction inputs generalizing position values with
  | nil =>
    cases ran
    exact .nil
  | cons input rest ih =>
    rw [inTurn] at ran
    cases first : item position input with
    | error error =>
      rw [first] at ran
      cases ran
    | ok value =>
      rw [first] at ran
      obtain ⟨others, later, rfl⟩ := map_ok ran
      exact .cons ⟨position, first⟩ (ih later)

theorem inTurn_of_each {item : Nat → α → Except ε β} {inputs : List α}
    (each : ∀ input ∈ inputs, ∀ position, ∃ value, item position input = .ok value) (position : Nat) :
    ∃ values, inTurn item position inputs = .ok values := by
  induction inputs generalizing position with
  | nil => exact ⟨[], rfl⟩
  | cons input rest ih =>
    obtain ⟨value, first⟩ := each input List.mem_cons_self position
    obtain ⟨values, later⟩ :=
      ih (fun other member => each other (List.mem_cons_of_mem _ member)) (position + 1)
    exact ⟨value :: values, by rw [inTurn, first, later]; rfl⟩

theorem inTurn_map (item : Nat → α → Except ε β) (f : γ → α) (position : Nat) (inputs : List γ) :
    inTurn item position (inputs.map f) = inTurn (fun position => item position ∘ f) position inputs := by
  induction inputs generalizing position with
  | nil => rfl
  | cons input rest ih => rw [List.map_cons, inTurn, inTurn, ih, Function.comp_apply]

theorem inTurn_replaced {item : Nat → α → Except ε β} {input other : α} (before after : List α)
    (same : ∀ position, item position input = item position other) (position : Nat) :
    inTurn item position (before ++ input :: after) = inTurn item position (before ++ other :: after) := by
  induction before generalizing position with
  | nil => simp only [List.nil_append, inTurn, same]
  | cons first rest ih => simp only [List.cons_append, inTurn, ih]

namespace Coercion

variable {kind : ScalarKind} {path : FieldPath} {policy : Policy}

theorem elements_eq_inTurn (item : FieldPath → α → Except CoercionError Value) (position : Nat)
    (inputs : List α) :
    elements path item position inputs = inTurn (fun position => item (path.index position)) position inputs := by
  induction inputs generalizing position with
  | nil => rfl
  | cons input rest ih =>
    rw [elements, inTurn, ih]
    cases item (path.index position) input <;> rfl

-- One of the numbers that bytes are given as.
def readByte (path : FieldPath) : Json → Except CoercionError UInt8
  | .number (.integer n) =>
    if 0 ≤ n ∧ n ≤ 255 then .ok (UInt8.ofNat n.toNat)
    else .error (.unlike path "byte" (.number (.integer n)))
  | other => .error (.unlike path "byte" other)

theorem readBytes_eq_inTurn (position : Nat) (items : List Json) :
    readBytes path position items = inTurn (fun position => readByte (path.index position)) position items := by
  induction items generalizing position with
  | nil => rfl
  | cons item rest ih =>
    rw [inTurn]
    cases item with
    | number value =>
      cases value with
      | integer n =>
        by_cases fits : 0 ≤ n ∧ n ≤ 255
        · simp only [readBytes, readByte, fits, and_self, if_true, ih]
        · simp only [readBytes, readByte, fits, if_false]
      | double word => rfl
    | _ => rfl

-- The seconds of a span or of a point in time are an integer of 64 bits that may not be left out.
def readSeconds (path : FieldPath) (given : Option Json) : Except CoercionError Int :=
  match given with
  | some input => readBounded .int64 path Int64.minValue.toInt Int64.maxValue.toInt input
  | none => .error (.missingField path "int64")

def readNanos (path : FieldPath) (given : Option Json) : Except CoercionError Int :=
  match given with
  | some input => readInteger .int32 path input
  | none => .error (.missingField path "int32")

theorem readMoment_object (members : List (String × Json)) :
    readMoment kind path (.object members) = (do
      let seconds ← readSeconds (path.field "seconds") (Json.given? members "seconds")
      let nanos ← readNanos (path.field "nanos") (Json.given? members "nanos")
      if nanos < -maxNanos ∨ maxNanos < nanos then
        .error (.invalidDuration path kind.keyword
          ("nanos " ++ toString nanos ++ " is outside [-999999999, 999999999]"))
      return (seconds, nanos)) := by
  unfold readMoment readSeconds readNanos
  dsimp only
  cases Json.given? members "seconds" with
  | none => rfl
  | some given =>
    dsimp only [readBounded]
    cases readInteger .int64 (path.field "seconds") given with
    | error error => rfl
    | ok seconds =>
      by_cases fits : Int64.minValue.toInt ≤ seconds ∧ seconds ≤ Int64.maxValue.toInt
      · have inside : ¬ (seconds < Int64.minValue.toInt ∨ Int64.maxValue.toInt < seconds) := by omega
        simp only [bind, Except.bind, fits, inside, and_self, if_true, if_false]
        cases Json.given? members "nanos" <;> rfl
      · have outside : seconds < Int64.minValue.toInt ∨ Int64.maxValue.toInt < seconds := by omega
        simp only [bind, Except.bind, fits, outside, if_true, if_false]
        rfl

-- A list that is given is read element by element.
theorem repeatedField_array (expected : String) (item : FieldPath → Json → Except CoercionError Value)
    (items : List Json) :
    repeatedField expected path policy (some (.array items)) (fun path part _ => item path part)
      = (inTurn (fun position => item (path.index position)) 0 items).map .array := by
  conv_rhs => rw [← List.attach_map_subtype_val items, inTurn_map]
  rw [repeatedField, elements_eq_inTurn]
  rfl

end Coercion

end SigningSchema
