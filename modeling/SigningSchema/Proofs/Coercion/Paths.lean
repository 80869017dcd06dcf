import SigningSchema.Proofs.Coercion.Parts

-- Where an input stands matters to errors alone, and to them for their place alone: what the input
-- is coerced to is the same everywhere, and so is what goes wrong and how far inside.

namespace SigningSchema

-- The place that some steps lead to from here.
def FieldPath.append (path : FieldPath) (steps : List PathStep) : FieldPath :=
  { path with steps := path.steps ++ steps }

-- The same error about another place.
def CoercionError.movedTo (place : FieldPath) : CoercionError → CoercionError
  | .missingField _ expected => .missingField place expected
  | .wrongKind _ expected found => .wrongKind place expected found
  | .outOfRange _ expected value => .outOfRange place expected value
  | .invalidBase64 _ found => .invalidBase64 place found
  | .invalidDuration _ expected reason => .invalidDuration place expected reason
  | .unknownTypeUrl url => .unknownTypeUrl url
  | .shape _ expected found => .shape place expected found

def CoercionError.Missing : CoercionError → Prop
  | .missingField _ _ => True
  | _ => False

namespace FieldPath

variable {path : FieldPath}

@[simp] theorem append_nil : path.append [] = path := by rw [append, List.append_nil]

theorem append_cons (step : PathStep) (steps : List PathStep) :
    path.append (step :: steps) = (path.append [step]).append steps := by simp [append]

end FieldPath

namespace Coercion

-- What may be said of an error and of the steps to its place.
abbrev Account := List PathStep → CoercionError → Prop

def anyError : Account := fun _ _ => True

-- An error about the very input that was read, which is there.
def Blunt : Account := fun steps error => steps = [] ∧ ¬ error.Missing

-- What one input gives at two places: the same value, or the same error at the same steps from there.
inductive Alike (account : Account) (path other : FieldPath) :
    Except CoercionError α → Except CoercionError α → Prop
  | ok (value : α) : Alike account path other (.ok value) (.ok value)
  | error {error : CoercionError} {steps : List PathStep}
      (about : error.path? = some (path.append steps)) (accounts : account steps error) :
      Alike account path other (.error error) (.error (error.movedTo (other.append steps)))

variable {account : Account} {kind : ScalarKind} {path other : FieldPath}

namespace Alike

variable {one two : Except CoercionError α}

theorem here {error moved : CoercionError} (about : error.path? = some path)
    (same : moved = error.movedTo other) (accounts : account [] error) :
    Alike account path other (.error error : Except CoercionError α) (.error moved) := by
  have made : Alike account path other (.error error : Except CoercionError α)
      (.error (error.movedTo (other.append []))) :=
    .error (about.trans (by rw [FieldPath.append_nil])) accounts
  rwa [FieldPath.append_nil, ← same] at made

theorem weaken (alike : Alike account path other one two) : Alike anyError path other one two := by
  cases alike with
  | ok value => exact .ok value
  | error about _ => exact .error about trivial

theorem bind {next after : α → Except CoercionError β} (first : Alike account path other one two)
    (each : ∀ value, Alike account path other (next value) (after value)) :
    Alike account path other (one >>= next) (two >>= after) := by
  cases first with
  | ok value => exact each value
  | error about accounts => exact .error about accounts

theorem map (f : α → β) (first : Alike account path other one two) :
    Alike account path other (one.map f) (two.map f) := by
  cases first with
  | ok value => exact .ok (f value)
  | error about accounts => exact .error about accounts

theorem ite {condition : Prop} [Decidable condition] {three four : Except CoercionError α}
    (yes : Alike account path other one two) (no : Alike account path other three four) :
    Alike account path other (if condition then one else three) (if condition then two else four) := by
  split
  · exact yes
  · exact no

theorem of_step {step : PathStep}
    (inner : Alike anyError (path.append [step]) (other.append [step]) one two) :
    Alike anyError path other one two := by
  cases inner with
  | ok value => exact .ok value
  | @error error steps about _ =>
    rw [← FieldPath.append_cons] at about ⊢
    exact .error about trivial

theorem agree (alike : Alike account path other one two) {value : α} (ran : one = .ok value) :
    two = .ok value := by
  cases alike with
  | ok value => exact ran
  | error => cases ran

end Alike

theorem inTurn_alike {item again : Nat → α → Except CoercionError β} {inputs : List α}
    (each : ∀ input ∈ inputs, ∀ position, Alike anyError path other (item position input) (again position input))
    (position : Nat) :
    Alike anyError path other (inTurn item position inputs) (inTurn again position inputs) := by
  induction inputs generalizing position with
  | nil => exact .ok []
  | cons input rest ih =>
    have first := each input List.mem_cons_self position
    rw [inTurn, inTurn]
    generalize item position input = one at first ⊢
    generalize again position input = two at first ⊢
    cases first with
    | ok value => exact (ih (fun later inside => each later (List.mem_cons_of_mem _ inside)) _).map _
    | error about accounts => exact .error about accounts

theorem readInteger_alike (input : Json) :
    Alike Blunt path other (readInteger kind path input) (readInteger kind other input) := by
  have unlike : Alike Blunt path other (.error (.unlike path kind.keyword input) : Except CoercionError Int)
      (.error (.unlike other kind.keyword input)) := .here rfl rfl ⟨rfl, id⟩
  cases input with
  | number value =>
    cases value with
    | integer n => exact .ok n
    | double word =>
      simp only [readInteger]
      cases Number.double.toInt? word.toNat with
      | none => exact unlike
      | some n => exact .ite (.here rfl rfl ⟨rfl, id⟩) (.ok n)
  | string text =>
    simp only [readInteger]
    cases Number.readInt? (Unicode.trim text.toList) with
    | none => exact unlike
    | some n => exact .ite (.ok n) (.here rfl rfl ⟨rfl, id⟩)
  | _ => exact unlike

theorem readDouble_alike (input : Json) :
    Alike Blunt path other (readDouble kind path input) (readDouble kind other input) := by
  have unlike : Alike Blunt path other (.error (.unlike path kind.keyword input) : Except CoercionError Nat)
      (.error (.unlike other kind.keyword input)) := .here rfl rfl ⟨rfl, id⟩
  cases input with
  | number value => cases value <;> exact .ok _
  | string text =>
    simp only [readDouble]
    cases Number.readDouble? (Unicode.trim text.toList) with
    | none => exact unlike
    | some word => exact .ok word
  | _ => exact unlike

theorem readByte_alike (input : Json) : Alike Blunt path other (readByte path input) (readByte other input) := by
  have unlike : Alike Blunt path other (.error (.unlike path "byte" input) : Except CoercionError UInt8)
      (.error (.unlike other "byte" input)) := .here rfl rfl ⟨rfl, id⟩
  cases input with
  | number value =>
    cases value with
    | integer n => exact .ite (.ok _) unlike
    | double word => exact unlike
  | _ => exact unlike

theorem readBounded_alike (low high : Int) (input : Json) :
    Alike Blunt path other (readBounded kind path low high input) (readBounded kind other low high input) :=
  (readInteger_alike input).bind fun n => .ite (.ok n) (.here rfl rfl ⟨rfl, id⟩)

theorem readSeconds_alike (given : Option Json) :
    Alike anyError path other (readSeconds path given) (readSeconds other given) := by
  cases given with
  | none => exact .here rfl rfl trivial
  | some input => exact (readBounded_alike _ _ input).weaken

theorem readNanos_alike (given : Option Json) :
    Alike anyError path other (readNanos path given) (readNanos other given) := by
  cases given with
  | none => exact .here rfl rfl trivial
  | some input => exact (readInteger_alike input).weaken

theorem readMoment_alike (input : Json) :
    Alike anyError path other (readMoment kind path input) (readMoment kind other input) := by
  cases input with
  | object members =>
    rw [readMoment_object, readMoment_object]
    exact (Alike.of_step (readSeconds_alike _)).bind fun _ =>
      (Alike.of_step (readNanos_alike _)).bind fun _ => .ite (.here rfl rfl trivial) (.ok _)
  | _ => exact .here rfl rfl trivial

-- Kinds whose inputs have no parts that an error could be about.
def Simple : ScalarKind → Prop
  | .bytes | .duration | .timestamp => False
  | _ => True

theorem scalar_alike_blunt (simple : Simple kind) (input : Json) :
    Alike Blunt path other (scalar kind path input) (scalar kind other input) := by
  cases kind
  case bytes => exact simple.elim
  case duration => exact simple.elim
  case timestamp => exact simple.elim
  case string => cases input <;> first | exact .ok _ | exact .here rfl rfl ⟨rfl, id⟩
  case bool => cases input <;> first | exact .ok _ | exact .here rfl rfl ⟨rfl, id⟩
  case float =>
    exact (readDouble_alike input).bind fun _ => .ite (.here rfl rfl ⟨rfl, id⟩) (.ok _)
  case double => exact (readDouble_alike input).map _
  all_goals exact (readBounded_alike _ _ input).map _

theorem scalar_alike (input : Json) :
    Alike anyError path other (scalar kind path input) (scalar kind other input) := by
  by_cases simple : Simple kind
  · exact (scalar_alike_blunt simple input).weaken
  · cases kind
    case bytes =>
      cases input with
      | string text =>
        simp only [scalar]
        cases Base64.decode? text.toList with
        | none => exact .here rfl rfl trivial
        | some data => exact .ok _
      | array items =>
        simp only [scalar, readBytes_eq_inTurn]
        exact (inTurn_alike (fun item _ position => .of_step (readByte_alike item).weaken) 0).map _
      | _ => exact .here rfl rfl trivial
    case duration =>
      exact (readMoment_alike input).bind fun _ => .ite (.here rfl rfl trivial) (.ok _)
    case timestamp => exact (readMoment_alike input).bind fun _ => .ok _
    all_goals exact absurd trivial simple

-- The value that an input stands for, and null for one that stands for none.
def scalarValue (kind : ScalarKind) (input : Json) : Value :=
  match scalar kind (.root FieldPath.defaultLabel) input with
  | .ok value => value
  | .error _ => .null

theorem scalarValue_of_ok {input : Json} {value : Value} (coerced : scalar kind path input = .ok value) :
    scalarValue kind input = value := by
  rw [scalarValue, (scalar_alike input).agree coerced]

end Coercion

end SigningSchema
