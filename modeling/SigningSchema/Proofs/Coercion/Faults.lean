import SigningSchema.Proofs.Coercion.Paths

-- What goes wrong while an input is coerced is told with its place: the path that was asked about,
-- or one further inside the input.

namespace SigningSchema

def CoercionError.Within (error : CoercionError) (path : FieldPath) : Prop :=
  ∃ steps, error.path? = some { path with steps := path.steps ++ steps }

namespace CoercionError

variable {error : CoercionError} {path : FieldPath}

theorem within_of_path (about : error.path? = some path) : error.Within path :=
  ⟨[], by rw [about, List.append_nil]⟩

theorem Within.of_field {name : String} (inner : error.Within (path.field name)) : error.Within path := by
  obtain ⟨steps, about⟩ := inner
  exact ⟨.field name :: steps, about.trans (by simp [FieldPath.field])⟩

theorem Within.of_index {position : Nat} (inner : error.Within (path.index position)) :
    error.Within path := by
  obtain ⟨steps, about⟩ := inner
  exact ⟨.index position :: steps, about.trans (by simp [FieldPath.index])⟩

-- An unknown address is no place in an input.
theorem Within.ne_unknown (inner : error.Within path) (url : String) : error ≠ .unknownTypeUrl url := by
  rintro rfl
  obtain ⟨_, about⟩ := inner
  cases about

end CoercionError

namespace Coercion

variable {path : FieldPath}

def Located (path : FieldPath) (result : Except CoercionError α) : Prop :=
  ∀ error, result = .error error → error.Within path

theorem Located.bind {result : Except CoercionError α} {next : α → Except CoercionError β}
    (first : Located path result) (each : ∀ value, Located path (next value)) :
    Located path (result >>= next) := by
  cases result with
  | error error =>
    rintro _ ⟨⟩
    exact first error rfl
  | ok value => exact each value

theorem Alike.located {account : Account} {other : FieldPath} {one two : Except CoercionError α}
    (alike : Alike account path other one two) : Located path one := by
  rintro error failed
  cases alike with
  | ok value => cases failed
  | error about _ =>
    cases failed
    exact ⟨_, about⟩

end Coercion

end SigningSchema
