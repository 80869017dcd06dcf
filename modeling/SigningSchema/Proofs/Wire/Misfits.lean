import SigningSchema.Proofs.Coercion.Faults
import SigningSchema.Proofs.Wire.Filling
import SigningSchema.Proofs.Wire.Writing

-- Values that do not fit their place: where they differ from what is declared there, which of the
-- differences a writer reports, and which are gone before it looks.

namespace SigningSchema

open Wire Writer

namespace WireSchema

-- What is wrong at a place: no object for a message, a list for one value, one value for a list, or
-- a scalar of another kind.
inductive Difference where
  | form
  | many (field : WireField)
  | lone (field : WireField)
  | kind (field : WireField)

structure Fault where
  path : FieldPath
  expected : String
  found : Value
  difference : Difference

namespace Fault

def error (fault : Fault) : CoercionError := .shape fault.path fault.expected fault.found.kindName

-- A zero that stands alone in a scalar field is left off the wire before anybody asks for its kind.
def Dropped (fault : Fault) : Prop :=
  ∃ field, fault.difference = .kind field ∧ field.repeated = false ∧
    (omitsZero field.type && fault.found.isWireDefault) = true

-- Whatever stands for one message is an object once it has been filled up.
def FilledOver (fault : Fault) : Prop :=
  fault.difference = .form ∨
    ∃ field inner, fault.difference = .many field ∧ field.type = .message inner

end Fault

-- The faults of a value in its place, at any depth. What is above a fault is as declared.
inductive Misfit (schema : WireSchema) : Slot → FieldPath → Value → Fault → Prop where
  | form {index : Nat} {path : FieldPath} {value : Value}
      (unlike : ∀ members, value ≠ .object members) :
      Misfit schema (.message index) path value ⟨path, "object", value, .form⟩
  | member {index : Nat} {path : FieldPath} {members : List (String × Value)} {field : WireField}
      {value : Value} {fault : Fault} (declared : field ∈ (schema.typeAt index).fields)
      (held : Table.get? members field.name = some value)
      (inner : Misfit schema (.field field) (path.field field.name) value fault) :
      Misfit schema (.message index) path (.object members) fault
  | many {field : WireField} {path : FieldPath} {items : List Value}
      (singular : field.repeated = false) :
      Misfit schema (.field field) path (.array items)
        ⟨path, schema.typeName field, .array items, .many field⟩
  | lone {field : WireField} {path : FieldPath} {value : Value} (repeated : field.repeated = true)
      (alone : value ≠ .null ∧ ∀ items, value ≠ .array items) :
      Misfit schema (.field field) path value ⟨path, "array", value, .lone field⟩
  | item {field : WireField} {path : FieldPath} {items : List Value} {position : Nat} {item : Value}
      {fault : Fault} (repeated : field.repeated = true) (located : items[position]? = some item)
      (inner : Misfit schema (.single field) (path.index position) item fault) :
      Misfit schema (.field field) path (.array items) fault
  | singular {field : WireField} {path : FieldPath} {value : Value} {fault : Fault}
      (singular : field.repeated = false) (alone : value ≠ .null ∧ ∀ items, value ≠ .array items)
      (inner : Misfit schema (.single field) path value fault) :
      Misfit schema (.field field) path value fault
  | kind {field : WireField} {kind : ScalarKind} {path : FieldPath} {value : Value}
      (type : field.type = .scalar kind) (other : value.ofKind kind = false) :
      Misfit schema (.single field) path value ⟨path, kind.keyword, value, .kind field⟩
  | nested {field : WireField} {index : Nat} {path : FieldPath} {value : Value} {fault : Fault}
      (type : field.type = .message index)
      (inner : Misfit schema (.message index) path value fault) :
      Misfit schema (.single field) path value fault

-- A fault lies in the value that it is a fault of.
theorem Misfit.within {schema : WireSchema} {slot : Slot} {path : FieldPath} {value : Value}
    {fault : Fault} (misfit : schema.Misfit slot path value fault) : fault.error.Within path := by
  induction misfit with
  | form | many | lone | kind => exact CoercionError.within_of_path rfl
  | member _ _ _ ih => exact ih.of_field
  | item _ _ _ ih => exact ih.of_index
  | singular _ _ _ ih => exact ih
  | nested _ _ ih => exact ih

def Flawed (schema : WireSchema) (counts : Fault → Prop) (slot : Slot) (path : FieldPath)
    (value : Value) : Prop :=
  ∃ fault, schema.Misfit slot path value fault ∧ counts fault

variable {schema : WireSchema} {counts : Fault → Prop} {field : WireField} {index : Nat}
variable {path : FieldPath} {value : Value}

theorem flawed_object {members : List (String × Value)} :
    schema.Flawed counts (.message index) path (.object members) ↔
      ∃ field ∈ (schema.typeAt index).fields, ∃ value, Table.get? members field.name = some value ∧
        schema.Flawed counts (.field field) (path.field field.name) value := by
  constructor
  · rintro ⟨fault, misfit, counted⟩
    cases misfit with
    | form unlike => exact absurd rfl (unlike members)
    | member declared held inner => exact ⟨_, declared, _, held, fault, inner, counted⟩
  · rintro ⟨field, declared, value, held, fault, inner, counted⟩
    exact ⟨fault, .member declared held inner, counted⟩

theorem flawed_unlike (unlike : ∀ members, value ≠ .object members) :
    schema.Flawed counts (.message index) path value ↔ counts ⟨path, "object", value, .form⟩ := by
  constructor
  · rintro ⟨fault, misfit, counted⟩
    cases misfit with
    | form _ => exact counted
    | member => exact absurd rfl (unlike _)
  · exact fun counted => ⟨_, .form unlike, counted⟩

theorem not_flawed_null : ¬ schema.Flawed counts (.field field) path .null := by
  rintro ⟨fault, misfit, _⟩
  cases misfit with
  | lone _ alone => exact alone.1 rfl
  | singular _ alone _ => exact alone.1 rfl

theorem flawed_many (singular : field.repeated = false) {items : List Value} :
    schema.Flawed counts (.field field) path (.array items) ↔
      counts ⟨path, schema.typeName field, .array items, .many field⟩ := by
  constructor
  · rintro ⟨fault, misfit, counted⟩
    cases misfit with
    | many _ => exact counted
    | lone _ alone => exact absurd rfl (alone.2 items)
    | item repeated _ _ => exact absurd (singular.symm.trans repeated) Bool.false_ne_true
    | singular _ alone _ => exact absurd rfl (alone.2 items)
  · exact fun counted => ⟨_, .many singular, counted⟩

theorem flawed_items (repeated : field.repeated = true) {items : List Value} :
    schema.Flawed counts (.field field) path (.array items) ↔
      ∃ position item, items[position]? = some item ∧
        schema.Flawed counts (.single field) (path.index position) item := by
  constructor
  · rintro ⟨fault, misfit, counted⟩
    cases misfit with
    | many singular => exact absurd (singular.symm.trans repeated) Bool.false_ne_true
    | lone _ alone => exact absurd rfl (alone.2 items)
    | item _ located inner => exact ⟨_, _, located, fault, inner, counted⟩
    | singular _ alone _ => exact absurd rfl (alone.2 items)
  · rintro ⟨position, item, located, fault, inner, counted⟩
    exact ⟨fault, .item repeated located inner, counted⟩

theorem flawed_lone (repeated : field.repeated = true)
    (alone : value ≠ .null ∧ ∀ items, value ≠ .array items) :
    schema.Flawed counts (.field field) path value ↔ counts ⟨path, "array", value, .lone field⟩ := by
  constructor
  · rintro ⟨fault, misfit, counted⟩
    cases misfit with
    | many _ => exact absurd rfl (alone.2 _)
    | lone _ _ => exact counted
    | item => exact absurd rfl (alone.2 _)
    | singular singular _ _ => exact absurd (singular.symm.trans repeated) Bool.false_ne_true
  · exact fun counted => ⟨_, .lone repeated alone, counted⟩

theorem flawed_singular (singular : field.repeated = false)
    (alone : value ≠ .null ∧ ∀ items, value ≠ .array items) :
    schema.Flawed counts (.field field) path value ↔
      schema.Flawed counts (.single field) path value := by
  constructor
  · rintro ⟨fault, misfit, counted⟩
    cases misfit with
    | many _ => exact absurd rfl (alone.2 _)
    | lone repeated _ => exact absurd (singular.symm.trans repeated) Bool.false_ne_true
    | item => exact absurd rfl (alone.2 _)
    | singular _ _ inner => exact ⟨fault, inner, counted⟩
  · rintro ⟨fault, inner, counted⟩
    exact ⟨fault, .singular singular alone inner, counted⟩

theorem flawed_scalar {kind : ScalarKind} (type : field.type = .scalar kind) :
    schema.Flawed counts (.single field) path value ↔
      value.ofKind kind = false ∧ counts ⟨path, kind.keyword, value, .kind field⟩ := by
  constructor
  · rintro ⟨fault, misfit, counted⟩
    cases misfit with
    | kind same other =>
      cases type.symm.trans same
      exact ⟨other, counted⟩
    | nested other _ => cases type.symm.trans other
  · rintro ⟨other, counted⟩
    exact ⟨_, .kind type other, counted⟩

theorem flawed_nested {inner : Nat} (type : field.type = .message inner) :
    schema.Flawed counts (.single field) path value ↔
      schema.Flawed counts (.message inner) path value := by
  constructor
  · rintro ⟨fault, misfit, counted⟩
    cases misfit with
    | kind other _ => cases type.symm.trans other
    | nested same below =>
      cases type.symm.trans same
      exact ⟨fault, below, counted⟩
  · rintro ⟨fault, below, counted⟩
    exact ⟨fault, .nested type below, counted⟩

-- The same case by case for values that fit.
theorem conforms_object {members : List (String × Value)} :
    schema.Conforms (.message index) (.object members) ↔
      ∀ field ∈ (schema.typeAt index).fields, ∀ value,
        Table.get? members field.name = some value → schema.Conforms (.field field) value := by
  refine ⟨fun fits => ?_, .object⟩
  cases fits with
  | object fit => exact fit

theorem conforms_items (repeated : field.repeated = true) {items : List Value} :
    schema.Conforms (.field field) (.array items) ↔
      ∀ item ∈ items, schema.Conforms (.single field) item := by
  refine ⟨fun fits => ?_, .list repeated⟩
  cases fits with
  | singular singular _ => exact absurd (singular.symm.trans repeated) Bool.false_ne_true
  | list _ fit => exact fit

theorem not_conforms_many (singular : field.repeated = false) {items : List Value} :
    ¬ schema.Conforms (.field field) (.array items) := by
  intro fits
  cases fits with
  | singular _ inner => exact inner.single_cases.2 items rfl
  | list repeated _ => exact absurd (singular.symm.trans repeated) Bool.false_ne_true

theorem conforms_alone (alone : value ≠ .null ∧ ∀ items, value ≠ .array items) :
    schema.Conforms (.field field) value ↔
      field.repeated = false ∧ schema.Conforms (.single field) value := by
  refine ⟨fun fits => ?_, fun ⟨singular, inner⟩ => .singular singular inner⟩
  cases fits with
  | unset => exact absurd rfl alone.1
  | singular singular inner => exact ⟨singular, inner⟩
  | list => exact absurd rfl (alone.2 _)

theorem conforms_scalar {kind : ScalarKind} (type : field.type = .scalar kind) :
    schema.Conforms (.single field) value ↔ value.ofKind kind = true := by
  refine ⟨fun fits => ?_, .scalar type⟩
  cases fits with
  | scalar same fits =>
    cases type.symm.trans same
    exact fits
  | message other _ => cases type.symm.trans other

theorem conforms_nested {inner : Nat} (type : field.type = .message inner) :
    schema.Conforms (.single field) value ↔ schema.Conforms (.message inner) value := by
  refine ⟨fun fits => ?_, .message type⟩
  cases fits with
  | scalar other _ => cases type.symm.trans other
  | message same fits =>
    cases type.symm.trans same
    exact fits

-- A value fits its place exactly where it has no fault.
theorem not_conforms_iff (slot : Slot) (value : Value) (path : FieldPath) :
    ¬ schema.Conforms slot value ↔ schema.Flawed (fun _ => True) slot path value := by
  refine SlotCases.all (motive := fun slot value => ∀ path,
    ¬ schema.Conforms slot value ↔ schema.Flawed (fun _ => True) slot path value) ⟨?object, ?unlike,
    ?unset, ?list, ?alone, ?single⟩ slot value path
  case object =>
    intro index members ih path
    rw [conforms_object, flawed_object]
    simp only [not_forall, exists_prop]
    refine exists_congr fun field => and_congr_right fun _ => exists_congr fun value => ?_
    exact and_congr_right fun held => ih field value held _
  case unlike =>
    intro index value unlike path
    refine iff_of_true ?_ ((flawed_unlike unlike).mpr trivial)
    rintro ⟨⟩
    exact unlike _ rfl
  case unset => exact fun field path => iff_of_false (not_not_intro .unset) not_flawed_null
  case list =>
    intro field items ih path
    cases several : field.repeated with
    | false => exact iff_of_true (not_conforms_many several) ((flawed_many several).mpr trivial)
    | true =>
      rw [conforms_items several, flawed_items several]
      simp only [not_forall, exists_prop]
      constructor
      · rintro ⟨item, inside, unfit⟩
        obtain ⟨position, located⟩ := List.mem_iff_getElem?.mp inside
        exact ⟨position, item, located, (ih item inside _).mp unfit⟩
      · rintro ⟨position, item, located, flawed⟩
        have inside := List.mem_of_getElem? located
        exact ⟨item, inside, (ih item inside _).mpr flawed⟩
  case alone =>
    intro field value alone ih path
    rw [conforms_alone alone]
    cases several : field.repeated with
    | true => exact iff_of_true (by simp) ((flawed_lone several alone).mpr trivial)
    | false => rw [flawed_singular several alone, ← ih path, eq_self, true_and]
  case single =>
    intro field value ih path
    cases type : field.type with
    | scalar kind => rw [conforms_scalar type, flawed_scalar type, and_true, Bool.not_eq_true]
    | message inner => rw [conforms_nested type, flawed_nested type, ih inner type path]

theorem not_flawed_of_conforms {slot : Slot} (fits : schema.Conforms slot value) :
    ¬ schema.Flawed counts slot path value :=
  fun ⟨fault, misfit, _⟩ => (not_conforms_iff slot value path).mpr ⟨fault, misfit, trivial⟩ fits

theorem flawed_fill (distinct : schema.DistinctNames) :
    schema.Flawed counts (.message index) path (schema.fill index value) ↔
      ∃ field ∈ (schema.typeAt index).fields, schema.Flawed counts (.field field)
        (path.field field.name) (schema.fillField field (value.member? field.name)) := by
  rw [fill_eq, flawed_object]
  refine exists_congr fun field => and_congr_right fun declared => ?_
  simp only [get?_fillFields distinct declared value, Option.some.injEq, exists_eq_left']

theorem not_flawed_fill_unlike (distinct : schema.DistinctNames)
    (unlike : ∀ members, value ≠ .object members) :
    ¬ schema.Flawed counts (.message index) path (schema.fill index value) := by
  rw [flawed_fill distinct]
  rintro ⟨field, _, flawed⟩
  rw [Value.member?_unlike unlike] at flawed
  exact not_flawed_of_conforms (blankField_conforms field) flawed

-- Filling takes away the faults that it covers, and leaves cause to report wherever another is left.
theorem flawed_fillAt (distinct : schema.DistinctNames) (slot : Slot) (value : Value)
    (path : FieldPath) :
    schema.Flawed (fun fault => ¬ fault.Dropped) slot path (schema.fillAt slot value) ↔
      schema.Flawed (fun fault => ¬ fault.Dropped ∧ ¬ fault.FilledOver) slot path value := by
  refine SlotCases.all (motive := fun slot value => ∀ path,
    schema.Flawed (fun fault => ¬ fault.Dropped) slot path (schema.fillAt slot value) ↔
      schema.Flawed (fun fault => ¬ fault.Dropped ∧ ¬ fault.FilledOver) slot path value) ⟨?object,
    ?unlike, ?unset, ?list, ?alone, ?single⟩ slot value path
  case object =>
    intro index members ih path
    rw [fillAt, flawed_fill distinct, flawed_object]
    refine exists_congr fun field => and_congr_right fun _ => ?_
    cases held : Table.get? members field.name with
    | none =>
      rw [show Value.member? (.object members) field.name = none from held]
      exact iff_of_false (not_flawed_of_conforms (blankField_conforms field)) (by simp)
    | some value =>
      rw [show Value.member? (.object members) field.name = some value from held]
      simpa [fillAt] using ih field value held _
  case unlike =>
    intro index value unlike path
    refine iff_of_false (not_flawed_fill_unlike distinct unlike) ?_
    rw [flawed_unlike unlike]
    exact fun both => both.2 (.inl rfl)
  case unset =>
    exact fun field path =>
      iff_of_false (not_flawed_of_conforms (blankField_conforms field)) not_flawed_null
  case list =>
    intro field items ih path
    rw [fillAt, fillField]
    cases several : field.repeated with
    | true =>
      rw [if_pos rfl, flawed_items several, flawed_items several]
      refine exists_congr fun position => ?_
      rw [List.getElem?_map]
      cases located : items[position]? with
      | none => simp
      | some item => simpa [fillAt] using ih item (List.mem_of_getElem? located) _
    | false =>
      rw [if_neg Bool.noConfusion, flawed_many several]
      cases type : field.type with
      | scalar kind =>
        simp only [fillSingle, type]
        rw [flawed_many several]
        refine (and_iff_left ?_).symm
        rintro (⟨⟨⟩⟩ | ⟨_, inner, ⟨⟨⟩⟩, other⟩)
        cases type.symm.trans other
      | message inner =>
        refine iff_of_false ?_ fun both => both.2 (.inr ⟨field, inner, rfl, type⟩)
        simp only [fillSingle, type]
        rw [flawed_singular several (schema.fill_alone inner _), flawed_nested type]
        exact not_flawed_fill_unlike distinct fun _ => Value.noConfusion
  case alone =>
    intro field value alone ih path
    rw [fillAt, fillField_single alone]
    cases several : field.repeated with
    | true =>
      rw [flawed_lone several (fillSingle_alone field alone), flawed_lone several alone]
      refine iff_of_true ?_ ⟨?_, ?_⟩
      · rintro ⟨_, other, _⟩
        exact Difference.noConfusion other
      · rintro ⟨_, other, _⟩
        exact Difference.noConfusion other
      · rintro (other | ⟨_, _, other, _⟩) <;> exact Difference.noConfusion other
    | false =>
      rw [flawed_singular several (fillSingle_alone field alone), flawed_singular several alone]
      exact ih path
  case single =>
    intro field value ih path
    cases type : field.type with
    | scalar kind =>
      rw [show schema.fillAt (.single field) value = value by simp only [fillAt, fillSingle, type],
        flawed_scalar type, flawed_scalar type]
      refine and_congr_right fun _ => (and_iff_left ?_).symm
      rintro (other | ⟨_, _, other, _⟩) <;> exact Difference.noConfusion other
    | message inner =>
      rw [flawed_nested type, flawed_nested type, ← ih inner type path]
      simp only [fillAt, fillSingle, type]

end WireSchema

end SigningSchema
