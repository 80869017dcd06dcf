import SigningSchema.Proofs.Table
import SigningSchema.Proofs.Wire.Conformance

-- Filling a value up, field by field, and what it keeps.

namespace SigningSchema

open Wire

theorem Value.member?_unlike {value : Value} (unlike : ∀ members, value ≠ .object members)
    (name : String) : value.member? name = none := by
  cases value with
  | object members => exact absurd rfl (unlike members)
  | _ => rfl

namespace WireSchema

def DistinctNames (schema : WireSchema) : Prop :=
  ∀ type ∈ schema.types, (type.fields.map WireField.name).Nodup

-- What every schema is expected to be: fields of a type can be told apart by name and by number,
-- and field types exist.
structure WellFormed (schema : WireSchema) : Prop where
  names : schema.DistinctNames
  tags : ∀ type ∈ schema.types, (type.fields.map WireField.tag).Nodup
  numbers : ∀ type ∈ schema.types, ∀ field ∈ type.fields, IsFieldNumber field.tag.toNat
  indices : ∀ type ∈ schema.types, ∀ field ∈ type.fields, ∀ index,
    field.type = .message index → index < schema.types.length

def blankField (field : WireField) : Value :=
  if field.repeated then .array []
  else match field.type with
    | .scalar kind => .defaultFor kind
    | .message _ => .null

def fillSingle (schema : WireSchema) (field : WireField) (value : Value) : Value :=
  match field.type with
  | .scalar _ => value
  | .message inner => schema.fill inner value

def fillField (schema : WireSchema) (field : WireField) (given : Option Value) : Value :=
  match given with
  | none | some .null => blankField field
  | some (.array items) =>
    if field.repeated then .array (items.map (schema.fillSingle field))
    else schema.fillSingle field (.array items)
  | some value => schema.fillSingle field value

def fillFields (schema : WireSchema) (index : Nat) (value : Value) : List (String × Value) :=
  (schema.typeAt index).fields.map fun field =>
    (field.name, schema.fillField field (value.member? field.name))

variable {schema : WireSchema} {index : Nat} {type : MessageType} {field : WireField}

theorem fill_eq (schema : WireSchema) (index : Nat) (value : Value) :
    schema.fill index value = .object (Table.ofList (schema.fillFields index value)) := by
  rw [fill, fillFields]
  refine congrArg (fun fields => Value.object (Table.ofList fields)) (List.map_congr_left ?_)
  intro field _
  refine congrArg (Prod.mk field.name) ?_
  unfold fillField fillSingle blankField
  cases field.type <;> cases field.repeated <;> split <;> simp_all

theorem fillField_single {value : Value} (single : value ≠ .null ∧ ∀ items, value ≠ .array items) :
    schema.fillField field (some value) = schema.fillSingle field value := by
  rw [fillField]
  · exact single.1
  · exact single.2

theorem fill_alone (schema : WireSchema) (index : Nat) (value : Value) :
    schema.fill index value ≠ .null ∧ ∀ items, schema.fill index value ≠ .array items := by
  rw [fill_eq]
  exact ⟨Value.noConfusion, fun _ => Value.noConfusion⟩

theorem fillSingle_alone (field : WireField) {value : Value}
    (alone : value ≠ .null ∧ ∀ items, value ≠ .array items) :
    schema.fillSingle field value ≠ .null ∧ ∀ items, schema.fillSingle field value ≠ .array items := by
  unfold fillSingle
  split
  · exact alone
  · exact schema.fill_alone _ value

theorem typeAt_of_located (located : schema.types[index]? = some type) :
    schema.typeAt index = type := by
  rw [typeAt, located, Option.getD_some]

theorem mem_of_located (located : schema.types[index]? = some type) : type ∈ schema.types :=
  List.mem_of_getElem? located

theorem DistinctNames.typeAt (distinct : schema.DistinctNames) (index : Nat) :
    ((schema.typeAt index).fields.map WireField.name).Nodup := by
  unfold WireSchema.typeAt
  cases located : schema.types[index]? with
  | none => exact List.nodup_nil
  | some type => exact distinct type (mem_of_located located)

theorem get?_fillFields (distinct : schema.DistinctNames) (declared : field ∈ (schema.typeAt index).fields)
    (value : Value) :
    (Table.ofList (schema.fillFields index value)).get? field.name
      = some (schema.fillField field (value.member? field.name)) := by
  refine Table.get?_ofList ?_ (List.mem_map.mpr ⟨field, declared, rfl⟩)
  rw [fillFields, List.map_map]
  exact distinct.typeAt index

theorem blankField_conforms (field : WireField) : schema.Conforms (.field field) (blankField field) := by
  unfold blankField
  split
  · rename_i repeated
    exact .list repeated (by simp)
  · rename_i single
    have singular : field.repeated = false := by simpa using single
    split
    · rename_i kind type
      cases kind
      case duration | timestamp => exact .unset
      all_goals exact .singular singular (.scalar type rfl)
    · exact .unset

def fillAt (schema : WireSchema) : Slot → Value → Value
  | .message index, value => schema.fill index value
  | .field field, value => schema.fillField field (some value)
  | .single field, value => schema.fillSingle field value

-- Filling a value that fits a place gives such a value again.
theorem fillAt_conforms (distinct : schema.DistinctNames) {slot : Slot} {value : Value}
    (conforms : schema.Conforms slot value) : schema.Conforms slot (schema.fillAt slot value) := by
  induction conforms with
  | @object index members fit ih =>
    show schema.Conforms _ (schema.fill index _)
    rw [fill_eq]
    refine .object fun field declared value found => ?_
    rw [get?_fillFields distinct declared] at found
    cases found
    cases given : Value.member? (.object members) field.name with
    | none => exact blankField_conforms field
    | some member => exact ih field declared member given
  | @unset field => exact blankField_conforms field
  | @singular field value singular fits ih =>
    show schema.Conforms _ (schema.fillField field (some value))
    rw [fillField_single fits.single_cases]
    exact .singular singular ih
  | @list field items repeated fit ih =>
    show schema.Conforms _ (schema.fillField field (some (.array items)))
    rw [fillField, if_pos repeated]
    refine .list repeated fun item member => ?_
    obtain ⟨given, inside, rfl⟩ := List.mem_map.mp member
    exact ih given inside
  | @scalar field kind value type fits =>
    show schema.Conforms _ (schema.fillSingle field value)
    simp only [fillSingle, type]
    exact .scalar type fits
  | @message field index value type fits ih =>
    show schema.Conforms _ (schema.fillSingle field value)
    simp only [fillSingle, type]
    exact .message type ih

end WireSchema

end SigningSchema
