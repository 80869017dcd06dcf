import SigningSchema.Proofs.Wire.Filling
import SigningSchema.Proofs.Wire.Writing

-- Filling up what has been filled up changes nothing, whatever the value and however its types refer
-- to each other: the recursion follows the value, and what it adds to it has no messages inside.

namespace SigningSchema

namespace Value

-- At most so many levels of lists and objects.
inductive Nests : Nat → Value → Prop where
  | flat {depth : Nat} {value : Value} (items : ∀ items, value ≠ .array items)
      (members : ∀ members, value ≠ .object members) : Nests depth value
  | array {depth : Nat} {items : List Value} (inside : ∀ item ∈ items, Nests depth item) :
      Nests (depth + 1) (.array items)
  | object {depth : Nat} {members : List (String × Value)}
      (inside : ∀ name value, (name, value) ∈ members → Nests depth value) :
      Nests (depth + 1) (.object members)

theorem Nests.mono {depth deeper : Nat} {value : Value} (nests : value.Nests depth)
    (below : depth ≤ deeper) : value.Nests deeper := by
  induction nests generalizing deeper with
  | flat items members => exact .flat items members
  | @array depth items _ ih =>
    obtain ⟨more, rfl⟩ : ∃ more, deeper = more + 1 := ⟨deeper - 1, by omega⟩
    exact .array fun item inside => ih item inside (by omega)
  | @object depth members _ ih =>
    obtain ⟨more, rfl⟩ : ∃ more, deeper = more + 1 := ⟨deeper - 1, by omega⟩
    exact .object fun name value inside => ih name value inside (by omega)

theorem exists_nests (value : Value) : value.Nests (sizeOf value) := by
  induction size : sizeOf value using Nat.strongRecOn generalizing value with
  | _ size ih =>
    subst size
    cases value with
    | array items =>
      rw [Value.array.sizeOf_spec, Nat.add_comm]
      refine .array fun item inside => ?_
      have smaller := List.sizeOf_lt_of_mem inside
      exact (ih _ (by simp only [Value.array.sizeOf_spec]; omega) item rfl).mono (by omega)
    | object members =>
      rw [Value.object.sizeOf_spec, Nat.add_comm]
      refine .object fun name value inside => ?_
      have smaller := List.sizeOf_lt_of_mem inside
      simp only [Prod.mk.sizeOf_spec] at smaller
      exact (ih _ (by simp only [Value.object.sizeOf_spec]; omega) value rfl).mono (by omega)
    | _ => exact .flat (fun _ => Value.noConfusion) fun _ => Value.noConfusion

end Value

namespace WireSchema

variable {schema : WireSchema} {index : Nat} {field : WireField} {value : Value}

theorem fillField_blank (field : WireField) :
    schema.fillField field (some (blankField field)) = blankField field := by
  cases several : field.repeated with
  | true => rw [blankField, if_pos several, fillField, if_pos several, List.map_nil]
  | false =>
    cases type : field.type with
    | scalar kind => cases kind <;> simp [blankField, fillField, fillSingle, several, type, Value.defaultFor]
    | message inner => simp [blankField, fillField, several, type]

-- What filling a table again holds for a field that is full in it.
def Refills (schema : WireSchema) (table : Table Value) (filled pair : String × Value) : Prop :=
  filled.1 = pair.1 ∧ ∃ field : WireField, pair.1 = field.name ∧
    schema.fillField field (some pair.2) = pair.2 ∧
    filled.2 = schema.fillField field (table.get? field.name)

-- A message is full where every field holds what it would be filled with. Of fields with one name the
-- last decides, and it does so again.
theorem fill_of_settled {pairs : List (String × Value)}
    (settled : List.Forall₂ (fun field pair => pair.1 = field.name ∧
      schema.fillField field (some pair.2) = pair.2) (schema.typeAt index).fields pairs) :
    schema.fill index (.object (Table.ofList pairs)) = .object (Table.ofList pairs) := by
  have inStep : List.Forall₂ (schema.Refills (Table.ofList pairs))
      (schema.fillFields index (.object (Table.ofList pairs))) pairs := by
    rw [fillFields, List.forall₂_map_left_iff]
    refine settled.imp ?_
    rintro field pair ⟨same, full⟩
    exact ⟨same.symm, field, same, full, rfl⟩
  rw [fill_eq]
  refine congrArg Value.object
    (Table.ext_get? (Table.ascending_ofList _) (Table.ascending_ofList _) fun key => ?_)
  have here := Table.get?_ofList_related _ (fun _ _ both => both.1) inStep key
  generalize (Table.ofList (schema.fillFields index (.object (Table.ofList pairs)))).get? key = filled
    at here ⊢
  generalize held : (Table.ofList pairs).get? key = given at here ⊢
  cases here with
  | none => rfl
  | some both =>
    obtain ⟨_, field, rfl, full, made⟩ := both
    rw [held] at made
    exact congrArg some (made.trans full)

theorem fill_fill_of_members
    (each : ∀ field member, value.member? field.name = some member →
      schema.fillField field (some (schema.fillField field (some member)))
        = schema.fillField field (some member)) :
    schema.fill index (schema.fill index value) = schema.fill index value := by
  rw [schema.fill_eq index value]
  refine fill_of_settled ?_
  rw [fillFields, List.forall₂_map_right_iff, List.forall₂_same]
  refine fun field _ => ⟨rfl, ?_⟩
  cases given : value.member? field.name with
  | none => exact fillField_blank field
  | some member => exact each field member given

theorem fill_fill_of_unlike (unlike : ∀ members, value ≠ .object members) :
    schema.fill index (schema.fill index value) = schema.fill index value := by
  refine fill_fill_of_members fun field member given => ?_
  rw [Value.member?_unlike unlike] at given
  cases given

theorem fillAt_fillAt (slot : Slot) (value : Value) :
    schema.fillAt slot (schema.fillAt slot value) = schema.fillAt slot value := by
  refine SlotCases.all (motive := fun slot value =>
    schema.fillAt slot (schema.fillAt slot value) = schema.fillAt slot value) ⟨?object, ?unlike,
    ?unset, ?list, ?alone, ?single⟩ slot value
  case object => exact fun index members ih => fill_fill_of_members ih
  case unlike =>
    exact fun index value unlike => fill_fill_of_unlike unlike
  case unset => exact fun field => fillField_blank field
  case list =>
    intro field items ih
    simp only [fillAt] at ih ⊢
    cases several : field.repeated with
    | true =>
      simp only [fillField, several, if_true, List.map_map]
      exact congrArg Value.array (List.map_congr_left ih)
    | false =>
      rw [fillField, several, if_neg Bool.noConfusion]
      cases type : field.type with
      | scalar kind => simp only [fillSingle, type, fillField, several, Bool.false_eq_true, if_false]
      | message inner =>
        rw [show schema.fillSingle field (.array items) = schema.fill inner (.array items) by
          simp only [fillSingle, type], fillField_single (schema.fill_alone inner _), fillSingle, type]
        exact fill_fill_of_unlike fun _ => Value.noConfusion
  case alone =>
    intro field value alone ih
    simp only [fillAt] at ih ⊢
    rw [fillField_single alone, fillField_single (fillSingle_alone field alone), ih]
  case single =>
    intro field value ih
    simp only [fillAt] at ih ⊢
    cases type : field.type with
    | scalar kind => simp only [fillSingle, type]
    | message inner => simp only [fillSingle, type, ih inner type]

theorem fill_object (index : Nat) (value : Value) :
    ∃ members, schema.fill index value = .object members ∧ Table.Ascending members ∧
      ∀ name, name ∈ Table.keys members ↔
        name ∈ (schema.typeAt index).fields.map WireField.name := by
  refine ⟨_, schema.fill_eq index value, Table.ascending_ofList _, fun name => ?_⟩
  rw [Table.mem_keys_ofList, fillFields, List.map_map]
  rfl

theorem blankField_nests (field : WireField) (depth : Nat) :
    (blankField field).Nests (depth + 1) := by
  unfold blankField
  split
  · exact .array fun _ none => absurd none List.not_mem_nil
  · split
    · rename_i kind _
      cases kind <;> exact .flat (fun _ => Value.noConfusion) fun _ => Value.noConfusion
    · exact .flat (fun _ => Value.noConfusion) fun _ => Value.noConfusion

theorem fill_nests_of_members {depth : Nat}
    (each : ∀ field member, value.member? field.name = some member →
      (schema.fillField field (some member)).Nests (depth + 1)) :
    (schema.fill index value).Nests (depth + 2) := by
  rw [fill_eq]
  refine .object fun name held inside => ?_
  have found := Table.mem_of_get?_ofList (Table.get?_of_mem (Table.ascending_ofList _) inside)
  obtain ⟨field, _, same⟩ := List.mem_map.mp found
  cases same
  cases given : value.member? field.name with
  | none => exact blankField_nests field depth
  | some member => exact each field member given

theorem fill_nests_of_unlike (unlike : ∀ members, value ≠ .object members) (depth : Nat) :
    (schema.fill index value).Nests (depth + 2) := by
  refine fill_nests_of_members fun field member given => ?_
  rw [Value.member?_unlike unlike] at given
  cases given

-- What filling adds lies at most two levels below the value, however deep its types can go.
theorem fillAt_nests (slot : Slot) (value : Value) (depth : Nat) (nests : value.Nests depth) :
    (schema.fillAt slot value).Nests (depth + 2) := by
  refine SlotCases.all (motive := fun slot value => ∀ depth, value.Nests depth →
    (schema.fillAt slot value).Nests (depth + 2)) ⟨?object, ?unlike, ?unset, ?list, ?alone, ?single⟩
    slot value depth nests
  case object =>
    intro index members ih depth nests
    cases nests with
    | flat _ none => exact absurd rfl (none members)
    | object inside =>
      exact fill_nests_of_members fun field member given =>
        ih field member given _ (inside field.name member (Table.mem_of_get? given))
  case unlike =>
    exact fun index value unlike depth _ => fill_nests_of_unlike unlike depth
  case unset => exact fun field depth _ => blankField_nests field (depth + 1)
  case list =>
    intro field items ih depth nests
    have below := nests
    cases nests with
    | flat none _ => exact absurd rfl (none items)
    | array inside =>
      rw [fillAt, fillField]
      split
      · refine .array fun item member => ?_
        obtain ⟨given, among, rfl⟩ := List.mem_map.mp member
        exact ih given among _ (inside given among)
      · unfold fillSingle
        split
        · exact below.mono (by omega)
        · exact fill_nests_of_unlike (fun _ => Value.noConfusion) _
  case alone =>
    intro field value alone ih depth nests
    rw [fillAt, fillField_single alone]
    exact ih depth nests
  case single =>
    intro field value ih depth nests
    rw [fillAt, fillSingle]
    split
    · exact nests.mono (by omega)
    · rename_i inner type
      exact ih inner type depth nests

end WireSchema

end SigningSchema
