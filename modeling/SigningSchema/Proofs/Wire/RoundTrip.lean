import SigningSchema.Proofs.Wire.Reader

-- A reader gets back what was written: the value filled up, where a floating-point zero
-- that is a member of its own has lost its sign. Each place of a message type has a law of
-- its own, and all of them hold for the bytes that may follow.

namespace SigningSchema

open Wire

namespace Value

mutual

-- Members that are floating-point zeros lose their sign; elements of lists keep it.
def plainZeros : Value → Value
  | .array items => .array (plainItems items)
  | .object members => .object (plainMembers members)
  | other => other.plainZero

def plainItems : List Value → List Value
  | [] => []
  | .object members :: rest => .object (plainMembers members) :: plainItems rest
  | item :: rest => item :: plainItems rest

def plainMembers : List (String × Value) → List (String × Value)
  | [] => []
  | (name, value) :: rest => (name, plainZeros value) :: plainMembers rest

end

def plainElement : Value → Value
  | .object members => .object (plainMembers members)
  | item => item

theorem plainItems_eq (items : List Value) : plainItems items = items.map plainElement := by
  induction items with
  | nil => rw [plainItems, List.map_nil]
  | cons item rest ih => cases item <;> simp [plainItems, plainElement, ih]

theorem plainMembers_eq (members : List (String × Value)) :
    plainMembers members = Table.mapValues plainZeros members := by
  induction members with
  | nil => rw [plainMembers, Table.mapValues, List.map_nil]
  | cons member rest ih =>
    obtain ⟨name, value⟩ := member
    rw [plainMembers, ih]
    rfl

theorem plainElement_ofKind {kind : ScalarKind} {value : Value} (fits : value.ofKind kind = true) :
    value.plainElement = value := by
  cases kind <;> cases value <;> first | rfl | cases fits

theorem plainZeros_ofKind {kind : ScalarKind} {value : Value} (fits : value.ofKind kind = true) :
    value.plainZeros = value.plainZero := by
  cases kind <;> cases value <;> first | rw [plainZeros] <;> simp | cases fits

end Value

namespace WireSchema

variable {schema : WireSchema} {index : Nat} {type : MessageType} {field : WireField}

theorem plainZeros_fill (schema : WireSchema) (index : Nat) (value : Value) :
    (schema.fill index value).plainZeros
      = .object (Table.ofList (Table.mapValues Value.plainZeros (schema.fillFields index value))) := by
  rw [fill_eq, Value.plainZeros, Value.plainMembers_eq, Table.mapValues_ofList]

theorem plainZeros_blankField (field : WireField) : (blankField field).plainZeros = blankField field := by
  unfold blankField
  split
  · rw [Value.plainZeros, Value.plainItems]
  · split
    · rename_i kind type
      cases kind <;> rw [Value.defaultFor, Value.plainZeros] <;> simp [Value.plainZero]
    · rw [Value.plainZeros] <;> simp [Value.plainZero]

def Declares (schema : WireSchema) (field : WireField) : Prop :=
  ∃ type ∈ schema.types, field ∈ type.fields

-- The law of a place. The bytes of a field are read into a message where the field is still blank;
-- the bytes of a single value are one record of its field.
def Reads (schema : WireSchema) : Slot → Value → Prop
  | .message index, value => index < schema.types.length →
    schema.read index (schema.bytes (.message index) value) = some (schema.fill index value).plainZeros
  | .field field, value => ∀ (index : Nat) (type : MessageType) (members : Table Value) (suffix : Bytes),
    schema.types[index]? = some type → field ∈ type.fields → members.Ascending →
    members.get? field.name = some (blankField field) →
    schema.readMessage index members (schema.bytes (.field field) value ++ suffix)
      = schema.readMessage index
          (members.insert field.name (schema.fillField field (some value)).plainZeros) suffix
  | .single field, value => schema.Declares field → (field.repeated = true → isPacked field = false) →
    ∃ payload,
      (∀ suffix, readRecord (schema.bytes (.single field) value ++ suffix)
        = some (⟨field.tag.toNat, payload⟩, suffix)) ∧
      ∀ held, (field.repeated = false → held = blankField field) →
        schema.readField field (some held) payload = some [(schema.fillSingle field value).plainElement]

theorem reads_scalar {kind : ScalarKind} {value : Value} (valid : schema.WellFormed)
    (scalar : field.type = .scalar kind) (fits : value.ofKind kind = true) :
    schema.Reads (.single field) value := by
  intro declared separate
  obtain ⟨type, known, member⟩ := declared
  obtain ⟨payload, stands, read⟩ := payload?_roundtrip (payload?_of_ofKind fits)
  refine ⟨payload, ?_, ?_⟩
  · intro suffix
    rw [bytes_scalar schema scalar, List.append_assoc]
    exact readRecord_tag (valid.numbers type known field member) (read suffix)
  · intro held _
    have alone : (field.repeated && kind.isPackable) = false := by
      cases repeated : field.repeated with
      | false => rfl
      | true => simpa [isPacked, scalar] using separate repeated
    rw [readField]
    simp only [scalar, readScalars, alone, stands, Option.map_some, fillSingle,
      Value.plainElement_ofKind fits]

theorem reads_nested {inner : Nat} {value : Value} (valid : schema.WellFormed)
    (nested : field.type = .message inner) (reads : schema.Reads (.message inner) value) :
    schema.Reads (.single field) value := by
  intro declared _
  obtain ⟨type, known, member⟩ := declared
  refine ⟨.lengthDelimited (schema.bytes (.message inner) value), ?_, ?_⟩
  · intro suffix
    rw [bytes_nested schema nested, List.append_assoc]
    exact readRecord_tag (valid.numbers type known field member) (readPayload_lengthDelimited _ suffix)
  · intro held blank
    have begins : schema.resume inner field.repeated (some held) = schema.blank inner := by
      cases repeated : field.repeated with
      | true => rfl
      | false =>
        rw [blank repeated, blankField, repeated, nested]
        rfl
    have whole := reads (valid.indices type known field member inner nested)
    rw [read, plainZeros_fill] at whole
    obtain ⟨members, ran, same⟩ := Option.map_eq_some_iff.mp whole
    rw [readField]
    simp only [nested, begins, ran, Option.map_some, fillSingle]
    rw [same, ← plainZeros_fill, fill_eq, Value.plainZeros, Value.plainElement]

-- A field that is still blank takes the values of its first record.
theorem readMessage_first (valid : schema.WellFormed) (located : schema.types[index]? = some type)
    (member : field ∈ type.fields) {members : Table Value} {bytes suffix : Bytes} {payload : Payload}
    {values : List Value} (blank : members.get? field.name = some (blankField field))
    (read : readRecord (bytes ++ suffix) = some (⟨field.tag.toNat, payload⟩, suffix))
    (adds : schema.readField field (some (blankField field)) payload = some values) :
    schema.readMessage index members (bytes ++ suffix)
      = schema.readMessage index
          (members.insert field.name (place field (some (blankField field)) values)) suffix := by
  have known := valid.find? (mem_of_located located) member
  rw [readMessage_step located read known (by rw [blank]; exact adds), blank]

theorem reads_singular {value : Value} (valid : schema.WellFormed) (singular : field.repeated = false)
    (fits : schema.Conforms (.single field) value) (reads : schema.Reads (.single field) value) :
    schema.Reads (.field field) value := by
  intro index type members suffix located member ascending blank
  have place : ∀ value, place field (some (blankField field)) [value] = value := by
    intro value
    simp [WireSchema.place, singular]
  rw [fillField_single fits.single_cases, bytes_singular schema fits.single_cases]
  split
  · -- A zero that is left off is what the blank field holds already.
    rename_i omitted
    obtain ⟨omits, zero⟩ := Bool.and_eq_true_iff.mp omitted
    have same : (schema.fillSingle field value).plainZeros = blankField field := by
      cases fits with
      | @scalar _ kind _ scalar fits =>
        rw [scalar] at omits
        simp only [fillSingle, scalar, blankField, singular, Value.plainZeros_ofKind fits]
        exact Value.plainZero_of_isWireDefault fits omits zero
      | message nested _ =>
        rw [nested] at omits
        cases omits
    rw [same, Table.insert_of_get? ascending blank, List.nil_append]
  · rename_i written
    obtain ⟨payload, read, adds⟩ :=
      reads ⟨type, mem_of_located located, member⟩ (fun repeated => by simp [singular] at repeated)
    rw [readMessage_first valid located member blank (read suffix) (adds _ fun _ => rfl), place]
    suffices same : (schema.fillSingle field value).plainElement
        = (schema.fillSingle field value).plainZeros by rw [same]
    cases fits with
    | @scalar _ kind _ scalar fits =>
      rw [scalar] at written
      simp only [fillSingle, scalar, Value.plainZeros_ofKind fits, Value.plainElement_ofKind fits]
      exact (Value.plainZero_of_written fits (by simpa using written)).symm
    | @message _ inner _ nested _ =>
      simp only [fillSingle, nested]
      rw [fill_eq, Value.plainElement, Value.plainZeros]

theorem reads_unset : schema.Reads (.field field) .null := by
  intro index type members suffix located member ascending blank
  have same : (schema.fillField field (some .null)).plainZeros = blankField field :=
    plainZeros_blankField field
  rw [bytes_null, same, Table.insert_of_get? ascending blank, List.nil_append]

theorem plainZeros_fillField_list (repeated : field.repeated = true) (items : List Value) :
    (schema.fillField field (some (.array items))).plainZeros
      = .array (items.map fun item => (schema.fillSingle field item).plainElement) := by
  rw [fillField, if_pos repeated, Value.plainZeros, Value.plainItems_eq, List.map_map]
  rfl

-- Records of a list append to what the list holds already.
theorem readMessage_items (valid : schema.WellFormed) (located : schema.types[index]? = some type)
    (member : field ∈ type.fields) (repeated : field.repeated = true)
    (separate : isPacked field = false) {items : List Value}
    (reads : ∀ item ∈ items, schema.Reads (.single field) item) {members : Table Value}
    (ascending : members.Ascending) (earlier : List Value) (suffix : Bytes) :
    schema.readMessage index (members.insert field.name (.array earlier))
        (items.flatMap (schema.bytes (.single field)) ++ suffix)
      = schema.readMessage index
          (members.insert field.name
            (.array (earlier ++ items.map fun item => (schema.fillSingle field item).plainElement)))
          suffix := by
  induction items generalizing earlier with
  | nil => rw [List.flatMap_nil, List.nil_append, List.map_nil, List.append_nil]
  | cons item rest ih =>
    obtain ⟨payload, read, adds⟩ :=
      reads item List.mem_cons_self ⟨type, mem_of_located located, member⟩ fun _ => separate
    have known := valid.find? (mem_of_located located) member
    have held := Table.get?_insert_self members field.name (.array earlier)
    have grown : ∀ value, place field (some (.array earlier)) [value] = .array (earlier ++ [value]) := by
      intro value
      simp [place, repeated]
    rw [List.flatMap_cons, List.append_assoc,
      readMessage_step located (read _) known (by
        rw [held]
        exact adds _ fun single => by simp [repeated] at single),
      held, grown, Table.insert_insert ascending,
      ih (fun other inside => reads other (List.mem_cons_of_mem _ inside)), List.map_cons,
      List.append_assoc, List.singleton_append]

-- A packed list is one record.
theorem readMessage_run (valid : schema.WellFormed) (located : schema.types[index]? = some type)
    (member : field ∈ type.fields) (repeated : field.repeated = true) {kind : ScalarKind}
    (scalar : field.type = .scalar kind) (packable : kind.isPackable = true) {items : List Value}
    (fit : ∀ item ∈ items, item.ofKind kind = true) {members : Table Value}
    (blank : members.get? field.name = some (blankField field)) (suffix : Bytes) :
    schema.readMessage index members
        ((tag field.tag .lengthDelimited ++ lengthDelimited (runBytes field items)) ++ suffix)
      = schema.readMessage index (members.insert field.name (.array items)) suffix := by
  have number := valid.numbers type (mem_of_located located) field member
  have held : blankField field = .array [] := by simp [blankField, repeated]
  have run : runBytes field items = items.flatMap (scalarBytes kind) := by rw [runBytes, scalar]
  have read : readRecord ((tag field.tag .lengthDelimited ++ lengthDelimited (runBytes field items)) ++ suffix)
      = some (⟨field.tag.toNat, .lengthDelimited (runBytes field items)⟩, suffix) := by
    rw [List.append_assoc]
    exact readRecord_tag number (readPayload_lengthDelimited _ suffix)
  have adds : schema.readField field (some (blankField field)) (.lengthDelimited (runBytes field items))
      = some items := by
    rw [readField]
    simp only [scalar, readScalars, repeated, packable, Bool.and_self, run]
    exact run_roundtrip fit
  have placed : place field (some (blankField field)) items = .array items := by
    simp [place, repeated, held]
  rw [readMessage_first valid located member blank read adds, placed]

theorem reads_list {items : List Value} (valid : schema.WellFormed) (repeated : field.repeated = true)
    (fit : ∀ item ∈ items, schema.Conforms (.single field) item)
    (reads : ∀ item ∈ items, schema.Reads (.single field) item) :
    schema.Reads (.field field) (.array items) := by
  intro index type members suffix located member ascending blank
  have held : blankField field = .array [] := by simp [blankField, repeated]
  rw [plainZeros_fillField_list repeated]
  cases packed : isPacked field with
  | false =>
    have grown := readMessage_items valid located member repeated packed reads ascending [] suffix
    rw [← held, Table.insert_of_get? ascending blank] at grown
    rw [bytes_list schema items packed, grown, List.nil_append]
  | true =>
    cases scalar : field.type with
    | message inner => simp [isPacked, scalar] at packed
    | scalar kind =>
      have fits : ∀ item ∈ items, item.ofKind kind = true := by
        intro item inside
        cases fit item inside with
        | scalar same fits =>
          cases scalar.symm.trans same
          exact fits
        | message other _ => cases scalar.symm.trans other
      have kept : (items.map fun item => (schema.fillSingle field item).plainElement) = items := by
        refine (List.map_congr_left fun item inside => ?_).trans (List.map_id items)
        simp only [fillSingle, scalar, Value.plainElement_ofKind (fits item inside), id]
      rw [kept]
      by_cases empty : items = []
      · rw [empty, bytes_empty, ← held, Table.insert_of_get? ascending blank, List.nil_append]
      · rw [bytes_packed schema packed empty]
        exact readMessage_run valid located member repeated scalar
          (by simpa [isPacked, scalar] using packed) fits blank suffix

-- What a reader makes of one field of a value.
def readBack (schema : WireSchema) (given : List (String × Value)) (field : WireField) : String × Value :=
  (field.name, (schema.fillField field (Table.get? given field.name)).plainZeros)

theorem reads_fields (located : schema.types[index]? = some type) {given : List (String × Value)}
    {fields : List WireField} (declared : ∀ field ∈ fields, field ∈ type.fields)
    (distinct : (fields.map WireField.name).Nodup)
    (reads : ∀ field ∈ fields, ∀ value, Table.get? given field.name = some value →
      schema.Reads (.field field) value)
    {members : Table Value} (ascending : members.Ascending)
    (blank : ∀ field ∈ fields, members.get? field.name = some (blankField field)) :
    schema.readMessage index members (fields.flatMap (schema.memberBytes given))
      = some ((fields.map (schema.readBack given)).foldl
          (fun members pair => members.insert pair.1 pair.2) members) := by
  induction fields generalizing members with
  | nil => exact readMessage_nil located members
  | cons field rest ih =>
    obtain ⟨new, distinct⟩ := List.nodup_cons.mp distinct
    have next : schema.readMessage index members
          (schema.memberBytes given field ++ rest.flatMap (schema.memberBytes given))
        = schema.readMessage index (members.insert field.name (schema.readBack given field).2)
            (rest.flatMap (schema.memberBytes given)) := by
      unfold memberBytes readBack
      cases found : Table.get? given field.name with
      | none =>
        have same : (schema.fillField field none).plainZeros = blankField field :=
          plainZeros_blankField field
        simp only [same, Table.insert_of_get? ascending (blank field List.mem_cons_self), List.nil_append]
      | some value =>
        exact reads field List.mem_cons_self value found index type members _ located
          (declared field List.mem_cons_self) ascending (blank field List.mem_cons_self)
    rw [List.flatMap_cons, next, ih (fun other inside => declared other (List.mem_cons_of_mem _ inside))
      distinct (fun other inside => reads other (List.mem_cons_of_mem _ inside))
      (ascending.insert _ _), List.map_cons, List.foldl_cons]
    · rfl
    · intro other inside
      have differs : field.name ≠ other.name := fun same => new (same ▸ List.mem_map_of_mem inside)
      rw [Table.get?_insert_ne _ _ differs]
      exact blank other (List.mem_cons_of_mem _ inside)

theorem reads_object {members : List (String × Value)} (valid : schema.WellFormed)
    (reads : ∀ field ∈ (schema.typeAt index).fields, ∀ value, Table.get? members field.name = some value →
      schema.Reads (.field field) value) :
    schema.Reads (.message index) (.object members) := by
  intro inside
  have located : schema.types[index]? = some schema.types[index] := List.getElem?_eq_getElem inside
  have type := typeAt_of_located located
  have distinct := valid.names.typeAt index
  have blanks : ∀ field ∈ (schema.typeAt index).fields,
      (schema.blank index).get? field.name = some (blankField field) := by
    intro field member
    refine Table.get?_ofList ?_ (List.mem_map.mpr ⟨field, member, rfl⟩)
    rw [List.map_map]
    exact distinct
  have ascending : (schema.blank index).Ascending := Table.ascending_ofList _
  rw [read, bytes_object, reads_fields located (by rw [type]; exact fun _ => id) distinct reads
    ascending blanks, blank, ← Table.ofList_append, Table.ofList_append_of_subset,
    Option.map_some, plainZeros_fill, fillFields, Table.mapValues, List.map_map]
  · rfl
  · intro pair member
    obtain ⟨field, declared, rfl⟩ := List.mem_map.mp member
    rw [List.map_map]
    exact List.mem_map.mpr ⟨field, declared, rfl⟩

theorem reads_of_conforms (valid : schema.WellFormed) {slot : Slot} {value : Value}
    (conforms : schema.Conforms slot value) : schema.Reads slot value := by
  induction conforms with
  | object fit ih => exact reads_object valid ih
  | unset => exact reads_unset
  | singular singular fits ih => exact reads_singular valid singular fits ih
  | list repeated fit ih => exact reads_list valid repeated fit ih
  | scalar scalar fits => exact reads_scalar valid scalar fits
  | message nested fits ih => exact reads_nested valid nested ih

-- Writing a value that fits its type succeeds, and reading the bytes gives back the value filled
-- up; so different values, as far as filling and the signs of zeros tell them apart, have
-- different bytes.
theorem encodeMessage_roundtrip (valid : schema.WellFormed) (declared : index < schema.types.length)
    {value : Value} (conforms : schema.Conforms (.message index) value) (path : FieldPath) :
    ∃ bytes, schema.encodeMessage index path value = .ok bytes ∧
      schema.read index bytes = some (schema.fill index value).plainZeros ∧
      ∀ other otherPath, schema.Conforms (.message index) other →
        (schema.fill index other).plainZeros ≠ (schema.fill index value).plainZeros →
        schema.encodeMessage index otherPath other ≠ .ok bytes := by
  have reads := reads_of_conforms valid conforms declared
  refine ⟨_, encodeMessage_of_conforms conforms path, reads, ?_⟩
  intro other otherPath fits differs same
  rw [encodeMessage_of_conforms fits otherPath] at same
  have readsOther := reads_of_conforms valid fits declared
  rw [Except.ok.inj same, reads] at readsOther
  exact differs (Option.some.inj readsOther).symm

-- A type that refers to itself, with a run of doubles and a field of the greatest number.
def nodeSchema : WireSchema where
  types := [⟨"Node", [
    ⟨"label", 1, .scalar .string, false⟩,
    ⟨"ratio", 2, .scalar .float, false⟩,
    ⟨"weights", 3, .scalar .double, true⟩,
    ⟨"delta", 4, .scalar .sint64, false⟩,
    ⟨"children", 19, .message 0, true⟩,
    ⟨"wait", 536870911, .scalar .duration, false⟩]⟩]

def leaf : Value := .object [("delta", .int64 (-2)), ("ratio", .float 0x80000000)]

def tree : Value := .object [
  ("children", .array [leaf]),
  ("label", .null),
  ("wait", .duration 0 5),
  ("weights", .array [.double 0x8000000000000000])]

theorem nodeSchema_wellFormed : nodeSchema.WellFormed where
  names := by unfold DistinctNames; decide
  tags := by decide
  numbers := by decide
  indices := by simp [nodeSchema]

theorem leaf_conforms : nodeSchema.Conforms (.message 0) leaf := by
  refine .object fun field declared value found => ?_
  simp only [nodeSchema, typeAt, List.getElem?_cons_zero, Option.getD_some, List.mem_cons,
    List.not_mem_nil, or_false] at declared
  rcases declared with rfl | rfl | rfl | rfl | rfl | rfl <;> cases found
  · exact .singular rfl (.scalar rfl rfl)
  · exact .singular rfl (.scalar rfl rfl)

theorem tree_conforms : nodeSchema.Conforms (.message 0) tree := by
  refine .object fun field declared value found => ?_
  simp only [nodeSchema, typeAt, List.getElem?_cons_zero, Option.getD_some, List.mem_cons,
    List.not_mem_nil, or_false] at declared
  rcases declared with rfl | rfl | rfl | rfl | rfl | rfl <;> cases found
  · exact .unset
  · refine .list rfl fun item member => ?_
    rw [List.mem_singleton.mp member]
    exact .scalar rfl rfl
  · refine .list rfl fun item member => ?_
    rw [List.mem_singleton.mp member]
    exact .message rfl leaf_conforms
  · exact .singular rfl (.scalar rfl rfl)

theorem fill_leaf : nodeSchema.fill 0 leaf = .object [
    ("children", .array []), ("delta", .int64 (-2)), ("label", .string ""),
    ("ratio", .float 0x80000000), ("wait", .null), ("weights", .array [])] := by
  rw [fill_eq]
  rfl

theorem plainZeros_fill_tree : (nodeSchema.fill 0 tree).plainZeros = .object [
    ("children", .array [.object [
      ("children", .array []), ("delta", .int64 (-2)), ("label", .string ""),
      ("ratio", .float 0), ("wait", .null), ("weights", .array [])]]),
    ("delta", .int64 0), ("label", .string ""), ("ratio", .float 0), ("wait", .duration 0 5),
    ("weights", .array [.double 0x8000000000000000])] := by
  rw [fill_eq]
  show Value.plainZeros (.object [("children", .array [nodeSchema.fill 0 leaf]), _, _, _, _, _]) = _
  rw [fill_leaf]
  rfl

theorem encodeMessage_roundtrip_tree :
    nodeSchema.WellFormed ∧ 0 < nodeSchema.types.length ∧ nodeSchema.Conforms (.message 0) tree ∧
    ∃ bytes, nodeSchema.encodeMessage 0 (.root "tree") tree = .ok bytes ∧
      nodeSchema.read 0 bytes = some (.object [
        ("children", .array [.object [
          ("children", .array []), ("delta", .int64 (-2)), ("label", .string ""),
          ("ratio", .float 0), ("wait", .null), ("weights", .array [])]]),
        ("delta", .int64 0), ("label", .string ""), ("ratio", .float 0), ("wait", .duration 0 5),
        ("weights", .array [.double 0x8000000000000000])]) ∧
      nodeSchema.encodeMessage 0 (.root "leaf") leaf ≠ .ok bytes := by
  refine ⟨nodeSchema_wellFormed, by decide, tree_conforms, ?_⟩
  obtain ⟨bytes, written, reads, differ⟩ :=
    encodeMessage_roundtrip nodeSchema_wellFormed (by decide) tree_conforms (.root "tree")
  rw [plainZeros_fill_tree] at reads differ
  refine ⟨bytes, written, reads, differ leaf _ leaf_conforms ?_⟩
  rw [fill_leaf]
  simp [Value.plainZeros, Value.plainMembers, Value.plainItems]

end WireSchema

end SigningSchema
