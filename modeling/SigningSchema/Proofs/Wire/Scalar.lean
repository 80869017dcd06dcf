import SigningSchema.Proofs.Wire.Primitive
import SigningSchema.WireSchema

-- Scalars on the wire: which values are of a kind, and a reader for what is written of them.

namespace SigningSchema

open Wire

namespace Value

def ofKind (kind : ScalarKind) (value : Value) : Bool :=
  match kind, value with
  | .string, .string _ | .bytes, .bytes _ | .bool, .bool _ => true
  | .int32, .int32 _ | .sint32, .int32 _ | .sfixed32, .int32 _ | .enum, .int32 _ => true
  | .uint32, .uint32 _ | .fixed32, .uint32 _ => true
  | .int64, .int64 _ | .sint64, .int64 _ | .sfixed64, .int64 _ => true
  | .uint64, .uint64 _ | .fixed64, .uint64 _ => true
  | .float, .float _ | .double, .double _ => true
  | .duration, .duration _ _ | .timestamp, .timestamp _ _ => true
  | _, _ => false

-- Floating-point zeros lose their sign.
def plainZero : Value → Value
  | .float word => .float (if Number.single.isZero word.toNat then 0 else word)
  | .double word => .double (if Number.double.isZero word.toNat then 0 else word)
  | other => other

theorem plainZero_of_isWireDefault {kind : ScalarKind} {value : Value}
    (fits : value.ofKind kind = true) (omits : WireSchema.omitsZero (.scalar kind) = true)
    (zero : value.isWireDefault = true) : value.plainZero = defaultFor kind := by
  cases kind <;> cases value <;>
    simp_all [ofKind, WireSchema.omitsZero, isWireDefault, defaultFor, plainZero, List.isEmpty_iff]

theorem plainZero_of_written {kind : ScalarKind} {value : Value} (fits : value.ofKind kind = true)
    (written : (WireSchema.omitsZero (.scalar kind) && value.isWireDefault) = false) :
    value.plainZero = value := by
  cases kind <;> cases value <;>
    simp_all [ofKind, WireSchema.omitsZero, isWireDefault, plainZero]

end Value

namespace WireSchema

theorem payload?_isSome {kind : ScalarKind} {value : Value} :
    (payload? kind value).isSome = value.ofKind kind := by
  cases kind <;> cases value <;> rfl

-- What a record does to the seconds and nanos read so far; other fields are skipped.
def momentStep (seconds : Int64) (nanos : Int32) (record : Record) : Option (Int64 × Int32) :=
  match record.number, record.payload with
  | 1, .varint word => some (word.toInt64, nanos)
  | 2, .varint word => some (seconds, word.toInt64.toInt32)
  | 1, _ | 2, _ => none
  | _, _ => some (seconds, nanos)

def readMoment (seconds : Int64) (nanos : Int32) (bytes : Bytes) : Option (Int64 × Int32) :=
  match bytes with
  | [] => some (seconds, nanos)
  | byte :: more =>
    match _read : readRecord (byte :: more) with
    | none => none
    | some (record, rest) =>
      match momentStep seconds nanos record with
      | none => none
      | some (seconds, nanos) => readMoment seconds nanos rest
termination_by bytes.length
decreasing_by
  have shorter := readRecord_shorter _read
  omega

theorem readMoment_step {seconds seconds' : Int64} {nanos nanos' : Int32} {bytes rest : Bytes}
    {record : Record} (read : readRecord bytes = some (record, rest))
    (step : momentStep seconds nanos record = some (seconds', nanos')) :
    readMoment seconds nanos bytes = readMoment seconds' nanos' rest := by
  cases bytes with
  | nil => cases read
  | cons byte more =>
    rw [readMoment]
    split
    · rename_i failed
      rw [read] at failed
      cases failed
    · rename_i found ran
      rw [read] at ran
      cases ran
      rw [step]

theorem readMoment_seconds (seconds : Int64) (bytes : Bytes) :
    readMoment 0 0 ((if seconds = 0 then [] else tag 1 .varint ++ signedVarint seconds) ++ bytes)
      = readMoment seconds 0 bytes := by
  by_cases zero : seconds = 0
  · rw [if_pos zero, zero, List.nil_append]
  · have number : IsFieldNumber (1 : UInt32).toNat := by decide
    have payload : readPayload .varint (signedVarint seconds ++ bytes)
        = some (.varint seconds.toUInt64, bytes) := by
      simp only [readPayload, signedVarint, varint_roundtrip, Option.map_some]
    rw [if_neg zero, List.append_assoc]
    refine readMoment_step (readRecord_tag number payload) ?_
    simp [momentStep]

theorem readMoment_nanos (seconds : Int64) (nanos : Int32) :
    readMoment seconds 0 (if nanos = 0 then [] else tag 2 .varint ++ signedVarint32 nanos)
      = some (seconds, nanos) := by
  by_cases zero : nanos = 0
  · rw [if_pos zero, zero, readMoment]
  · have number : IsFieldNumber (2 : UInt32).toNat := by decide
    have payload : readPayload .varint (signedVarint32 nanos)
        = some (.varint nanos.toInt64.toUInt64, []) := by
      have read := varint_roundtrip nanos.toInt64.toUInt64 []
      rw [List.append_nil] at read
      simp only [readPayload, signedVarint32, signedVarint, read, Option.map_some]
    have step : momentStep seconds 0 ⟨(2 : UInt32).toNat, .varint nanos.toInt64.toUInt64⟩
        = some (seconds, nanos) := by simp [momentStep]
    rw [if_neg zero, readMoment_step (readRecord_tag number payload) step, readMoment]

theorem momentBody_roundtrip (seconds : Int64) (nanos : Int32) :
    readMoment 0 0 (momentBody seconds nanos) = some (seconds, nanos) := by
  rw [momentBody, readMoment_seconds, readMoment_nanos]

-- The value that a payload stands for in a field of a kind. Words too wide for the kind lose their
-- high bits.
def readScalar (kind : ScalarKind) (payload : Payload) : Option Value :=
  match kind, payload with
  | .string, .lengthDelimited body => (String.fromUTF8? ⟨⟨body⟩⟩).map .string
  | .bytes, .lengthDelimited body => some (.bytes body)
  | .bool, .varint word => some (.bool (word ≠ 0))
  | .int32, .varint word | .enum, .varint word => some (.int32 word.toInt64.toInt32)
  | .sint32, .varint word => some (.int32 (Int32.ofInt (unzigzag word.toUInt32.toNat)))
  | .sfixed32, .fixed32 word => some (.int32 word.toInt32)
  | .uint32, .varint word => some (.uint32 word.toUInt32)
  | .fixed32, .fixed32 word => some (.uint32 word)
  | .int64, .varint word => some (.int64 word.toInt64)
  | .sint64, .varint word => some (.int64 (Int64.ofInt (unzigzag word.toNat)))
  | .sfixed64, .fixed64 word => some (.int64 word.toInt64)
  | .uint64, .varint word => some (.uint64 word)
  | .fixed64, .fixed64 word => some (.uint64 word)
  | .float, .fixed32 word => some (.float word)
  | .double, .fixed64 word => some (.double word)
  | .duration, .lengthDelimited body =>
    (readMoment 0 0 body).map fun (seconds, nanos) => .duration seconds nanos
  | .timestamp, .lengthDelimited body =>
    (readMoment 0 0 body).map fun (seconds, nanos) => .timestamp seconds nanos
  | _, _ => none

theorem bool_eq_varint (b : Bool) : Wire.bool b = varint (if b then 1 else 0) := by
  cases b <;> rw [Wire.bool, varint, base128] <;> rfl

theorem zigzag32_lt (n : Int32) : zigzag n.toInt < 4294967296 :=
  zigzag_lt 2147483648 n.le_toInt n.toInt_lt

theorem zigzag64_lt (n : Int64) : zigzag n.toInt < 18446744073709551616 :=
  zigzag_lt 9223372036854775808 n.le_toInt n.toInt_lt

theorem base128_eq_varint {n : Nat} (fits : n < 18446744073709551616) :
    base128 n = varint (UInt64.ofNat n) := by
  rw [varint, UInt64.toNat_ofNat_of_lt' fits]

-- What is written of a scalar is one payload of its kind's layout, which stands for it.
theorem payload?_roundtrip {kind : ScalarKind} {value : Value} {bytes : Bytes}
    (written : payload? kind value = some bytes) :
    ∃ payload, readScalar kind payload = some value ∧
      ∀ suffix, readPayload kind.wireType (bytes ++ suffix) = some (payload, suffix) := by
  cases kind <;> cases value <;> simp only [payload?, reduceCtorEq] at written <;>
    cases Option.some.inj written
  case string.string text =>
    exact ⟨.lengthDelimited (utf8 text), by simp [readScalar, utf8_roundtrip], readPayload_lengthDelimited _⟩
  case bytes.bytes data => exact ⟨.lengthDelimited data, rfl, readPayload_lengthDelimited _⟩
  case bool.bool b =>
    refine ⟨.varint (if b then 1 else 0), by cases b <;> rfl, ?_⟩
    rw [bool_eq_varint]
    exact readPayload_varint _
  case int32.int32 n | enum.int32 n =>
    exact ⟨.varint n.toInt64.toUInt64, by simp [readScalar], readPayload_varint _⟩
  case sint32.int32 n =>
    have narrow := zigzag32_lt n
    refine ⟨.varint (UInt64.ofNat (zigzag n.toInt)), ?_, ?_⟩
    · have kept : (UInt64.ofNat (zigzag n.toInt)).toUInt32.toNat = zigzag n.toInt := by
        simp
        omega
      rw [readScalar, kept, zigzag_roundtrip, Int32.ofInt_toInt]
    · rw [zigzagVarint32, base128_eq_varint (by omega)]
      exact readPayload_varint _
  case sfixed32.int32 n => exact ⟨.fixed32 n.toUInt32, by simp [readScalar], readPayload_fixed32 _⟩
  case uint32.uint32 n => exact ⟨.varint n.toUInt64, by simp [readScalar], readPayload_varint _⟩
  case fixed32.uint32 n => exact ⟨.fixed32 n, rfl, readPayload_fixed32 _⟩
  case int64.int64 n => exact ⟨.varint n.toUInt64, by simp [readScalar], readPayload_varint _⟩
  case sint64.int64 n =>
    have narrow := zigzag64_lt n
    refine ⟨.varint (UInt64.ofNat (zigzag n.toInt)), ?_, ?_⟩
    · have kept : (UInt64.ofNat (zigzag n.toInt)).toNat = zigzag n.toInt :=
        UInt64.toNat_ofNat_of_lt' narrow
      rw [readScalar, kept, zigzag_roundtrip, Int64.ofInt_toInt]
    · rw [zigzagVarint, base128_eq_varint narrow]
      exact readPayload_varint _
  case sfixed64.int64 n => exact ⟨.fixed64 n.toUInt64, by simp [readScalar], readPayload_fixed64 _⟩
  case uint64.uint64 n => exact ⟨.varint n, rfl, readPayload_varint _⟩
  case fixed64.uint64 n => exact ⟨.fixed64 n, rfl, readPayload_fixed64 _⟩
  case float.float word => exact ⟨.fixed32 word, rfl, readPayload_fixed32 _⟩
  case double.double word => exact ⟨.fixed64 word, rfl, readPayload_fixed64 _⟩
  case duration.duration seconds nanos =>
    refine ⟨.lengthDelimited (momentBody seconds nanos), ?_, readPayload_lengthDelimited _⟩
    simp [readScalar, momentBody_roundtrip]
  case timestamp.timestamp seconds nanos =>
    refine ⟨.lengthDelimited (momentBody seconds nanos), ?_, readPayload_lengthDelimited _⟩
    simp [readScalar, momentBody_roundtrip]

def readRun (kind : ScalarKind) (bytes : Bytes) : Option (List Value) :=
  match bytes with
  | [] => some []
  | byte :: more =>
    match _read : readPayload kind.wireType (byte :: more) with
    | none => none
    | some (payload, rest) => do
      let value ← readScalar kind payload
      let values ← readRun kind rest
      return value :: values
termination_by bytes.length
decreasing_by
  have shorter := readPayload_shorter _read
  omega

theorem readRun_step {kind : ScalarKind} {bytes rest : Bytes} {payload : Payload} {value : Value}
    (read : readPayload kind.wireType bytes = some (payload, rest))
    (stands : readScalar kind payload = some value) :
    readRun kind bytes = (readRun kind rest).map (value :: ·) := by
  cases bytes with
  | nil =>
    have shorter := readPayload_shorter read
    exact absurd shorter (Nat.not_lt_zero _)
  | cons byte more =>
    rw [readRun]
    split
    · rename_i failed
      rw [read] at failed
      cases failed
    · rename_i found ran
      rw [read] at ran
      cases ran
      simp only [stands, Option.bind_eq_bind, Option.bind_some]
      cases readRun kind rest <;> rfl

-- The bytes of a scalar after its key; nothing for a value of another kind.
def scalarBytes (kind : ScalarKind) (value : Value) : Bytes := (payload? kind value).getD []

theorem payload?_of_ofKind {kind : ScalarKind} {value : Value} (fits : value.ofKind kind = true) :
    payload? kind value = some (scalarBytes kind value) := by
  rw [← payload?_isSome] at fits
  obtain ⟨bytes, written⟩ := Option.isSome_iff_exists.mp fits
  rw [scalarBytes, written, Option.getD_some]

theorem run_roundtrip {kind : ScalarKind} {items : List Value}
    (fit : ∀ item ∈ items, item.ofKind kind = true) :
    readRun kind (items.flatMap (scalarBytes kind)) = some items := by
  induction items with
  | nil => rw [List.flatMap_nil, readRun]
  | cons item rest ih =>
    obtain ⟨payload, stands, read⟩ :=
      payload?_roundtrip (payload?_of_ofKind (fit item List.mem_cons_self))
    rw [List.flatMap_cons, readRun_step (read _) stands,
      ih fun other member => fit other (List.mem_cons_of_mem _ member), Option.map_some]

end WireSchema

end SigningSchema
