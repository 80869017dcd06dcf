import Mathlib.Data.Nat.Digits.Defs
import SigningSchema.Proofs.Wire.Scalar

-- The published wire format, stated by itself: what the payload of a scalar and the key of a
-- field are, by arithmetic alone. The primitives write just that.

namespace SigningSchema

open Wire WireSchema

namespace Standard

-- Seven bits a group, the lowest first; zero has one group as well.
def groups (n : Nat) : List Nat := if n = 0 then [0] else Nat.digits 128 n

-- The high bit of a byte says that more follow.
def continued : List Nat → Bytes
  | [] => []
  | [last] => [UInt8.ofNat last]
  | group :: more => UInt8.ofNat (group + 128) :: continued more

def varint (n : Nat) : Bytes := continued (groups n)

def littleEndian (width n : Nat) : Bytes :=
  (List.range width).map fun place => UInt8.ofNat (n / 256 ^ place)

def twosComplement (bits : Nat) (n : Int) : Nat := (n % 2 ^ bits).toNat

def zigzag (n : Int) : Nat := if n < 0 then 2 * n.natAbs - 1 else 2 * n.natAbs

def delimited (body : Bytes) : Bytes := varint body.length ++ body

def key (number code : Nat) : Bytes := varint (8 * number + code)

-- Durations and points in time are messages of their own.
def isMoment : ScalarKind → Bool
  | .duration | .timestamp => true
  | _ => false

def payload (kind : ScalarKind) (value : Value) : Bytes :=
  match kind, value with
  | .string, .string text => delimited text.toUTF8.data.toList
  | .bytes, .bytes data => delimited data
  | .bool, .bool b => varint b.toNat
  | .int32, .int32 n | .enum, .int32 n => varint (twosComplement 64 n.toInt)
  | .sint32, .int32 n => varint (zigzag n.toInt)
  | .sfixed32, .int32 n => littleEndian 4 (twosComplement 32 n.toInt)
  | .uint32, .uint32 n => varint n.toNat
  | .fixed32, .uint32 n => littleEndian 4 n.toNat
  | .int64, .int64 n => varint (twosComplement 64 n.toInt)
  | .sint64, .int64 n => varint (zigzag n.toInt)
  | .sfixed64, .int64 n => littleEndian 8 (twosComplement 64 n.toInt)
  | .uint64, .uint64 n => varint n.toNat
  | .fixed64, .uint64 n => littleEndian 8 n.toNat
  | .float, .float word => littleEndian 4 word.toNat
  | .double, .double word => littleEndian 8 word.toNat
  | _, _ => []

def code : ScalarKind → Nat
  | .fixed64 | .sfixed64 | .double => 1
  | .string | .bytes | .duration | .timestamp => 2
  | .fixed32 | .sfixed32 | .float => 5
  | .int32 | .int64 | .uint32 | .uint64 | .sint32 | .sint64 | .bool | .enum => 0

-- Both floating-point zeros are zeros.
def isZero (kind : ScalarKind) (value : Value) : Bool :=
  match kind, value with
  | .string, .string text => text = ""
  | .bytes, .bytes data => data.isEmpty
  | .bool, .bool b => b = false
  | .float, .float word => word = 0 ∨ word = 0x80000000
  | .double, .double word => word = 0 ∨ word = 0x8000000000000000
  | _, .int32 n => n = 0
  | _, .int64 n => n = 0
  | _, .uint32 n => n = 0
  | _, .uint64 n => n = 0
  | _, _ => false

theorem continued_cons (group : Nat) {more : List Nat} (given : more ≠ []) :
    continued (group :: more) = UInt8.ofNat (group + 128) :: continued more := by
  cases more with
  | nil => exact absurd rfl given
  | cons _ _ => rfl

theorem base128_eq (n : Nat) : base128 n = varint n := by
  induction n using Nat.strongRecOn with
  | ind n ih =>
    rw [base128, varint, groups]
    by_cases zero : n = 0
    · rw [zero]
      rfl
    · rw [if_neg zero]
      split
      · rename_i small
        rw [Nat.digits_of_lt 128 n zero small]
        rfl
      · rename_i large
        have more : n / 128 ≠ 0 := by omega
        have digits : Nat.digits 128 (n / 128) ≠ [] := Nat.digits_ne_nil_iff_ne_zero.mpr more
        have step : Nat.digits 128 n = n % 128 :: Nat.digits 128 (n / 128) :=
          Nat.digits_def' (by decide) (by omega)
        rw [ih (n / 128) (by omega), varint, groups, if_neg more, step, continued_cons _ digits]

theorem varint_of_lt {n : Nat} (small : n < 128) : varint n = [UInt8.ofNat n] := by
  rw [← base128_eq, base128, if_pos small]

theorem lengthDelimited_eq (body : Bytes) : lengthDelimited body = delimited body := by
  rw [lengthDelimited, base128_eq, delimited]

theorem fixed32_eq (word : UInt32) : Wire.fixed32 word = littleEndian 4 word.toNat := by
  simp only [Wire.fixed32, littleEndian, List.range, List.range.loop, List.map_cons, List.map_nil,
    List.cons.injEq, and_true]
  refine ⟨?_, ?_, ?_, ?_⟩ <;> apply UInt8.toNat_inj.mp <;> simp [Nat.shiftRight_eq_div_pow]

theorem fixed64_eq (word : UInt64) : Wire.fixed64 word = littleEndian 8 word.toNat := by
  simp only [Wire.fixed64, Wire.fixed32, littleEndian, List.range, List.range.loop, List.map_cons,
    List.map_nil, List.cons.injEq, and_true, List.cons_append, List.nil_append]
  refine ⟨?_, ?_, ?_, ?_, ?_, ?_, ?_, ?_⟩ <;> apply UInt8.toNat_inj.mp <;>
    simp [Nat.shiftRight_eq_div_pow] <;> omega

theorem twosComplement_toInt {bits : Nat} (word : BitVec bits) :
    twosComplement bits word.toInt = word.toNat := by
  have residue : word.toInt % (2 ^ bits : Nat) = (word.toNat % 2 ^ bits : Nat) := by
    rw [word.toInt_eq_toNat_bmod, Int.bmod_emod, Int.natCast_emod]
  rw [Nat.mod_eq_of_lt word.isLt, Nat.cast_pow, Nat.cast_ofNat] at residue
  rw [twosComplement, residue, Int.toNat_natCast]

theorem varint_eq (word : UInt64) : Wire.varint word = varint word.toNat := by
  rw [Wire.varint, base128_eq]

theorem signedVarint_eq (n : Int64) : signedVarint n = varint (twosComplement 64 n.toInt) := by
  rw [signedVarint, varint_eq]
  exact congrArg varint (twosComplement_toInt n.toBitVec).symm

theorem signedVarint32_eq (n : Int32) : signedVarint32 n = varint (twosComplement 64 n.toInt) := by
  rw [signedVarint32, signedVarint_eq, Int32.toInt_toInt64]

theorem zigzag_eq (n : Int) : Wire.zigzag n = zigzag n := by
  unfold Wire.zigzag zigzag
  split <;> split <;> omega

theorem scalarBytes_eq {kind : ScalarKind} (scalar : isMoment kind = false) (value : Value) :
    WireSchema.scalarBytes kind value = payload kind value := by
  cases kind <;> cases value <;> try rfl
  case string.string text => exact lengthDelimited_eq _
  case bytes.bytes data => exact lengthDelimited_eq _
  case bool.bool b => exact (bool_eq_varint b).trans (by rw [varint_eq]; cases b <;> rfl)
  case int32.int32 n | enum.int32 n => exact signedVarint32_eq n
  case sint32.int32 n => exact (base128_eq _).trans (by rw [zigzag_eq]; rfl)
  case sfixed32.int32 n =>
    exact (fixed32_eq _).trans (congrArg (littleEndian 4) (twosComplement_toInt n.toBitVec).symm)
  case uint32.uint32 n => exact (varint_eq _).trans (by rw [UInt32.toNat_toUInt64]; rfl)
  case fixed32.uint32 n => exact fixed32_eq n
  case int64.int64 n => exact signedVarint_eq n
  case sint64.int64 n => exact (base128_eq _).trans (by rw [zigzag_eq]; rfl)
  case sfixed64.int64 n =>
    exact (fixed64_eq _).trans (congrArg (littleEndian 8) (twosComplement_toInt n.toBitVec).symm)
  case uint64.uint64 n => exact varint_eq n
  case fixed64.uint64 n => exact fixed64_eq n
  case float.float word => exact fixed32_eq word
  case double.double word => exact fixed64_eq word
  all_goals cases scalar

theorem tag_eq {number : UInt32} (fits : number.toNat < numberLimit) (wireType : WireType) :
    tag number wireType = key number.toNat wireType.code.toNat := by
  rw [tag, varint32, varint_eq, UInt32.toNat_toUInt64, tag_toNat, Nat.mod_eq_of_lt fits, key]

theorem code_eq (kind : ScalarKind) : kind.wireType.code.toNat = code kind := by
  cases kind <;> rfl

theorem single_isZero (word : UInt32) :
    Number.single.isZero word.toNat = decide (word = 0 ∨ word = 0x80000000) := by
  have small : word.toNat < 4294967296 := word.toNat_lt
  have bit : Number.single.signBit = 2147483648 := rfl
  refine decide_eq_decide.mpr ?_
  rw [Number.Format.magnitude, bit, ← UInt32.toNat_inj, ← UInt32.toNat_inj]
  simp
  omega

theorem double_isZero (word : UInt64) :
    Number.double.isZero word.toNat = decide (word = 0 ∨ word = 0x8000000000000000) := by
  have small : word.toNat < 18446744073709551616 := word.toNat_lt
  have bit : Number.double.signBit = 9223372036854775808 := rfl
  refine decide_eq_decide.mpr ?_
  rw [Number.Format.magnitude, bit, ← UInt64.toNat_inj, ← UInt64.toNat_inj]
  simp
  omega

theorem isWireDefault_eq {kind : ScalarKind} {value : Value} (fits : value.ofKind kind = true) :
    value.isWireDefault = isZero kind value := by
  cases kind <;> cases value <;> try first | rfl | cases fits
  case bool.bool b => cases b <;> rfl
  case float.float word => exact single_isZero word
  case double.double word => exact double_isZero word

end Standard

end SigningSchema
