import SigningSchema.Base64
import SigningSchema.Coercion.Error
import SigningSchema.Number.DecimalText
import SigningSchema.Unicode.Blank
import SigningSchema.Value.Basic

-- From untyped input to scalars.

namespace SigningSchema.Coercion

open Wire (Bytes)

-- 2^53 - 1: up to here every integer is a double.
def maxSafe : Int := 9007199254740991

def maxNanos : Int := 999999999

def fitsNumeral (n : Int) : Bool :=
  -Int.ofNat (Nat.pow 2 127) ≤ n ∧ n < Int.ofNat (Nat.pow 2 127)

def readInteger (kind : ScalarKind) (path : FieldPath) (input : Json) :
    Except CoercionError Int :=
  match input with
  | .number (.integer n) => .ok n
  | .number (.double word) =>
    match Number.double.toInt? word.toNat with
    | none => .error (.unlike path kind.keyword input)
    | some n =>
      if maxSafe < n.natAbs then
        let advice := if kind.isWide then " (unsafe integer, pass a string)" else ""
        .error (.outOfRange path (kind.keyword ++ advice) (JsonNumber.double word).text)
      else .ok n
  | .string text =>
    let numeral := Unicode.trim text.toList
    match Number.readInt? numeral with
    | none => .error (.unlike path kind.keyword input)
    | some n =>
      if fitsNumeral n then .ok n
      else .error (.outOfRange path kind.keyword (String.ofList numeral))
  | other => .error (.unlike path kind.keyword other)

def doubleOfInt (n : Int) : Nat :=
  Number.double.withSign (n < 0) (Number.double.ofRatio n.natAbs 1)

def readDouble (kind : ScalarKind) (path : FieldPath) (input : Json) : Except CoercionError Nat :=
  match input with
  | .number (.integer n) => .ok (doubleOfInt n)
  | .number (.double word) => .ok word.toNat
  | .string text =>
    match Number.readDouble? (Unicode.trim text.toList) with
    | some word => .ok word
    | none => .error (.unlike path kind.keyword input)
  | other => .error (.unlike path kind.keyword other)

def maxSingle : Nat := Number.single.convert Number.double (Number.single.infinity - 1)

def plainLayout : Number.Layout where
  positional := none
  plusSign := false
  pointZero := false
  tie := .up

def readBytes (path : FieldPath) (position : Nat) : List Json → Except CoercionError Bytes
  | [] => .ok []
  | item :: rest =>
    match item with
    | .number (.integer n) =>
      if 0 ≤ n ∧ n ≤ 255 then
        (readBytes path (position + 1) rest).map (UInt8.ofNat n.toNat :: ·)
      else .error (.unlike (path.index position) "byte" item)
    | _ => .error (.unlike (path.index position) "byte" item)

def readMoment (kind : ScalarKind) (path : FieldPath) (input : Json) :
    Except CoercionError (Int × Int) :=
  match input with
  | .object members => do
    let secondsPath := path.field "seconds"
    let seconds ← match Json.given? members "seconds" with
      | some given => readInteger .int64 secondsPath given
      | none => .error (.missingField secondsPath "int64")
    if seconds < Int64.minValue.toInt ∨ Int64.maxValue.toInt < seconds then
      .error (.outOfRange secondsPath "int64" (toString seconds))
    let nanosPath := path.field "nanos"
    let nanos ← match Json.given? members "nanos" with
      | some given => readInteger .int32 nanosPath given
      | none => .error (.missingField nanosPath "int32")
    if nanos < -maxNanos ∨ maxNanos < nanos then
      .error (.invalidDuration path kind.keyword
        ("nanos " ++ toString nanos ++ " is outside [-999999999, 999999999]"))
    return (seconds, nanos)
  | other => .error (.unlike path (kind.keyword ++ " object with seconds and nanos") other)

def readBounded (kind : ScalarKind) (path : FieldPath) (low high : Int) (input : Json) :
    Except CoercionError Int := do
  let n ← readInteger kind path input
  if low ≤ n ∧ n ≤ high then return n
  else .error (.outOfRange path kind.keyword (toString n))

def scalar (kind : ScalarKind) (path : FieldPath) (input : Json) : Except CoercionError Value :=
  match kind with
  | .string =>
    match input with
    | .string text => .ok (.string text)
    | other => .error (.unlike path "string" other)
  | .bytes =>
    match input with
    | .string text =>
      match Base64.decode? text.toList with
      | some data => .ok (.bytes data)
      | none => .error (.invalidBase64 path input.describe)
    | .array items => (readBytes path 0 items).map .bytes
    | other => .error (.unlike path "bytes" other)
  | .bool =>
    match input with
    | .bool b => .ok (.bool b)
    | other => .error (.unlike path "bool" other)
  | .int32 | .sint32 | .sfixed32 | .enum =>
    (readBounded kind path Int32.minValue.toInt Int32.maxValue.toInt input).map fun n =>
      .int32 (Int32.ofInt n)
  | .uint32 | .fixed32 =>
    (readBounded kind path 0 (Int.ofNat (UInt32.size - 1)) input).map fun n =>
      .uint32 (UInt32.ofNat n.toNat)
  | .int64 | .sint64 | .sfixed64 =>
    (readBounded kind path Int64.minValue.toInt Int64.maxValue.toInt input).map fun n =>
      .int64 (Int64.ofInt n)
  | .uint64 | .fixed64 =>
    (readBounded kind path 0 (Int.ofNat (UInt64.size - 1)) input).map fun n =>
      .uint64 (UInt64.ofNat n.toNat)
  | .float => do
    let word ← readDouble kind path input
    if maxSingle < Number.double.magnitude word then
      .error (.outOfRange path kind.keyword (Number.double.text plainLayout word))
    return .float (UInt32.ofNat (Number.double.convert Number.single word))
  | .double => (readDouble kind path input).map fun word => .double (UInt64.ofNat word)
  | .duration => do
    let (seconds, nanos) ← readMoment kind path input
    if (0 < seconds ∧ nanos < 0) ∨ (seconds < 0 ∧ 0 < nanos) then
      .error (.invalidDuration path kind.keyword
        ("nanos " ++ toString nanos ++ " must have the same sign as seconds "
          ++ toString seconds))
    return .duration (Int64.ofInt seconds) (Int32.ofInt nanos)
  | .timestamp => do
    let (seconds, nanos) ← readMoment kind path input
    return .timestamp (Int64.ofInt seconds) (Int32.ofInt nanos)

end SigningSchema.Coercion
