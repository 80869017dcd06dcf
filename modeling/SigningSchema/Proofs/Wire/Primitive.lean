import SigningSchema.Wire

-- A reader for what the wire primitives write. Every law is stated with the bytes that
-- follow, so that readers can be run one after the other on one buffer.

namespace SigningSchema.Wire

-- The base-128 number at the front, and the bytes after it.
def readBase128 : Bytes → Option (Nat × Bytes)
  | [] => none
  | byte :: rest =>
    if byte.toNat < 128 then some (byte.toNat, rest)
    else do
      let (high, rest) ← readBase128 rest
      return (byte.toNat - 128 + 128 * high, rest)

theorem base128_roundtrip (n : Nat) (suffix : Bytes) :
    readBase128 (base128 n ++ suffix) = some (n, suffix) := by
  induction n using Nat.strongRecOn with
  | ind n ih =>
    rw [base128]
    split
    · rename_i small
      have byte : (UInt8.ofNat n).toNat = n := by simp; omega
      simp only [List.cons_append, List.nil_append, readBase128, byte, if_pos small]
    · rename_i large
      have byte : (UInt8.ofNat (n % 128 + 128)).toNat = n % 128 + 128 := by simp; omega
      have continues : ¬ n % 128 + 128 < 128 := by omega
      have value : n % 128 + 128 - 128 + 128 * (n / 128) = n := by omega
      simp only [List.cons_append, readBase128, byte, if_neg continues,
        ih (n / 128) (by omega), Option.bind_eq_bind, Option.bind_some, value]
      rfl

theorem readBase128_shorter {bytes rest : Bytes} {n : Nat}
    (read : readBase128 bytes = some (n, rest)) : rest.length < bytes.length := by
  induction bytes generalizing n with
  | nil => cases read
  | cons byte more ih =>
    unfold readBase128 at read
    split at read
    · cases read
      exact Nat.lt_succ_self _
    · cases inner : readBase128 more with
      | none => simp [inner] at read
      | some found =>
        obtain ⟨high, after⟩ := found
        simp only [inner, Option.bind_eq_bind, Option.bind_some] at read
        cases read
        exact Nat.lt_succ_of_lt (ih inner)

-- A word of 64 bits; larger numbers are refused.
def readVarint (bytes : Bytes) : Option (UInt64 × Bytes) := do
  let (n, rest) ← readBase128 bytes
  if n < UInt64.size then return (UInt64.ofNat n, rest) else none

theorem varint_roundtrip (word : UInt64) (suffix : Bytes) :
    readVarint (varint word ++ suffix) = some (word, suffix) := by
  have fits : word.toNat < UInt64.size := word.toNat_lt
  simp only [readVarint, varint, base128_roundtrip, Option.bind_eq_bind, Option.bind_some, if_pos fits,
    UInt64.ofNat_toNat]
  rfl

def readFixed32 : Bytes → Option (UInt32 × Bytes)
  | a :: b :: c :: d :: rest =>
    some (UInt32.ofNat (a.toNat + 256 * b.toNat + 65536 * c.toNat + 16777216 * d.toNat), rest)
  | _ => none

theorem fixed32_roundtrip (word : UInt32) (suffix : Bytes) :
    readFixed32 (fixed32 word ++ suffix) = some (word, suffix) := by
  have fits : word.toNat < 4294967296 := word.toNat_lt
  simp only [fixed32, List.cons_append, List.nil_append, readFixed32, Option.some.injEq, Prod.mk.injEq,
    and_true]
  apply UInt32.toNat_inj.mp
  simp [Nat.shiftRight_eq_div_pow]
  omega

def readFixed64 (bytes : Bytes) : Option (UInt64 × Bytes) := do
  let (low, rest) ← readFixed32 bytes
  let (high, rest) ← readFixed32 rest
  return (UInt64.ofNat (low.toNat + 4294967296 * high.toNat), rest)

theorem fixed64_roundtrip (word : UInt64) (suffix : Bytes) :
    readFixed64 (fixed64 word ++ suffix) = some (word, suffix) := by
  have fits : word.toNat < 18446744073709551616 := word.toNat_lt
  simp only [readFixed64, fixed64, List.append_assoc, fixed32_roundtrip, Option.bind_eq_bind,
    Option.bind_some, Option.pure_def, Option.some.injEq, Prod.mk.injEq, and_true]
  apply UInt64.toNat_inj.mp
  simp [Nat.shiftRight_eq_div_pow]
  omega

-- A length and that many bytes. The length is read as a natural: a buffer holds what its length
-- says or is refused, so no bound on lengths is needed.
def readDelimited (bytes : Bytes) : Option (Bytes × Bytes) := do
  let (length, rest) ← readBase128 bytes
  if length ≤ rest.length then return (rest.take length, rest.drop length) else none

theorem lengthDelimited_roundtrip (body suffix : Bytes) :
    readDelimited (lengthDelimited body ++ suffix) = some (body, suffix) := by
  have fits : body.length ≤ (body ++ suffix).length := by simp
  simp only [readDelimited, lengthDelimited, List.append_assoc, base128_roundtrip, Option.bind_eq_bind,
    Option.bind_some, if_pos fits, List.take_left, List.drop_left]
  rfl

theorem utf8_roundtrip (text : String) : String.fromUTF8? ⟨⟨utf8 text⟩⟩ = some text := by
  simp [utf8, String.fromUTF8?, String.fromUTF8, text.isValidUTF8]

def unzigzag (n : Nat) : Int := if n % 2 = 0 then n / 2 else -(n / 2) - 1

theorem zigzag_roundtrip (n : Int) : unzigzag (zigzag n) = n := by
  unfold unzigzag zigzag
  split
  · split <;> omega
  · split <;> omega

theorem zigzag_lt {n : Int} (bound : Nat) (low : -(bound : Int) ≤ n) (high : n < bound) :
    zigzag n < 2 * bound := by
  unfold zigzag
  split <;> omega

inductive Payload where
  | varint (word : UInt64)
  | fixed64 (word : UInt64)
  | lengthDelimited (body : Bytes)
  | fixed32 (word : UInt32)
  deriving DecidableEq, Repr

def readPayload (wireType : WireType) (bytes : Bytes) : Option (Payload × Bytes) :=
  match wireType with
  | .varint => (readVarint bytes).map fun (word, rest) => (.varint word, rest)
  | .fixed64 => (readFixed64 bytes).map fun (word, rest) => (.fixed64 word, rest)
  | .lengthDelimited => (readDelimited bytes).map fun (body, rest) => (.lengthDelimited body, rest)
  | .fixed32 => (readFixed32 bytes).map fun (word, rest) => (.fixed32 word, rest)

theorem readPayload_varint (word : UInt64) (suffix : Bytes) :
    readPayload .varint (varint word ++ suffix) = some (.varint word, suffix) := by
  rw [readPayload, varint_roundtrip, Option.map_some]

theorem readPayload_fixed64 (word : UInt64) (suffix : Bytes) :
    readPayload .fixed64 (fixed64 word ++ suffix) = some (.fixed64 word, suffix) := by
  rw [readPayload, fixed64_roundtrip, Option.map_some]

theorem readPayload_lengthDelimited (body suffix : Bytes) :
    readPayload .lengthDelimited (lengthDelimited body ++ suffix)
      = some (.lengthDelimited body, suffix) := by
  rw [readPayload, lengthDelimited_roundtrip, Option.map_some]

theorem readPayload_fixed32 (word : UInt32) (suffix : Bytes) :
    readPayload .fixed32 (fixed32 word ++ suffix) = some (.fixed32 word, suffix) := by
  rw [readPayload, fixed32_roundtrip, Option.map_some]

def WireType.ofCode? (code : Nat) : Option WireType :=
  [varint, fixed64, lengthDelimited, fixed32].find? fun wireType => wireType.code.toNat = code

theorem WireType.code_roundtrip (wireType : WireType) :
    WireType.ofCode? wireType.code.toNat = some wireType := by
  cases wireType <;> rfl

theorem WireType.code_lt (wireType : WireType) : wireType.code.toNat < 8 := by
  cases wireType <;> decide

-- One more than the largest field number.
def numberLimit : Nat := 536870912

def IsFieldNumber (number : Nat) : Prop := 1 ≤ number ∧ number < numberLimit

instance (number : Nat) : Decidable (IsFieldNumber number) := inferInstanceAs (Decidable (_ ∧ _))

-- A field number and a layout; groups are no layout of today's messages.
def readKey (bytes : Bytes) : Option ((Nat × WireType) × Bytes) := do
  let (key, rest) ← readBase128 bytes
  let wireType ← WireType.ofCode? (key % 8)
  if IsFieldNumber (key / 8) then return ((key / 8, wireType), rest) else none

-- Of a number that is too large only the remainder is kept.
theorem tag_toNat (number : UInt32) (wireType : WireType) :
    (number <<< 3 ||| wireType.code).toNat
      = 8 * (number.toNat % numberLimit) + wireType.code.toNat := by
  have disjoint := Nat.two_pow_add_eq_or_of_lt (i := 3) wireType.code_lt (number.toNat % numberLimit)
  have shifted : (number <<< 3).toNat = 8 * (number.toNat % numberLimit) := by
    rw [UInt32.toNat_shiftLeft, Nat.shiftLeft_eq, numberLimit]
    simp
    omega
  rw [UInt32.toNat_or, shifted]
  exact disjoint.symm

theorem tag_roundtrip {number : UInt32} (valid : IsFieldNumber number.toNat) (wireType : WireType)
    (suffix : Bytes) :
    readKey (tag number wireType ++ suffix) = some ((number.toNat, wireType), suffix) := by
  have small := wireType.code_lt
  have code : (8 * number.toNat + wireType.code.toNat) % 8 = wireType.code.toNat := by omega
  have shifted : (8 * number.toNat + wireType.code.toNat) / 8 = number.toNat := by omega
  simp only [readKey, tag, varint32, varint, UInt32.toNat_toUInt64, tag_toNat,
    Nat.mod_eq_of_lt valid.2, base128_roundtrip, Option.bind_eq_bind, Option.bind_some, code,
    WireType.code_roundtrip, shifted, if_pos valid]
  rfl

structure Record where
  number : Nat
  payload : Payload
  deriving DecidableEq, Repr

def readRecord (bytes : Bytes) : Option (Record × Bytes) := do
  let ((number, wireType), rest) ← readKey bytes
  let (payload, rest) ← readPayload wireType rest
  return (⟨number, payload⟩, rest)

theorem readRecord_tag {number : UInt32} (valid : IsFieldNumber number.toNat) {wireType : WireType}
    {bytes rest : Bytes} {payload : Payload} (read : readPayload wireType bytes = some (payload, rest)) :
    readRecord (tag number wireType ++ bytes) = some (⟨number.toNat, payload⟩, rest) := by
  simp only [readRecord, tag_roundtrip valid, Option.bind_eq_bind, Option.bind_some, read]
  rfl

theorem readKey_shorter {bytes rest : Bytes} {key : Nat × WireType}
    (read : readKey bytes = some (key, rest)) : rest.length < bytes.length := by
  unfold readKey at read
  cases inner : readBase128 bytes with
  | none => simp [inner] at read
  | some found =>
    obtain ⟨n, after⟩ := found
    simp only [inner, Option.bind_eq_bind, Option.bind_some] at read
    cases known : WireType.ofCode? (n % 8) with
    | none => simp [known] at read
    | some wireType =>
      simp only [known, Option.bind_some] at read
      split at read
      · cases read
        exact readBase128_shorter inner
      · cases read

theorem readFixed32_shorter {bytes rest : Bytes} {word : UInt32}
    (read : readFixed32 bytes = some (word, rest)) : rest.length < bytes.length := by
  unfold readFixed32 at read
  split at read
  · cases read
    simp
    omega
  · cases read

theorem readFixed64_shorter {bytes rest : Bytes} {word : UInt64}
    (read : readFixed64 bytes = some (word, rest)) : rest.length < bytes.length := by
  unfold readFixed64 at read
  cases first : readFixed32 bytes with
  | none => simp [first] at read
  | some found =>
    obtain ⟨low, middle⟩ := found
    cases second : readFixed32 middle with
    | none => simp [first, second] at read
    | some found =>
      obtain ⟨high, after⟩ := found
      simp only [first, second, Option.bind_eq_bind, Option.bind_some] at read
      cases read
      exact Nat.lt_trans (readFixed32_shorter second) (readFixed32_shorter first)

theorem readVarint_shorter {bytes rest : Bytes} {word : UInt64}
    (read : readVarint bytes = some (word, rest)) : rest.length < bytes.length := by
  unfold readVarint at read
  cases inner : readBase128 bytes with
  | none => simp [inner] at read
  | some found =>
    obtain ⟨n, after⟩ := found
    simp only [inner, Option.bind_eq_bind, Option.bind_some] at read
    split at read
    · cases read
      exact readBase128_shorter inner
    · cases read

theorem readDelimited_shorter {bytes body rest : Bytes}
    (read : readDelimited bytes = some (body, rest)) : body.length + rest.length < bytes.length := by
  unfold readDelimited at read
  cases inner : readBase128 bytes with
  | none => simp [inner] at read
  | some found =>
    obtain ⟨n, after⟩ := found
    simp only [inner, Option.bind_eq_bind, Option.bind_some] at read
    split at read
    · cases read
      have shorter := readBase128_shorter inner
      rw [List.length_take, List.length_drop]
      omega
    · cases read

def Payload.length : Payload → Nat
  | .lengthDelimited body => body.length
  | _ => 0

theorem readPayload_shorter {wireType : WireType} {bytes rest : Bytes} {payload : Payload}
    (read : readPayload wireType bytes = some (payload, rest)) :
    payload.length + rest.length < bytes.length := by
  cases wireType with
  | varint =>
    obtain ⟨⟨word, after⟩, inner, equal⟩ := Option.map_eq_some_iff.mp read
    cases equal
    simpa [Payload.length] using readVarint_shorter inner
  | fixed64 =>
    obtain ⟨⟨word, after⟩, inner, equal⟩ := Option.map_eq_some_iff.mp read
    cases equal
    simpa [Payload.length] using readFixed64_shorter inner
  | lengthDelimited =>
    obtain ⟨⟨body, after⟩, inner, equal⟩ := Option.map_eq_some_iff.mp read
    cases equal
    exact readDelimited_shorter inner
  | fixed32 =>
    obtain ⟨⟨word, after⟩, inner, equal⟩ := Option.map_eq_some_iff.mp read
    cases equal
    simpa [Payload.length] using readFixed32_shorter inner

-- What a record takes off the front is more than the body it may hold.
theorem readRecord_shorter {bytes rest : Bytes} {record : Record}
    (read : readRecord bytes = some (record, rest)) :
    record.payload.length + rest.length < bytes.length := by
  unfold readRecord at read
  cases first : readKey bytes with
  | none => simp [first] at read
  | some found =>
    obtain ⟨⟨number, wireType⟩, middle⟩ := found
    simp only [first, Option.bind_eq_bind, Option.bind_some] at read
    cases second : readPayload wireType middle with
    | none => simp [second] at read
    | some found =>
      obtain ⟨payload, after⟩ := found
      simp only [second, Option.bind_some] at read
      cases read
      exact Nat.lt_trans (readPayload_shorter second) (readKey_shorter first)

end SigningSchema.Wire
