-- Wire primitives: base-128 integers, zigzag, little-endian words, field keys and
-- length-prefixed runs. Every writer is a function to the bytes it adds, so what
-- a buffer holds afterwards is always the old contents followed by those bytes.

namespace SigningSchema.Wire

abbrev Bytes := List UInt8

inductive WireType where
  | varint
  | fixed64
  | lengthDelimited
  | fixed32
  deriving DecidableEq, Repr

def WireType.code : WireType → UInt32
  | .varint => 0
  | .fixed64 => 1
  | .lengthDelimited => 2
  | .fixed32 => 5

def base128 (n : Nat) : Bytes :=
  if n < 128 then [UInt8.ofNat n] else UInt8.ofNat (n % 128 + 128) :: base128 (n / 128)
termination_by n

def varint (value : UInt64) : Bytes := base128 value.toNat

def varint32 (value : UInt32) : Bytes := varint value.toUInt64

def signedVarint (value : Int64) : Bytes := varint value.toUInt64

def signedVarint32 (value : Int32) : Bytes := signedVarint value.toInt64

def zigzag (n : Int) : Nat := if 0 ≤ n then (2 * n).toNat else (-2 * n - 1).toNat

def zigzagVarint32 (value : Int32) : Bytes := base128 (zigzag value.toInt)

def zigzagVarint (value : Int64) : Bytes := base128 (zigzag value.toInt)

def fixed32 (value : UInt32) : Bytes :=
  [value.toUInt8, (value >>> 8).toUInt8, (value >>> 16).toUInt8, (value >>> 24).toUInt8]

def fixed64 (value : UInt64) : Bytes :=
  fixed32 value.toUInt32 ++ fixed32 (value >>> 32).toUInt32

def bool (value : Bool) : Bytes := [if value then 1 else 0]

-- Field numbers are 32-bit words: of a larger shift only the low 32 bits remain.
def tag (number : UInt32) (wireType : WireType) : Bytes :=
  varint32 ((number <<< 3) ||| wireType.code)

def lengthDelimited (payload : Bytes) : Bytes :=
  base128 payload.length ++ payload

def utf8 (text : String) : Bytes := text.toUTF8.data.toList

def string (text : String) : Bytes := lengthDelimited (utf8 text)

end SigningSchema.Wire
