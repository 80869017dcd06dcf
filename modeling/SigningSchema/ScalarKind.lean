import SigningSchema.Wire

namespace SigningSchema

open Wire (WireType)

inductive ScalarKind where
  | string
  | bytes
  | bool
  | int32
  | sint32
  | sfixed32
  | uint32
  | fixed32
  | int64
  | sint64
  | sfixed64
  | uint64
  | fixed64
  | float
  | double
  | enum
  | duration
  | timestamp
  deriving DecidableEq, Repr

namespace ScalarKind

def all : List ScalarKind :=
  [string, bytes, bool, int32, sint32, sfixed32, uint32, fixed32, int64, sint64, sfixed64,
    uint64, fixed64, float, double, enum, duration, timestamp]

def keyword : ScalarKind → String
  | string => "string"
  | bytes => "bytes"
  | bool => "bool"
  | int32 => "int32"
  | sint32 => "sint32"
  | sfixed32 => "sfixed32"
  | uint32 => "uint32"
  | fixed32 => "fixed32"
  | int64 => "int64"
  | sint64 => "sint64"
  | sfixed64 => "sfixed64"
  | uint64 => "uint64"
  | fixed64 => "fixed64"
  | float => "float"
  | double => "double"
  | enum => "enum"
  | duration => "duration"
  | timestamp => "timestamp"

def variantName : ScalarKind → String
  | string => "String"
  | bytes => "Bytes"
  | bool => "Bool"
  | int32 => "Int32"
  | sint32 => "SInt32"
  | sfixed32 => "SFixed32"
  | uint32 => "UInt32"
  | fixed32 => "Fixed32"
  | int64 => "Int64"
  | sint64 => "SInt64"
  | sfixed64 => "SFixed64"
  | uint64 => "UInt64"
  | fixed64 => "Fixed64"
  | float => "Float"
  | double => "Double"
  | enum => "Enum"
  | duration => "Duration"
  | timestamp => "Timestamp"

def named? (name : String) : Option ScalarKind := all.find? (·.keyword = name)

-- An enum is known by its own declared name and the two well-known types by their
-- full names, so their kind names are no keywords of the schema language.
def isKeyword : ScalarKind → Bool
  | enum | duration | timestamp => false
  | _ => true

def ofKeyword? (word : String) : Option ScalarKind := (named? word).filter isKeyword

def durationType : String := "google.protobuf.Duration"

def timestampType : String := "google.protobuf.Timestamp"

def ofWellKnown? (typeName : String) : Option ScalarKind :=
  let bare := String.ofList (typeName.toList.dropWhile (· = '.'))
  if bare = durationType then some duration
  else if bare = timestampType then some timestamp
  else none

def signingType : ScalarKind → String
  | bool => "bool"
  | _ => "string"

def isDuration (kind : ScalarKind) : Bool := kind = duration

def isWide : ScalarKind → Bool
  | int64 | sint64 | sfixed64 | uint64 | fixed64 => true
  | _ => false

def wireType : ScalarKind → WireType
  | string | bytes | duration | timestamp => .lengthDelimited
  | sfixed32 | fixed32 | float => .fixed32
  | sfixed64 | fixed64 | double => .fixed64
  | _ => .varint

def isPackable (kind : ScalarKind) : Bool := kind.wireType ≠ .lengthDelimited

end ScalarKind

end SigningSchema
