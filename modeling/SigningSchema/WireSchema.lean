import SigningSchema.Coercion.Error
import SigningSchema.Value.Basic

-- Message types as the wire knows them, and the bytes of a value of such a type.

namespace SigningSchema

open Wire (Bytes)

inductive FieldType where
  | scalar (kind : ScalarKind)
  | message (index : Nat)
  deriving DecidableEq, Repr

structure WireField where
  name : String
  tag : UInt32
  type : FieldType
  repeated : Bool
  deriving DecidableEq, Repr

structure MessageType where
  name : String
  fields : List WireField
  deriving DecidableEq, Repr

structure WireSchema where
  types : List MessageType
  deriving DecidableEq, Repr

namespace WireSchema

def typeAt (schema : WireSchema) (index : Nat) : MessageType :=
  schema.types[index]?.getD ⟨"", []⟩

def index? (schema : WireSchema) (name : String) : Option Nat :=
  (schema.types.reverse.findIdx? (·.name = name)).map (schema.types.length - 1 - ·)

def typeName (schema : WireSchema) (field : WireField) : String :=
  match field.type with
  | .scalar kind => kind.keyword
  | .message index => (schema.typeAt index).name

def fill (schema : WireSchema) (index : Nat) (value : Value) : Value :=
  .object (Table.ofList ((schema.typeAt index).fields.map fun field =>
    (field.name,
      match _found : value.member? field.name with
      | some (.array items) =>
        if field.repeated then
          match field.type with
          | .scalar _ => .array items
          | .message inner =>
            .array (items.attach.map fun item => fill schema inner item.1)
        else
          match field.type with
          | .scalar _ => .array items
          | .message inner => fill schema inner (.array items)
      | some .null | none =>
        if field.repeated then .array []
        else match field.type with
          | .scalar kind => .defaultFor kind
          | .message _ => .null
      | some given =>
        match field.type with
        | .scalar _ => given
        | .message inner => fill schema inner given)))
termination_by sizeOf value
decreasing_by
  all_goals have inner := Value.sizeOf_member?_lt _found
  · have := List.sizeOf_lt_of_mem item.2
    simp only [Value.array.sizeOf_spec] at inner
    omega
  · exact inner
  · exact inner

end WireSchema

-- A writer keeps what it has written also where it fails.
abbrev Writer := EStateM CoercionError Bytes

namespace Writer

def emit (bytes : Bytes) : Writer Unit := modify (· ++ bytes)

-- On a buffer of its own, of which nothing is added where the writer fails.
def staged (writer : Writer Unit) : Writer Bytes :=
  match writer.run [] with
  | .ok _ bytes => pure bytes
  | .error error _ => throw error

def mismatch (path : FieldPath) (expected : String) (found : Value) : Writer α :=
  throw (.shape path expected found.kindName)

end Writer

namespace WireSchema

open Wire Writer

def momentBody (seconds : Int64) (nanos : Int32) : Bytes :=
  (if seconds = 0 then [] else tag 1 .varint ++ signedVarint seconds)
    ++ (if nanos = 0 then [] else tag 2 .varint ++ signedVarint32 nanos)

def payload? (kind : ScalarKind) (value : Value) : Option Bytes :=
  match kind, value with
  | .string, .string text => some (Wire.string text)
  | .bytes, .bytes data => some (lengthDelimited data)
  | .bool, .bool b => some (Wire.bool b)
  | .int32, .int32 n | .enum, .int32 n => some (signedVarint32 n)
  | .sint32, .int32 n => some (zigzagVarint32 n)
  | .sfixed32, .int32 n => some (fixed32 n.toUInt32)
  | .uint32, .uint32 n => some (varint32 n)
  | .fixed32, .uint32 n => some (fixed32 n)
  | .int64, .int64 n => some (signedVarint n)
  | .sint64, .int64 n => some (zigzagVarint n)
  | .sfixed64, .int64 n => some (fixed64 n.toUInt64)
  | .uint64, .uint64 n => some (varint n)
  | .fixed64, .uint64 n => some (fixed64 n)
  | .float, .float word => some (fixed32 word)
  | .double, .double word => some (fixed64 word)
  | .duration, .duration seconds nanos => some (lengthDelimited (momentBody seconds nanos))
  | .timestamp, .timestamp seconds nanos => some (lengthDelimited (momentBody seconds nanos))
  | _, _ => none

def writePayload (kind : ScalarKind) (path : FieldPath) (value : Value) : Writer Unit :=
  match payload? kind value with
  | some bytes => emit bytes
  | none => mismatch path kind.keyword value

def writePayloads (kind : ScalarKind) (path : FieldPath) (position : Nat) :
    List Value → Writer Unit
  | [] => pure ()
  | item :: rest => do
    writePayload kind (path.index position) item
    writePayloads kind path (position + 1) rest

def omitsZero : FieldType → Bool
  | .scalar .duration | .scalar .timestamp | .message _ => false
  | .scalar _ => true

mutual

def writeMessage (schema : WireSchema) (index : Nat) (path : FieldPath) (value : Value) :
    Writer Unit :=
  match value with
  | .object members => writeFields schema path members (schema.typeAt index).fields
  | other => mismatch path "object" other
termination_by (sizeOf value, 0)

def writeFields (schema : WireSchema) (path : FieldPath) (members : List (String × Value))
    (fields : List WireField) : Writer Unit :=
  match fields with
  | [] => pure ()
  | field :: rest =>
    (match _found : Table.get? members field.name with
      | none => pure ()
      | some value => writeField schema field (path.field field.name) value)
    *> writeFields schema path members rest
termination_by (sizeOf members, fields.length)
decreasing_by
  · exact Prod.Lex.left _ _ (Value.sizeOf_lt_of_get? _found)
  · exact Prod.Lex.right _ (by simp)

def writeField (schema : WireSchema) (field : WireField) (path : FieldPath) (value : Value) :
    Writer Unit :=
  match value with
  | .null => pure ()
  | .array items =>
    if !field.repeated then mismatch path (schema.typeName field) (.array items)
    else if items.isEmpty then pure ()
    else
      match field.type with
      | .scalar kind =>
        if kind.isPackable then do
          let run ← staged (writePayloads kind path 0 items)
          emit (tag field.tag .lengthDelimited ++ lengthDelimited run)
        else writeItems schema field path 0 items
      | .message _ => writeItems schema field path 0 items
  | other =>
    if field.repeated then mismatch path "array" other
    else if omitsZero field.type && other.isWireDefault then pure ()
    else writeSingle schema field path other
termination_by (sizeOf value, 2)

def writeItems (schema : WireSchema) (field : WireField) (path : FieldPath) (position : Nat)
    (items : List Value) : Writer Unit :=
  match items with
  | [] => pure ()
  | item :: rest => do
    writeSingle schema field (path.index position) item
    writeItems schema field path (position + 1) rest
termination_by (sizeOf items, 0)

def writeSingle (schema : WireSchema) (field : WireField) (path : FieldPath) (value : Value) :
    Writer Unit :=
  match field.type with
  | .scalar kind => do
    emit (tag field.tag kind.wireType)
    writePayload kind path value
  | .message inner => do
    let body ← staged (writeMessage schema inner path value)
    emit (tag field.tag .lengthDelimited ++ lengthDelimited body)
termination_by (sizeOf value, 1)

end

def encodeMessage (schema : WireSchema) (index : Nat) (path : FieldPath) (value : Value) :
    Except CoercionError Bytes :=
  match (writeMessage schema index path value).run [] with
  | .ok _ bytes => .ok bytes
  | .error error _ => .error error

def encode (schema : WireSchema) (name : String) (value : Value) : Except CoercionError Bytes :=
  match schema.index? name with
  | none => .error (.unknownTypeUrl ("/" ++ name))
  | some index =>
    schema.encodeMessage index (.root FieldPath.defaultLabel) (schema.fill index value)

end WireSchema

end SigningSchema
