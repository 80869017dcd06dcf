import SigningSchema.Number.Binary
import SigningSchema.ScalarKind
import SigningSchema.Table

namespace SigningSchema

open Wire (Bytes)

-- `null` stands for an unset message, duration or timestamp.
inductive Value where
  | null
  | bool (value : Bool)
  | int32 (value : Int32)
  | uint32 (value : UInt32)
  | int64 (value : Int64)
  | uint64 (value : UInt64)
  | float (word : UInt32)
  | double (word : UInt64)
  | string (value : String)
  | bytes (value : Bytes)
  | duration (seconds : Int64) (nanos : Int32)
  | timestamp (seconds : Int64) (nanos : Int32)
  | array (items : List Value)
  | object (members : List (String × Value))

namespace Value

def defaultFor : ScalarKind → Value
  | .string => .string ""
  | .bytes => .bytes []
  | .bool => .bool false
  | .int32 | .sint32 | .sfixed32 | .enum => .int32 0
  | .uint32 | .fixed32 => .uint32 0
  | .int64 | .sint64 | .sfixed64 => .int64 0
  | .uint64 | .fixed64 => .uint64 0
  | .float => .float 0
  | .double => .double 0
  | .duration | .timestamp => .null

def isNull : Value → Bool
  | null => true
  | _ => false

def member? (value : Value) (name : String) : Option Value :=
  match value with
  | object members => Table.get? members name
  | _ => none

def kindName : Value → String
  | null => "null"
  | bool _ => "bool"
  | int32 _ => "int32"
  | uint32 _ => "uint32"
  | int64 _ => "int64"
  | uint64 _ => "uint64"
  | float _ => "float"
  | double _ => "double"
  | string _ => "string"
  | bytes _ => "bytes"
  | duration _ _ => "duration"
  | timestamp _ _ => "timestamp"
  | array _ => "array"
  | object _ => "object"

def isWireDefault : Value → Bool
  | null => true
  | bool value => !value
  | int32 value => value = 0
  | uint32 value => value = 0
  | int64 value => value = 0
  | uint64 value => value = 0
  | float word => Number.single.isZero word.toNat
  | double word => Number.double.isZero word.toNat
  | string value => value = ""
  | bytes value => value.isEmpty
  | _ => false

mutual

def equal : Value → Value → Bool
  | .null, .null => true
  | .bool a, .bool b => a = b
  | .int32 a, .int32 b => a = b
  | .uint32 a, .uint32 b => a = b
  | .int64 a, .int64 b => a = b
  | .uint64 a, .uint64 b => a = b
  | .float a, .float b => Number.single.equal a.toNat b.toNat
  | .double a, .double b => Number.double.equal a.toNat b.toNat
  | .string a, .string b => a = b
  | .bytes a, .bytes b => a = b
  | .duration s n, .duration t m => s = t ∧ n = m
  | .timestamp s n, .timestamp t m => s = t ∧ n = m
  | .array a, .array b => equalItems a b
  | .object a, .object b => equalMembers a b
  | _, _ => false

def equalItems : List Value → List Value → Bool
  | [], [] => true
  | a :: as, b :: bs => a.equal b && equalItems as bs
  | _, _ => false

def equalMembers : List (String × Value) → List (String × Value) → Bool
  | [], [] => true
  | (j, a) :: as, (k, b) :: bs => j = k && a.equal b && equalMembers as bs
  | _, _ => false

end

theorem sizeOf_lt_of_get? {members : List (String × Value)} {name : String} {value : Value}
    (found : Table.get? members name = some value) : sizeOf value < sizeOf members := by
  have inside := List.sizeOf_lt_of_mem (Table.mem_of_get? found)
  simp only [Prod.mk.sizeOf_spec] at inside
  omega

theorem sizeOf_member?_lt {value inner : Value} {name : String}
    (found : value.member? name = some inner) : sizeOf inner < sizeOf value := by
  cases value <;> simp only [member?, reduceCtorEq] at found
  have := sizeOf_lt_of_get? found
  simp only [Value.object.sizeOf_spec]
  omega

end Value

end SigningSchema
