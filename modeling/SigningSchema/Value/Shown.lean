import SigningSchema.Number.Shortest
import SigningSchema.Text
import SigningSchema.Unicode.Printable
import SigningSchema.Value.Basic

-- Values and texts as they are shown to developers.

namespace SigningSchema

namespace Shown

def numeric (c : Char) : List Char :=
  ['\\', 'u', '{'] ++ Nat.toDigits 16 c.toNat ++ ['}']

def character (c : Char) : List Char :=
  match c with
  | '\x00' => ['\\', '0']
  | '\t' => ['\\', 't']
  | '\r' => ['\\', 'r']
  | '\n' => ['\\', 'n']
  | '\\' => ['\\', '\\']
  | '"' => ['\\', '"']
  | c => if Unicode.isPrintable c then [c] else numeric c

def text (content : String) : String :=
  String.ofList ('"' :: content.toList.flatMap character ++ ['"'])

def floatLayout : Number.Layout where
  positional := some (-4, 15)
  plusSign := false
  pointZero := true
  tie := .up

end Shown

namespace Value

mutual

def shown : Value → String
  | .null => "null"
  | .bool value => if value then "true" else "false"
  | .int32 value => toString value.toInt
  | .uint32 value => toString value.toNat
  | .int64 value => toString value.toInt ++ "n"
  | .uint64 value => toString value.toNat ++ "n"
  | .float word => Number.single.text Shown.floatLayout word.toNat
  | .double word => Number.double.text Shown.floatLayout word.toNat
  | .string value => Shown.text value
  | .bytes value => "bytes[" ++ Text.joined ", " (value.map fun b => toString b.toNat) ++ "]"
  | .duration seconds nanos =>
    toString seconds.toInt ++ "s" ++ toString nanos.toInt ++ "ns"
  | .timestamp seconds nanos =>
    "@" ++ toString seconds.toInt ++ "s" ++ toString nanos.toInt ++ "ns"
  | .array items => "[" ++ shownItems items ++ "]"
  | .object members => "\x7b" ++ shownMembers members ++ "\x7d"

def shownItems : List Value → String
  | [] => ""
  | [item] => item.shown
  | item :: rest => item.shown ++ ", " ++ shownItems rest

def shownMembers : List (String × Value) → String
  | [] => ""
  | [(name, value)] => name ++ ": " ++ value.shown
  | (name, value) :: rest => name ++ ": " ++ value.shown ++ ", " ++ shownMembers rest

end

end Value

end SigningSchema
