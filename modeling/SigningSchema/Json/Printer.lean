import SigningSchema.Hex
import SigningSchema.Json.Basic
import SigningSchema.Number.Shortest

-- Writing documents.

namespace SigningSchema

open Number (Layout)

namespace Json

def escape (c : Char) : List Char :=
  match c with
  | '"' => ['\\', '"']
  | '\\' => ['\\', '\\']
  | '\x08' => ['\\', 'b']
  | '\x0c' => ['\\', 'f']
  | '\n' => ['\\', 'n']
  | '\r' => ['\\', 'r']
  | '\t' => ['\\', 't']
  | c =>
    if c.toNat < 0x20 then
      ['\\', 'u', '0', '0', Hex.digit (c.toNat / 16), Hex.digit (c.toNat % 16)]
    else [c]

def quote (text : String) : String :=
  String.ofList ('"' :: text.toList.flatMap escape ++ ['"'])

def numberLayout : Layout where
  positional := some (-5, 15)
  plusSign := true
  pointZero := true
  tie := .even

end Json

def JsonNumber.text : JsonNumber → String
  | .integer value => toString value
  | .double word => Number.double.text Json.numberLayout word.toNat

namespace Json

mutual

def compact : Json → String
  | .null => "null"
  | .bool value => if value then "true" else "false"
  | .number value => value.text
  | .string value => quote value
  | .array items => "[" ++ compactItems items ++ "]"
  | .object members => "\x7b" ++ compactMembers members ++ "\x7d"

def compactItems : List Json → String
  | [] => ""
  | [item] => item.compact
  | item :: rest => item.compact ++ "," ++ compactItems rest

def compactMembers : List (String × Json) → String
  | [] => ""
  | [(key, value)] => quote key ++ ":" ++ value.compact
  | (key, value) :: rest => quote key ++ ":" ++ value.compact ++ "," ++ compactMembers rest

end

def lineBreak (depth : Nat) : String := "\n" ++ String.ofList (List.replicate (2 * depth) ' ')

mutual

def pretty (depth : Nat) : Json → String
  | .null => "null"
  | .bool value => if value then "true" else "false"
  | .number value => value.text
  | .string value => quote value
  | .array [] => "[]"
  | .array items => "[" ++ prettyItems (depth + 1) items ++ lineBreak depth ++ "]"
  | .object [] => "\x7b\x7d"
  | .object members => "\x7b" ++ prettyMembers (depth + 1) members ++ lineBreak depth ++ "\x7d"

def prettyItems (depth : Nat) : List Json → String
  | [] => ""
  | [item] => lineBreak depth ++ item.pretty depth
  | item :: rest => lineBreak depth ++ item.pretty depth ++ "," ++ prettyItems depth rest

def prettyMembers (depth : Nat) : List (String × Json) → String
  | [] => ""
  | [(key, value)] => lineBreak depth ++ quote key ++ ": " ++ value.pretty depth
  | (key, value) :: rest =>
    lineBreak depth ++ quote key ++ ": " ++ value.pretty depth ++ ","
      ++ prettyMembers depth rest

end

def describe : Json → String
  | .null => "null"
  | .bool value => "boolean " ++ (if value then "true" else "false")
  | .number value => "number " ++ value.text
  | .string value => "string " ++ quote value
  | .array items => "array of length " ++ toString items.length
  | .object _ => "object"

end Json

end SigningSchema
