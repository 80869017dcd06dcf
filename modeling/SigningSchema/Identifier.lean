import SigningSchema.Text
import SigningSchema.Unicode.Case

-- Spellings of names: in signed structures (camelCase) and in generated code
-- (PascalCase for types and variants, snake_case for functions and modules).

namespace SigningSchema.Identifier

open Unicode (isLower isUpper toLower toUpper)

def camelChars (raise : Bool) : List Char → List Char
  | [] => []
  | c :: rest =>
    if c = '_' then camelChars true rest
    else if raise then toUpper c ++ camelChars false rest
    else c :: camelChars false rest

def camelCase (name : String) : String := String.ofList (camelChars false name.toList)

def raiseFirst : List Char → List Char
  | [] => []
  | c :: rest => toUpper c ++ rest

def lowerFirst : List Char → List Char
  | [] => []
  | c :: rest => toLower c ++ rest

def upperFirstText (text : String) : String := String.ofList (raiseFirst text.toList)

def lowerFirstText (text : String) : String := String.ofList (lowerFirst text.toList)

def pascalCase (name : String) : String :=
  let words := (Text.splitChars '_' name.toList).flatMap (Text.splitChars '.')
  String.ofList (words.flatMap raiseFirst)

def beginsWord (before : Char) (after : Option Char) : Bool :=
  if isUpper before then after.any isLower else before ≠ '_'

def snakeChars (before : Option Char) : List Char → List Char
  | [] => []
  | c :: rest =>
    if isUpper c then
      let gap := before.any fun b => beginsWord b rest.head?
      (if gap then ['_'] else []) ++ toLower c ++ snakeChars (some c) rest
    else c :: snakeChars (some c) rest

def snakeCase (name : String) : String := String.ofList (snakeChars none name.toList)

def reserved : List String :=
  ["as", "async", "await", "break", "const", "continue", "crate", "dyn", "else", "enum",
    "extern", "false", "fn", "for", "if", "impl", "in", "let", "loop", "match", "mod", "move",
    "mut", "pub", "ref", "return", "self", "Self", "static", "struct", "super", "trait", "true",
    "type", "unsafe", "use", "where", "while", "yield"]

def escapeReserved (name : String) : String :=
  if reserved.contains name then name ++ "_" else name

def typeName (localName : String) : String := pascalCase (snakeCase localName)

def flatName (fullName : String) : String :=
  Text.joined "_" ((Text.split '.' fullName).map snakeCase)

end SigningSchema.Identifier
