import SigningSchema.Source.Declaration
import SigningSchema.Source.Lexical
import SigningSchema.Unicode.Word

-- Reading the declarations of a schema file. A reader takes what it recognizes off the
-- front of a text and answers what follows.

namespace SigningSchema

namespace Source

open Unicode (isBlank isWord)

def skipBlanks (text : List Char) : List Char := text.dropWhile isBlank

def blanks? : List Char → Option (List Char)
  | [] => none
  | c :: rest => if isBlank c then some (skipBlanks rest) else none

-- Or its beginning in a longer word.
def word? (word : String) (text : List Char) : Option (List Char) :=
  if word.toList.isPrefixOf text then some (text.drop word.toList.length) else none

def mark? (mark : Char) (text : List Char) : Option (List Char) :=
  match skipBlanks text with
  | [] => none
  | c :: rest => if c = mark then some (skipBlanks rest) else none

def beginsName (c : Char) : Bool := c.isAlpha || c = '_'

def isDotted (c : Char) : Bool := isWord c || c = '.'

def name? (continues : Char → Bool) : List Char → Option (List Char × List Char)
  | [] => none
  | c :: rest =>
    if beginsName c then some (c :: rest.takeWhile continues, rest.dropWhile continues) else none

def typeName? : List Char → Option (List Char × List Char)
  | '.' :: rest => (name? isDotted rest).map fun read => ('.' :: read.1, read.2)
  | text => name? isDotted text

def row? (accepts : Char → Bool) (text : List Char) : Option (List Char × List Char) :=
  let row := text.takeWhile accepts
  if row.isEmpty then none else some (row, text.dropWhile accepts)

def packageAt? (text : List Char) : Option (List Char) := do
  let rest ← word? "package" (skipBlanks text)
  let rest ← blanks? rest
  let (name, rest) ← name? isDotted rest
  let _ ← mark? ';' rest
  return name

def packageFrom? (lineStart : Bool) : List Char → Option (List Char)
  | [] => none
  | c :: rest =>
    let here := if lineStart then packageAt? (c :: rest) else none
    here.or (packageFrom? (c = '\n') rest)

-- At any place where a word can begin, in literals too.
def occurrences (read? : List Char → Option α) (afterWord : Bool) : List Char → List α
  | [] => []
  | c :: rest =>
    let here := if afterWord then none else read? (c :: rest)
    here.toList ++ occurrences read? (isWord c) rest

def header? (keyword : String) (text : List Char) : Option (List Char × List Char) := do
  let rest ← word? keyword text
  let rest ← blanks? rest
  let (name, rest) ← name? isWord rest
  match skipBlanks rest with
  | '{' :: body => some (name, body)
  | _ => none

def parameter? (text : List Char) : Option (List Char × List Char) := do
  let rest ← mark? '(' text
  let plain (text : List Char) : Option (List Char × List Char) := do
    let (name, rest) ← row? isDotted text
    match skipBlanks rest with
    | ')' :: rest => some (name, rest)
    | _ => none
  let streamed := (word? "stream" rest).bind fun rest => (blanks? rest).bind plain
  streamed.or (plain rest)

def request? (text : List Char) : Option (List Char) := do
  let rest ← word? "rpc" text
  let rest ← blanks? rest
  let (_, rest) ← row? isWord rest
  let (name, rest) ← parameter? rest
  let rest ← word? "returns" (skipBlanks rest)
  let _ ← parameter? rest
  return name

structure FieldText where
  repeated : Bool
  typeRef : List Char
  name : List Char
  digits : List Char

def endsField (text : List Char) : Bool :=
  text.isEmpty || match skipBlanks text with
    | '[' :: rest => rest.getLast? = some ']'
    | _ => false

def fieldAfter? (repeated : Bool) (text : List Char) : Option FieldText := do
  let (typeRef, rest) ← typeName? text
  let rest ← blanks? rest
  let (name, rest) ← name? isWord rest
  let rest ← mark? '=' rest
  let (digits, rest) ← row? Unicode.isDigit rest
  if endsField rest then some ⟨repeated, typeRef, name, digits⟩ else none

def label? (label : String) (text : List Char) : Option (List Char) :=
  (word? label text).bind blanks?

-- A word that could be a label is the type of the field if the statement makes no sense otherwise.
def field? (statement : List Char) : Option FieldText :=
  let unlabelled (repeated : Bool) (text : List Char) : Option FieldText :=
    ((label? "optional" text).bind (fieldAfter? repeated)).or (fieldAfter? repeated text)
  ((label? "repeated" statement).bind (unlabelled true)).or (unlabelled false statement)

def tag? (digits : List Char) : Option UInt32 :=
  if digits.all Char.isDigit then
    let n := digits.foldl (fun total c => total * 10 + (c.toNat - 48)) 0
    if n < UInt32.size then some (UInt32.ofNat n) else none
  else none

def optionValue? (text : List Char) : Option (List Char) := do
  let rest ← mark? ')' text
  let rest ← mark? '=' rest
  match rest with
  | '"' :: rest =>
    let value := rest.takeWhile (· ≠ '"')
    if rest.dropWhile (· ≠ '"') = ['"'] then some value else none
  | _ => none

-- The name may itself begin with blanks; as many others as possible come before it.
def optionNamed? (name : List Char) : List Char → Option (List Char)
  | [] => none
  | c :: rest =>
    let further := if isBlank c then optionNamed? name rest else none
    further.or
      (if name.isPrefixOf (c :: rest) then optionValue? ((c :: rest).drop name.length) else none)

def option? (name : String) (statement : List Char) : Option (List Char) := do
  let rest ← word? "option" statement
  match skipBlanks rest with
  | '(' :: rest => optionNamed? name.toList rest
  | _ => none

inductive Statement where
  | field (declared : FieldDecl)
  | legacyName (value : String)
  | other

def Statement.read (config : Config) (statement : List Char) : Statement :=
  match field? statement with
  | some text =>
    match tag? text.digits with
    | some tag => .field ⟨.ofList text.name, .ofList text.typeRef, text.repeated, tag⟩
    | none => .other
  | none =>
    match option? config.legacyNameOption statement with
    | some value => .legacyName (.ofList value)
    | none => .other

def Statement.field? : Statement → Option FieldDecl
  | field declared => some declared
  | _ => none

def Statement.legacyName? : Statement → Option String
  | legacyName value => some value
  | _ => none

def message (config : Config) (path package : String) (name body : List Char) : MessageDecl :=
  let read := (statements body).map (Statement.read config)
  { package := package
    name := .ofList name
    fields := read.filterMap Statement.field?
    source := path
    legacyName := (read.filterMap Statement.legacyName?).getLast? }

def isRequest (config : Config) (typeRef : String) : Bool :=
  Text.beginsWith config.messagePrefix (Text.lastPart '.' typeRef)

end Source

namespace SourceFile

open Source

def read? (config : Config) (path text : String) : Option SourceFile :=
  let plain := stripComments text.toList
  (packageFrom? true plain).map fun package =>
    { path := path
      package := .ofList package
      messages := (occurrences (header? "message") false plain).map fun (name, rest) =>
        message config path (.ofList package) name (blockBody rest)
      enums := (occurrences (header? "enum") false plain).map fun (name, _) => .ofList name
      requests := ((occurrences request? false plain).map String.ofList).filter
        (isRequest config) }

end SourceFile

end SigningSchema
