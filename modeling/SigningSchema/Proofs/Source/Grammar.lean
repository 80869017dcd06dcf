import SigningSchema.Proofs.Source.Blocks
import SigningSchema.Proofs.Source.Headers

-- Schema files as they are meant: declarations, how they are written as tokens, and what they
-- declare.

namespace SigningSchema.Source

open Unicode (isBlank isWord)

def isNameChar (c : Char) : Bool := c.isAlphanum || c = '_'

def isPathChar (c : Char) : Bool := isNameChar c || c = '.'

-- A beginning of a name, and then characters of a class.
def isNamed (continues : Char → Bool) : List Char → Bool
  | [] => false
  | c :: rest => beginsName c && rest.all continues

-- Names of the schema language are of ASCII.
structure Name where
  text : String
  valid : isNamed isNameChar text.toList = true

structure DottedName where
  text : String
  valid : isNamed isPathChar text.toList = true

def isTypeName : List Char → Bool
  | '.' :: rest => isNamed isPathChar rest
  | text => isNamed isPathChar text

-- A dotted name that may begin with a dot.
structure TypeName where
  text : String
  valid : isTypeName text.toList = true

theorem isDotted_of_isPathChar {c : Char} (char : isPathChar c = true) : isDotted c = true := by
  rw [isPathChar, Bool.or_eq_true, decide_eq_true_eq] at char
  rcases char with name | rfl
  · exact isDotted_of_isWord (isWord_of_ascii name)
  · rfl

theorem isPathChar_of_isNameChar {c : Char} (char : isNameChar c = true) : isPathChar c = true := by
  rw [isPathChar, char, Bool.true_or]

theorem isNameChar_of_beginsName {c : Char} (begins : beginsName c = true) : isNameChar c = true := by
  rw [beginsName, Bool.or_eq_true] at begins
  rw [isNameChar, Char.isAlphanum, Bool.or_eq_true, Bool.or_eq_true]
  exact begins.imp_left .inl

section Named

variable {continues : Char → Bool} {text : List Char}

theorem isNamed_ne_nil (named : isNamed continues text = true) : text ≠ [] := by
  rintro rfl
  cases named

theorem isNamed_forall (includes : ∀ c, isNameChar c = true → continues c = true)
    (named : isNamed continues text = true) : ∀ c ∈ text, continues c = true := by
  cases text with
  | nil => exact fun _ none => nomatch none
  | cons c rest =>
    rw [isNamed, Bool.and_eq_true, List.all_eq_true] at named
    exact List.forall_mem_cons.mpr
      ⟨includes c (isNameChar_of_beginsName named.1), named.2⟩

end Named

namespace Name

def word (name : Name) : Word where
  text := name.text.toList
  given := isNamed_ne_nil name.valid
  dotted := fun c inside => isDotted_of_isPathChar (isPathChar_of_isNameChar
    (isNamed_forall (fun _ => id) name.valid c inside))

theorem isWord_of_mem (name : Name) : ∀ c ∈ name.word.text, isWord c = true :=
  fun c inside => isWord_of_ascii (isNamed_forall (fun _ => id) name.valid c inside)

end Name

theorem isNamed_isPathChar {text : List Char} (named : isNamed isNameChar text = true) :
    isNamed isPathChar text = true := by
  cases text with
  | nil => cases named
  | cons c rest =>
    rw [isNamed, Bool.and_eq_true, List.all_eq_true] at named ⊢
    exact ⟨named.1, fun d inside => isPathChar_of_isNameChar (named.2 d inside)⟩

theorem isNamed_dotted {text : List Char} (named : isNamed isPathChar text = true) :
    ∀ c ∈ text, isDotted c = true :=
  fun c inside => isDotted_of_isPathChar
    (isNamed_forall (fun _ => isPathChar_of_isNameChar) named c inside)

namespace DottedName

def word (name : DottedName) : Word where
  text := name.text.toList
  given := isNamed_ne_nil name.valid
  dotted := isNamed_dotted name.valid

end DottedName

namespace TypeName

theorem cases (name : TypeName) : isNamed isPathChar name.text.toList = true ∨
    ∃ rest, name.text.toList = '.' :: rest ∧ isNamed isPathChar rest = true := by
  have valid := name.valid
  unfold isTypeName at valid
  split at valid
  · rename_i rest text
    exact .inr ⟨rest, text, valid⟩
  · exact .inl valid

def word (name : TypeName) : Word where
  text := name.text.toList
  given := by
    rcases name.cases with named | ⟨rest, dot, _⟩
    · exact isNamed_ne_nil named
    · rw [dot]
      exact List.cons_ne_nil _ _
  dotted := by
    rcases name.cases with named | ⟨rest, dot, named⟩
    · exact isNamed_dotted named
    · rw [dot]
      exact List.forall_mem_cons.mpr ⟨rfl, isNamed_dotted named⟩

end TypeName

-- A name is a type name without dots.
def Name.type (name : Name) : TypeName where
  text := name.text
  valid := by
    have named := isNamed_isPathChar name.valid
    unfold isTypeName
    split
    · rename_i rest same
      rw [same] at named
      cases named
    · exact named

-- Decimal numerals.
theorem isDigit_of_mem_toDigits {n : Nat} {c : Char} (inside : c ∈ Nat.toDigits 10 n) :
    c.isDigit = true :=
  Nat.isDigit_of_mem_toDigits (by decide) (by decide) inside

def numeral (n : Nat) : Word where
  text := Nat.toDigits 10 n
  given := Nat.toDigits_ne_nil
  dotted := fun c inside => isDotted_of_isWord (isWord_of_ascii (by
    rw [Char.isAlphanum, isDigit_of_mem_toDigits inside, Bool.or_true, Bool.true_or]))

namespace Word

def of (text : String) (given : text.toList ≠ []) (dotted : text.toList.all isDotted = true) : Word :=
  ⟨text.toList, given, List.all_eq_true.mp dotted⟩

def package : Word := .of "package" (by decide) (by decide)

def message : Word := .of "message" (by decide) (by decide)

def enum : Word := .of "enum" (by decide) (by decide)

def oneof : Word := .of "oneof" (by decide) (by decide)

def service : Word := .of "service" (by decide) (by decide)

def rpc : Word := .of "rpc" (by decide) (by decide)

def returns : Word := .of "returns" (by decide) (by decide)

def stream : Word := .of "stream" (by decide) (by decide)

def repeated : Word := .of "repeated" (by decide) (by decide)

def optional : Word := .of "optional" (by decide) (by decide)

def option : Word := .of "option" (by decide) (by decide)

end Word

namespace Mark

def openBrace : Mark := ⟨'{', rfl, rfl, rfl, by decide⟩

def closeBrace : Mark := ⟨'}', rfl, rfl, rfl, by decide⟩

def openParen : Mark := ⟨'(', rfl, rfl, rfl, by decide⟩

def closeParen : Mark := ⟨')', rfl, rfl, rfl, by decide⟩

def openBracket : Mark := ⟨'[', rfl, rfl, rfl, by decide⟩

def closeBracket : Mark := ⟨']', rfl, rfl, rfl, by decide⟩

def equals : Mark := ⟨'=', rfl, rfl, rfl, by decide⟩

def minus : Mark := ⟨'-', rfl, rfl, rfl, by decide⟩

def semicolon : Mark := ⟨';', rfl, rfl, rfl, by decide⟩

end Mark

-- A list of options in brackets: neither braces nor semicolons outside literals. Parentheses are
-- those of option names, never those of a remote call.
structure Options where
  tokens : List Token
  plain : ∀ token ∈ tokens, token.Plain
  calls : openings "rpc" '(' tokens = []

-- No two words side by side: the names and the constants of options have marks around them.
def separate : List Token → Bool
  | .word _ :: .word _ :: _ => false
  | _ :: rest => separate rest
  | [] => true

theorem pairs_separate {c : Char} {tokens : List Token} (apart : separate tokens = true) :
    pairs c tokens = [] := by
  induction tokens with
  | nil => rfl
  | cons token rest ih =>
    rcases token with first | _ | _
    · rcases rest with _ | ⟨second | _ | _, more⟩
      · rfl
      · cases apart
      · exact ih apart
      · exact ih apart
    · exact ih apart
    · exact ih apart

def Options.ofSeparate (tokens : List Token) (plain : ∀ token ∈ tokens, token.Plain)
    (apart : separate tokens = true) : Options where
  tokens := tokens
  plain := plain
  calls := by rw [openings, pairs_separate apart]; rfl

def Options.bracketed : Option Options → List Token
  | none => []
  | some options => .mark .openBracket :: (options.tokens ++ [.mark .closeBracket])

inductive Label where
  | none
  | repeated
  | optional

def Label.tokens : Label → List Token
  | none => []
  | repeated => [.word .repeated]
  | optional => [.word .optional]

structure FieldClause where
  label : Label
  type : TypeName
  name : Name
  tag : UInt32
  options : Option Options

def FieldClause.tokens (field : FieldClause) : List Token :=
  field.label.tokens ++ .word field.type.word :: .word field.name.word :: .mark .equals
    :: .word (numeral field.tag.toNat) :: Options.bracketed field.options

structure EnumValue where
  name : Name
  negative : Bool
  number : Nat
  options : Option Options

def EnumValue.tokens (value : EnumValue) : List Token :=
  .word value.name.word :: .mark .equals :: ((if value.negative then [.mark .minus] else [])
    ++ .word (numeral value.number) :: Options.bracketed value.options)

-- The value of a legacy name: no quote of its own kind, no escape and nothing like a header.
structure LegacyValue where
  text : String
  noQuote : ∀ c ∈ text.toList, c ≠ '"'
  noEscape : ∀ c ∈ text.toList, c ≠ '\\'
  quiet : Quiet text.toList

theorem Enclosed.of_plain {quote : Char} {text : List Char} (noEscape : ∀ c ∈ text, c ≠ '\\')
    (noQuote : ∀ c ∈ text, c ≠ quote) : Enclosed quote text := by
  induction text with
  | nil => exact .nil
  | cons c rest ih =>
    obtain ⟨first, later⟩ := List.forall_mem_cons.mp noEscape
    obtain ⟨firstToo, laterToo⟩ := List.forall_mem_cons.mp noQuote
    exact .plain first firstToo (ih later laterToo)

def LegacyValue.literal (value : LegacyValue) : Literal where
  quote := '"'
  content := value.text.toList
  quoted := rfl
  closed := .of_plain value.noEscape value.noQuote
  quiet := value.quiet

def legacyClause (name : TypeName) (value : LegacyValue) : List Token :=
  [.word .option, .mark .openParen, .word name.word, .mark .closeParen, .mark .equals,
    .literal value.literal]

-- Clauses, each with its semicolon.
def clauses (all : List (List Token)) : List Token :=
  all.flatMap fun clause => clause ++ [.mark .semicolon]

-- What stands in a message: an item and what follows it. Options with the given name give legacy
-- names.
inductive Body (option : String) where
  | nil
  | field (clause : FieldClause) (rest : Body option)
  | legacyName (name : TypeName) (named : name.text = option) (value : LegacyValue)
      (rest : Body option)
  | message (name : Name) (body rest : Body option)
  | enum (name : Name) (values : List EnumValue) (rest : Body option)
  | oneof (name : Name) (fields : List FieldClause) (rest : Body option)

-- A header with its body in braces, and what follows.
def block (keyword : Word) (name : Name) (inner rest : List Token) : List Token :=
  .word keyword :: .word name.word :: .mark .openBrace
    :: (inner ++ .mark .closeBrace :: rest)

def Body.tokens {option : String} : Body option → List Token
  | nil => []
  | field clause rest => clause.tokens ++ .mark .semicolon :: rest.tokens
  | legacyName name _ value rest => legacyClause name value ++ .mark .semicolon :: rest.tokens
  | message name body rest => block .message name body.tokens rest.tokens
  | enum name values rest => block .enum name (clauses (values.map EnumValue.tokens)) rest.tokens
  | oneof name fields rest => block .oneof name (clauses (fields.map FieldClause.tokens)) rest.tokens

structure Call where
  name : Name
  streamsRequest : Bool
  request : TypeName
  streamsResponse : Bool
  response : TypeName

-- A parameter after its opening parenthesis.
def argument (streams : Bool) (type : TypeName) : List Token :=
  (if streams then [.word .stream] else []) ++ [.word type.word, .mark .closeParen]

-- A call after its opening parenthesis.
def Call.inside (call : Call) : List Token :=
  argument call.streamsRequest call.request ++ .word .returns :: .mark .openParen
    :: argument call.streamsResponse call.response

def Call.tokens (call : Call) : List Token :=
  .word .rpc :: .word call.name.word :: .mark .openParen :: call.inside

-- A statement of a file that declares nothing: its syntax, an import or an option.
structure Setting extends Options where
  notPackage : pairs ';' (tokens ++ [.mark .semicolon]) = []

inductive Declaration (option : String) where
  | message (name : Name) (body : Body option)
  | enum (name : Name) (values : List EnumValue)
  | service (name : Name) (calls : List Call)
  | setting (setting : Setting)

def Declaration.tokens {option : String} : Declaration option → List Token
  | message name body => block .message name body.tokens []
  | enum name values => block .enum name (clauses (values.map EnumValue.tokens)) []
  | service name calls => block .service name (clauses (calls.map Call.tokens)) []
  | setting clause => clause.tokens ++ [.mark .semicolon]

-- A package statement among declarations.
structure Schema (option : String) where
  before : List (Declaration option)
  package : DottedName
  after : List (Declaration option)

section Meaning

variable {option : String}

def FieldClause.declared (field : FieldClause) : FieldDecl :=
  ⟨field.name.text, field.type.text, field.label matches .repeated, field.tag⟩

namespace Body

-- The fields of the message itself, without those of blocks in it.
def fields : Body option → List FieldDecl
  | nil => []
  | field clause rest => clause.declared :: rest.fields
  | legacyName _ _ _ rest | message _ _ rest | enum _ _ rest | oneof _ _ rest => rest.fields

def legacyNames : Body option → List String
  | nil => []
  | legacyName _ _ value rest => value.text :: rest.legacyNames
  | field _ rest | message _ _ rest | enum _ _ rest | oneof _ _ rest => rest.legacyNames

-- Messages of every depth, in order of appearance.
def messages : Body option → List (Name × Body option)
  | nil => []
  | message name body rest => (name, body) :: body.messages ++ rest.messages
  | field _ rest | legacyName _ _ _ rest | enum _ _ rest | oneof _ _ rest => rest.messages

def enums : Body option → List Name
  | nil => []
  | message _ body rest => body.enums ++ rest.enums
  | enum name _ rest => name :: rest.enums
  | field _ rest | legacyName _ _ _ rest | oneof _ _ rest => rest.enums

def declared (package path : String) (name : Name) (body : Body option) : MessageDecl :=
  ⟨package, name.text, body.fields, path, body.legacyNames.getLast?⟩

end Body

namespace Declaration

def messages : Declaration option → List (Name × Body option)
  | message name body => (name, body) :: body.messages
  | enum _ _ | service _ _ | setting _ => []

def enums : Declaration option → List Name
  | message _ body => body.enums
  | enum name _ => [name]
  | service _ _ | setting _ => []

def requests : Declaration option → List TypeName
  | service _ calls => calls.map Call.request
  | message _ _ | enum _ _ | setting _ => []

end Declaration

namespace Schema

def declarations (schema : Schema option) : List (Declaration option) := schema.before ++ schema.after

-- What the reader has to find in a file.
def declared (schema : Schema option) (config : Config) (path : String) : SourceFile where
  path := path
  package := schema.package.text
  messages := (schema.declarations.flatMap Declaration.messages).map fun (name, body) =>
    body.declared schema.package.text path name
  enums := (schema.declarations.flatMap Declaration.enums).map Name.text
  requests := ((schema.declarations.flatMap Declaration.requests).map TypeName.text).filter
    (isRequest config)

end Schema

end Meaning

end SigningSchema.Source
