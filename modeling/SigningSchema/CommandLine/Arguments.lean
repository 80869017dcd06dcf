import SigningSchema.Table
import SigningSchema.Text

-- What the words of a command line ask for.

namespace SigningSchema

structure SchemaOptions where
  directory : String
  config : Option String
  typeOverrides : Option String
  fieldDefaults : Option String
  deriving DecidableEq, Repr

inductive Command where
  | generate (schema : SchemaOptions) (directory : String)
  | inspect (schema : SchemaOptions) (typeUrl : Option String)
  | encode (schema : SchemaOptions) (typeUrl : String) (input : Option String)
  deriving DecidableEq, Repr

namespace CommandLine

inductive Refusal where
  | help
  | misuse
  deriving DecidableEq, Repr

inductive Operand where
  | none
  | text
  | path
  deriving DecidableEq, Repr

structure OptionForm where
  long : String
  short : Option Char
  operand : Operand
  deriving DecidableEq, Repr

abbrev Settings := Table String

inductive Word where
  | separator
  | long (name : String) (operand : Option String)
  | letters (letters : List Char)
  | plain (text : String)
  deriving DecidableEq, Repr

def Word.ofText (text : String) : Word :=
  match text.toList with
  | ['-', '-'] => .separator
  | '-' :: '-' :: chars =>
    .long (.ofList (chars.takeWhile (· ≠ '=')))
      (match chars.dropWhile (· ≠ '=') with
        | _ :: operand => some (.ofList operand)
        | [] => none)
  | '-' :: c :: chars => .letters (c :: chars)
  | _ => .plain text

def generalForms : List OptionForm :=
  [⟨"verbose", some 'v', .none⟩, ⟨"help", some 'h', .none⟩]

def schemaForms : List OptionForm :=
  [⟨"schema-dir", some 's', .path⟩, ⟨"config", some 'c', .path⟩,
    ⟨"type-overrides", none, .path⟩, ⟨"field-defaults", none, .path⟩] ++ generalForms

-- No option is given twice, and help is given at once.
def note (settings : Settings) (form : OptionForm) (operand : String) :
    Except Refusal Settings :=
  if form.long = "help" then .error .help
  else if (settings.get? form.long).isSome ∨ (form.operand = .path ∧ operand = "") then
    .error .misuse
  else .ok (settings.insert form.long operand)

def readLetters (forms : List OptionForm) (settings : Settings) :
    List Char → Except Refusal (Settings × Option OptionForm)
  | [] => .ok (settings, none)
  | c :: rest =>
    match forms.find? (·.short = some c) with
    | none => .error .misuse
    | some form =>
      if form.operand = .none then
        match note settings form "" with
        | .ok settings => readLetters forms settings rest
        | .error refusal => .error refusal
      else match rest with
        | [] => .ok (settings, some form)
        | '=' :: operand => (note settings form (.ofList operand)).map fun noted => (noted, none)
        | operand => (note settings form (.ofList operand)).map fun noted => (noted, none)

def readLong (forms : List OptionForm) (settings : Settings) (name : String)
    (operand : Option String) : Except Refusal (Settings × Option OptionForm) :=
  match forms.find? (·.long = name), operand with
  | none, _ => .error .misuse
  | some form, some operand =>
    if form.operand = .none then .error .misuse
    else (note settings form operand).map fun noted => (noted, none)
  | some form, none =>
    if form.operand = .none then (note settings form "").map fun noted => (noted, none)
    else .ok (settings, some form)

-- The option that waits for an operand takes the next word, which has to be a plain one.
def readOptions (forms : List OptionForm) (settings : Settings) (waiting : Option OptionForm) :
    List String → Except Refusal (Settings × List String)
  | [] => if waiting.isSome then .error .misuse else .ok (settings, [])
  | text :: rest =>
    match waiting, Word.ofText text with
    | some form, .plain operand => do
      readOptions forms (← note settings form operand) none rest
    | some _, _ => .error .misuse
    | none, .plain _ => .ok (settings, text :: rest)
    | none, .separator => if rest = [] then .ok (settings, []) else .error .misuse
    | none, .long name operand => do
      let (settings, waiting) ← readLong forms settings name operand
      readOptions forms settings waiting rest
    | none, .letters letters => do
      let (settings, waiting) ← readLetters forms settings letters
      readOptions forms settings waiting rest

def readAll (forms : List OptionForm) (words : List String) : Except Refusal Settings := do
  let (settings, rest) ← readOptions forms [] none words
  if rest = [] then return settings else throw .misuse

def required (settings : Settings) (long : String) : Except Refusal String :=
  match settings.get? long with
  | some operand => .ok operand
  | none => .error .misuse

def schemaOptions (settings : Settings) : Except Refusal SchemaOptions := do
  return {
    directory := ← required settings "schema-dir"
    config := settings.get? "config"
    typeOverrides := settings.get? "type-overrides"
    fieldDefaults := settings.get? "field-defaults" }

def readGenerate (words : List String) : Except Refusal Command := do
  let settings ← readAll (⟨"out-dir", some 'o', .path⟩ :: schemaForms) words
  return .generate (← schemaOptions settings) (← required settings "out-dir")

def readInspect (words : List String) : Except Refusal Command := do
  let settings ← readAll (⟨"type-url", some 't', .text⟩ :: schemaForms) words
  return .inspect (← schemaOptions settings) (settings.get? "type-url")

def readEncode (words : List String) : Except Refusal Command := do
  let settings ← readAll
    (⟨"type-url", some 't', .text⟩ :: ⟨"input", some 'i', .path⟩ :: schemaForms) words
  return .encode (← schemaOptions settings) (← required settings "type-url")
    (settings.get? "input")

def readHelp : List String → Refusal
  | [] | ["generate"] | ["inspect"] | ["encode"] | ["help"] => .help
  | _ => .misuse

end CommandLine

def Command.ofWords (words : List String) : Except CommandLine.Refusal Command := do
  let (_, rest) ← CommandLine.readOptions CommandLine.generalForms [] none words
  match rest with
  | "generate" :: more => CommandLine.readGenerate more
  | "inspect" :: more => CommandLine.readInspect more
  | "encode" :: more => CommandLine.readEncode more
  | "help" :: more => throw (CommandLine.readHelp more)
  | _ => throw .misuse

end SigningSchema
