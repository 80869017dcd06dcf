import SigningSchema.Proofs.Source.Calls
import SigningSchema.Proofs.Source.Packages

-- Schema files as texts, in any layout, and that reading such a text gives back what the schema
-- declares.

namespace SigningSchema.Source

open Unicode (isBlank isWord)

section Printed

variable {option : String}

def Schema.tokens (schema : Schema option) : List Token :=
  schema.before.flatMap Declaration.tokens ++ .word .package :: .word schema.package.word
    :: .mark .semicolon :: schema.after.flatMap Declaration.tokens

-- A layout of the tokens of a schema in which the package statement starts its line. Literals
-- before it stand on one line each.
inductive Schema.Printed (schema : Schema option) : List Char → Prop where
  | text {start gap rest tail : List Char}
      (before : Laid Gap false (schema.before.flatMap Declaration.tokens) start)
      (oneLine : ∀ token ∈ schema.before.flatMap Declaration.tokens, '\n' ∉ token.text)
      (spaced : Gap gap) (line : schema.before ≠ [] → '\n' ∈ gap)
      (after : Laid Gap true (.word schema.package.word :: .mark .semicolon
        :: schema.after.flatMap Declaration.tokens) rest)
      (ends : Ending tail) :
      Printed schema (start ++ (gap ++ (Word.package.text ++ (rest ++ tail))))

-- One gap before each token.
def spaced (gap : List Char) (tokens : List Token) : List Char :=
  tokens.flatMap fun token => gap ++ token.text

theorem laid_spaced {Space : List Char → Prop} {gap : List Char} (space : Space gap) (given : gap ≠ [])
    (tokens : List Token) (after : Bool) : Laid Space after tokens (spaced gap tokens) := by
  induction tokens generalizing after with
  | nil => exact .nil
  | cons token rest ih =>
    rw [spaced, List.flatMap_cons, List.append_assoc]
    exact .cons space (fun _ _ => given) (ih token.isWord)

def Schema.print (gap : List Char) (schema : Schema option) : List Char :=
  spaced gap (schema.before.flatMap Declaration.tokens) ++ (gap ++ (Word.package.text
    ++ (spaced gap (.word schema.package.word :: .mark .semicolon
      :: schema.after.flatMap Declaration.tokens) ++ [])))

theorem Schema.printed_print (schema : Schema option) {gap : List Char} (space : Gap gap)
    (line : '\n' ∈ gap)
    (oneLine : ∀ token ∈ schema.before.flatMap Declaration.tokens, '\n' ∉ token.text) :
    schema.Printed (schema.print gap) :=
  have given := List.ne_nil_of_mem line
  .text (laid_spaced space given _ _) oneLine space (fun _ => line) (laid_spaced space given _ _)
    (.gap .none)

-- The parts of such a text without its comments.
structure Schema.Stripped (schema : Schema option) (text : List Char) : Prop where
  whole : ∃ plain tail, text = plain ++ tail ∧ Laid Blank false schema.tokens plain ∧ Blank tail
  package : packageFrom? true text = some schema.package.word.text

theorem pairs_package (schema : Schema option) (more : List Token) :
    pairs ';' (schema.before.flatMap Declaration.tokens ++ more) = pairs ';' more := by
  have skips : Skips (pairs ';') (schema.before.flatMap Declaration.tokens) := by
    induction schema.before with
    | nil => exact .nil
    | cons declaration rest ih => exact declaration.skips_statements.append ih
  exact skips more

theorem Schema.Printed.strip {schema : Schema option} {text : List Char} (printed : schema.Printed text) :
    schema.Stripped (stripComments text) := by
  cases printed with
  | @text start gap rest tail before oneLine spaced line after ends =>
    obtain ⟨plainStart, laidStart, stripStart⟩ := before.strip
    obtain ⟨blanks, known⟩ := strip_gap spaced
    obtain ⟨plainRest, laidRest, stripRest⟩ := after.strip
    have blankTail := strip_ending ends
    have plain : stripComments (start ++ (gap ++ (Word.package.text ++ (rest ++ tail))))
        = plainStart ++ (blanks ++ (Word.package.text ++ (plainRest ++ Source.strip .plain tail))) := by
      rw [stripComments, stripStart, known.strip, strip_word Word.package.dotted, stripRest]
    have apart : endsInWord false (schema.before.flatMap Declaration.tokens) = true →
        Token.isWord (.word .package) = true → blanks ≠ [] := by
      intro word _
      by_cases first : schema.before = []
      · rw [first] at word
        cases word
      · exact List.ne_nil_of_mem (known.newline (line first))
    have following : Laid Blank (endsInWord false (schema.before.flatMap Declaration.tokens))
        (.word .package :: .word schema.package.word :: .mark .semicolon
          :: schema.after.flatMap Declaration.tokens)
        (blanks ++ (Word.package.text ++ plainRest)) :=
      .cons known.blank apart laidRest
    rw [plain]
    constructor
    · refine ⟨_, _, ?_, laidStart.append following, blankTail⟩
      simp only [List.append_assoc]
    · have past := packageFrom?_past laidStart following blankTail (pairs_package schema _) oneLine true
      simp only [List.append_assoc] at past
      rw [past]
      refine packageFrom?_line known.blank ?_ (fun _ blank => packageAt?_read _ blank laidRest _) ?_
      · exact fun none => Word.package.given (List.append_eq_nil_iff.mp none).1
      · cases declared : schema.before with
        | nil => exact .inl rfl
        | cons _ _ => exact .inr (known.newline (line (by rw [declared]; exact List.cons_ne_nil _ _)))

end Printed

section Reading

variable {α β : Type} {option : String}

theorem Schema.yields {find : List Token → List α} {c : Char} (search : Search find c) (other : ';' ≠ c)
    (none : find [] = []) {Stands : α → β → Prop} {meant : Declaration option → List β}
    (each : ∀ declaration : Declaration option, Yields find Stands declaration.tokens (meant declaration))
    (schema : Schema option) :
    List.Forall₂ Stands (find schema.tokens) (schema.declarations.flatMap meant) := by
  have before : Yields find Stands (schema.before.flatMap Declaration.tokens)
      (schema.before.flatMap meant) := .flatMap fun declaration _ => each declaration
  have after : Yields find Stands (schema.after.flatMap Declaration.tokens)
      (schema.after.flatMap meant) := .flatMap fun declaration _ => each declaration
  have package : Skips find [.word .package, .word schema.package.word, .mark .semicolon] :=
    search.pair .package schema.package.word .semicolon other
  obtain ⟨found, split, stands⟩ := (before.append (package.yields.append after)) []
  rw [none, List.append_nil, List.append_nil] at split
  rw [Schema.declarations, List.flatMap_append]
  rw [← split] at stands
  exact stands

end Reading

end SigningSchema.Source

namespace SigningSchema.SourceFile

open Source

section Reading

variable {config : Config} {schema : Schema config.legacyNameOption} {text : List Char}

end Reading

end SigningSchema.SourceFile

namespace SigningSchema.Source.Sample

-- A line end and a comment that looks like a header.
def comment : List Char := " message No \x7b ; ".toList

theorem comment_open : ¬ ['*', '/'] <:+: comment := by decide +kernel

def gap : List Char := '\n' :: '/' :: '*' :: (comment ++ '*' :: '/' :: [' '])

theorem gap_spaced : Gap gap :=
  .blank rfl (.block comment_open (.blank rfl .none))

theorem double_quoted : isQuote '"' = true := rfl

def proto : Literal where
  quote := '"'
  content := "proto3".toList
  quoted := double_quoted
  closed := .of_plain (List.forall_mem_ne'.mpr (by decide)) (List.forall_mem_ne'.mpr (by decide))
  quiet := ⟨by decide +kernel, by decide +kernel, by decide +kernel⟩

def setting : Setting where
  tokens := [.word (.of "syntax" (by decide) (by decide)), .mark .equals, .literal proto]
  plain := by
    simp only [List.forall_mem_cons]
    exact ⟨⟨rfl, rfl, rfl⟩, ⟨rfl, rfl, rfl⟩, ⟨rfl, rfl, rfl⟩, fun _ none => nomatch none⟩
  calls := rfl
  notPackage := rfl

def nullable : List Token :=
  [.mark .openParen, .word (.of "nullable" (by decide) (by decide)), .mark .closeParen,
    .mark .equals, .word (.of "false" (by decide) (by decide))]

theorem nullable_plain : ∀ token ∈ nullable, token.Plain := by
  simp only [nullable, List.forall_mem_cons]
  exact ⟨⟨rfl, rfl, rfl⟩, ⟨rfl, rfl, rfl⟩, ⟨rfl, rfl, rfl⟩, ⟨rfl, rfl, rfl⟩, ⟨rfl, rfl, rfl⟩,
    fun _ none => nomatch none⟩

def coins : FieldClause where
  label := .repeated
  type := ⟨".bank.v1.Coin", by decide⟩
  name := ⟨"coins", by decide⟩
  tag := 4294967295
  options := some (.ofSeparate nullable nullable_plain rfl)

theorem isTypeName_string : isTypeName "string".toList = true := by decide

theorem isNamed_memo : isNamed isNameChar "memo".toList = true := by decide

def memo : FieldClause where
  label := .none
  type := ⟨"string", isTypeName_string⟩
  name := ⟨"memo", isNamed_memo⟩
  tag := 1
  options := none

def unset : EnumValue := ⟨⟨"UNSET", by decide⟩, true, 1, none⟩

def legacyName : LegacyValue where
  text := "bank/MsgSend"
  noQuote := List.forall_mem_ne'.mpr (by decide)
  noEscape := List.forall_mem_ne'.mpr (by decide)
  quiet := ⟨by decide +kernel, by decide +kernel, by decide +kernel⟩

def body : Body "amino.name" :=
  .legacyName ⟨"amino.name", by decide⟩ rfl legacyName
    (.message ⟨"Note", by decide⟩ (.field memo .nil)
      (.field coins
        (.enum ⟨"Kind", by decide⟩ [unset]
          (.oneof ⟨"more", by decide⟩ [memo] .nil))))

def send : Call :=
  ⟨⟨"Send", by decide⟩, true, ⟨"MsgSend", by decide⟩, false, ⟨"MsgSendResponse", by decide⟩⟩

def schema : Schema "amino.name" where
  before := [.setting setting]
  package := ⟨"bank.v1", by decide⟩
  after := [.message ⟨"MsgSend", by decide⟩ body, .service ⟨"Msg", by decide⟩ [send]]

def file : SourceFile where
  path := "bank.proto"
  package := "bank.v1"
  messages :=
    [⟨"bank.v1", "MsgSend", [⟨"coins", ".bank.v1.Coin", true, 4294967295⟩], "bank.proto",
      some "bank/MsgSend"⟩,
     ⟨"bank.v1", "Note", [⟨"memo", "string", false, 1⟩], "bank.proto", none⟩]
  enums := ["Kind"]
  requests := ["MsgSend"]

theorem printed : schema.Printed (String.ofList (schema.print gap)).toList := by
  rw [String.toList_ofList]
  exact schema.printed_print gap_spaced List.mem_cons_self (by decide +kernel)

end SigningSchema.Source.Sample

namespace SigningSchema.SourceFile

open Source

end SigningSchema.SourceFile
