import SigningSchema.Proofs.Source.Braces
import SigningSchema.Proofs.Source.Printing

-- Fields whose options hold aggregates. The brace that closes an aggregate begins a new statement: the
-- field before it is lost, and what follows it declares nothing.

namespace SigningSchema.Source

open Unicode (isBlank isWord)

-- An identifier, a number or a text; or an aggregate in braces, with the blanks around it.
inductive OptionValue where
  | plain (text : List Char) (flat : Flat text)
  | aggregate (before content after : List Char) (blank : Blank before) (matched : Matched content)
      (blankToo : Blank after)

namespace OptionValue

def text : OptionValue → List Char
  | plain text _ => text
  | aggregate before content after _ _ _ => before ++ '{' :: (content ++ '}' :: after)

def isAggregate : OptionValue → Bool
  | plain _ _ => false
  | aggregate _ _ _ _ _ _ => true

end OptionValue

structure OptionEntry where
  name : List Char
  flat : Flat name
  value : OptionValue

def OptionEntry.text (entry : OptionEntry) : List Char := entry.name ++ '=' :: entry.value.text

-- The entries after the first one, up to the closing bracket.
def closing : List OptionEntry → List Char
  | [] => [']']
  | entry :: more => ',' :: (entry.text ++ closing more)

structure OptionList where
  first : OptionEntry
  more : List OptionEntry

namespace OptionList

def text (options : OptionList) : List Char := '[' :: (options.first.text ++ closing options.more)

def aggregated (options : OptionList) : Bool :=
  (options.first :: options.more).any (·.value.isAggregate)

end OptionList

structure AnnotatedField where
  label : Label
  type : TypeName
  name : Name
  tag : UInt32
  options : Option OptionList

namespace AnnotatedField

-- The field without its options.
def clause (field : AnnotatedField) : FieldClause :=
  ⟨field.label, field.type, field.name, field.tag, none⟩

def declared (field : AnnotatedField) : FieldDecl := field.clause.declared

def bracketed (field : AnnotatedField) : List Char := field.options.elim [] OptionList.text

def aggregated (field : AnnotatedField) : Bool := field.options.any OptionList.aggregated

end AnnotatedField

-- The fields that a body declares itself; blocks may stand between them.
inductive Declares : List AnnotatedField → List Char → Prop where
  | nil {text : List Char} (blank : Blank text) : Declares [] text
  | field {field : AnnotatedField} {fields : List AnnotatedField} {front gap after text : List Char}
      (laid : Laid Blank false field.clause.front front) (blank : Blank gap) (blankToo : Blank after)
      (more : Declares fields text) :
      Declares (field :: fields) (front ++ (gap ++ (field.bracketed ++ (after ++ ';' :: text))))
  | block {fields : List AnnotatedField} {header inner text : List Char} (flat : Flat header)
      (matched : Matched inner) (more : Declares fields text) :
      Declares fields (header ++ '{' :: (inner ++ '}' :: text))

section LeftOver

variable {current rest : List Char} {entry : OptionEntry} {entries : List OptionEntry}

-- What the statement under way is after an entry.
def OptionEntry.leaves (current : List Char) (entry : OptionEntry) : List Char :=
  match entry.value with
  | .plain _ _ => current ++ entry.text
  | .aggregate _ _ after _ _ _ => after

-- And after all entries, with the closing bracket.
def leftOver (current : List Char) : List OptionEntry → List Char
  | [] => current ++ [']']
  | entry :: more => leftOver (entry.leaves (current ++ [','])) more

theorem statementsFrom_entry (entry : OptionEntry) (current rest : List Char) :
    statementsFrom 0 current.reverse (marked none (entry.text ++ rest))
      = statementsFrom 0 (entry.leaves current).reverse (marked none rest) := by
  obtain ⟨name, flat, value⟩ := entry
  cases value with
  | plain text flatToo =>
    have whole : Flat (name ++ '=' :: text) :=
      flat.append (.char rfl (by decide) (by decide) (by decide) flatToo)
    rw [OptionEntry.leaves, List.reverse_append]
    exact whole.statementsFrom current.reverse rest
  | aggregate before content after blank matched blankToo =>
    have header : Flat (name ++ '=' :: before) :=
      flat.append (.char rfl (by decide) (by decide) (by decide) (flat_blank blank))
    have split : name ++ '=' :: (before ++ '{' :: (content ++ '}' :: after)) ++ rest
        = (name ++ '=' :: before) ++ '{' :: (content ++ '}' :: (after ++ rest)) := by simp
    rw [OptionEntry.text, OptionEntry.leaves, OptionValue.text, split, header.statementsFrom,
      matched.statementsFrom, (flat_blank blankToo).statementsFrom, List.append_nil]

theorem statementsFrom_mark {mark : Char} (flat : Flat [mark]) (current rest : List Char) :
    statementsFrom 0 current.reverse (marked none (mark :: rest))
      = statementsFrom 0 (current ++ [mark]).reverse (marked none rest) := by
  rw [← List.singleton_append, flat.statementsFrom, List.reverse_append]

theorem statementsFrom_closing (entries : List OptionEntry) (current rest : List Char) :
    statementsFrom 0 current.reverse (marked none (closing entries ++ rest))
      = statementsFrom 0 (leftOver current entries).reverse (marked none rest) := by
  induction entries generalizing current with
  | nil => exact statementsFrom_mark (.char rfl (by decide) (by decide) (by decide) .nil) current rest
  | cons entry more ih =>
    have comma : Flat [','] := .char rfl (by decide) (by decide) (by decide) .nil
    rw [closing, List.cons_append, statementsFrom_mark comma, List.append_assoc, statementsFrom_entry,
      ih, leftOver]

theorem OptionEntry.leaves_plain (plain : entry.value.isAggregate = false) (current : List Char) :
    entry.leaves current = current ++ entry.text := by
  rw [leaves]
  split
  · rfl
  · rename_i value
    rw [value] at plain
    cases plain

theorem OptionEntry.leaves_blank (aggregate : entry.value.isAggregate = true) (current : List Char) :
    Blank (entry.leaves current) := by
  rw [leaves]
  split
  · rename_i value
    rw [value] at aggregate
    cases aggregate
  · assumption

theorem leftOver_plain (plain : entries.any (·.value.isAggregate) = false)
    (current : List Char) : leftOver current entries = current ++ closing entries := by
  induction entries generalizing current with
  | nil => rfl
  | cons entry more ih =>
    rw [List.any_cons, Bool.or_eq_false_iff] at plain
    rw [leftOver, ih plain.2, entry.leaves_plain plain.1, closing]
    simp

-- What stands behind an aggregate: it goes on with a comma or with the closing bracket.
def Fragment (text : List Char) : Prop :=
  ∃ blanks mark rest, text = blanks ++ mark :: rest ∧ Blank blanks ∧ (mark = ',' ∨ mark = ']')

theorem Fragment.append (fragment : Fragment current) (more : List Char) : Fragment (current ++ more) := by
  obtain ⟨blanks, mark, rest, rfl, blank, begins⟩ := fragment
  exact ⟨blanks, mark, rest ++ more, by simp, blank, begins⟩

theorem Fragment.leaves (fragment : Fragment current) (entry : OptionEntry) :
    Blank (entry.leaves current) ∨ Fragment (entry.leaves current) := by
  cases aggregate : entry.value.isAggregate with
  | false =>
    rw [entry.leaves_plain aggregate]
    exact .inr (fragment.append _)
  | true => exact .inl (entry.leaves_blank aggregate current)

theorem leftOver_loose (loose : Blank current ∨ Fragment current) :
    Fragment (leftOver current entries) := by
  have marked : ∀ current mark, Blank current ∨ Fragment current → mark = ',' ∨ mark = ']' →
      Fragment (current ++ [mark]) := by
    intro current mark loose begins
    rcases loose with blank | fragment
    · exact ⟨current, mark, [], rfl, blank, begins⟩
    · exact fragment.append _
  induction entries generalizing current with
  | nil => exact marked current ']' loose (.inr rfl)
  | cons entry more ih => exact ih ((marked current ',' loose (.inl rfl)).leaves entry)

-- By induction on the entries, up to the first aggregate.
theorem leftOver_fragment (aggregated : entries.any (·.value.isAggregate) = true)
    (current : List Char) : Fragment (leftOver current entries) := by
  induction entries generalizing current with
  | nil => cases aggregated
  | cons entry more ih =>
    rw [List.any_cons, Bool.or_eq_true] at aggregated
    rw [leftOver]
    rcases aggregated with here | later
    · exact leftOver_loose (.inl (entry.leaves_blank here _))
    · exact ih later _

end LeftOver

section Fields

variable {field : AnnotatedField} {current : List Char}

-- What the statement under way is after the options of a field.
def AnnotatedField.leaves (field : AnnotatedField) (current : List Char) : List Char :=
  match field.options with
  | none => current
  | some options => leftOver (options.first.leaves (current ++ ['['])) options.more

theorem statementsFrom_bracketed (field : AnnotatedField) (current rest : List Char) :
    statementsFrom 0 current.reverse (marked none (field.bracketed ++ rest))
      = statementsFrom 0 (field.leaves current).reverse (marked none rest) := by
  rw [AnnotatedField.bracketed, AnnotatedField.leaves]
  cases field.options with
  | none => rfl
  | some options =>
    have bracket : Flat ['['] := .char rfl (by decide) (by decide) (by decide) .nil
    rw [Option.elim_some, OptionList.text, List.cons_append, statementsFrom_mark bracket,
      List.append_assoc, statementsFrom_entry, statementsFrom_closing]

theorem AnnotatedField.leaves_plain (plain : field.aggregated = false) (current : List Char) :
    field.leaves current = current ++ field.bracketed := by
  rw [aggregated] at plain
  rw [leaves, bracketed]
  cases given : field.options with
  | none => exact (List.append_nil current).symm
  | some options =>
    rw [given, Option.any_some, OptionList.aggregated, List.any_cons, Bool.or_eq_false_iff] at plain
    show leftOver _ _ = _
    rw [leftOver_plain plain.2, options.first.leaves_plain plain.1, Option.elim_some, OptionList.text]
    simp

theorem AnnotatedField.leaves_fragment (aggregated : field.aggregated = true) (current : List Char) :
    Fragment (field.leaves current) := by
  rw [AnnotatedField.aggregated] at aggregated
  rw [leaves]
  cases given : field.options with
  | none =>
    rw [given] at aggregated
    cases aggregated
  | some options =>
    rw [given, Option.any_some, OptionList.aggregated, List.any_cons, Bool.or_eq_true] at aggregated
    rcases aggregated with first | later
    · exact leftOver_loose (.inl (options.first.leaves_blank first _))
    · exact leftOver_fragment later _

theorem trim_begins {blanks : List Char} {c : Char} (blank : Blank blanks)
    (notBlank : isBlank c = false) (rest : List Char) :
    ∃ more, Unicode.trim (blanks ++ c :: rest) = c :: more := by
  have front := (skipBlanks_blank blank (c :: rest)).trans (skipBlanks_stops (stops_cons notBlank rest))
  rw [skipBlanks] at front
  refine ⟨(rest.reverse.dropWhile isBlank).reverse, ?_⟩
  rw [Unicode.trim, front, List.reverse_cons, dropWhile_before [] notBlank, List.reverse_append]
  rfl

theorem trim_core {blanks core after : List Char} (blank : Blank blanks)
    (begins : Stops isBlank (core ++ after)) (ends : ∀ c ∈ core.getLast?, isBlank c = false)
    (blankToo : Blank after) : Unicode.trim (blanks ++ (core ++ after)) = core := by
  have front := (skipBlanks_blank blank (core ++ after)).trans (skipBlanks_stops begins)
  rw [skipBlanks] at front
  rw [Unicode.trim, front]
  exact Unicode.dropWhile_reverse_append blankToo ends

def comma : Mark := ⟨',', rfl, rfl, rfl, by decide⟩

-- A statement that begins with a mark is no field, and no legacy name.
theorem Mark.read (mark : Mark) (config : Config) (rest : List Char) :
    Statement.read config (mark.char :: rest) = .other := by
  have noWord : ∀ word : String, word.toList ≠ [] → word.toList.all isWord = true →
      word? word (mark.char :: rest) = none := by
    intro word given letters
    refine Option.eq_none_iff_forall_not_mem.mpr fun more read => ?_
    obtain ⟨c, others, chars⟩ := List.exists_cons_of_ne_nil given
    have first := word?_some read
    rw [chars, List.cons_append] at first
    rw [chars, List.all_cons, Bool.and_eq_true, ← (List.cons.inj first).1, mark.notWord] at letters
    exact Bool.noConfusion letters.1
  have noLabel : ∀ label : String, label.toList ≠ [] → label.toList.all isWord = true →
      label? label (mark.char :: rest) = none := by
    intro label given letters
    rw [label?, noWord label given letters, Option.bind_none]
  rw [Statement.read, field?_unlabelled, unlabelled?, noLabel "repeated" (by decide) (by decide),
    noLabel "optional" (by decide) (by decide), fieldAfter?_mark, option?,
    noWord "option" (by decide) (by decide)]
  rfl

theorem Fragment.read (fragment : Fragment current) (config : Config) :
    ∃ c more, Unicode.trim current = c :: more ∧ Statement.read config (c :: more) = .other := by
  obtain ⟨blanks, c, rest, rfl, blank, begins⟩ := fragment
  obtain ⟨mark, rfl⟩ : ∃ mark : Mark, mark.char = c := by
    rcases begins with rfl | rfl
    · exact ⟨comma, rfl⟩
    · exact ⟨.closeBracket, rfl⟩
  obtain ⟨more, trimmed⟩ := trim_begins blank mark.notBlank rest
  exact ⟨mark.char, more, trimmed, mark.read config more⟩

theorem closing_getLast? (entries : List OptionEntry) : (closing entries).getLast? = some ']' := by
  induction entries with
  | nil => rfl
  | cons entry more ih => rw [closing, List.getLast?_cons, List.getLast?_append, ih]; rfl

theorem endsField_options (options : OptionList) {gap : List Char} (blank : Blank gap) :
    endsField (gap ++ options.text) = true := by
  have last : (options.first.text ++ closing options.more).getLast? = some ']' := by
    rw [List.getLast?_append, closing_getLast?]
    rfl
  have front : skipBlanks (gap ++ options.text) = options.text :=
    (skipBlanks_blank blank _).trans (skipBlanks_stops (stops_cons rfl _))
  rw [endsField, front, OptionList.text]
  simp [last]

theorem getLast?_options (options : OptionList) : options.text.getLast? = some ']' := by
  rw [OptionList.text, List.getLast?_cons, List.getLast?_append, closing_getLast?]
  rfl

-- A field is read with whatever its brackets hold.
theorem AnnotatedField.read (field : AnnotatedField) (config : Config) {front gap after : List Char}
    (laid : Laid Blank false field.clause.front front) (blank : Blank gap) (blankToo : Blank after) :
    ∃ c more, Unicode.trim (front ++ (gap ++ (field.bracketed ++ after))) = c :: more ∧
      Statement.read config (c :: more) = .field field.declared := by
  obtain ⟨token, tokens, same, _⟩ := field.clause.front_cons
  rw [same] at laid
  cases laid with
  | @cons _ _ _ lead text spaced apart laid =>
    have reads : ∀ ending trailing, endsField ending = true → Stops Unicode.isDigit ending →
        Blank trailing → (∀ c ∈ (token.text ++ (text ++ ending)).getLast?, isBlank c = false) →
        ∃ c more, Unicode.trim (lead ++ ((token.text ++ (text ++ ending)) ++ trailing)) = c :: more ∧
          Statement.read config (c :: more) = .field field.declared := by
      intro ending trailing ends stops blank last
      have begins : Stops isBlank ((token.text ++ (text ++ ending)) ++ trailing) := by
        rw [List.append_assoc]
        exact token.text_notBlank _
      obtain ⟨c, more, core⟩ := List.exists_cons_of_ne_nil
        fun none => token.text_ne_nil (List.append_eq_nil_iff.mp none).1
      refine ⟨c, more, (trim_core spaced begins last blank).trans core, ?_⟩
      rw [← core]
      exact field.clause.read_ending config same laid ends stops
    rw [bracketed]
    cases field.options with
    | none =>
      have alone : Laid Blank false (token :: tokens) ([] ++ (token.text ++ text)) :=
        .cons .nil (fun word => nomatch word) laid
      have result := reads [] (gap ++ after) rfl (fun _ _ none => nomatch none) (blank.append blankToo)
        (by rw [List.append_nil]; exact alone.getLast?)
      simpa using result
    | some options =>
      have last : (token.text ++ (text ++ (gap ++ options.text))).getLast? = some ']' := by
        simp only [List.getLast?_append, getLast?_options, Option.some_or]
      have result := reads (gap ++ options.text) after (endsField_options options blank)
        (stops_gap blank (fun _ => isDigit_of_isBlank) rfl _) blankToo
        (by rw [last]; rintro c ⟨⟩; rfl)
      simpa using result

end Fields

section Bodies

variable {config : Config} {fields : List AnnotatedField} {body : List Char}

theorem FieldClause.front_plain (field : FieldClause) : ∀ token ∈ field.front, token.Plain := by
  intro token inside
  apply field.plain
  rw [tokens_front]
  exact List.mem_append_left _ inside

-- By induction on the body: a field gives one statement, a block none.
theorem Declares.read (declares : Declares fields body) :
    ((statements body).map (Statement.read config)).filterMap Statement.field?
      = (fields.filter fun field => !field.aggregated).map AnnotatedField.declared := by
  induction declares with
  | nil blank =>
    rw [statements_blank blank]
    rfl
  | @field field fields front gap after text laid blank blankToo more ih =>
    have plain : Flat (front ++ gap) :=
      (flat_laid laid field.clause.front_plain).append (flat_blank blank)
    have split : statementsFrom 0 [] (marked none
        (front ++ (gap ++ (field.bracketed ++ (after ++ ';' :: text)))))
          = (field.leaves (front ++ gap) ++ after) :: statementsFrom 0 [] (marked none text) := by
      rw [← List.append_assoc front, plain.statementsFrom, List.append_nil, statementsFrom_bracketed,
        (flat_blank blankToo).statementsFrom, statementsFrom_end, List.reverse_append,
        List.reverse_reverse, List.reverse_reverse]
    rw [statements, split, List.map_cons]
    cases aggregated : field.aggregated with
    | false =>
      obtain ⟨c, others, trimmed, reads⟩ := field.read config laid blank blankToo
      rw [field.leaves_plain aggregated, List.append_assoc, List.append_assoc, trimmed,
        List.filter_cons_of_pos rfl, List.map_cons, reads, List.filter_cons_of_pos (by simp [aggregated]),
        List.map_cons, ← ih, statements]
      rfl
    | true =>
      obtain ⟨c, others, trimmed, reads⟩ := ((field.leaves_fragment aggregated _).append after).read config
      rw [trimmed, List.filter_cons_of_pos rfl, List.map_cons, reads,
        List.filter_cons_of_neg (by simp [aggregated]), ← ih, statements]
      rfl
  | @block fields header inner text flat matched more ih =>
    rw [← ih, statements, flat.statementsFrom, matched.statementsFrom, statements]

end Bodies

section Printing

variable {gap : List Char}

-- A body of fields, one gap before each token and before the options.
def printFields (gap : List Char) : List AnnotatedField → List Char
  | [] => gap
  | field :: rest =>
    spaced gap field.clause.front ++ (gap ++ (field.bracketed ++ ([] ++ ';' :: printFields gap rest)))

theorem declares_printFields (blank : Blank gap) (given : gap ≠ []) (fields : List AnnotatedField) :
    Declares fields (printFields gap fields) := by
  induction fields with
  | nil => exact .nil blank
  | cons field rest ih => exact .field (laid_spaced blank given _ _) blank .nil ih

end Printing

theorem Declares.message_fields {fields : List AnnotatedField} {body : List Char}
    (declares : Declares fields body) (config : Config) (path package : String) (name : List Char) :
    (message config path package name body).fields
      = (fields.filter fun field => !field.aggregated).map AnnotatedField.declared :=
  declares.read

-- Just the fields without aggregates are read, each as it was declared, whatever stands between them.
theorem message_annotated (config : Config) (path package : String) (name : List Char)
    {fields : List AnnotatedField} {body : List Char} (declares : Declares fields body) :
    (message config path package name body).fields
        = (fields.filter fun field => !field.aggregated).map AnnotatedField.declared ∧
      ((message config path package name body).fields = fields.map AnnotatedField.declared ↔
        ∀ field ∈ fields, field.aggregated = false) := by
  have read := declares.message_fields config path package name
  refine ⟨read, ?_⟩
  rw [read]
  constructor
  · intro same
    have long := congrArg List.length same
    rw [List.length_map, List.length_map, List.length_filter_eq_length_iff] at long
    exact fun field inside => by simpa using long field inside
  · intro plain
    rw [List.filter_eq_self.mpr fun field inside => by rw [plain field inside]; rfl]

section Pay

def payRules : OptionEntry where
  name := "(validate.rules) ".toList
  flat := flat_of_all rfl
  value := .aggregate " ".toList (" uint64: ".toList ++ '{' :: (" gt: 0 ".toList ++ '}' :: " ".toList)) []
    (List.all_eq_true.mp rfl)
    ((flat_of_all rfl).matched.append (.block (flat_of_all rfl).matched (flat_of_all rfl).matched)) .nil

def payDeprecated : OptionEntry where
  name := " deprecated ".toList
  flat := flat_of_all rfl
  value := .plain " true".toList (flat_of_all rfl)

def payName : OptionEntry where
  name := "json_name ".toList
  flat := flat_of_all rfl
  value := .plain (' ' :: '"' :: ("m;\x7d".toList ++ '"' :: []))
    (.char rfl (by decide) (by decide) (by decide)
      (.literal rfl (.of_plain (List.forall_mem_ne'.mpr (by decide)) (List.forall_mem_ne'.mpr (by decide)))
        .nil))

-- Two fields with plain options or none, and two with an aggregate among theirs.
def payFields : List AnnotatedField :=
  [⟨.none, ⟨"string", by decide⟩, ⟨"owner", by decide⟩, 1, none⟩,
   ⟨.none, ⟨"uint64", by decide⟩, ⟨"amount", by decide⟩, 2, some ⟨payRules, []⟩⟩,
   ⟨.repeated, ⟨"string", by decide⟩, ⟨"memo", by decide⟩, 3, some ⟨payName, [payDeprecated]⟩⟩,
   ⟨.none, ⟨"uint64", by decide⟩, ⟨"fee", by decide⟩, 4, some ⟨payRules, [payDeprecated]⟩⟩]

def payBody : String :=
  " string owner = 1 ; uint64 amount = 2 [(validate.rules) = \x7b uint64: \x7b gt: 0 \x7d \x7d];" ++
  " repeated string memo = 3 [json_name = \"m;\x7d\", deprecated = true];" ++
  " uint64 fee = 4 [(validate.rules) = \x7b uint64: \x7b gt: 0 \x7d \x7d, deprecated = true]; "

theorem declares_pay : Declares payFields payBody.toList := by
  have printed : payBody.toList = printFields [' '] payFields := by
    unfold payBody
    simp only [String.toList_append]
    repeat rw [String.toList_ofList]
    decide +kernel
  rw [printed]
  exact declares_printFields (List.all_eq_true.mp rfl) (List.cons_ne_nil _ _) payFields

-- The amount and the fee are lost.
theorem message_loses_amount :
    Declares payFields payBody.toList ∧
    (message .standard "pay.proto" "pay.v1" "MsgPay".toList payBody.toList).fields
      = [⟨"owner", "string", false, 1⟩, ⟨"memo", "string", true, 3⟩] ∧
    payFields.map AnnotatedField.declared
      = [⟨"owner", "string", false, 1⟩, ⟨"amount", "uint64", false, 2⟩, ⟨"memo", "string", true, 3⟩,
        ⟨"fee", "uint64", false, 4⟩] := by
  refine ⟨declares_pay, (declares_pay.message_fields ..).trans ?_, ?_⟩ <;> decide +kernel

theorem message_annotated_pay :
    Declares payFields payBody.toList ∧
    (message .standard "pay.proto" "pay.v1" "MsgPay".toList payBody.toList).fields
      = [⟨"owner", "string", false, 1⟩, ⟨"memo", "string", true, 3⟩] := by
  obtain ⟨read, _⟩ := message_annotated .standard "pay.proto" "pay.v1" "MsgPay".toList declares_pay
  refine ⟨declares_pay, read.trans ?_⟩
  decide +kernel

end Pay

end SigningSchema.Source
