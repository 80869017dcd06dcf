import SigningSchema.Proofs.Source.Grammar

-- Reading single statements: a field declaration and a legacy name are read as what was written.

namespace SigningSchema.Source

open Unicode (isBlank isWord)

theorem isDigit_of_isBlank {c : Char} (blank : isBlank c = true) : Unicode.isDigit c = false :=
  refused_of_isBlank (by decide +kernel) blank

section Taking

variable {tokens : List Token} {text : List Char}

-- A laid out word after a word: blanks, the word, and what follows it.
theorem Laid.takeWord {word : Word} {after : Bool}
    (laid : Laid Blank after (.word word :: tokens) text) :
    ∃ blanks rest, text = blanks ++ (word.text ++ rest) ∧ Blank blanks ∧
      (after = true → blanks ≠ []) ∧ Laid Blank true tokens rest := by
  cases laid with
  | cons blank apart more => exact ⟨_, _, rfl, blank, fun word => apart word rfl, more⟩

theorem Laid.takeMark {mark : Mark} {after : Bool}
    (laid : Laid Blank after (.mark mark :: tokens) text) :
    ∃ blanks rest, text = blanks ++ mark.char :: rest ∧ Blank blanks ∧ Laid Blank false tokens rest := by
  cases laid with
  | cons blank _ more => exact ⟨_, _, rfl, blank, more⟩

theorem Word.notBlank (word : Word) (rest : List Char) : Stops isBlank (word.text ++ rest) :=
  Token.text_notBlank (.word word) rest

theorem skipBlanks_word {blanks : List Char} (blank : Blank blanks) (word : Word) (rest : List Char) :
    skipBlanks (blanks ++ (word.text ++ rest)) = word.text ++ rest :=
  skipBlanks_token blank (.word word) rest

theorem stops_blank {blanks : List Char} (given : blanks ≠ []) (blank : Blank blanks)
    {accepts : Char → Bool} (refuses : ∀ c, isBlank c = true → accepts c = false)
    (rest : List Char) : Stops accepts (blanks ++ rest) := by
  rintro c more same
  cases blanks with
  | nil => exact absurd rfl given
  | cons d others =>
    cases same
    exact refuses c (blank c List.mem_cons_self)

theorem stops_cons {accepts : Char → Bool} {c : Char} (refused : accepts c = false)
    (rest : List Char) : Stops accepts (c :: rest) := by
  rintro d more same
  cases same
  exact refused

theorem stops_gap {blanks : List Char} (blank : Blank blanks) {accepts : Char → Bool}
    (refuses : ∀ c, isBlank c = true → accepts c = false) {c : Char} (refused : accepts c = false)
    (rest : List Char) : Stops accepts (blanks ++ c :: rest) := by
  by_cases given : blanks = []
  · rw [given, List.nil_append]
    exact stops_cons refused rest
  · exact stops_blank given blank refuses _

end Taking

section Names

variable {rest : List Char}

theorem name?_named {continues : Char → Bool} {text : List Char}
    (includes : ∀ c ∈ text, continues c = true) (begins : text.head?.any beginsName = true)
    (stops : Stops continues rest) : name? continues (text ++ rest) = some (text, rest) := by
  cases text with
  | nil => cases begins
  | cons c more =>
    obtain ⟨_, later⟩ := List.forall_mem_cons.mp includes
    have first : beginsName c = true := by simpa using begins
    rw [List.cons_append, name?, if_pos first, takeWhile_stops later stops, dropWhile_stops later stops]

theorem isNamed_begins {continues : Char → Bool} {text : List Char}
    (named : isNamed continues text = true) : text.head?.any beginsName = true := by
  cases text with
  | nil => cases named
  | cons c more =>
    rw [isNamed, Bool.and_eq_true] at named
    simpa using named.1

theorem Name.read (name : Name) (stops : Stops isWord rest) :
    name? isWord (name.word.text ++ rest) = some (name.word.text, rest) :=
  name?_named name.isWord_of_mem (isNamed_begins name.valid) stops

theorem DottedName.read (name : DottedName) (stops : Stops isDotted rest) :
    name? isDotted (name.word.text ++ rest) = some (name.word.text, rest) :=
  name?_named name.word.dotted (isNamed_begins name.valid) stops

theorem typeName?_dotless {text : List Char} (dotless : ∀ more, text ≠ '.' :: more) :
    typeName? text = name? isDotted text := by
  unfold typeName?
  split
  · rename_i more
    exact absurd rfl (dotless more)
  · rfl

theorem TypeName.read (name : TypeName) (stops : Stops isDotted rest) :
    typeName? (name.word.text ++ rest) = some (name.word.text, rest) := by
  rcases name.cases with named | ⟨more, dot, named⟩
  · have begins := isNamed_begins named
    rw [typeName?_dotless, name?_named name.word.dotted begins stops]
    intro more same
    cases text : name.word.text with
    | nil => exact absurd text name.word.given
    | cons c others =>
      rw [text] at same
      cases same
      have letters : name.text.toList = '.' :: others := text
      rw [letters] at begins
      cases begins
  · have letters : name.word.text = '.' :: more := dot
    rw [letters, List.cons_append, typeName?,
      name?_named (isNamed_dotted named) (isNamed_begins named) stops]
    rfl

end Names

section Numerals

theorem unicode_isDigit {c : Char} (digit : c.isDigit = true) : Unicode.isDigit c = true := by
  have small : c.toNat < 0x80 := by
    simp only [Char.isDigit, Bool.and_eq_true, decide_eq_true_eq, UInt32.le_iff_toNat_le,
      ge_iff_le] at digit
    have : ('9' : Char).val.toNat = 57 := rfl
    simp only [Char.toNat]
    omega
  rw [Unicode.isDigit, if_pos small]
  exact digit

theorem tag?_numeral (tag : UInt32) : tag? (numeral tag.toNat).text = some tag := by
  have value : (Nat.toDigits 10 tag.toNat).foldl (fun total c => total * 10 + (c.toNat - 48)) 0
      = tag.toNat := by
    have read := Nat.ofDigitChars_ten_toDigits (n := tag.toNat)
    simp only [Nat.ofDigitChars, Nat.mul_comm] at read
    exact read
  have digits : (Nat.toDigits 10 tag.toNat).all Char.isDigit = true :=
    List.all_eq_true.mpr fun c inside => isDigit_of_mem_toDigits inside
  rw [numeral, tag?, if_pos digits]
  simp only [value]
  rw [if_pos tag.toNat_lt, UInt32.ofNat_toNat]

end Numerals

section Fields

variable {text rest : List Char}

theorem pastMark?_gap {mark : Mark} {blanks : List Char} (blank : Blank blanks) (rest : List Char) :
    pastMark? mark.char (blanks ++ mark.char :: rest) = some rest := by
  rw [pastMark?, skipBlanks_blank blank, skipBlanks_stops (stops_cons mark.notBlank rest)]
  exact if_pos rfl

theorem mark?_gap {mark : Mark} {blanks : List Char} (blank : Blank blanks) (rest : List Char) :
    mark? mark.char (blanks ++ mark.char :: rest) = some (skipBlanks rest) := by
  rw [mark?_past, pastMark?_gap blank]
  rfl

-- What may follow the tag ends the field.
theorem endsField_bracketed {options : Option Options}
    (laid : Laid Blank true (Options.bracketed options) text) :
    endsField text = true ∧ Stops Unicode.isDigit text := by
  cases options with
  | none =>
    cases laid
    exact ⟨rfl, fun _ _ none => nomatch none⟩
  | some options =>
    obtain ⟨blanks, more, rfl, blank, inner⟩ := laid.takeMark
    refine ⟨?_, stops_gap blank (fun _ => isDigit_of_isBlank) rfl more⟩
    obtain ⟨inside, ending, rfl, _, last⟩ := inner.split
    obtain ⟨blanksToo, others, rfl, _, nothing⟩ := last.takeMark
    cases nothing
    have closed : (inside ++ (blanksToo ++ [']'])).getLast? = some ']' := by
      rw [← List.append_assoc, List.getLast?_concat]
    have notBlank := skipBlanks_stops (stops_cons Mark.openBracket.notBlank
      (inside ++ (blanksToo ++ [']'])))
    rw [endsField, skipBlanks_blank blank]
    simp only [Mark.openBracket, Mark.closeBracket] at notBlank ⊢
    rw [notBlank]
    simp [closed]

-- What a field says after its type, before what may follow the tag.
def FieldClause.assigned (field : FieldClause) : List Token :=
  [.word field.name.word, .mark .equals, .word (numeral field.tag.toNat)]

def FieldClause.front (field : FieldClause) : List Token :=
  field.label.tokens ++ .word field.type.word :: field.assigned

theorem FieldClause.tokens_front (field : FieldClause) :
    field.tokens = field.front ++ Options.bracketed field.options := by
  simp [tokens, front, assigned]

variable {ending : List Char}

theorem fieldAfter?_read (field : FieldClause) (repeated : Bool)
    (laid : Laid Blank true field.assigned text) (ends : endsField ending = true)
    (stops : Stops Unicode.isDigit ending) :
    fieldAfter? repeated (field.type.word.text ++ (text ++ ending))
      = some ⟨repeated, field.type.word.text, field.name.word.text,
          (numeral field.tag.toNat).text⟩ := by
  obtain ⟨afterType, named, rfl, blank, given, laid⟩ := laid.takeWord
  obtain ⟨afterName, assigned, rfl, blankName, laid⟩ := laid.takeMark
  obtain ⟨beforeTag, nothing, rfl, blankTag, _, laid⟩ := laid.takeWord
  cases laid
  simp only [List.append_assoc, List.cons_append, List.append_nil]
  have digits : ∀ c ∈ (numeral field.tag.toNat).text, Unicode.isDigit c = true :=
    fun c inside => unicode_isDigit (isDigit_of_mem_toDigits inside)
  rw [fieldAfter?, field.type.read (stops_blank (given rfl) blank (fun _ => isDotted_of_isBlank) _)]
  simp only [Option.bind_eq_bind, Option.bind_some]
  rw [blanks?_blank (given rfl) blank, skipBlanks_stops (field.name.word.notBlank _), Option.bind_some,
    field.name.read (stops_gap blankName (fun _ => isWord_of_isBlank) Mark.equals.notWord _)]
  simp only [Option.bind_some]
  rw [show ('=' : Char) = Mark.equals.char from rfl, mark?_gap blankName, Option.bind_some,
    skipBlanks_word blankTag, row?_stops (numeral field.tag.toNat).given digits stops]
  exact if_pos ends

theorem Mark.name?_none {continues : Char → Bool} (mark : Mark) (rest : List Char) :
    name? continues (mark.char :: rest) = none := by
  have notName : beginsName mark.char = false := by
    cases begins : beginsName mark.char with
    | false => rfl
    | true => rw [← mark.notWord, isWord_of_beginsName begins]
  rw [name?, notName, if_neg Bool.false_ne_true]

theorem blanks?_mark {mark : Mark} {blanks : List Char} (blank : Blank blanks) (rest : List Char) :
    blanks? (blanks ++ mark.char :: rest) = none ∨
      blanks? (blanks ++ mark.char :: rest) = some (mark.char :: rest) := by
  have stops := stops_cons mark.notBlank rest
  by_cases given : blanks = []
  · exact .inl (by rw [given, List.nil_append, blanks?_stops stops])
  · exact .inr (by rw [blanks?_blank given blank, skipBlanks_stops stops])

-- One name before a mark declares nothing.
theorem fieldAfter?_single (repeated : Bool) (name : TypeName) {mark : Mark} {blanks : List Char}
    (blank : Blank blanks) (rest : List Char) :
    fieldAfter? repeated (name.word.text ++ (blanks ++ mark.char :: rest)) = none := by
  rw [fieldAfter?, name.read (stops_gap blank (fun _ => isDotted_of_isBlank) mark.notDotted rest)]
  simp only [Option.bind_eq_bind, Option.bind_some]
  rcases blanks?_mark blank rest with none | some
  · rw [none, Option.bind_none]
  · rw [some, Option.bind_some, mark.name?_none, Option.bind_none]

theorem fieldAfter?_mark (repeated : Bool) {mark : Mark} (rest : List Char) :
    fieldAfter? repeated (mark.char :: rest) = none := by
  have dotless : ∀ more, mark.char :: rest ≠ '.' :: more := by
    intro more same
    have notDotted := mark.notDotted
    rw [List.head_eq_of_cons_eq same] at notDotted
    cases notDotted
  rw [fieldAfter?, typeName?_dotless dotless, mark.name?_none]
  rfl

-- A word that could be a label is one only where blanks follow it.
theorem label?_cases (label : String) (letters : label.toList.all isWord = true) (word : Word)
    (stops : Stops isWord text) :
    label? label (word.text ++ text) = none ∨ label? label (word.text ++ text) = blanks? text := by
  by_cases same : word.text = label.toList
  · refine .inr ?_
    rw [label?, same, word?_append, Option.bind_some]
  · exact .inl (label?_other letters word.dotted stops same)

theorem label?_mark (label : String) (letters : label.toList.all isWord = true) (word : Word)
    {mark : Mark} {blanks : List Char} (blank : Blank blanks) (rest : List Char) :
    label? label (word.text ++ (blanks ++ mark.char :: rest)) = none ∨
      label? label (word.text ++ (blanks ++ mark.char :: rest)) = some (mark.char :: rest) := by
  have stops := stops_gap blank (fun _ => isWord_of_isBlank) mark.notWord rest
  rcases label?_cases label letters word stops with other | labelled
  · exact .inl other
  · rw [labelled]
    exact blanks?_mark blank rest

theorem label?_blank (label : String) {blanks : List Char} (given : blanks ≠ []) (blank : Blank blanks)
    (stops : Stops isBlank text) : label? label (label.toList ++ (blanks ++ text)) = some text := by
  rw [label?, word?_append, Option.bind_some, blanks?_blank given blank, skipBlanks_stops stops]

-- A field without `repeated`, where `optional` may be its type.
def unlabelled? (repeated : Bool) (text : List Char) : Option FieldText :=
  ((label? "optional" text).bind (fieldAfter? repeated)).or (fieldAfter? repeated text)

theorem field?_unlabelled (statement : List Char) : field? statement =
    ((label? "repeated" statement).bind (unlabelled? true)).or (unlabelled? false statement) := rfl

theorem unlabelled?_single (repeated : Bool) (name : TypeName) {mark : Mark} {blanks : List Char}
    (blank : Blank blanks) (rest : List Char) :
    unlabelled? repeated (name.word.text ++ (blanks ++ mark.char :: rest)) = none := by
  rw [unlabelled?, fieldAfter?_single repeated name blank, Option.or_none]
  rcases label?_mark "optional" (by decide) name.word blank rest with other | labelled
  · rw [other, Option.bind_none]
  · rw [labelled, Option.bind_some, fieldAfter?_mark repeated]

-- Whatever the type is called: as a label it would leave one name before the mark.
theorem label?_type (field : FieldClause) (label : String)
    (letters : label.toList.all isWord = true) (laid : Laid Blank true field.assigned text)
    {read? : List Char → Option FieldText}
    (single : ∀ blanks rest, Blank blanks →
      read? (field.name.word.text ++ (blanks ++ Mark.equals.char :: rest)) = none)
    (ending : List Char) :
    (label? label (field.type.word.text ++ (text ++ ending))).bind read? = none := by
  obtain ⟨blanks, named, rfl, blank, given, laid⟩ := laid.takeWord
  obtain ⟨afterName, assigned, rfl, blankName, _⟩ := laid.takeMark
  simp only [List.append_assoc, List.cons_append]
  have stops := stops_blank (given rfl) blank (fun _ => isWord_of_isBlank)
    (field.name.word.text ++ (afterName ++ Mark.equals.char :: (assigned ++ ending)))
  rcases label?_cases label letters field.type.word stops with other | labelled
  · rw [other, Option.bind_none]
  · rw [labelled, blanks?_blank (given rfl) blank, skipBlanks_stops (field.name.word.notBlank _),
      Option.bind_some, single afterName (assigned ++ ending) blankName]

theorem unlabelled?_read (field : FieldClause) (repeated : Bool)
    (laid : Laid Blank true field.assigned text) (ends : endsField ending = true)
    (stops : Stops Unicode.isDigit ending) :
    unlabelled? repeated (field.type.word.text ++ (text ++ ending))
      = some ⟨repeated, field.type.word.text, field.name.word.text,
          (numeral field.tag.toNat).text⟩ := by
  have single : ∀ blanks rest, Blank blanks → fieldAfter? repeated
      (field.name.word.text ++ (blanks ++ Mark.equals.char :: rest)) = none :=
    fun _ rest blank => fieldAfter?_single repeated field.name.type blank rest
  rw [unlabelled?, label?_type field "optional" (by decide) laid single, Option.none_or,
    fieldAfter?_read field repeated laid ends stops]

-- A field with whatever ends it after its tag.
theorem field?_read (field : FieldClause) {token : Token} {tokens : List Token}
    (same : field.front = token :: tokens) (laid : Laid Blank token.isWord tokens text)
    (ends : endsField ending = true) (stopsDigits : Stops Unicode.isDigit ending) :
    field? (token.text ++ (text ++ ending))
      = some ⟨field.label matches .repeated, field.type.word.text, field.name.word.text,
          (numeral field.tag.toNat).text⟩ := by
  rw [FieldClause.front] at same
  rw [field?_unlabelled]
  cases label : field.label with
  | none =>
    rw [label] at same
    cases same
    have single : ∀ blanks rest, Blank blanks → unlabelled? true
        (field.name.word.text ++ (blanks ++ Mark.equals.char :: rest)) = none :=
      fun _ rest blank => unlabelled?_single true field.name.type blank rest
    rw [Token.text, label?_type field "repeated" (by decide) laid single, Option.none_or,
      unlabelled?_read field false laid ends stopsDigits]
  | repeated =>
    rw [label] at same
    cases same
    obtain ⟨blanks, typed, rfl, blank, given, laid⟩ := laid.takeWord
    have labelled : label? "repeated" (Word.repeated.text ++ (blanks ++ (field.type.word.text
        ++ (typed ++ ending)))) = some (field.type.word.text ++ (typed ++ ending)) :=
      label?_blank "repeated" (given rfl) blank (field.type.word.notBlank _)
    simp only [Token.text, List.append_assoc]
    rw [labelled, Option.bind_some, unlabelled?_read field true laid ends stopsDigits, Option.some_or]
  | optional =>
    rw [label] at same
    cases same
    obtain ⟨blanks, typed, rfl, blank, given, laid⟩ := laid.takeWord
    have stops := stops_blank (given rfl) blank (fun _ => isWord_of_isBlank)
      (field.type.word.text ++ (typed ++ ending))
    have labelled : label? "optional" (Word.optional.text ++ (blanks ++ (field.type.word.text
        ++ (typed ++ ending)))) = some (field.type.word.text ++ (typed ++ ending)) :=
      label?_blank "optional" (given rfl) blank (field.type.word.notBlank _)
    simp only [Token.text, List.append_assoc]
    rw [label?_other (by decide) Word.optional.dotted stops (by decide),
      Option.bind_none, Option.none_or, unlabelled?, labelled, Option.bind_some,
      fieldAfter?_read field false laid ends stopsDigits, Option.some_or]

theorem FieldClause.front_cons (field : FieldClause) :
    ∃ token tokens, field.front = token :: tokens ∧ endsInWord token.isWord tokens = true := by
  rw [front]
  cases field.label <;> exact ⟨_, _, rfl, rfl⟩

theorem FieldClause.read_ending (config : Config) (field : FieldClause) {token : Token}
    {tokens : List Token} (same : field.front = token :: tokens)
    (laid : Laid Blank token.isWord tokens text) (ends : endsField ending = true)
    (stops : Stops Unicode.isDigit ending) :
    Statement.read config (token.text ++ (text ++ ending)) = .field field.declared := by
  rw [Statement.read, field?_read field same laid ends stops]
  simp only [tag?_numeral, TypeName.word, Name.word, String.ofList_toList]
  rfl

theorem FieldClause.read (config : Config) (field : FieldClause) {token : Token} {tokens : List Token}
    (same : field.tokens = token :: tokens) (laid : Laid Blank token.isWord tokens text) :
    Statement.read config (token.text ++ text) = .field field.declared := by
  obtain ⟨first, rest, front, endsInWord⟩ := field.front_cons
  rw [tokens_front, front, List.cons_append] at same
  cases same
  obtain ⟨assigned, ending, rfl, laid, bracketed⟩ := laid.split
  rw [endsInWord] at bracketed
  obtain ⟨ends, stops⟩ := endsField_bracketed bracketed
  exact field.read_ending config front laid ends stops

end Fields

section LegacyNames

variable {rest : List Char}

theorem optionNamed?_read (name : TypeName) {blanks value : List Char} (blank : Blank blanks)
    (read : optionValue? rest = some value) :
    optionNamed? name.text.toList (blanks ++ (name.word.text ++ rest)) = some value := by
  have here : ∀ c more, name.word.text = c :: more →
      optionNamed? name.text.toList (c :: (more ++ rest)) = some value := by
    intro c more text
    have notBlank := name.word.notBlank rest c (more ++ rest) (by rw [text]; rfl)
    have whole : c :: (more ++ rest) = name.text.toList ++ rest := by
      rw [← List.cons_append, ← text]
      rfl
    rw [optionNamed?, notBlank, if_neg Bool.false_ne_true, Option.none_or, whole,
      if_pos (by simp), List.drop_left, read]
  induction blanks with
  | nil =>
    cases text : name.word.text with
    | nil => exact absurd text name.word.given
    | cons c more => exact here c more text
  | cons c more ih =>
    obtain ⟨first, later⟩ := List.forall_mem_cons.mp blank
    rw [List.cons_append, optionNamed?, if_pos first, ih later]
    rfl

theorem optionValue?_read (value : LegacyValue)
    (laid : Laid Blank true [.mark .closeParen, .mark .equals, .literal value.literal] rest) :
    optionValue? rest = some value.text.toList := by
  obtain ⟨blanks, assigned, rfl, blank, laid⟩ := laid.takeMark
  obtain ⟨blanksToo, given, rfl, blankToo, laid⟩ := laid.takeMark
  cases laid with
  | @cons _ _ _ gap _ spaced _ nothing =>
    cases nothing
    have notQuote : ∀ c ∈ value.text.toList, decide (c ≠ '"') = true :=
      fun c inside => decide_eq_true (value.noQuote c inside)
    have stops : Stops (fun c => decide (c ≠ '"')) ['"'] := stops_cons rfl []
    rw [optionValue?, show (')' : Char) = Mark.closeParen.char from rfl, mark?_gap blank,
      skipBlanks_blank blankToo, skipBlanks_stops (stops_cons Mark.equals.notBlank _)]
    simp only [Option.bind_eq_bind, Option.bind_some]
    have assigns : ∀ rest, mark? Mark.equals.char (Mark.equals.char :: rest) = some (skipBlanks rest) :=
      mark?_gap Blank.nil
    rw [show ('=' : Char) = Mark.equals.char from rfl, assigns, skipBlanks_token spaced,
      List.append_nil, Option.bind_some]
    show (if (value.text.toList ++ ['"']).dropWhile (fun c => decide (c ≠ '"')) = ['"'] then
      some ((value.text.toList ++ ['"']).takeWhile fun c => decide (c ≠ '"')) else none) = _
    rw [dropWhile_stops notQuote stops, takeWhile_stops notQuote stops, if_pos rfl]

-- The word `option`, as the type of a field that is none.
def optionType : TypeName := ⟨"option", by decide⟩

theorem legacyName_read (config : Config) {name : TypeName} (named : name.text = config.legacyNameOption)
    (value : LegacyValue) {token : Token} {tokens : List Token} {text : List Char}
    (same : legacyClause name value = token :: tokens) (laid : Laid Blank token.isWord tokens text) :
    Statement.read config (token.text ++ text) = .legacyName value.text := by
  cases same
  obtain ⟨blanks, inner, rfl, blank, laid⟩ := laid.takeMark
  obtain ⟨beforeName, rest, rfl, blankName, _, laid⟩ := laid.takeWord
  have stops : Stops isWord (blanks ++ Mark.openParen.char
      :: (beforeName ++ (name.word.text ++ rest))) :=
    stops_gap blank (fun _ => isWord_of_isBlank) Mark.openParen.notWord _
  have noField : field? (Word.option.text ++ (blanks ++ Mark.openParen.char
      :: (beforeName ++ (name.word.text ++ rest)))) = none := by
    rw [field?_unlabelled, label?_other (by decide) Word.option.dotted stops (by decide),
      Option.bind_none, Option.none_or]
    exact unlabelled?_single false optionType blank _
  have option : option? config.legacyNameOption (Word.option.text ++ (blanks
      ++ Mark.openParen.char :: (beforeName ++ (name.word.text ++ rest))))
        = some value.text.toList := by
    have keyword : ∀ more, word? "option" (Word.option.text ++ more) = some more :=
      word?_append "option"
    rw [option?, keyword, Option.bind_eq_bind, Option.bind_some,
      skipBlanks_blank blank, skipBlanks_stops (stops_cons Mark.openParen.notBlank _), ← named]
    exact optionNamed?_read name blankName (optionValue?_read value laid)
  rw [Statement.read, Token.text, noField, option]
  simp

end LegacyNames

end SigningSchema.Source
