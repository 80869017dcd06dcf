import Mathlib.Data.List.TakeWhile
import SigningSchema.Proofs.Source.Packages
import SigningSchema.Proofs.Source.Rewording

-- Statements of texts that differ in what their literals hold. Readers of statements stop at the
-- first quote: behind it they look for the end of the statement, or for the value of an option.

namespace SigningSchema.Source

open Unicode (isBlank isWord)

variable {config : Config}

section Quotes

variable {quote : Char} (quoted : isQuote quote = true) (rest : List Char)

include quoted

theorem isQuote_notName : beginsName quote = false := by
  rcases isQuote_cases quoted with rfl | rfl <;> rfl

theorem name?_before {continues : Char → Bool} (refused : continues quote = false)
    (text : List Char) :
    name? continues (text ++ quote :: rest)
      = (name? continues text).map fun read => (read.1, read.2 ++ quote :: rest) := by
  cases text with
  | nil => simp [name?, isQuote_notName quoted]
  | cons c more =>
    rw [List.cons_append, name?, name?, takeWhile_before rest refused, dropWhile_before rest refused]
    split <;> rfl

theorem typeName?_before (text : List Char) :
    typeName? (text ++ quote :: rest)
      = (typeName? text).map fun read => (read.1, read.2 ++ quote :: rest) := by
  have dotted := isQuote_notDotted quoted
  have notDot : quote ≠ '.' := ne_of_class quoted rfl
  by_cases dot : ∃ more, text = '.' :: more
  · obtain ⟨more, rfl⟩ := dot
    rw [List.cons_append, typeName?, typeName?, name?_before quoted rest dotted]
    cases name? isDotted more <;> rfl
  · have dotless : ∀ more, text ≠ '.' :: more := fun more same => dot ⟨more, same⟩
    have dotlessToo : ∀ more, text ++ quote :: rest ≠ '.' :: more := by
      intro more same
      cases text with
      | nil => exact notDot (List.cons.inj same).1
      | cons c others => exact dotless others (by rw [(List.cons.inj same).1])
    rw [typeName?_dotless dotless, typeName?_dotless dotlessToo, name?_before quoted rest dotted]

theorem mark?_before {mark : Char} (differs : quote ≠ mark) (text : List Char) :
    mark? mark (text ++ quote :: rest) = (mark? mark text).map (· ++ quote :: rest) := by
  rw [mark?_past, mark?_past, pastMark?_before quoted rest differs]
  cases pastMark? mark text with
  | none => rfl
  | some after => exact congrArg some (skipBlanks_before quoted rest after)

theorem label?_before {label : String} (letters : label.toList.all isWord = true)
    (text : List Char) :
    label? label (text ++ quote :: rest) = (label? label text).map (· ++ quote :: rest) := by
  rw [label?, label?, word?_before quoted rest letters]
  cases word? label text with
  | none => rfl
  | some after => exact blanks?_before quoted rest after

theorem packageAt?_before (text : List Char) :
    packageAt? (text ++ quote :: rest) = packageAt? text := by
  have differs : quote ≠ ';' := ne_of_class quoted rfl
  rw [packageAt?_label, packageAt?_label, skipBlanks_before quoted, label?_before quoted rest (by decide)]
  cases label? "package" (skipBlanks text) with
  | none => rfl
  | some after =>
    rw [Option.map_some, Option.bind_some, Option.bind_some, packageIn?, packageIn?,
      name?_before quoted rest (isQuote_notDotted quoted)]
    cases name? isDotted after with
    | none => rfl
    | some read =>
      rw [Option.map_some, Option.bind_some, Option.bind_some, mark?_before quoted rest differs]
      cases mark? ';' read.2 <;> rfl

variable {rest}

theorem labelled_before {other : List Char} {label : String} (letters : label.toList.all isWord = true)
    {read? : List Char → Option FieldText}
    (same : ∀ text, read? (text ++ quote :: rest) = read? (text ++ quote :: other)) (text : List Char) :
    (label? label (text ++ quote :: rest)).bind read? = (label? label (text ++ quote :: other)).bind read? := by
  rw [label?_before quoted rest letters, label?_before quoted other letters]
  cases label? label text with
  | none => rfl
  | some after => exact same after

variable {other : List Char} (ends : (quote :: rest).getLast? = (quote :: other).getLast?)

include ends

theorem endsField_ends (text : List Char) :
    endsField (text ++ quote :: rest) = endsField (text ++ quote :: other) := by
  have given : ∀ more, (text ++ quote :: more).isEmpty = false := by simp
  rw [endsField, endsField, given, given, skipBlanks_before quoted, skipBlanks_before quoted]
  cases skipBlanks text with
  | nil =>
    have notBracket : quote ≠ '[' := ne_of_class quoted rfl
    simp [notBracket]
  | cons c more =>
    by_cases bracket : c = '['
    · rw [bracket]
      simp only [List.cons_append, List.getLast?_append, ends]
    · simp [bracket]

theorem fieldAfter?_ends (repeated : Bool) (text : List Char) :
    fieldAfter? repeated (text ++ quote :: rest) = fieldAfter? repeated (text ++ quote :: other) := by
  have notWord := isQuote_notWord quoted
  have notEquals : quote ≠ '=' := ne_of_class quoted rfl
  have notDigit : Unicode.isDigit quote = false := by rcases isQuote_cases quoted with rfl | rfl <;> rfl
  rw [fieldAfter?, fieldAfter?, typeName?_before quoted, typeName?_before quoted]
  cases typeName? text with
  | none => rfl
  | some read =>
    simp only [Option.map_some, Option.bind_eq_bind, Option.bind_some]
    rw [blanks?_before quoted, blanks?_before quoted]
    cases blanks? read.2 with
    | none => rfl
    | some after =>
      simp only [Option.map_some, Option.bind_some]
      rw [name?_before quoted _ notWord, name?_before quoted _ notWord]
      cases name? isWord after with
      | none => rfl
      | some read =>
        simp only [Option.map_some, Option.bind_some]
        rw [mark?_before quoted _ notEquals, mark?_before quoted _ notEquals]
        cases mark? '=' read.2 with
        | none => rfl
        | some after =>
          simp only [Option.map_some, Option.bind_some]
          rw [row?_before _ notDigit, row?_before _ notDigit]
          cases row? Unicode.isDigit after with
          | none => rfl
          | some read =>
            simp only [Option.map_some, Option.bind_some, endsField_ends quoted ends]

-- Whether a statement declares a field depends on what stands before its first quote, and on how it
-- ends.
theorem field?_ends (text : List Char) :
    field? (text ++ quote :: rest) = field? (text ++ quote :: other) := by
  have unlabelled : ∀ repeated text,
      ((label? "optional" (text ++ quote :: rest)).bind (fieldAfter? repeated)).or
          (fieldAfter? repeated (text ++ quote :: rest))
        = ((label? "optional" (text ++ quote :: other)).bind (fieldAfter? repeated)).or
          (fieldAfter? repeated (text ++ quote :: other)) := by
    intro repeated text
    rw [labelled_before quoted (by decide) (fieldAfter?_ends quoted ends repeated),
      fieldAfter?_ends quoted ends]
  rw [field?, field?]
  exact congr (congrArg _ (labelled_before quoted (by decide) (unlabelled true) text))
    (unlabelled false text)

end Quotes

section Values

def Unquoted (text : List Char) : Prop := ∀ c ∈ text, isQuote c = false

theorem unquoted_of_all {text : List Char} (all : text.all (fun c => !isQuote c) = true) :
    Unquoted text :=
  fun c inside => by simpa using List.all_eq_true.mp all c inside

-- The value of an option, after its opening quote: it has to end the statement.
def optionText? (text : List Char) : Option (List Char) :=
  if text.dropWhile (· ≠ '"') = ['"'] then some (text.takeWhile (· ≠ '"')) else none

-- A reader that stops at a quote after some text. It answers the value of an option there, or nothing
-- whatever the quote is and whatever comes after it.
def Awaits (read? : List Char → Option (List Char)) (front : List Char) : Prop :=
  ∃ awaited : Bool, ∀ quote rest, isQuote quote = true →
    read? (front ++ quote :: rest) = if quote = '"' ∧ awaited = true then optionText? rest else none

theorem Awaits.never {read? : List Char → Option (List Char)} {front : List Char}
    (never : ∀ quote rest, isQuote quote = true → read? (front ++ quote :: rest) = none) :
    Awaits read? front := by
  refine ⟨false, fun quote rest quoted => ?_⟩
  rw [never quote rest quoted, if_neg (by simp)]

theorem Awaits.or {first second : List Char → Option (List Char)} {front frontToo : List Char}
    (one : Awaits first front) (two : Awaits second frontToo)
    {read? : List Char → Option (List Char)} {whole : List Char}
    (reads : ∀ rest, read? (whole ++ rest) = (first (front ++ rest)).or (second (frontToo ++ rest))) :
    Awaits read? whole := by
  obtain ⟨awaited, readsOne⟩ := one
  obtain ⟨awaitedToo, readsTwo⟩ := two
  refine ⟨awaited || awaitedToo, fun quote rest quoted => ?_⟩
  rw [reads, readsOne quote rest quoted, readsTwo quote rest quoted]
  by_cases double : quote = '"' <;> cases awaited <;> cases awaitedToo <;> simp [double]

theorem mark?_unquoted {mark : Char} {text after : List Char} (plain : Unquoted text)
    (read : mark? mark text = some after) : Unquoted after := by
  have kept : Unquoted (skipBlanks text) :=
    fun c inside => plain c ((List.dropWhile_sublist _).subset inside)
  rw [mark?] at read
  split at read
  · cases read
  · rename_i c rest skipped
    split at read
    · cases read
      rw [skipped] at kept
      exact fun d inside =>
        kept d (List.mem_cons_of_mem _ ((List.dropWhile_sublist _).subset inside))
    · cases read

-- What an assignment says after its equals sign.
def assignedText? : List Char → Option (List Char)
  | '"' :: rest => optionText? rest
  | _ => none

theorem optionValue?_reads (text : List Char) :
    optionValue? text = ((mark? ')' text).bind (mark? '=')).bind assignedText? := by
  rw [optionValue?]
  cases mark? ')' text with
  | none => rfl
  | some after => cases mark? '=' after <;> rfl

theorem optionValue?_awaits {front : List Char} (plain : Unquoted front) :
    Awaits optionValue? front := by
  have past : ∀ quote rest, isQuote quote = true → optionValue? (front ++ quote :: rest)
      = ((mark? ')' front).bind (mark? '=')).bind fun after => assignedText? (after ++ quote :: rest) := by
    intro quote rest quoted
    have notClose : quote ≠ ')' := ne_of_class quoted rfl
    have notEquals : quote ≠ '=' := ne_of_class quoted rfl
    rw [optionValue?_reads, mark?_before quoted rest notClose]
    cases mark? ')' front with
    | none => rfl
    | some after =>
      rw [Option.map_some, Option.bind_some, Option.bind_some, mark?_before quoted rest notEquals]
      cases mark? '=' after <;> rfl
  cases found : (mark? ')' front).bind (mark? '=') with
  | none =>
    apply Awaits.never
    intro quote rest quoted
    rw [past quote rest quoted, found]
    rfl
  | some after =>
    obtain ⟨between, closed, assigned⟩ := Option.bind_eq_some_iff.mp found
    have kept := mark?_unquoted (mark?_unquoted plain closed) assigned
    cases after with
    | nil =>
      refine ⟨true, fun quote rest quoted => ?_⟩
      rw [past quote rest quoted, found, Option.bind_some, List.nil_append]
      by_cases double : quote = '"' <;> simp [assignedText?, double]
    | cons c more =>
      apply Awaits.never
      intro quote rest quoted
      have notDouble : c ≠ '"' := by
        rintro rfl
        exact Bool.noConfusion (kept '"' List.mem_cons_self)
      simp [past quote rest quoted, found, assignedText?, notDouble]

theorem isPrefixOf_unquoted {name front : List Char} (named : Unquoted name) {quote : Char}
    (quoted : isQuote quote = true) (rest : List Char) :
    name.isPrefixOf (front ++ quote :: rest) = name.isPrefixOf front := by
  induction name generalizing front with
  | nil => simp
  | cons c more ih =>
    obtain ⟨first, later⟩ := List.forall_mem_cons.mp named
    cases front with
    | nil =>
      have differs : c ≠ quote := by
        rintro rfl
        rw [quoted] at first
        cases first
      simp [List.isPrefixOf, differs]
    | cons d others => rw [List.cons_append, List.isPrefixOf, List.isPrefixOf, ih later]

-- The value of an option with a given name, if it is assigned right here.
def assigned? (name text : List Char) : Option (List Char) :=
  if name.isPrefixOf text then optionValue? (text.drop name.length) else none

theorem assigned?_awaits {name front : List Char} (named : Unquoted name) (plain : Unquoted front) :
    Awaits (assigned? name) front := by
  cases starts : name.isPrefixOf front with
  | false =>
    apply Awaits.never
    intro quote rest quoted
    rw [assigned?, isPrefixOf_unquoted named quoted, starts, if_neg Bool.false_ne_true]
  | true =>
    obtain ⟨more, rfl⟩ := List.isPrefixOf_iff_prefix.mp starts
    obtain ⟨awaited, reads⟩ := optionValue?_awaits (List.forall_mem_append.mp plain).2
    refine ⟨awaited, fun quote rest quoted => ?_⟩
    rw [assigned?, isPrefixOf_unquoted named quoted, starts, if_pos rfl, List.append_assoc,
      List.drop_left, reads quote rest quoted]

theorem optionNamed?_awaits {name front : List Char} (named : Unquoted name) (plain : Unquoted front) :
    Awaits (optionNamed? name) front := by
  induction front with
  | nil =>
    obtain ⟨awaited, reads⟩ := assigned?_awaits named plain
    refine ⟨awaited, fun quote rest quoted => ?_⟩
    rw [← reads quote rest quoted, List.nil_append, optionNamed?, isQuote_notBlank quoted,
      if_neg Bool.false_ne_true, Option.none_or, assigned?]
  | cons c more ih =>
    have here := assigned?_awaits named plain
    cases blank : isBlank c with
    | false =>
      obtain ⟨awaited, reads⟩ := here
      refine ⟨awaited, fun quote rest quoted => ?_⟩
      rw [← reads quote rest quoted, List.cons_append, optionNamed?, blank,
        if_neg Bool.false_ne_true, Option.none_or, assigned?]
    | true =>
      refine (ih (List.forall_mem_cons.mp plain).2).or here fun rest => ?_
      rw [List.cons_append, optionNamed?, blank, if_pos rfl, assigned?]

-- What an option statement says after its keyword.
def optionIn? (name : List Char) (text : List Char) : Option (List Char) :=
  match skipBlanks text with
  | '(' :: rest => optionNamed? name rest
  | _ => none

theorem option?_reads (name : String) (text : List Char) :
    option? name text = (word? "option" text).bind (optionIn? name.toList) := rfl

theorem optionIn?_awaits {name front : List Char} (named : Unquoted name) (plain : Unquoted front) :
    Awaits (optionIn? name) front := by
  have kept : Unquoted (skipBlanks front) :=
    fun c inside => plain c ((List.dropWhile_sublist _).subset inside)
  cases skipped : skipBlanks front with
  | nil =>
    apply Awaits.never
    intro quote rest quoted
    have notOpen : quote ≠ '(' := ne_of_class quoted rfl
    simp [optionIn?, skipBlanks_before quoted, skipped, notOpen]
  | cons c more =>
    rw [skipped] at kept
    by_cases opens : c = '('
    · obtain ⟨awaited, reads⟩ := optionNamed?_awaits named (List.forall_mem_cons.mp kept).2
      refine ⟨awaited, fun quote rest quoted => ?_⟩
      rw [optionIn?, skipBlanks_before quoted, skipped, opens]
      exact reads quote rest quoted
    · apply Awaits.never
      intro quote rest quoted
      simp [optionIn?, skipBlanks_before quoted, skipped, opens]

theorem option?_awaits {name : String} {front : List Char} (named : Unquoted name.toList)
    (plain : Unquoted front) : Awaits (option? name) front := by
  cases worded : word? "option" front with
  | none =>
    apply Awaits.never
    intro quote rest quoted
    rw [option?_reads, word?_before quoted rest (by decide), worded]
    rfl
  | some after =>
    have kept : Unquoted after := by
      intro c inside
      apply plain
      rw [word?_some worded]
      exact List.mem_append_right _ inside
    obtain ⟨awaited, reads⟩ := optionIn?_awaits named kept
    refine ⟨awaited, fun quote rest quoted => ?_⟩
    rw [option?_reads, word?_before quoted rest (by decide), worded]
    exact reads quote rest quoted

-- A quote before the last one ends the value too early.
theorem optionText?_none {content : List Char} (inside : '"' ∈ content) (last : Char)
    (rest : List Char) : optionText? (content ++ last :: rest) = none := by
  have stops : content.dropWhile (· ≠ '"') ≠ [] := by
    intro all
    exact absurd (List.dropWhile_eq_nil_iff.mp all '"' inside) (by decide)
  rw [optionText?, List.dropWhile_append]
  cases more : content.dropWhile (· ≠ '"') with
  | nil => exact absurd more stops
  | cons c others => simp

end Values

-- Statements that are the same up to their first quote and from some other quote on.
inductive Parted (config : Config) : List Char → List Char → Prop where
  | parted {front content changed rest : List Char} {quote last : Char} (plain : Unquoted front)
      (quoted : isQuote quote = true) (closes : isQuote last = true)
      (kept : quote = '"' → Assigns config front.reverse →
        (content = changed ∧ last = '"') ∨ ('"' ∈ content ∧ '"' ∈ changed)) :
      Parted config (front ++ quote :: (content ++ last :: rest))
        (front ++ quote :: (changed ++ last :: rest))

section Reading

variable {statement other : List Char}

theorem trim_parted {quote last : Char} (quoted : isQuote quote = true) (closes : isQuote last = true)
    (front rest : List Char) :
    ∃ ending, ∀ content, Unicode.trim (front ++ quote :: (content ++ last :: rest))
      = skipBlanks front ++ quote :: (content ++ last :: ending) := by
  refine ⟨(rest.reverse.dropWhile isBlank).reverse, fun content => ?_⟩
  have front := skipBlanks_before quoted (content ++ last :: rest) front
  rw [skipBlanks] at front
  rw [Unicode.trim, front]
  simp only [List.reverse_append, List.reverse_cons, List.append_assoc, List.cons_append,
    List.nil_append]
  rw [dropWhile_before _ (isQuote_notBlank closes)]
  simp

theorem Parted.option? (named : Unquoted config.legacyNameOption.toList)
    (parted : Parted config statement other) :
    option? config.legacyNameOption (Unicode.trim statement)
      = option? config.legacyNameOption (Unicode.trim other) := by
  cases parted with
  | @parted front content changed rest quote last plain quoted closes kept =>
    obtain ⟨ending, trimmed⟩ := trim_parted quoted closes front rest
    have plainToo : Unquoted (skipBlanks front) :=
      fun c inside => plain c ((List.dropWhile_sublist _).subset inside)
    obtain ⟨awaited, reads⟩ := option?_awaits named plainToo
    rw [trimmed, trimmed, reads quote _ quoted, reads quote _ quoted]
    split
    · rename_i assigns
      have value : Assigns config front.reverse := by
        rw [Assigns, List.reverse_reverse, reads '"' _ rfl, if_pos ⟨rfl, assigns.2⟩]
        rfl
      rcases kept assigns.1 value with ⟨same, _⟩ | ⟨inside, insideToo⟩
      · rw [same]
      · rw [optionText?_none inside, optionText?_none insideToo]
    · rfl

theorem Parted.read (named : Unquoted config.legacyNameOption.toList)
    (parted : Parted config statement other) :
    Statement.read config (Unicode.trim statement) = Statement.read config (Unicode.trim other) := by
  have value := parted.option? named
  cases parted with
  | @parted front content changed rest quote last plain quoted closes kept =>
    obtain ⟨ending, trimmed⟩ := trim_parted quoted closes front rest
    have ends : (quote :: (content ++ last :: ending)).getLast?
        = (quote :: (changed ++ last :: ending)).getLast? := by
      simp [List.getLast?_cons, List.getLast?_append]
    rw [Statement.read, Statement.read, value, trimmed, trimmed, field?_ends quoted ends]

theorem Parted.given (parted : Parted config statement other) :
    (Unicode.trim statement).isEmpty = false ∧ (Unicode.trim other).isEmpty = false := by
  cases parted with
  | parted _ quoted closes _ =>
    obtain ⟨ending, trimmed⟩ := trim_parted quoted closes _ _
    rw [trimmed, trimmed]
    simp

theorem Parted.append (parted : Parted config statement other) (more : List Char) :
    Parted config (statement ++ more) (other ++ more) := by
  cases parted with
  | @parted front content changed rest quote last plain quoted closes kept =>
    have longer := @Parted.parted config front content changed (rest ++ more) quote last plain quoted
      closes kept
    simpa using longer

end Reading

end SigningSchema.Source
