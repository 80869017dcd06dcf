import SigningSchema.Proofs.Results
import SigningSchema.Proofs.Source.Layout

-- Where a keyword and a name open a block or a list, in a text that is laid out of tokens: just
-- where two words stand before the opening mark, and the first of them ends in the keyword.

namespace SigningSchema.Source

open Unicode (isBlank isWord)

-- The text does not go on with a character of the class.
def Stops (accepts : Char → Bool) (text : List Char) : Prop :=
  ∀ c rest, text = c :: rest → accepts c = false

section Scanning

variable {accepts : Char → Bool} {text rest : List Char}

theorem takeWhile_stops (all : ∀ c ∈ text, accepts c = true) (stops : Stops accepts rest) :
    (text ++ rest).takeWhile accepts = text := by
  rw [List.takeWhile_append_of_pos all]
  cases rest with
  | nil => simp
  | cons c more => rw [List.takeWhile_cons_of_neg (by simp [stops c more rfl]), List.append_nil]

theorem dropWhile_stops (all : ∀ c ∈ text, accepts c = true) (stops : Stops accepts rest) :
    (text ++ rest).dropWhile accepts = rest := by
  rw [List.dropWhile_append_of_pos all]
  cases rest with
  | nil => rfl
  | cons c more => rw [List.dropWhile_cons_of_neg (by simp [stops c more rfl])]

theorem skipBlanks_blank (blank : Blank text) (rest : List Char) :
    skipBlanks (text ++ rest) = skipBlanks rest :=
  List.dropWhile_append_of_pos blank

theorem skipBlanks_stops (stops : Stops isBlank text) : skipBlanks text = text := by
  cases text with
  | nil => rfl
  | cons c more => exact List.dropWhile_cons_of_neg (by simp [stops c more rfl])

theorem row?_stops (given : text ≠ []) (all : ∀ c ∈ text, accepts c = true)
    (stops : Stops accepts rest) : row? accepts (text ++ rest) = some (text, rest) := by
  rw [row?, takeWhile_stops all stops, dropWhile_stops all stops]
  cases text with
  | nil => exact absurd rfl given
  | cons c more => rfl

theorem word?_append (word : String) (rest : List Char) :
    word? word (word.toList ++ rest) = some rest := by
  rw [word?, if_pos (by simp)]
  simp

theorem word?_some {word : String} (read : word? word text = some rest) :
    text = word.toList ++ rest := by
  unfold word? at read
  split at read
  · rename_i starts
    cases read
    obtain ⟨more, rfl⟩ := List.isPrefixOf_iff_prefix.mp starts
    rw [List.drop_left]
  · cases read

theorem row?_some {read : List Char × List Char}
    (row : row? accepts text = some read) : text = read.1 ++ read.2 := by
  rw [row?] at row
  split at row
  · cases row
  · cases row
    exact List.takeWhile_append_dropWhile.symm

theorem blanks?_some {after : List Char} (blanks : blanks? text = some after) :
    ∃ run, text = run ++ after := by
  cases text with
  | nil => cases blanks
  | cons c rest =>
    rw [blanks?] at blanks
    split at blanks
    · cases blanks
      exact ⟨c :: rest.takeWhile isBlank,
        by rw [List.cons_append, skipBlanks, List.takeWhile_append_dropWhile]⟩
    · cases blanks

theorem blanks?_blank (given : text ≠ []) (blank : Blank text) (rest : List Char) :
    blanks? (text ++ rest) = some (skipBlanks rest) := by
  cases text with
  | nil => exact absurd rfl given
  | cons c more =>
    obtain ⟨first, later⟩ := List.forall_mem_cons.mp blank
    rw [List.cons_append, blanks?, if_pos first, skipBlanks_blank later]

theorem blanks?_stops (stops : Stops isBlank text) : blanks? text = none := by
  cases text with
  | nil => rfl
  | cons c more => rw [blanks?, stops c more rfl, if_neg Bool.false_ne_true]

end Scanning

theorem dotted_notBlank {c : Char} (dotted : isDotted c = true) : isBlank c = false := by
  cases blank : isBlank c with
  | false => rfl
  | true =>
    rw [isDotted, isWord_of_isBlank blank, Bool.false_or] at dotted
    rw [of_decide_eq_true dotted] at blank
    exact absurd blank (by decide)

theorem isDotted_of_isWord {c : Char} (word : isWord c = true) : isDotted c = true := by
  rw [isDotted, word, Bool.true_or]

theorem eq_dot_of_dotted {c : Char} (dotted : isDotted c = true) (notWord : isWord c = false) :
    c = '.' := by
  rw [isDotted, notWord, Bool.false_or] at dotted
  exact of_decide_eq_true dotted

theorem isWord_of_notDotted {c : Char} (notDotted : isDotted c = false) : isWord c = false := by
  rw [isDotted, Bool.or_eq_false_iff] at notDotted
  exact notDotted.1

theorem Mark.notWord (mark : Mark) : isWord mark.char = false := isWord_of_notDotted mark.notDotted

theorem isQuote_notDotted {c : Char} (quoted : isQuote c = true) : isDotted c = false := by
  rcases isQuote_cases quoted with rfl | rfl <;> rfl

theorem isQuote_notWord {c : Char} (quoted : isQuote c = true) : isWord c = false :=
  isWord_of_notDotted (isQuote_notDotted quoted)

theorem isDotted_of_isBlank {c : Char} (blank : isBlank c = true) : isDotted c = false := by
  cases dotted : isDotted c with
  | false => rfl
  | true => rw [dotted_notBlank dotted] at blank; cases blank

theorem isQuote_notBlank {c : Char} (quoted : isQuote c = true) : isBlank c = false := by
  rcases isQuote_cases quoted with rfl | rfl <;> rfl

theorem Token.text_notBlank (token : Token) (rest : List Char) : Stops isBlank (token.text ++ rest) := by
  rintro c more same
  cases token with
  | word word =>
    obtain ⟨text, given, dotted⟩ := word
    cases text with
    | nil => exact absurd rfl given
    | cons d others =>
      cases same
      exact dotted_notBlank (dotted c List.mem_cons_self)
  | mark mark =>
    cases same
    exact mark.notBlank
  | literal literal =>
    cases same
    exact isQuote_notBlank literal.quoted

theorem skipBlanks_token {blanks : List Char} (blank : Blank blanks) (token : Token) (rest : List Char) :
    skipBlanks (blanks ++ (token.text ++ rest)) = token.text ++ rest := by
  rw [skipBlanks_blank blank, skipBlanks_stops (token.text_notBlank rest)]

theorem skipBlanks_all {blanks : List Char} (blank : Blank blanks) : skipBlanks blanks = [] := by
  have skipped := skipBlanks_blank blank []
  rwa [List.append_nil] at skipped

-- What follows a word goes on with no character of a word.
theorem Laid.stopsDotted {tokens : List Token} {text tail : List Char}
    (laid : Laid Blank true tokens text) (ends : Blank tail) : Stops isDotted (text ++ tail) := by
  rintro c rest same
  cases laid with
  | nil => exact isDotted_of_isBlank (ends c (by rw [List.nil_append] at same; simp [same]))
  | @cons _ token others gap more spaced apart _ =>
    cases gap with
    | cons d blanks =>
      cases same
      exact isDotted_of_isBlank (spaced c List.mem_cons_self)
    | nil =>
      cases token with
      | word word => exact absurd rfl (apart rfl rfl)
      | mark mark =>
        cases same
        exact mark.notDotted
      | literal literal =>
        cases same
        exact isQuote_notDotted literal.quoted

theorem Laid.stops {tokens : List Token} {text tail : List Char} (laid : Laid Blank true tokens text)
    (ends : Blank tail) : Stops isWord (text ++ tail) :=
  fun c rest same => isWord_of_notDotted (laid.stopsDotted ends c rest same)

-- What follows a mark, after blanks.
def pastMark? (mark : Char) (text : List Char) : Option (List Char) :=
  match skipBlanks text with
  | [] => none
  | c :: rest => if c = mark then some rest else none

-- A word and then a mark: the word and what follows the mark.
def marked? (mark : Char) (text : List Char) : Option (List Char × List Char) :=
  (row? isWord text).bind fun read => (pastMark? mark read.2).map fun more => (read.1, more)

-- A keyword, a word after blanks, and then a mark.
def opening? (keyword : String) (mark : Char) (text : List Char) : Option (List Char × List Char) :=
  ((word? keyword text).bind blanks?).bind (marked? mark)

def afterMark? (mark : Char) : List Token → Option (List Token)
  | .mark m :: rest => if m.char = mark then some rest else none
  | _ => none

-- Two words right before a mark, with the tokens after it.
def pairAt? (mark : Char) : List Token → Option (List Char × List Char × List Token)
  | .word first :: .word second :: rest =>
    (afterMark? mark rest).map fun more => (first.text, second.text, more)
  | _ => none

def pairs (mark : Char) : List Token → List (List Char × List Char × List Token)
  | [] => []
  | token :: rest => (pairAt? mark (token :: rest)).toList ++ pairs mark rest

-- Whether a text ends in a keyword that begins where a word can begin.
def endsIn (keyword : List Char) (afterWord : Bool) : List Char → Bool
  | [] => false
  | c :: rest => (!afterWord && c :: rest = keyword) || endsIn keyword (isWord c) rest

-- The word of a pair and what follows its mark, if the pair is an opening.
def opensWith? (keyword : String) (pair : List Char × List Char × List Token) :
    Option (List Char × List Token) :=
  if endsIn keyword.toList false pair.1 && pair.2.1.all isWord then some pair.2 else none

def openings (keyword : String) (mark : Char) (tokens : List Token) : List (List Char × List Token) :=
  (pairs mark tokens).filterMap (opensWith? keyword)

structure IsKeyword (keyword : String) : Prop where
  given : keyword.toList ≠ []
  letters : keyword.toList.all isWord = true

-- A mark that opens something.
structure Opens (mark : Char) : Prop where
  notDotted : isDotted mark = false
  notQuote : isQuote mark = false

section Opening

variable {keyword : String} {mark : Char}

theorem label?_stops (given : keyword.toList ≠ []) (letters : keyword.toList.all isWord = true)
    {text : List Char} (stops : Stops isWord text) : label? keyword text = none := by
  cases read : word? keyword text with
  | none => rw [label?, read]; rfl
  | some rest =>
    have starts := word?_some read
    cases same : keyword.toList with
    | nil => exact absurd same given
    | cons c more =>
      rw [same] at starts
      have first := List.all_eq_true.mp letters c (same ▸ List.mem_cons_self)
      rw [stops c _ starts] at first
      cases first

theorem opening?_label (text : List Char) :
    opening? keyword mark text = (label? keyword text).bind (marked? mark) := rfl

theorem pastMark?_some {text after : List Char} (past : pastMark? mark text = some after) :
    ∃ run, text = run ++ mark :: after := by
  have whole := List.takeWhile_append_dropWhile (p := isBlank) (l := text)
  rw [pastMark?, skipBlanks] at past
  split at past
  · cases past
  · rename_i c rest same
    split at past
    · rename_i here
      cases past
      exact ⟨text.takeWhile isBlank, by rw [← here, ← same, whole]⟩
    · cases past

theorem opening?_some {text name after : List Char}
    (opened : opening? keyword mark text = some (name, after)) :
    ∃ run, text = run ++ mark :: after := by
  obtain ⟨rest, labelled, marked⟩ := Option.bind_eq_some_iff.mp opened
  obtain ⟨worded, word, blanks⟩ := Option.bind_eq_some_iff.mp labelled
  obtain ⟨read, row, past⟩ := Option.bind_eq_some_iff.mp marked
  obtain ⟨end_, pastMark, same⟩ := Option.map_eq_some_iff.mp past
  cases same
  obtain ⟨gap, rfl⟩ := blanks?_some blanks
  obtain ⟨between, ends⟩ := pastMark?_some pastMark
  refine ⟨keyword.toList ++ (gap ++ (read.1 ++ between)), ?_⟩
  rw [word?_some word, row?_some row, ends]
  simp

theorem opening?_stops (known : IsKeyword keyword) {text : List Char} (stops : Stops isWord text) :
    opening? keyword mark text = none := by
  rw [opening?_label, label?_stops known.given known.letters stops, Option.bind_none]

-- Within a word the keyword has to end with the word.
theorem label?_other {text rest : List Char} (letters : keyword.toList.all isWord = true)
    (dotted : ∀ c ∈ text, isDotted c = true) (stops : Stops isWord rest)
    (other : text ≠ keyword.toList) : label? keyword (text ++ rest) = none := by
  cases read : word? keyword (text ++ rest) with
  | none => rw [label?, read]; rfl
  | some after =>
    rw [label?, read]
    have starts := word?_some read
    rcases List.append_eq_append_iff.mp starts with ⟨more, same, rfl⟩ | ⟨more, rfl, rfl⟩
    · cases more with
      | nil => exact absurd (by rw [same, List.append_nil]) other
      | cons c others =>
        have letter := List.all_eq_true.mp letters c (by rw [same]; simp)
        rw [stops c _ rfl] at letter
        cases letter
    · cases more with
      | nil => exact absurd (List.append_nil _) other
      | cons c others =>
        have inside : isDotted c = true := dotted c (by simp)
        have notBlank : Stops isBlank (c :: others ++ rest) := by
          rintro d _ same
          cases same
          exact dotted_notBlank inside
        rw [Option.bind_some, blanks?_stops notBlank]

-- Whether a token is the mark or not shows by its first character.
theorem Token.text_cases (opens : Opens mark) (token : Token) :
    (∃ m, token = .mark m) ∨
      (∃ c rest, token.text = c :: rest ∧ c ≠ mark) ∧ ∀ rest, afterMark? mark (token :: rest) = none := by
  cases token with
  | mark m => exact .inl ⟨m, rfl⟩
  | word word =>
    refine .inr ⟨?_, fun _ => rfl⟩
    cases same : word.text with
    | nil => exact absurd same word.given
    | cons c rest =>
      have dotted := word.dotted c (same ▸ List.mem_cons_self)
      exact ⟨c, rest, same, ne_of_class dotted opens.notDotted⟩
  | literal literal =>
    exact .inr ⟨⟨literal.quote, _, rfl, ne_of_class literal.quoted opens.notQuote⟩, fun _ => rfl⟩

variable {tokens : List Token} {text tail : List Char} {after : Bool}

theorem pastMark?_laid (opens : Opens mark) (laid : Laid Blank after tokens text) (ends : Blank tail) :
    match afterMark? mark tokens with
    | some rest => ∃ body, pastMark? mark (text ++ tail) = some (body ++ tail) ∧
        Laid Blank false rest body
    | none => pastMark? mark (text ++ tail) = none := by
  cases laid with
  | nil =>
    show pastMark? mark tail = none
    rw [pastMark?, skipBlanks_all ends]
  | @cons _ token rest gap more blank _ laid =>
    rw [pastMark?, List.append_assoc, List.append_assoc, skipBlanks_token blank]
    rcases token.text_cases opens with ⟨m, rfl⟩ | ⟨⟨c, others, same, differs⟩, nothing⟩
    · by_cases here : m.char = mark
      · simp only [afterMark?, if_pos here]
        exact ⟨more, if_pos here, laid⟩
      · simp only [afterMark?, if_neg here]
        exact if_neg here
    · simp only [nothing]
      rw [same]
      exact if_neg differs

theorem text_notWord {token : Token} (other : token.isWord = false) (rest : List Char) :
    Stops isWord (token.text ++ rest) := by
  rintro c more same
  cases token with
  | word _ => cases other
  | mark mark =>
    cases same
    exact mark.notWord
  | literal literal =>
    cases same
    exact isQuote_notWord literal.quoted

theorem pairAt?_opensWith {first : Word} (named : endsIn keyword.toList false first.text = true)
    (second : Word) (rest : List Token) :
    (pairAt? mark (.word first :: .word second :: rest)).toList.filterMap (opensWith? keyword)
      = if second.text.all isWord then
          (afterMark? mark rest).toList.map fun more => (second.text, more) else [] := by
  rw [pairAt?]
  cases afterMark? mark rest with
  | none => simp
  | some more =>
    cases plain : second.text.all isWord <;> simp [opensWith?, named, plain]

end Opening

-- A reader that begins with an opening, and cannot read across a quote.
structure OpensWith (read? : List Char → Option α) (keyword : String) (mark : Char)
    (next : List Char × List Char → Option α) : Prop where
  known : IsKeyword keyword
  opens : Opens mark
  reads : ∀ text, read? text = (opening? keyword mark text).bind next
  quiet : ∀ literal : Literal, occurrences read? false literal.content = []
  within : ∀ text quote rest, isQuote quote = true → read? text = none →
    read? (text ++ quote :: rest) = none

section Occurrences

variable {α : Type} {read? : List Char → Option α} {keyword : String} {mark : Char}
  {next : List Char × List Char → Option α}

theorem OpensWith.stops (reads : OpensWith read? keyword mark next) {text : List Char}
    (stops : Stops isWord text) : read? text = none := by
  rw [reads.reads, opening?_stops reads.known stops]
  rfl

end Occurrences

end SigningSchema.Source
