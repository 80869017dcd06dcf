import SigningSchema.Source.Reader

-- Tokens of schema text, the gaps between them, and texts that are laid out of both. Comments in
-- gaps become blanks; nothing else changes.

namespace SigningSchema.Source

open Unicode (isBlank isWord)

-- The code points of white space, one by one.
def blankCodes : List Nat :=
  [0x9, 0xa, 0xb, 0xc, 0xd, 0x20, 0x85, 0xa0, 0x1680, 0x2000, 0x2001, 0x2002, 0x2003, 0x2004,
    0x2005, 0x2006, 0x2007, 0x2008, 0x2009, 0x200a, 0x2028, 0x2029, 0x202f, 0x205f, 0x3000]

theorem refused_of_isBlank {accepts : Char → Bool}
    (none : ∀ code ∈ blankCodes, accepts (Char.ofNat code) = false) {c : Char}
    (blank : isBlank c = true) : accepts c = false := by
  simp only [isBlank, Bool.or_eq_true, Bool.and_eq_true, decide_eq_true_eq] at blank
  have listed : c.toNat ∈ blankCodes := by
    simp only [blankCodes, List.mem_cons, List.not_mem_nil, or_false]
    omega
  rw [← Char.ofNat_toNat c]
  exact none _ listed

theorem isWord_of_isBlank {c : Char} (blank : isBlank c = true) : isWord c = false :=
  refused_of_isBlank (by decide +kernel) blank

-- What a literal holds: its own quote is escaped there, and every escape is complete.
inductive Enclosed (quote : Char) : List Char → Prop where
  | nil : Enclosed quote []
  | escape (c : Char) {rest : List Char} (more : Enclosed quote rest) :
      Enclosed quote ('\\' :: c :: rest)
  | plain {c : Char} {rest : List Char} (notEscape : c ≠ '\\') (notQuote : c ≠ quote)
      (more : Enclosed quote rest) : Enclosed quote (c :: rest)

-- What would be taken for a header or a remote call inside a literal.
def Quiet (content : List Char) : Prop :=
  occurrences (header? "message") false content = [] ∧
    occurrences (header? "enum") false content = [] ∧ occurrences request? false content = []

-- Names, dotted or not, keywords and numerals.
structure Word where
  text : List Char
  given : text ≠ []
  dotted : ∀ c ∈ text, isDotted c = true

structure Mark where
  char : Char
  notBlank : isBlank char = false
  notDotted : isDotted char = false
  notQuote : isQuote char = false
  notSlash : char ≠ '/'

structure Literal where
  quote : Char
  content : List Char
  quoted : isQuote quote = true
  closed : Enclosed quote content
  quiet : Quiet content

inductive Token where
  | word (word : Word)
  | mark (mark : Mark)
  | literal (literal : Literal)

namespace Token

def text : Token → List Char
  | word w => w.text
  | mark m => [m.char]
  | literal l => l.quote :: (l.content ++ [l.quote])

def isWord : Token → Bool
  | word _ => true
  | _ => false

end Token

-- Blanks and comments.
inductive Gap : List Char → Prop where
  | none : Gap []
  | blank {c : Char} {rest : List Char} (blank : isBlank c = true) (more : Gap rest) :
      Gap (c :: rest)
  | line {text rest : List Char} (oneLine : ∀ c ∈ text, c ≠ '\n') (more : Gap rest) :
      Gap ('/' :: '/' :: (text ++ '\n' :: rest))
  | block {text rest : List Char} (inside : ¬ ['*', '/'] <:+: text) (more : Gap rest) :
      Gap ('/' :: '*' :: (text ++ '*' :: '/' :: rest))

-- The end of a text, where a comment may lack the end of its line.
inductive Ending : List Char → Prop where
  | gap {text : List Char} (gap : Gap text) : Ending text
  | comment {gap text : List Char} (spaced : Gap gap) (oneLine : ∀ c ∈ text, c ≠ '\n') :
      Ending (gap ++ '/' :: '/' :: text)

def Blank (text : List Char) : Prop := ∀ c ∈ text, isBlank c = true

-- A text that is laid out of tokens, with a gap before each; two words are never without one.
inductive Laid (Space : List Char → Prop) : Bool → List Token → List Char → Prop where
  | nil {afterWord : Bool} : Laid Space afterWord [] []
  | cons {afterWord : Bool} {token : Token} {rest : List Token} {gap text : List Char}
      (spaced : Space gap) (apart : afterWord = true → token.isWord = true → gap ≠ [])
      (more : Laid Space token.isWord rest text) :
      Laid Space afterWord (token :: rest) (gap ++ (token.text ++ text))

theorem ne_of_class {accepts : Char → Bool} {c d : Char} (accepted : accepts c = true)
    (refused : accepts d = false) : c ≠ d := by
  rintro rfl
  rw [accepted] at refused
  cases refused

theorem isQuote_cases {c : Char} (quoted : isQuote c = true) : c = '"' ∨ c = '\'' := by
  simpa [isQuote] using quoted

theorem isQuote_of_class {accepts : Char → Bool} {c : Char} (accepted : accepts c = true)
    (refusesDouble : accepts '"' = false) (refusesSingle : accepts '\'' = false) :
    isQuote c = false := by
  cases quoted : isQuote c with
  | false => rfl
  | true =>
    rcases isQuote_cases quoted with rfl | rfl
    · exact absurd accepted (by rw [refusesDouble]; decide)
    · exact absurd accepted (by rw [refusesSingle]; decide)

section Comments

variable {c : Char} {text rest : List Char}

-- A character where no comment begins.
theorem strip_first (notLine : ∀ more, c = '/' → rest = '/' :: more → False)
    (notBlock : ∀ more, c = '/' → rest = '*' :: more → False) :
    strip .plain (c :: rest) = c :: strip (if isQuote c then .literal c else .plain) rest := by
  rw [strip]
  · exact notLine
  · exact notBlock

theorem strip_notSlash (notSlash : c ≠ '/') (rest : List Char) :
    strip .plain (c :: rest) = c :: strip (if isQuote c then .literal c else .plain) rest :=
  strip_first (fun _ slash => absurd slash notSlash) fun _ slash => absurd slash notSlash

theorem strip_inLine (c : Char) (rest : List Char) :
    strip .lineComment (c :: rest)
      = blanked c ++ strip (if c = '\n' then .plain else .lineComment) rest := by
  rw [strip]

theorem strip_plain (notSlash : c ≠ '/') (notQuote : isQuote c = false) (rest : List Char) :
    strip .plain (c :: rest) = c :: strip .plain rest := by
  rw [strip_notSlash notSlash, notQuote]
  rfl

theorem strip_word (dotted : ∀ c ∈ text, isDotted c = true) (rest : List Char) :
    strip .plain (text ++ rest) = text ++ strip .plain rest := by
  induction text with
  | nil => rfl
  | cons c more ih =>
    obtain ⟨first, later⟩ := List.forall_mem_cons.mp dotted
    rw [List.cons_append, strip_plain (ne_of_class first rfl) (isQuote_of_class first rfl rfl),
      ih later, List.cons_append]

theorem strip_lineComment (oneLine : ∀ c ∈ text, c ≠ '\n') (rest : List Char) :
    strip .lineComment (text ++ '\n' :: rest)
      = text.flatMap blanked ++ '\n' :: strip .plain rest := by
  induction text with
  | nil => rfl
  | cons c more ih =>
    obtain ⟨first, later⟩ := List.forall_mem_cons.mp oneLine
    rw [List.cons_append, strip_inLine, if_neg first, ih later, List.flatMap_cons,
      List.append_assoc]

theorem strip_lineComment_open (oneLine : ∀ c ∈ text, c ≠ '\n') :
    strip .lineComment text = text.flatMap blanked := by
  induction text with
  | nil => rfl
  | cons c more ih =>
    obtain ⟨first, later⟩ := List.forall_mem_cons.mp oneLine
    rw [strip_inLine, if_neg first, ih later, List.flatMap_cons]

theorem strip_blockComment (inside : ¬ ['*', '/'] <:+: text) (rest : List Char) :
    strip .blockComment (text ++ '*' :: '/' :: rest)
      = text.flatMap blanked ++ ' ' :: ' ' :: strip .plain rest := by
  induction text with
  | nil => rfl
  | cons c more ih =>
    have later : ¬ ['*', '/'] <:+: more :=
      fun found => inside (found.trans (List.suffix_cons _ _).isInfix)
    rw [List.cons_append, strip, ih later, List.flatMap_cons, List.append_assoc]
    -- A star that ends the comment here would be followed by a slash of the comment itself.
    rintro other rfl same
    cases more with
    | nil => cases same
    | cons d others =>
      cases same
      exact inside ⟨[], others, rfl⟩

theorem strip_literal {quote : Char} (quoted : isQuote quote = true) (closed : Enclosed quote text)
    (rest : List Char) :
    strip (.literal quote) (text ++ quote :: rest) = text ++ quote :: strip .plain rest := by
  have plain : quote ≠ '\\' := ne_of_class quoted rfl
  induction closed with
  | nil =>
    rw [List.nil_append, strip, if_pos rfl]
    · rfl
    · rintro _ _ rfl
      exact absurd rfl plain
  | escape c more ih =>
    rw [List.cons_append, List.cons_append, strip, ih]
    rfl
  | plain notEscape notQuote more ih =>
    rw [List.cons_append, strip, if_neg notQuote, ih]
    · rfl
    · rintro _ _ rfl
      exact absurd rfl notEscape

theorem strip_token (token : Token) (rest : List Char) :
    strip .plain (token.text ++ rest) = token.text ++ strip .plain rest := by
  cases token with
  | word word => exact strip_word word.dotted rest
  | mark mark => exact strip_plain mark.notSlash mark.notQuote rest
  | literal literal =>
    have opens : ∀ more, strip .plain (literal.quote :: more)
        = literal.quote :: strip (.literal literal.quote) more := by
      intro more
      have notSlash : literal.quote ≠ '/' := ne_of_class literal.quoted rfl
      rw [strip_notSlash notSlash, literal.quoted, if_pos rfl]
    rw [Token.text, List.cons_append, List.append_assoc, List.singleton_append, opens,
      strip_literal literal.quoted literal.closed]
    simp

end Comments

section Gaps

theorem Blank.nil : Blank [] := fun _ none => nomatch none

theorem Blank.append {first second : List Char} (one : Blank first) (other : Blank second) :
    Blank (first ++ second) :=
  List.forall_mem_append.mpr ⟨one, other⟩

theorem blank_blanked (text : List Char) : Blank (text.flatMap blanked) := by
  intro d inside
  obtain ⟨c, _, made⟩ := List.mem_flatMap.mp inside
  rw [blanked] at made
  split at made
  · rename_i newline
    rw [List.mem_singleton.mp made, newline]
    rfl
  · rw [List.eq_of_mem_replicate made]
    rfl

theorem newline_mem_blanked {text : List Char} (inside : '\n' ∈ text) :
    '\n' ∈ text.flatMap blanked :=
  List.mem_flatMap.mpr ⟨'\n', inside, List.mem_singleton.mpr rfl⟩

-- What remains of a gap where comments are blanked out.
structure Blanks (gap blanks : List Char) : Prop where
  blank : Blank blanks
  given : gap ≠ [] → blanks ≠ []
  newline : '\n' ∈ gap → '\n' ∈ blanks
  strip : ∀ rest, Source.strip .plain (gap ++ rest) = blanks ++ Source.strip .plain rest

theorem strip_gap {gap : List Char} (spaced : Gap gap) : ∃ blanks, Blanks gap blanks := by
  induction spaced with
  | none => exact ⟨[], .nil, id, id, fun _ => rfl⟩
  | @blank c rest blank more ih =>
    obtain ⟨blanks, known⟩ := ih
    refine ⟨c :: blanks, List.forall_mem_cons.mpr ⟨blank, known.blank⟩, ?_, ?_, ?_⟩
    · exact fun _ => List.cons_ne_nil _ _
    · intro inside
      exact List.mem_cons.mpr ((List.mem_cons.mp inside).imp_right known.newline)
    · intro rest
      rw [List.cons_append, strip_plain (ne_of_class blank rfl) (isQuote_of_class blank rfl rfl),
        known.strip, List.cons_append]
  | @line text rest oneLine more ih =>
    obtain ⟨blanks, known⟩ := ih
    refine ⟨' ' :: ' ' :: (text.flatMap blanked ++ '\n' :: blanks), ?_, ?_, ?_, ?_⟩
    · refine List.forall_mem_cons.mpr ⟨rfl, List.forall_mem_cons.mpr ⟨rfl, ?_⟩⟩
      exact (blank_blanked text).append (List.forall_mem_cons.mpr ⟨rfl, known.blank⟩)
    · exact fun _ => List.cons_ne_nil _ _
    · intro _
      simp
    · intro after
      simp only [List.cons_append, List.append_assoc]
      show ' ' :: ' ' :: Source.strip .lineComment _ = _
      rw [strip_lineComment oneLine, known.strip]
  | @block text rest inside more ih =>
    obtain ⟨blanks, known⟩ := ih
    refine ⟨' ' :: ' ' :: (text.flatMap blanked ++ ' ' :: ' ' :: blanks), ?_, ?_, ?_, ?_⟩
    · refine List.forall_mem_cons.mpr ⟨rfl, List.forall_mem_cons.mpr ⟨rfl, ?_⟩⟩
      refine (blank_blanked text).append ?_
      exact List.forall_mem_cons.mpr ⟨rfl, List.forall_mem_cons.mpr ⟨rfl, known.blank⟩⟩
    · exact fun _ => List.cons_ne_nil _ _
    · intro found
      simp only [List.mem_cons, List.mem_append] at found ⊢
      rcases found with slash | star | inText | star | slash | later
      · exact absurd slash (by decide)
      · exact absurd star (by decide)
      · exact .inr (.inr (.inl (newline_mem_blanked inText)))
      · exact absurd star (by decide)
      · exact absurd slash (by decide)
      · exact .inr (.inr (.inr (.inr (.inr (known.newline later)))))
    · intro after
      simp only [List.cons_append, List.append_assoc]
      show ' ' :: ' ' :: Source.strip .blockComment _ = _
      rw [strip_blockComment inside, known.strip]

theorem strip_ending {text : List Char} (ending : Ending text) : Blank (strip .plain text) := by
  cases ending with
  | gap spaced =>
    obtain ⟨blanks, known⟩ := strip_gap spaced
    rw [← List.append_nil text, known.strip]
    exact known.blank.append .nil
  | comment spaced oneLine =>
    obtain ⟨blanks, known⟩ := strip_gap spaced
    rw [known.strip]
    show Blank (blanks ++ ' ' :: ' ' :: strip .lineComment _)
    rw [strip_lineComment_open oneLine]
    refine known.blank.append ?_
    exact List.forall_mem_cons.mpr ⟨rfl, List.forall_mem_cons.mpr ⟨rfl, blank_blanked _⟩⟩

-- Without comments the tokens are laid out as before.
theorem Laid.strip {after : Bool} {tokens : List Token} {text : List Char}
    (laid : Laid Gap after tokens text) :
    ∃ plain, Laid Blank after tokens plain ∧
      ∀ rest, Source.strip .plain (text ++ rest) = plain ++ Source.strip .plain rest := by
  induction laid with
  | nil => exact ⟨[], .nil, fun _ => rfl⟩
  | cons spaced apart more ih =>
    obtain ⟨blanks, known⟩ := strip_gap spaced
    obtain ⟨plain, laid, stripped⟩ := ih
    refine ⟨_, .cons known.blank (fun word token => known.given (apart word token)) laid, ?_⟩
    intro rest
    simp only [List.append_assoc]
    rw [known.strip, strip_token, stripped]

end Gaps

section Pieces

variable {Space : List Char → Prop} {after : Bool} {first second : List Token} {text : List Char}

-- Whether the last of some tokens is a word, where another word came before them or not.
def endsInWord (after : Bool) (tokens : List Token) : Bool :=
  tokens.foldl (fun _ token => token.isWord) after

theorem Laid.append {more : List Char} (one : Laid Space after first text)
    (other : Laid Space (endsInWord after first) second more) :
    Laid Space after (first ++ second) (text ++ more) := by
  induction one with
  | nil => exact other
  | cons spaced apart _ ih =>
    rw [List.append_assoc, List.append_assoc]
    exact .cons spaced apart (ih other)

theorem Laid.split (laid : Laid Space after (first ++ second) text) :
    ∃ one other, text = one ++ other ∧ Laid Space after first one ∧
      Laid Space (endsInWord after first) second other := by
  induction first generalizing after text with
  | nil => exact ⟨[], text, rfl, .nil, laid⟩
  | cons token rest ih =>
    cases laid with
    | cons spaced apart more =>
      obtain ⟨one, other, rfl, firstLaid, secondLaid⟩ := ih more
      refine ⟨_, other, ?_, .cons spaced apart firstLaid, secondLaid⟩
      simp only [List.append_assoc]

end Pieces

end SigningSchema.Source
