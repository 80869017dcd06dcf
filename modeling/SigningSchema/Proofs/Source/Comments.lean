import SigningSchema.Proofs.Source.Rewording

-- What the comments of a text are. A text is divided, in one way, into literals, comments and the
-- characters between them. Blanking out comments leaves everything else, and no comment.

namespace SigningSchema.Source

inductive Span where
  | code (c : Char)
  | literal (text : List Char)
  | comment (text : List Char)
  deriving DecidableEq, Repr

namespace Span

def text : Span → List Char
  | code c => [c]
  | literal text => text
  | comment text => text

def isComment : Span → Bool
  | comment _ => true
  | _ => false

-- What takes the place of a span where comments are blanked out.
def cleared : Span → List Span
  | code c => [code c]
  | literal text => [literal text]
  | comment text => (text.flatMap blanked).map code

end Span

def OpensComment (text : List Char) : Prop := ['/', '/'] <+: text ∨ ['/', '*'] <+: text

-- A literal that began before this text ends in it.
def Closes (quote : Char) (text : List Char) : Prop :=
  ∃ content rest, Enclosed quote content ∧ text = content ++ quote :: rest

-- What is not closed, a literal or a comment, reaches to the end of the text. The end of a line ends
-- a comment and is no part of it.
inductive Divided : List Char → List Span → Prop where
  | nil : Divided [] []
  | code {c : Char} {rest : List Char} {spans : List Span} (notQuote : isQuote c = false)
      (noComment : ¬ OpensComment (c :: rest)) (more : Divided rest spans) :
      Divided (c :: rest) (.code c :: spans)
  | literal {quote : Char} {content rest : List Char} {spans : List Span}
      (quoted : isQuote quote = true) (closed : Enclosed quote content) (more : Divided rest spans) :
      Divided (quote :: (content ++ quote :: rest)) (.literal (quote :: (content ++ [quote])) :: spans)
  | openLiteral {quote : Char} {text : List Char} (quoted : isQuote quote = true)
      (unclosed : ¬ Closes quote text) : Divided (quote :: text) [.literal (quote :: text)]
  | line {text rest : List Char} {spans : List Span} (oneLine : ∀ c ∈ text, c ≠ '\n')
      (ends : Stops (· ≠ '\n') rest) (more : Divided rest spans) :
      Divided ('/' :: '/' :: (text ++ rest)) (.comment ('/' :: '/' :: text) :: spans)
  | block {text rest : List Char} {spans : List Span} (inside : ¬ ['*', '/'] <:+: text)
      (more : Divided rest spans) :
      Divided ('/' :: '*' :: (text ++ '*' :: '/' :: rest))
        (.comment ('/' :: '*' :: (text ++ ['*', '/'])) :: spans)
  | openBlock {text : List Char} (inside : ¬ ['*', '/'] <:+: text) :
      Divided ('/' :: '*' :: text) [.comment ('/' :: '*' :: text)]

variable {c : Char} {text rest : List Char}

section Scanning

theorem opensComment_cons :
    OpensComment (c :: rest) ↔ c = '/' ∧ ∃ after, rest = '/' :: after ∨ rest = '*' :: after := by
  constructor
  · rintro (⟨after, same⟩ | ⟨after, same⟩)
    · exact ⟨(List.cons.inj same).1.symm, after, .inl (List.cons.inj same).2.symm⟩
    · exact ⟨(List.cons.inj same).1.symm, after, .inr (List.cons.inj same).2.symm⟩
  · rintro ⟨rfl, after, rfl | rfl⟩
    · exact .inl ⟨after, rfl⟩
    · exact .inr ⟨after, rfl⟩

theorem strip_code (noComment : ¬ OpensComment (c :: rest)) :
    strip .plain (c :: rest)
      = c :: strip (if isQuote c then .literal c else .plain) rest := by
  rw [strip_first]
  · rintro after rfl rfl
    exact noComment (.inl ⟨after, rfl⟩)
  · rintro after rfl rfl
    exact noComment (.inr ⟨after, rfl⟩)

-- What follows a slash begins as it did, so the slash still opens no comment.
theorem not_opensComment_strip (noComment : ¬ OpensComment (c :: rest)) :
    ¬ OpensComment (c :: strip .plain rest) := by
  rw [opensComment_cons] at noComment ⊢
  rintro ⟨rfl, after, same⟩
  cases rest with
  | nil => simp [strip] at same
  | cons d more =>
    have notHere : ¬ OpensComment (d :: more) := by
      rw [opensComment_cons]
      rintro ⟨rfl, _⟩
      exact noComment ⟨rfl, more, .inl rfl⟩
    rw [strip_code notHere] at same
    refine noComment ⟨rfl, more, same.imp (fun equal => ?_) (fun equal => ?_)⟩ <;>
      rw [(List.cons.inj equal).1]

theorem strip_unclosed {quote : Char} (unclosed : ¬ Closes quote text) :
    strip (.literal quote) text = text := by
  generalize mode : Mode.literal quote = state
  induction state, text using strip.induct with
  | case1 => rw [strip]
  | case5 opener c rest ih =>
    cases mode
    rw [strip, ih _ rfl]
    rintro ⟨content, more, closed, rfl⟩
    exact unclosed ⟨'\\' :: c :: content, more, .escape c closed, rfl⟩
  | case6 opener c rest notEscape ih =>
    cases mode
    have notQuote : c ≠ quote := by
      rintro rfl
      exact unclosed ⟨[], rest, .nil, rfl⟩
    rw [if_neg notQuote] at ih
    rw [strip, if_neg notQuote, ih _ rfl]
    · rintro ⟨content, more, closed, rfl⟩
      refine unclosed ⟨c :: content, more, .plain ?_ notQuote closed, rfl⟩
      rintro rfl
      cases content with
      | nil => exact notEscape _ _ rfl rfl
      | cons d others => exact notEscape _ _ rfl rfl
    · exact notEscape
  | case2 | case3 | case4 | case7 | case8 | case9 => cases mode

theorem strip_openBlock (inside : ¬ ['*', '/'] <:+: text) :
    strip .blockComment text = text.flatMap blanked := by
  induction text with
  | nil => rfl
  | cons c more ih =>
    have later : ¬ ['*', '/'] <:+: more :=
      fun found => inside (found.trans (List.suffix_cons _ _).isInfix)
    rw [strip, ih later, List.flatMap_cons]
    rintro after rfl rfl
    exact inside ⟨[], after, rfl⟩

end Scanning

section Division

variable {spans others : List Span}

theorem Divided.flatMap_text (divided : Divided text spans) : spans.flatMap Span.text = text := by
  induction divided with
  | nil => rfl
  | openLiteral | openBlock => simp [Span.text]
  | code _ _ _ ih | literal _ _ _ ih | line _ _ _ ih | block _ _ ih =>
    rw [List.flatMap_cons, ih]
    simp [Span.text]

theorem closing_or_open (text : List Char) :
    (∃ inside rest, ¬ ['*', '/'] <:+: inside ∧ text = inside ++ '*' :: '/' :: rest) ∨
      ¬ ['*', '/'] <:+: text := by
  induction text with
  | nil => exact .inr (by simp)
  | cons c more ih =>
    by_cases here : ['*', '/'] <+: c :: more
    · obtain ⟨rest, same⟩ := here
      exact .inl ⟨[], rest, by simp, same.symm⟩
    · rcases ih with ⟨inside, rest, unbroken, rfl⟩ | unbroken
      · refine .inl ⟨c :: inside, rest, fun found => ?_, rfl⟩
        rcases List.infix_cons_iff.mp found with first | later
        · exact here (first.trans (List.prefix_append (c :: inside) _))
        · exact unbroken later
      · refine .inr fun found => ?_
        rcases List.infix_cons_iff.mp found with first | later
        · exact here first
        · exact unbroken later

theorem line_split (text : List Char) : ∃ line rest, (∀ c ∈ line, c ≠ '\n') ∧
    Stops (· ≠ '\n') rest ∧ text = line ++ rest := by
  refine ⟨text.takeWhile (· ≠ '\n'), text.dropWhile (· ≠ '\n'), ?_, ?_,
    (List.takeWhile_append_dropWhile).symm⟩
  · intro c inside
    simpa using List.mem_takeWhile_imp inside
  · intro c rest same
    have stops := List.head?_dropWhile_not (fun c : Char => decide (c ≠ '\n')) text
    rw [same] at stops
    simpa using stops

-- By induction on the length: each span leaves a shorter text.
theorem exists_divided (text : List Char) : ∃ spans, Divided text spans := by
  generalize length : text.length = n
  induction n using Nat.strong_induction_on generalizing text with
  | _ n ih =>
    subst length
    have shorter : ∀ rest : List Char, rest.length < text.length → ∃ spans, Divided rest spans :=
      fun rest less => ih _ less rest rfl
    cases text with
    | nil => exact ⟨_, .nil⟩
    | cons c rest =>
      cases quoted : isQuote c with
      | true =>
        by_cases closes : Closes c rest
        · obtain ⟨content, more, closed, rfl⟩ := closes
          obtain ⟨spans, divided⟩ := shorter more (by simp; omega)
          exact ⟨_, .literal quoted closed divided⟩
        · exact ⟨_, .openLiteral quoted closes⟩
      | false =>
        by_cases opens : OpensComment (c :: rest)
        · obtain ⟨rfl, after, rfl | rfl⟩ := opensComment_cons.mp opens
          · obtain ⟨line, more, oneLine, ends, rfl⟩ := line_split after
            obtain ⟨spans, divided⟩ := shorter more (by simp; omega)
            exact ⟨_, .line oneLine ends divided⟩
          · rcases closing_or_open after with ⟨inside, more, unbroken, rfl⟩ | unbroken
            · obtain ⟨spans, divided⟩ := shorter more (by simp; omega)
              exact ⟨_, .block unbroken divided⟩
            · exact ⟨_, .openBlock unbroken⟩
        · obtain ⟨spans, divided⟩ := shorter rest (Nat.lt_succ_self _)
          exact ⟨_, .code quoted opens divided⟩

theorem Enclosed.unique {quote : Char} {content changed other : List Char} (notEscape : quote ≠ '\\')
    (closed : Enclosed quote content) (closedToo : Enclosed quote changed)
    (same : content ++ quote :: rest = changed ++ quote :: other) : content = changed ∧ rest = other := by
  induction closed generalizing changed with
  | nil =>
    cases closedToo with
    | nil => exact ⟨rfl, (List.cons.inj same).2⟩
    | escape c more => exact absurd (List.cons.inj same).1 notEscape
    | plain _ notQuote more => exact absurd (List.cons.inj same).1.symm notQuote
  | escape c more ih =>
    cases closedToo with
    | nil => exact absurd (List.cons.inj same).1.symm notEscape
    | escape d moreToo =>
      obtain ⟨rfl, later⟩ := List.cons.inj (List.cons.inj same).2
      obtain ⟨rfl, rfl⟩ := ih moreToo later
      exact ⟨rfl, rfl⟩
    | plain plain => exact absurd (List.cons.inj same).1.symm plain
  | plain plain notQuote more ih =>
    cases closedToo with
    | nil => exact absurd (List.cons.inj same).1 notQuote
    | escape d moreToo => exact absurd (List.cons.inj same).1 plain
    | plain _ _ moreToo =>
      obtain ⟨rfl, later⟩ := List.cons.inj same
      obtain ⟨rfl, rfl⟩ := ih moreToo later
      exact ⟨rfl, rfl⟩

theorem line_unique {line other more : List Char} (oneLine : ∀ c ∈ line, c ≠ '\n')
    (ends : Stops (· ≠ '\n') rest) (oneLineToo : ∀ c ∈ other, c ≠ '\n')
    (endsToo : Stops (· ≠ '\n') more) (same : line ++ rest = other ++ more) :
    line = other ∧ rest = more := by
  have taken := takeWhile_stops (fun c inside => decide_eq_true (oneLine c inside)) ends
  have left := dropWhile_stops (fun c inside => decide_eq_true (oneLine c inside)) ends
  rw [same] at taken left
  rw [takeWhile_stops (fun c inside => decide_eq_true (oneLineToo c inside)) endsToo] at taken
  rw [dropWhile_stops (fun c inside => decide_eq_true (oneLineToo c inside)) endsToo] at left
  exact ⟨taken.symm, left.symm⟩

-- The first place where the marks that end a block comment stand is the only one to end it.
theorem block_unique {inside other more : List Char} (unbroken : ¬ ['*', '/'] <:+: inside)
    (unbrokenToo : ¬ ['*', '/'] <:+: other)
    (same : inside ++ '*' :: '/' :: rest = other ++ '*' :: '/' :: more) :
    inside = other ∧ rest = more := by
  induction inside generalizing other with
  | nil =>
    cases other with
    | nil => exact ⟨rfl, by simpa using same⟩
    | cons c others =>
      cases others with
      | nil => simp at same
      | cons d others =>
        obtain ⟨rfl, rfl, _⟩ : '*' = c ∧ '/' = d ∧ _ := by simpa using same
        exact absurd ⟨[], others, rfl⟩ unbrokenToo
  | cons c inside ih =>
    cases other with
    | nil =>
      cases inside with
      | nil => simp at same
      | cons d inside =>
        obtain ⟨rfl, rfl, _⟩ : c = '*' ∧ d = '/' ∧ _ := by simpa using same
        exact absurd ⟨[], inside, rfl⟩ unbroken
    | cons d others =>
      obtain ⟨rfl, later⟩ := List.cons.inj same
      have shorter : ∀ {text : List Char}, ¬ ['*', '/'] <:+: c :: text → ¬ ['*', '/'] <:+: text :=
        fun unbroken found => unbroken (found.trans (List.suffix_cons _ _).isInfix)
      obtain ⟨rfl, rfl⟩ := ih (shorter unbroken) (shorter unbrokenToo) later
      exact ⟨rfl, rfl⟩

-- What a text begins with tells which span comes first.
theorem Divided.of_code (notQuote : isQuote c = false) (noComment : ¬ OpensComment (c :: rest))
    (divided : Divided (c :: rest) spans) :
    ∃ more, spans = .code c :: more ∧ Divided rest more := by
  cases divided with
  | code _ _ more => exact ⟨_, rfl, more⟩
  | literal quoted | openLiteral quoted =>
    rw [notQuote] at quoted
    cases quoted
  | line => exact absurd (opensComment_cons.mpr ⟨rfl, _, .inl rfl⟩) noComment
  | block | openBlock => exact absurd (opensComment_cons.mpr ⟨rfl, _, .inr rfl⟩) noComment

theorem Divided.of_quote {quote : Char} (quoted : isQuote quote = true)
    (divided : Divided (quote :: text) spans) :
    (∃ content rest more, Enclosed quote content ∧ text = content ++ quote :: rest ∧
      spans = .literal (quote :: (content ++ [quote])) :: more ∧ Divided rest more) ∨
      (¬ Closes quote text ∧ spans = [.literal (quote :: text)]) := by
  cases divided with
  | code notQuote =>
    rw [notQuote] at quoted
    cases quoted
  | literal _ closed more => exact .inl ⟨_, _, _, closed, rfl, rfl, more⟩
  | openLiteral _ unclosed => exact .inr ⟨unclosed, rfl⟩
  | line | block | openBlock => cases quoted

theorem Divided.of_line (divided : Divided ('/' :: '/' :: text) spans) :
    ∃ line rest more, (∀ c ∈ line, c ≠ '\n') ∧ Stops (· ≠ '\n') rest ∧ text = line ++ rest ∧
      spans = .comment ('/' :: '/' :: line) :: more ∧ Divided rest more := by
  generalize whole : '/' :: text = after at divided
  cases divided with
  | code _ noComment => exact absurd (.inl ⟨text, congrArg _ whole⟩) noComment
  | literal quoted | openLiteral quoted => cases quoted
  | line oneLine ends more => exact ⟨_, _, _, oneLine, ends, (List.cons.inj whole).2, rfl, more⟩
  | block | openBlock => cases whole

theorem Divided.of_block (divided : Divided ('/' :: '*' :: text) spans) :
    (∃ inside rest more, ¬ ['*', '/'] <:+: inside ∧ text = inside ++ '*' :: '/' :: rest ∧
      spans = .comment ('/' :: '*' :: (inside ++ ['*', '/'])) :: more ∧ Divided rest more) ∨
      (¬ ['*', '/'] <:+: text ∧ spans = [.comment ('/' :: '*' :: text)]) := by
  generalize whole : '*' :: text = after at divided
  cases divided with
  | code _ noComment => exact absurd (.inr ⟨text, congrArg _ whole⟩) noComment
  | literal quoted | openLiteral quoted => cases quoted
  | line => cases whole
  | block inside more => exact .inl ⟨_, _, _, inside, (List.cons.inj whole).2, rfl, more⟩
  | openBlock inside =>
    cases whole
    exact .inr ⟨inside, rfl⟩

-- Each kind of span by the one place where it can end.
theorem Divided.unique (divided : Divided text spans) (dividedToo : Divided text others) :
    spans = others := by
  induction divided generalizing others with
  | nil =>
    cases dividedToo
    rfl
  | code notQuote noComment _ ih =>
    obtain ⟨more, rfl, moreToo⟩ := dividedToo.of_code notQuote noComment
    rw [ih moreToo]
  | literal quoted closed _ ih =>
    rcases dividedToo.of_quote quoted with ⟨content, rest, more, closedToo, same, rfl, moreToo⟩ | ⟨unclosed, _⟩
    · obtain ⟨rfl, rfl⟩ := closed.unique (ne_of_class quoted rfl) closedToo same
      rw [ih moreToo]
    · exact absurd ⟨_, _, closed, rfl⟩ unclosed
  | openLiteral quoted unclosed =>
    rcases dividedToo.of_quote quoted with ⟨content, rest, _, closed, same, _, _⟩ | ⟨_, rfl⟩
    · exact absurd ⟨content, rest, closed, same⟩ unclosed
    · rfl
  | line oneLine ends _ ih =>
    obtain ⟨line, rest, more, oneLineToo, endsToo, same, rfl, moreToo⟩ := dividedToo.of_line
    obtain ⟨rfl, rfl⟩ := line_unique oneLine ends oneLineToo endsToo same
    rw [ih moreToo]
  | block inside _ ih =>
    rcases dividedToo.of_block with ⟨other, rest, more, insideToo, same, rfl, moreToo⟩ | ⟨unbroken, _⟩
    · obtain ⟨rfl, rfl⟩ := block_unique inside insideToo same
      rw [ih moreToo]
    · exact absurd ⟨_, _, List.append_assoc ..⟩ unbroken
  | openBlock unbroken =>
    rcases dividedToo.of_block with ⟨inside, rest, _, _, rfl, _, _⟩ | ⟨_, rfl⟩
    · exact absurd ⟨inside, rest, List.append_assoc ..⟩ unbroken
    · rfl

-- The rest of a text is divided as before, and each character of a comment is on its own.
theorem Divided.blank {blanks : List Char} {spans : List Span} (blank : Blank blanks)
    (divided : Divided rest spans) : Divided (blanks ++ rest) (blanks.map .code ++ spans) := by
  induction blanks with
  | nil => exact divided
  | cons c more ih =>
    obtain ⟨first, later⟩ := List.forall_mem_cons.mp blank
    refine .code (isQuote_of_class first rfl rfl) ?_ (ih later)
    intro opens
    exact ne_of_class first rfl (opensComment_cons.mp opens).1

theorem strip_line (oneLine : ∀ c ∈ text, c ≠ '\n') (ends : Stops (· ≠ '\n') rest) :
    strip .lineComment (text ++ rest) = text.flatMap blanked ++ strip .plain rest := by
  cases rest with
  | nil =>
    rw [List.append_nil, strip_lineComment_open oneLine, strip, List.append_nil]
  | cons c more =>
    obtain rfl : c = '\n' := by simpa using ends c more rfl
    rw [strip_lineComment oneLine, strip_plain (by decide) rfl]

theorem Divided.strip (divided : Divided text spans) :
    Divided (strip .plain text) (spans.flatMap Span.cleared) := by
  induction divided with
  | nil => exact .nil
  | @code c rest _ notQuote noComment _ ih =>
    have kept : Source.strip .plain (c :: rest) = c :: Source.strip .plain rest := by
      rw [strip_code noComment, notQuote, if_neg Bool.false_ne_true]
    rw [kept]
    exact .code notQuote (not_opensComment_strip noComment) ih
  | literal quoted closed _ ih =>
    rw [strip_quoted quoted closed]
    exact .literal quoted closed ih
  | @openLiteral quote text quoted unclosed =>
    have kept : Source.strip .plain (quote :: text) = quote :: text := by
      rw [strip_code fun opens => ne_of_class quoted rfl (opensComment_cons.mp opens).1, quoted,
        if_pos rfl, strip_unclosed unclosed]
    rw [kept]
    exact .openLiteral quoted unclosed
  | @line text rest _ oneLine ends _ ih =>
    rw [Source.strip, strip_line oneLine ends]
    exact ih.blank (blank_blanked ('/' :: '/' :: text))
  | @block text rest spans inside _ ih =>
    have blanks : ('/' :: '*' :: (text ++ ['*', '/'])).flatMap blanked
        = ' ' :: ' ' :: (text.flatMap blanked ++ [' ', ' ']) := by
      rw [List.flatMap_cons, List.flatMap_cons, List.flatMap_append]
      rfl
    have divided := ih.blank (blank_blanked ('/' :: '*' :: (text ++ ['*', '/'])))
    rw [Source.strip, strip_blockComment inside, List.flatMap_cons, Span.cleared, blanks]
    rw [blanks] at divided
    simpa using divided
  | @openBlock text inside =>
    have divided := Divided.nil.blank (blank_blanked ('/' :: '*' :: text))
    rw [List.append_nil, List.append_nil] at divided
    rw [Source.strip, strip_openBlock inside, List.flatMap_singleton]
    exact divided

theorem isComment_cleared : ∀ span ∈ spans.flatMap Span.cleared, span.isComment = false := by
  intro span inside
  obtain ⟨before, _, made⟩ := List.mem_flatMap.mp inside
  cases before with
  | code | literal =>
    obtain rfl := List.mem_singleton.mp made
    rfl
  | comment text =>
    obtain ⟨c, _, rfl⟩ := List.mem_map.mp made
    rfl

theorem flatMap_cleared (plain : ∀ span ∈ spans, span.isComment = false) :
    spans.flatMap Span.cleared = spans := by
  induction spans with
  | nil => rfl
  | cons span more ih =>
    obtain ⟨first, later⟩ := List.forall_mem_cons.mp plain
    rw [List.flatMap_cons, ih later]
    cases span with
    | code | literal => rfl
    | comment => cases first

end Division

theorem stripComments_stripComments (text : List Char) :
    stripComments (stripComments text) = stripComments text := by
  obtain ⟨spans, divided⟩ := exists_divided text
  have again := divided.strip.strip
  rw [flatMap_cleared isComment_cleared] at again
  rw [stripComments, stripComments, ← again.flatMap_text, divided.strip.flatMap_text]

end SigningSchema.Source
