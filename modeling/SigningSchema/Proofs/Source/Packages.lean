import SigningSchema.Proofs.Source.Declarations

-- The package statement is found: it starts its line, and nothing before it has two words right
-- before a semicolon.

namespace SigningSchema.Source

open Unicode (isBlank isWord)

-- What a package statement says after its keyword.
def packageIn? (text : List Char) : Option (List Char) :=
  (name? isDotted text).bind fun read => (mark? ';' read.2).bind fun _ => some read.1

theorem packageAt?_label (text : List Char) :
    packageAt? text = (label? "package" (skipBlanks text)).bind packageIn? := by
  rw [packageAt?, label?]
  cases word? "package" (skipBlanks text) <;> rfl

section Reading

variable {tokens : List Token} {text tail : List Char}

theorem packageAt?_read (name : DottedName) {blanks rest : List Char} {following : List Token}
    (blank : Blank blanks)
    (laid : Laid Blank true (.word name.word :: .mark .semicolon :: following) rest)
    (tail : List Char) :
    packageAt? (blanks ++ (Word.package.text ++ (rest ++ tail))) = some name.word.text := by
  obtain ⟨between, named, rfl, blankBetween, given, laid⟩ := laid.takeWord
  obtain ⟨gap, more, rfl, blankGap, _⟩ := laid.takeMark
  have labelled : ∀ more, label? "package" (Word.package.text ++ (between ++ (name.word.text ++ more)))
      = some (name.word.text ++ more) :=
    fun more => label?_blank "package" (given rfl) blankBetween (name.word.notBlank more)
  have stops : Stops isDotted (gap ++ Mark.semicolon.char :: (more ++ tail)) :=
    stops_gap blankGap (fun _ => isDotted_of_isBlank) Mark.semicolon.notDotted _
  rw [packageAt?_label, skipBlanks_word blank]
  simp only [List.append_assoc, List.cons_append]
  rw [labelled, Option.bind_some, packageIn?, name.read stops, Option.bind_some,
    show (';' : Char) = Mark.semicolon.char from rfl, mark?_gap blankGap]
  rfl

theorem name?_cases (word : Word) {rest : List Char} (stops : Stops isDotted rest) :
    name? isDotted (word.text ++ rest) = none ∨
      name? isDotted (word.text ++ rest) = some (word.text, rest) := by
  cases begins : word.text.head?.any beginsName with
  | true => exact .inr (name?_named word.dotted begins stops)
  | false =>
    refine .inl ?_
    cases text : word.text with
    | nil => exact absurd text word.given
    | cons c more =>
      rw [text] at begins
      rw [List.cons_append, name?, if_neg (by simpa using begins)]

theorem Token.label?_none {token : Token} (other : token.isWord = false) (rest : List Char) :
    label? "package" (token.text ++ rest) = none :=
  label?_stops (by decide) (by decide) (text_notWord other rest)

theorem Token.name?_none {token : Token} (other : token.isWord = false) (rest : List Char) :
    name? isDotted (token.text ++ rest) = none := by
  have stops := text_notWord other rest
  cases text : token.text ++ rest with
  | nil => rfl
  | cons c more =>
    have notName : beginsName c = false := by
      cases begins : beginsName c with
      | false => rfl
      | true => rw [← stops c more text, isWord_of_beginsName begins]
    rw [name?, notName, if_neg Bool.false_ne_true]

theorem packageIn?_none {first : Word} {token : Token} (laid : Laid Blank token.isWord tokens text)
    (ends : Blank tail) (none : pairAt? ';' (.word first :: token :: tokens) = none) :
    packageIn? (token.text ++ (text ++ tail)) = Option.none := by
  cases token with
  | mark mark =>
    rw [packageIn?, (Token.mark mark).name?_none rfl]
    rfl
  | literal literal =>
    rw [packageIn?, (Token.literal literal).name?_none rfl]
    rfl
  | word name =>
    rcases name?_cases name (laid.stopsDotted ends) with unnamed | named
    · rw [packageIn?, Token.text, unnamed]
      rfl
    · have opens : Opens ';' := ⟨rfl, rfl⟩
      have past := pastMark?_laid opens laid ends
      rw [pairAt?, Option.map_eq_none_iff] at none
      rw [none] at past
      rw [packageIn?, Token.text, named, Option.bind_some, mark?_past, past]
      rfl

theorem packageIn?_blanks {first : Word} (laid : Laid Blank true tokens text) (ends : Blank tail)
    (none : pairAt? ';' (.word first :: tokens) = none) :
    (blanks? (text ++ tail)).bind packageIn? = Option.none := by
  cases laid with
  | nil =>
    by_cases given : tail = []
    · rw [given]
      rfl
    · have nothing := blanks?_blank given ends []
      rw [List.append_nil] at nothing
      rw [List.nil_append, nothing]
      rfl
  | @cons _ token others gap more blank _ laid =>
    rw [List.append_assoc, List.append_assoc]
    by_cases given : gap = []
    · rw [given, List.nil_append, blanks?_stops (token.text_notBlank _)]
      rfl
    · rw [blanks?_blank given blank, skipBlanks_stops (token.text_notBlank _), Option.bind_some,
        packageIn?_none laid ends none]

-- Whoever declares a package writes two words and a semicolon.
theorem packageAt?_none (laid : Laid Blank false tokens text) (ends : Blank tail)
    (none : pairAt? ';' tokens = none) : packageAt? (text ++ tail) = Option.none := by
  rw [packageAt?_label]
  cases laid with
  | nil =>
    rw [List.nil_append, skipBlanks_all ends]
    rfl
  | @cons _ token others gap more blank _ laid =>
    rw [List.append_assoc, List.append_assoc, skipBlanks_token blank]
    cases token with
    | mark mark => rw [(Token.mark mark).label?_none rfl]; rfl
    | literal literal => rw [(Token.literal literal).label?_none rfl]; rfl
    | word first =>
      rw [Token.text]
      rcases label?_cases "package" (by decide) first (laid.stops ends) with other | labelled
      · rw [other]
        rfl
      · rw [labelled, packageIn?_blanks laid ends none]

end Reading

-- Through blanks: a line may begin anywhere in them.
theorem packageFrom?_line {blanks rest package : List Char} (blank : Blank blanks) (given : rest ≠ [])
    (read : ∀ blanks, Blank blanks → packageAt? (blanks ++ rest) = some package) {lineStart : Bool}
    (line : lineStart = true ∨ '\n' ∈ blanks) :
    packageFrom? lineStart (blanks ++ rest) = some package := by
  induction blanks generalizing lineStart with
  | nil =>
    have here := read [] .nil
    rw [List.nil_append] at here ⊢
    cases rest with
    | nil => exact absurd rfl given
    | cons c more =>
      rw [line.resolve_right (List.not_mem_nil), packageFrom?, if_pos rfl, here]
      rfl
  | cons c more ih =>
    obtain ⟨_, later⟩ := List.forall_mem_cons.mp blank
    cases lineStart with
    | true =>
      rw [List.cons_append, packageFrom?, if_pos rfl, ← List.cons_append, read (c :: more) blank]
      rfl
    | false =>
      rw [List.cons_append, packageFrom?, if_neg Bool.false_ne_true, Option.none_or]
      refine ih later ?_
      rcases List.mem_cons.mp (line.resolve_left Bool.false_ne_true) with rfl | inside
      · exact .inl rfl
      · exact .inr inside

theorem packageFrom?_blanks {blanks rest : List Char} (blank : Blank blanks)
    (none : ∀ blanks, Blank blanks → packageAt? (blanks ++ rest) = none) (lineStart : Bool) :
    ∃ still, packageFrom? lineStart (blanks ++ rest) = packageFrom? still rest := by
  induction blanks generalizing lineStart with
  | nil => exact ⟨lineStart, rfl⟩
  | cons c more ih =>
    obtain ⟨_, later⟩ := List.forall_mem_cons.mp blank
    obtain ⟨still, passed⟩ := ih later (c = '\n')
    refine ⟨still, ?_⟩
    rw [List.cons_append, packageFrom?, passed, ← List.cons_append, none (c :: more) blank, ite_self,
      Option.none_or]

theorem packageFrom?_inside {text : List Char} (oneLine : '\n' ∉ text) (rest : List Char) :
    packageFrom? false (text ++ rest) = packageFrom? false rest := by
  induction text with
  | nil => rfl
  | cons c more ih =>
    rw [List.mem_cons, not_or] at oneLine
    rw [List.cons_append, packageFrom?, if_neg Bool.false_ne_true, Option.none_or,
      decide_eq_false (Ne.symm oneLine.1), ih oneLine.2]

theorem packageFrom?_token {token : Token} (oneLine : '\n' ∉ token.text) {rest : List Char}
    (none : packageAt? (token.text ++ rest) = none) (lineStart : Bool) :
    packageFrom? lineStart (token.text ++ rest) = packageFrom? false rest := by
  cases text : token.text with
  | nil => exact absurd text token.text_ne_nil
  | cons c more =>
    rw [text] at oneLine none
    rw [List.mem_cons, not_or] at oneLine
    rw [List.cons_append] at none ⊢
    rw [packageFrom?, none, ite_self, Option.none_or, decide_eq_false (Ne.symm oneLine.1),
      packageFrom?_inside oneLine.2]

theorem pairs_suffix (c : Char) (tokens rest : List Token) :
    pairs c rest <:+ pairs c (tokens ++ rest) := by
  induction tokens with
  | nil => exact List.suffix_rfl
  | cons token more ih => exact ih.trans (List.suffix_append _ _)

-- Tokens that add no pair have none at their beginning.
theorem pairAt?_of_pairs {c : Char} {token : Token} {tokens rest : List Token}
    (same : pairs c (token :: tokens ++ rest) = pairs c rest) :
    pairAt? c (token :: (tokens ++ rest)) = none ∧ pairs c (tokens ++ rest) = pairs c rest := by
  rw [List.cons_append, pairs] at same
  have longer := (pairs_suffix c tokens rest).length_le
  have length := congrArg List.length same
  rw [List.length_append] at length
  cases here : pairAt? c (token :: (tokens ++ rest)) with
  | none =>
    rw [here] at same
    exact ⟨rfl, same⟩
  | some pair =>
    rw [here, Option.toList_some, List.length_singleton] at length
    omega

-- By induction on the layout: nothing is found in front of a part that declares no package.
theorem packageFrom?_past {after : Bool} {tokens more : List Token} {text rest tail : List Char}
    (laid : Laid Blank after tokens text) (following : Laid Blank (endsInWord after tokens) more rest)
    (ends : Blank tail) (same : pairs ';' (tokens ++ more) = pairs ';' more)
    (oneLine : ∀ token ∈ tokens, '\n' ∉ token.text) (lineStart : Bool) :
    packageFrom? lineStart (text ++ (rest ++ tail))
      = packageFrom? (lineStart && tokens.isEmpty) (rest ++ tail) := by
  induction laid generalizing lineStart with
  | nil => rw [List.nil_append, List.isEmpty_nil, Bool.and_true]
  | @cons _ token others gap text blank _ laid ih =>
    obtain ⟨single, remaining⟩ := List.forall_mem_cons.mp oneLine
    obtain ⟨nothing, later⟩ := pairAt?_of_pairs same
    have none : ∀ blanks, Blank blanks →
        packageAt? (blanks ++ (token.text ++ (text ++ (rest ++ tail)))) = none := by
      intro blanks blank
      have whole : Laid Blank false (token :: (others ++ more)) (blanks ++ (token.text ++ (text ++ rest))) :=
        .cons blank (fun word => nomatch word) (laid.append following)
      have unread := packageAt?_none whole ends nothing
      simpa only [List.append_assoc] using unread
    obtain ⟨still, passed⟩ := packageFrom?_blanks blank none lineStart
    have here := none [] .nil
    rw [List.nil_append] at here
    rw [List.append_assoc, List.append_assoc, passed, packageFrom?_token single here,
      ih following later remaining]
    rw [List.isEmpty_cons, Bool.and_false, Bool.false_and]

end SigningSchema.Source
