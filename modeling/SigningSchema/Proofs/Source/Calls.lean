import SigningSchema.Proofs.Source.Clauses

-- Reading remote calls: the type of the request, with or without `stream`, and that an answer
-- follows.

namespace SigningSchema.Source

open Unicode (isBlank isWord)

section Arguments

variable {tokens : List Token} {text : List Char}

theorem plainType?_read (type : TypeName) {blanks : List Char} (blank : Blank blanks) (rest : List Char) :
    plainType? (type.word.text ++ (blanks ++ Mark.closeParen.char :: rest))
      = some (type.word.text, rest) := by
  have stops : Stops isDotted (blanks ++ Mark.closeParen.char :: rest) :=
    stops_gap blank (fun _ => isDotted_of_isBlank) rfl rest
  rw [plainType?, row?_stops type.word.given type.word.dotted stops, Option.bind_some,
    show (')' : Char) = Mark.closeParen.char from rfl, pastMark?_gap blank]
  rfl

theorem plainType?_close (rest : List Char) : plainType? (Mark.closeParen.char :: rest) = none := by
  rw [plainType?, row?, List.takeWhile_cons_of_neg (by decide)]
  rfl

theorem typeIn?_label (text : List Char) :
    typeIn? text = ((label? "stream" text).bind plainType?).or (plainType? text) := rfl

-- A type called `stream` is no label, since no other type follows it.
theorem typeIn?_plain (type : TypeName) {blanks : List Char} (blank : Blank blanks) (rest : List Char) :
    typeIn? (type.word.text ++ (blanks ++ Mark.closeParen.char :: rest))
      = some (type.word.text, rest) := by
  have unlabelled : (label? "stream" (type.word.text ++ (blanks ++ Mark.closeParen.char :: rest))).bind
      plainType? = none := by
    rcases label?_mark "stream" (by decide) type.word blank rest with other | labelled
    · rw [other, Option.bind_none]
    · rw [labelled, Option.bind_some, plainType?_close]
  rw [typeIn?_label, unlabelled, Option.none_or, plainType?_read type blank rest]

theorem typeIn?_read {streams : Bool} {type : TypeName}
    (laid : Laid Blank false (argument streams type ++ tokens) text) :
    ∃ rest, Laid Blank false tokens rest ∧
      ∀ tail, typeIn? (skipBlanks (text ++ tail)) = some (type.word.text, rest ++ tail) := by
  cases streams with
  | false =>
    obtain ⟨before, typed, rfl, blank, _, laid⟩ := laid.takeWord
    obtain ⟨gap, rest, rfl, blankGap, laid⟩ := laid.takeMark
    refine ⟨rest, laid, fun tail => ?_⟩
    simp only [List.append_assoc, List.cons_append]
    rw [skipBlanks_word blank, typeIn?_plain type blankGap]
  | true =>
    obtain ⟨before, streamed, rfl, blank, _, laid⟩ := laid.takeWord
    obtain ⟨between, typed, rfl, blankBetween, given, laid⟩ := laid.takeWord
    obtain ⟨gap, rest, rfl, blankGap, laid⟩ := laid.takeMark
    refine ⟨rest, laid, fun tail => ?_⟩
    have labelled : ∀ more, label? "stream" (Word.stream.text ++ (between ++ (type.word.text ++ more)))
        = some (type.word.text ++ more) :=
      fun more => label?_blank "stream" (given rfl) blankBetween (type.word.notBlank more)
    simp only [List.append_assoc, List.cons_append]
    rw [skipBlanks_word blank, typeIn?_label, labelled, Option.bind_some,
      plainType?_read type blankGap, Option.some_or]

end Arguments

theorem Call.read (call : Call) {following : List Token} {text : List Char}
    (laid : Laid Blank false (call.inside ++ following) text) (tail : List Char) :
    requestIn? (text ++ tail) = some call.request.word.text := by
  rw [Call.inside, List.append_assoc, List.cons_append, List.cons_append] at laid
  obtain ⟨answered, laid, request⟩ := typeIn?_read laid
  obtain ⟨before, opened, rfl, blank, _, laid⟩ := laid.takeWord
  obtain ⟨gap, inner, rfl, blankGap, laid⟩ := laid.takeMark
  obtain ⟨rest, _, response⟩ := typeIn?_read laid
  have returns : ∀ more, word? "returns" (Word.returns.text ++ more) = some more := word?_append "returns"
  rw [requestIn?, request]
  simp only [Option.bind_eq_bind, Option.bind_some, List.append_assoc, List.cons_append]
  rw [skipBlanks_word blank, returns, Option.bind_some, parameter?_reads,
    show ('(' : Char) = Mark.openParen.char from rfl, mark?_gap blankGap, Option.bind_some, response]
  rfl

end SigningSchema.Source
