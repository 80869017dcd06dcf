import SigningSchema.Proofs.Source.Openings

-- Headers of blocks and remote calls are openings: a keyword, a name and a mark, with conditions on
-- the name or on what follows.

namespace SigningSchema.Source

open Unicode (isBlank isWord)

theorem isWord_of_ascii {c : Char} (ascii : (c.isAlphanum || c = '_') = true) : isWord c = true := by
  have small : c.toNat < 0x80 := by
    rw [Bool.or_eq_true, decide_eq_true_eq] at ascii
    rcases ascii with ascii | rfl
    · delta Char.isAlphanum Char.isAlpha Char.isUpper Char.isLower Char.isDigit at ascii
      simp only [Bool.or_eq_true, Bool.and_eq_true, decide_eq_true_eq, UInt32.le_iff_toNat_le,
        ge_iff_le] at ascii
      simp only [Char.toNat]
      have : ('Z' : Char).val.toNat = 90 := rfl
      have : ('z' : Char).val.toNat = 122 := rfl
      have : ('9' : Char).val.toNat = 57 := rfl
      omega
    · decide
  rw [isWord, if_pos small]
  exact ascii

theorem isWord_of_beginsName {c : Char} (begins : beginsName c = true) : isWord c = true := by
  apply isWord_of_ascii
  rw [beginsName, Bool.or_eq_true] at begins
  rw [Char.isAlphanum, Bool.or_eq_true, Bool.or_eq_true]
  exact begins.imp_left .inl

-- The name of a header begins as names do.
def named? (found : List Char × List Char) : Option (List Char × List Char) :=
  if found.1.head?.any beginsName then some found else none

theorem name?_row (text : List Char) : name? isWord text = (row? isWord text).bind named? := by
  cases text with
  | nil => rfl
  | cons c rest =>
    rw [name?, row?]
    cases word : isWord c with
    | false =>
      have notName : beginsName c = false := by
        cases begins : beginsName c with
        | false => rfl
        | true => rw [isWord_of_beginsName begins] at word; cases word
      rw [if_neg (by simp [notName]), List.takeWhile_cons_of_neg (by simp [word])]
      rfl
    | true =>
      rw [List.takeWhile_cons_of_pos word, List.dropWhile_cons_of_pos word]
      rfl

theorem brace_reads (name rest : List Char) :
    (match skipBlanks rest with
      | '{' :: body => some (name, body)
      | _ => none) = (pastMark? '{' rest).map fun body => (name, body) := by
  rw [pastMark?]
  split
  · rename_i body same
    rw [same]
    rfl
  · rename_i other
    cases same : skipBlanks rest with
    | nil => rfl
    | cons c body =>
      have differs : ¬ c = '{' := fun brace => other body (brace ▸ same)
      simp only [if_neg differs, Option.map_none]

theorem header?_reads (keyword : String) (text : List Char) :
    header? keyword text = (opening? keyword '{' text).bind named? := by
  rw [header?, opening?]
  cases word? keyword text with
  | none => rfl
  | some rest =>
    simp only [Option.bind_eq_bind, Option.bind_some]
    cases blanks? rest with
    | none => rfl
    | some rest =>
      simp only [Option.bind_some, marked?, name?_row]
      cases row? isWord rest with
      | none => rfl
      | some read =>
        obtain ⟨name, rest⟩ := read
        simp only [Option.bind_some, named?]
        cases begins : name.head?.any beginsName with
        | false => cases pastMark? '{' rest <;> simp [named?, begins]
        | true =>
          rw [if_pos rfl, Option.bind_some]
          refine (brace_reads name rest).trans ?_
          cases pastMark? '{' rest <;> simp [named?, begins]

-- The type in the parentheses of a parameter, and what follows them.
def plainType? (text : List Char) : Option (List Char × List Char) :=
  (row? isDotted text).bind fun read => (pastMark? ')' read.2).map fun rest => (read.1, rest)

def typeIn? (text : List Char) : Option (List Char × List Char) :=
  (((word? "stream" text).bind blanks?).bind plainType?).or (plainType? text)

theorem mark?_past (mark : Char) (text : List Char) :
    mark? mark text = (pastMark? mark text).map skipBlanks := by
  rw [mark?, pastMark?]
  cases skipBlanks text with
  | nil => rfl
  | cons c rest => by_cases here : c = mark <;> simp [here]

theorem parenthesis_reads (name rest : List Char) :
    (match skipBlanks rest with
      | ')' :: more => some (name, more)
      | _ => none) = (pastMark? ')' rest).map fun more => (name, more) := by
  rw [pastMark?]
  split
  · rename_i body same
    rw [same]
    rfl
  · rename_i other
    cases same : skipBlanks rest with
    | nil => rfl
    | cons c body =>
      have differs : ¬ c = ')' := fun brace => other body (brace ▸ same)
      simp only [if_neg differs, Option.map_none]

theorem parameter?_reads (text : List Char) : parameter? text = (mark? '(' text).bind typeIn? := by
  have plain : ∀ text, ((row? isDotted text).bind fun read =>
      match skipBlanks read.2 with
      | ')' :: rest => some (read.1, rest)
      | _ => none) = plainType? text :=
    fun text => congrArg _ (funext fun read => parenthesis_reads read.1 read.2)
  rw [parameter?]
  refine congrArg _ (funext fun rest => ?_)
  rw [typeIn?, ← funext plain, Option.bind_assoc]
  rfl

-- What a remote call says after its opening parenthesis.
def requestIn? (text : List Char) : Option (List Char) := do
  let (name, rest) ← typeIn? (skipBlanks text)
  let rest ← word? "returns" (skipBlanks rest)
  let _ ← parameter? rest
  return name

theorem request?_reads (text : List Char) :
    request? text = (opening? "rpc" '(' text).bind fun found => requestIn? found.2 := by
  rw [request?, opening?]
  cases word? "rpc" text with
  | none => rfl
  | some rest =>
    simp only [Option.bind_eq_bind, Option.bind_some]
    cases blanks? rest with
    | none => rfl
    | some rest =>
      simp only [Option.bind_some, marked?]
      cases row? isWord rest with
      | none => rfl
      | some read =>
        simp only [Option.bind_some, parameter?_reads, mark?_past]
        cases pastMark? '(' read.2 with
        | none => rfl
        | some rest =>
          simp only [Option.map_some, Option.bind_some, requestIn?, parameter?_reads, mark?_past]
          rfl

-- No reader goes beyond a quote: what it reads before one does not depend on what comes then.
section Quotes

variable {quote : Char} (quoted : isQuote quote = true) (rest : List Char)

theorem takeWhile_before {accepts : Char → Bool} (refused : accepts quote = false)
    (text : List Char) : (text ++ quote :: rest).takeWhile accepts = text.takeWhile accepts := by
  induction text with
  | nil => simp [refused]
  | cons c more ih => cases here : accepts c <;> simp [here, ih]

theorem dropWhile_before {accepts : Char → Bool} (refused : accepts quote = false)
    (text : List Char) :
    (text ++ quote :: rest).dropWhile accepts = text.dropWhile accepts ++ quote :: rest := by
  induction text with
  | nil => simp [refused]
  | cons c more ih => cases here : accepts c <;> simp [here, ih]

theorem row?_before {accepts : Char → Bool} (refused : accepts quote = false) (text : List Char) :
    row? accepts (text ++ quote :: rest)
      = (row? accepts text).map fun read => (read.1, read.2 ++ quote :: rest) := by
  rw [row?, row?, takeWhile_before rest refused, dropWhile_before rest refused]
  split <;> rfl

include quoted

theorem skipBlanks_before (text : List Char) :
    skipBlanks (text ++ quote :: rest) = skipBlanks text ++ quote :: rest :=
  dropWhile_before rest (isQuote_notBlank quoted) text

theorem blanks?_before (text : List Char) :
    blanks? (text ++ quote :: rest) = (blanks? text).map (· ++ quote :: rest) := by
  cases text with
  | nil => simp [blanks?, isQuote_notBlank quoted]
  | cons c more =>
    rw [List.cons_append, blanks?, blanks?, skipBlanks_before quoted]
    split <;> rfl

theorem word?_before {word : String} (letters : word.toList.all isWord = true)
    (text : List Char) :
    word? word (text ++ quote :: rest) = (word? word text).map (· ++ quote :: rest) := by
  cases read : word? word text with
  | some after =>
    rw [word?_some read, List.append_assoc, word?_append]
    rfl
  | none =>
    cases further : word? word (text ++ quote :: rest) with
    | none => rfl
    | some after =>
      rcases List.append_eq_append_iff.mp (word?_some further) with ⟨more, same, tail⟩ | ⟨more, same, _⟩
      · cases more with
        | nil =>
          rw [List.append_nil] at same
          rw [← same, ← List.append_nil word.toList, word?_append] at read
          cases read
        | cons c others =>
          cases tail
          have letter := List.all_eq_true.mp letters quote (by rw [same]; simp)
          rw [isQuote_notWord quoted] at letter
          cases letter
      · rw [same, word?_append] at read
        cases read

theorem pastMark?_before {mark : Char} (differs : quote ≠ mark) (text : List Char) :
    pastMark? mark (text ++ quote :: rest) = (pastMark? mark text).map (· ++ quote :: rest) := by
  rw [pastMark?, pastMark?, skipBlanks_before quoted]
  cases skipBlanks text with
  | nil => exact if_neg differs
  | cons c more =>
    rw [List.cons_append]
    simp only
    split <;> rfl

theorem opening?_before {keyword : String} (known : IsKeyword keyword) {mark : Char}
    (opens : Opens mark) (text : List Char) :
    opening? keyword mark (text ++ quote :: rest)
      = (opening? keyword mark text).map fun found => (found.1, found.2 ++ quote :: rest) := by
  have differs : quote ≠ mark := ne_of_class quoted opens.notQuote
  rw [opening?, opening?, word?_before quoted rest known.letters]
  cases word? keyword text with
  | none => rfl
  | some after =>
    rw [Option.map_some, Option.bind_some, Option.bind_some, blanks?_before quoted]
    cases blanks? after with
    | none => rfl
    | some after =>
      rw [Option.map_some, Option.bind_some, Option.bind_some, marked?, marked?,
        row?_before rest (isQuote_notWord quoted)]
      cases row? isWord after with
      | none => rfl
      | some read =>
        rw [Option.map_some, Option.bind_some, Option.bind_some, pastMark?_before quoted rest differs]
        cases pastMark? mark read.2 <;> rfl

theorem plainType?_before (text : List Char) :
    plainType? (text ++ quote :: rest)
      = (plainType? text).map fun read => (read.1, read.2 ++ quote :: rest) := by
  have differs : quote ≠ ')' := ne_of_class quoted rfl
  rw [plainType?, plainType?, row?_before rest (isQuote_notDotted quoted)]
  cases row? isDotted text with
  | none => rfl
  | some read =>
    rw [Option.map_some, Option.bind_some, Option.bind_some, pastMark?_before quoted rest differs]
    cases pastMark? ')' read.2 <;> rfl

theorem typeIn?_before (text : List Char) :
    typeIn? (text ++ quote :: rest)
      = (typeIn? text).map fun read => (read.1, read.2 ++ quote :: rest) := by
  rw [typeIn?, typeIn?, word?_before quoted rest (by decide), plainType?_before quoted]
  cases word? "stream" text with
  | none => rfl
  | some after =>
    rw [Option.map_some, Option.bind_some, Option.bind_some, blanks?_before quoted]
    cases blanks? after with
    | none => rfl
    | some after =>
      rw [Option.map_some, Option.bind_some, Option.bind_some, plainType?_before quoted]
      cases plainType? after <;> rfl

theorem requestIn?_before (text : List Char) :
    requestIn? (text ++ quote :: rest) = requestIn? text := by
  have differs : quote ≠ '(' := ne_of_class quoted rfl
  rw [requestIn?, requestIn?, skipBlanks_before quoted, typeIn?_before quoted]
  cases typeIn? (skipBlanks text) with
  | none => rfl
  | some read =>
    simp only [Option.map_some, Option.bind_eq_bind, Option.bind_some]
    rw [skipBlanks_before quoted, word?_before quoted rest (by decide)]
    cases word? "returns" (skipBlanks read.2) with
    | none => rfl
    | some after =>
      simp only [Option.map_some, Option.bind_some, parameter?_reads, mark?_past]
      rw [pastMark?_before quoted rest differs]
      cases pastMark? '(' after with
      | none => rfl
      | some after =>
        simp only [Option.map_some, Option.bind_some]
        rw [skipBlanks_before quoted, typeIn?_before quoted]
        cases typeIn? (skipBlanks after) <;> rfl

end Quotes

end SigningSchema.Source
