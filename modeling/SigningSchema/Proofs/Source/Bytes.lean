import SigningSchema.Proofs.Source.Comments
import SigningSchema.Proofs.Wire.Primitive

-- Comments in the bytes of a text. Marks that a scan looks for are of ASCII, so a scan of the bytes
-- stops where a scan of the characters does, and what it leaves are the bytes of a text.

namespace SigningSchema.Source

open String (utf8EncodeChar)

def blankByte (b : UInt8) : UInt8 := if b = 10 then b else 32

-- A scan of bytes: a slash is 47, a star 42, a backslash 92, the quotes are 34 and 39. A backslash in a
-- literal takes one byte with it.
def stripBytes : Mode → List UInt8 → List UInt8
  | _, [] => []
  | .plain, 47 :: 47 :: rest => 32 :: 32 :: stripBytes .lineComment rest
  | .plain, 47 :: 42 :: rest => 32 :: 32 :: stripBytes .blockComment rest
  | .plain, b :: rest => b :: stripBytes
      (if b = 34 then .literal '"' else if b = 39 then .literal '\'' else .plain) rest
  | .literal quote, 92 :: b :: rest => 92 :: b :: stripBytes (.literal quote) rest
  | .literal quote, b :: rest =>
    b :: stripBytes (if b = quote.toUInt8 then .plain else .literal quote) rest
  | .lineComment, b :: rest => blankByte b :: stripBytes (if b = 10 then .plain else .lineComment) rest
  | .blockComment, 42 :: 47 :: rest => 32 :: 32 :: stripBytes .plain rest
  | .blockComment, b :: rest => blankByte b :: stripBytes .blockComment rest

variable {c d quote : Char} {b : UInt8} {bytes rest : List UInt8}

theorem utf8EncodeChar_ascii (ascii : c.toNat < 128) : utf8EncodeChar c = [c.toUInt8] :=
  if_pos (Nat.le_of_lt_succ ascii)

theorem utf8EncodeChar_wide (wide : ¬ c.toNat < 128) : ∀ b ∈ utf8EncodeChar c, 128 ≤ b := by
  have notAscii : ¬ c.val.toNat ≤ 127 := fun less => wide (Nat.lt_succ_of_le less)
  simp only [utf8EncodeChar, if_neg notAscii]
  split
  · simp [UInt8.le_iff_toNat_le]
    omega
  · split <;> simp [UInt8.le_iff_toNat_le] <;> omega

theorem toNat_toUInt8 (ascii : c.toNat < 128) : c.toUInt8.toNat = c.toNat := by
  rw [Char.toUInt8, UInt32.toNat_toUInt8]
  exact Nat.mod_eq_of_lt (Nat.lt_trans ascii (by decide))

-- A byte of a mark of ASCII stands in no other character.
theorem toUInt8_notMem (ascii : d.toNat < 128) (other : c ≠ d) : d.toUInt8 ∉ utf8EncodeChar c := by
  intro inside
  by_cases asciiToo : c.toNat < 128
  · rw [utf8EncodeChar_ascii asciiToo, List.mem_singleton] at inside
    apply other
    apply Char.toNat_inj.mp
    rw [← toNat_toUInt8 asciiToo, ← inside, toNat_toUInt8 ascii]
  · have large := UInt8.le_iff_toNat_le.mp (utf8EncodeChar_wide asciiToo _ inside)
    rw [toNat_toUInt8 ascii] at large
    exact absurd ascii (Nat.not_lt.mpr large)

theorem stripBytes_first (notLine : ∀ more, b = 47 → rest = 47 :: more → False)
    (notBlock : ∀ more, b = 47 → rest = 42 :: more → False) :
    stripBytes .plain (b :: rest) = b :: stripBytes
      (if b = 34 then .literal '"' else if b = 39 then .literal '\'' else .plain) rest := by
  rw [stripBytes]
  · exact notLine
  · exact notBlock

theorem stripBytes_blockByte (notEnd : ∀ more, b = 42 → rest = 47 :: more → False) :
    stripBytes .blockComment (b :: rest) = blankByte b :: stripBytes .blockComment rest := by
  rw [stripBytes]
  exact notEnd

-- Bytes that are none of the marks of a mode leave the mode as it is.
theorem stripBytes_plain (notSlash : 47 ∉ bytes) (notDouble : 34 ∉ bytes) (notSingle : 39 ∉ bytes) :
    stripBytes .plain (bytes ++ rest) = bytes ++ stripBytes .plain rest := by
  induction bytes with
  | nil => rfl
  | cons b more ih =>
    rw [List.mem_cons, not_or] at notSlash notDouble notSingle
    rw [List.cons_append, stripBytes_first, if_neg (Ne.symm notDouble.1), if_neg (Ne.symm notSingle.1),
      ih notSlash.2 notDouble.2 notSingle.2, List.cons_append]
    · rintro _ rfl
      exact absurd rfl notSlash.1
    · rintro _ rfl
      exact absurd rfl notSlash.1

theorem stripBytes_literal (notEscape : 92 ∉ bytes) (notQuote : quote.toUInt8 ∉ bytes) :
    stripBytes (.literal quote) (bytes ++ rest) = bytes ++ stripBytes (.literal quote) rest := by
  induction bytes with
  | nil => rfl
  | cons b more ih =>
    rw [List.mem_cons, not_or] at notEscape notQuote
    rw [List.cons_append, stripBytes, if_neg (Ne.symm notQuote.1), ih notEscape.2 notQuote.2,
      List.cons_append]
    rintro _ _ rfl
    exact absurd rfl notEscape.1

theorem stripBytes_lineComment (oneLine : 10 ∉ bytes) :
    stripBytes .lineComment (bytes ++ rest) = bytes.map blankByte ++ stripBytes .lineComment rest := by
  induction bytes with
  | nil => rfl
  | cons b more ih =>
    rw [List.mem_cons, not_or] at oneLine
    rw [List.cons_append, stripBytes, if_neg (Ne.symm oneLine.1), ih oneLine.2, List.map_cons,
      List.cons_append]

theorem stripBytes_blockComment (notStar : 42 ∉ bytes) :
    stripBytes .blockComment (bytes ++ rest)
      = bytes.map blankByte ++ stripBytes .blockComment rest := by
  induction bytes with
  | nil => rfl
  | cons b more ih =>
    rw [List.mem_cons, not_or] at notStar
    rw [List.cons_append, stripBytes_blockByte, ih notStar.2, List.map_cons, List.cons_append]
    rintro _ rfl
    exact absurd rfl notStar.1

def encoded (text : List Char) : List UInt8 := text.flatMap utf8EncodeChar

variable {text : List Char}

theorem encoded_cons (c : Char) (text : List Char) :
    encoded (c :: text) = utf8EncodeChar c ++ encoded text :=
  List.flatMap_cons

theorem encoded_append (text other : List Char) :
    encoded (text ++ other) = encoded text ++ encoded other :=
  List.flatMap_append

theorem utf8EncodeChar_ne_nil (c : Char) : utf8EncodeChar c ≠ [] := by
  have given := c.utf8Size_pos
  rw [← String.length_utf8EncodeChar] at given
  exact List.ne_nil_of_length_pos given

theorem exists_of_encoded_eq (ascii : d.toNat < 128) (same : encoded text = d.toUInt8 :: bytes) :
    ∃ after, text = d :: after := by
  cases text with
  | nil => cases same
  | cons c after =>
    obtain ⟨b, more, split⟩ := List.exists_cons_of_ne_nil (utf8EncodeChar_ne_nil c)
    rw [encoded_cons, split] at same
    obtain rfl : b = d.toUInt8 := (List.cons.inj same).1
    have inside : d.toUInt8 ∈ utf8EncodeChar c := by
      rw [split]
      exact List.mem_cons_self
    have equal : c = d := by
      by_contra other
      exact toUInt8_notMem ascii other inside
    exact ⟨after, by rw [equal]⟩

theorem utf8EncodeChar_tail (c : Char) : ∀ b ∈ (utf8EncodeChar c).tail, 128 ≤ b := by
  by_cases ascii : c.toNat < 128
  · rw [utf8EncodeChar_ascii ascii]
    exact fun b none => nomatch none
  · exact fun b inside => utf8EncodeChar_wide ascii b (List.mem_of_mem_tail inside)

theorem encoded_blanked (c : Char) : encoded (blanked c) = (utf8EncodeChar c).map blankByte := by
  by_cases line : c = '\n'
  · subst line
    rfl
  · have blank : ∀ b ∈ utf8EncodeChar c, blankByte b = 32 := by
      intro b inside
      have notLine : b ≠ 10 := by
        rintro rfl
        exact toUInt8_notMem (by decide) line inside
      rw [blankByte, if_neg notLine]
    rw [List.map_congr_left blank, List.map_const', String.length_utf8EncodeChar, blanked,
      if_neg line, encoded, List.flatMap_replicate]
    show (List.replicate _ [32]).flatten = _
    rw [List.flatten_replicate_singleton]

theorem encoded_flatMap_blanked (text : List Char) :
    encoded (text.flatMap blanked) = (encoded text).map blankByte := by
  induction text with
  | nil => rfl
  | cons c more ih =>
    rw [List.flatMap_cons, encoded_append, encoded_blanked, ih, encoded_cons, List.map_append]

-- Each mode takes the bytes of a character as it takes the character.
theorem stripBytes_code (notLine : ∀ more, c = '/' → text = '/' :: more → False)
    (notBlock : ∀ more, c = '/' → text = '*' :: more → False) :
    stripBytes .plain (encoded (c :: text))
      = utf8EncodeChar c ++ stripBytes (if isQuote c then .literal c else .plain) (encoded text) := by
  rw [encoded_cons]
  by_cases slash : c = '/'
  · subst slash
    show stripBytes .plain (47 :: encoded text) = _
    rw [stripBytes_first]
    · rfl
    · intro more _ same
      obtain ⟨after, equal⟩ := exists_of_encoded_eq (d := '/') (by decide) same
      exact notLine after rfl equal
    · intro more _ same
      obtain ⟨after, equal⟩ := exists_of_encoded_eq (d := '*') (by decide) same
      exact notBlock after rfl equal
  · cases quoted : isQuote c with
    | true => rcases isQuote_cases quoted with rfl | rfl <;> rfl
    | false =>
      rw [if_neg Bool.false_ne_true]
      rw [isQuote, Bool.or_eq_false_iff, decide_eq_false_iff_not, decide_eq_false_iff_not] at quoted
      apply stripBytes_plain
      · exact toUInt8_notMem (by decide) slash
      · exact toUInt8_notMem (by decide) quoted.1
      · exact toUInt8_notMem (by decide) quoted.2

-- An escape takes the first byte of a character; no later one is a mark.
theorem stripBytes_escape (quoted : isQuote quote = true) (c : Char) (text : List Char) :
    stripBytes (.literal quote) (encoded ('\\' :: c :: text))
      = 92 :: (utf8EncodeChar c ++ stripBytes (.literal quote) (encoded text)) := by
  obtain ⟨b, more, split⟩ := List.exists_cons_of_ne_nil (utf8EncodeChar_ne_nil c)
  have wide := utf8EncodeChar_tail c
  rw [split, List.tail_cons] at wide
  have notEscape : 92 ∉ more := fun inside => absurd (wide 92 inside) (by decide)
  have notQuote : quote.toUInt8 ∉ more := by
    intro inside
    rcases isQuote_cases quoted with rfl | rfl <;> exact absurd (wide _ inside) (by decide)
  show stripBytes _ (92 :: encoded (c :: text)) = _
  rw [encoded_cons, split, List.cons_append]
  show 92 :: b :: stripBytes _ (more ++ encoded text) = _
  rw [stripBytes_literal notEscape notQuote, List.cons_append]

theorem stripBytes_inLiteral (quoted : isQuote quote = true)
    (notEscape : ∀ d more, c = '\\' → text = d :: more → False) :
    stripBytes (.literal quote) (encoded (c :: text))
      = utf8EncodeChar c ++
        stripBytes (if c = quote then .plain else .literal quote) (encoded text) := by
  rw [encoded_cons]
  by_cases escape : c = '\\'
  · subst escape
    cases text with
    | nil =>
      rcases isQuote_cases quoted with rfl | rfl <;> rfl
    | cons d more => exact absurd rfl (notEscape d more rfl)
  · by_cases ends : c = quote
    · subst ends
      rcases isQuote_cases quoted with rfl | rfl <;> rfl
    · rw [if_neg ends]
      apply stripBytes_literal
      · exact toUInt8_notMem (by decide) escape
      · rcases isQuote_cases quoted with rfl | rfl <;> exact toUInt8_notMem (by decide) ends

theorem stripBytes_inLine (c : Char) (text : List Char) :
    stripBytes .lineComment (encoded (c :: text))
      = encoded (blanked c) ++
        stripBytes (if c = '\n' then .plain else .lineComment) (encoded text) := by
  by_cases line : c = '\n'
  · subst line
    rfl
  · rw [encoded_cons, encoded_blanked, if_neg line]
    exact stripBytes_lineComment (toUInt8_notMem (by decide) line)

theorem stripBytes_inBlock (notEnd : ∀ more, c = '*' → text = '/' :: more → False) :
    stripBytes .blockComment (encoded (c :: text))
      = encoded (blanked c) ++ stripBytes .blockComment (encoded text) := by
  by_cases star : c = '*'
  · subst star
    show stripBytes .blockComment (42 :: encoded text) = _
    rw [stripBytes_blockByte]
    · rfl
    · intro more _ same
      obtain ⟨after, equal⟩ := exists_of_encoded_eq (d := '/') (by decide) same
      exact notEnd after rfl equal
  · rw [encoded_cons, encoded_blanked]
    exact stripBytes_blockComment (toUInt8_notMem (by decide) star)

-- A mode in which a scan can be: no literal is ended by anything but a quote.
def Mode.isReached : Mode → Bool
  | .literal quote => isQuote quote
  | _ => true

theorem Mode.isReached_ite {reached : Prop} [Decidable reached] {first second : Mode}
    (one : reached → first.isReached = true) (other : second.isReached = true) :
    (if reached then first else second).isReached = true := by
  split
  · exact one ‹_›
  · exact other

theorem stripBytes_encoded (mode : Mode) (text : List Char) (reached : mode.isReached = true) :
    stripBytes mode (encoded text) = encoded (strip mode text) := by
  induction mode, text using strip.induct with
  | case1 mode => cases mode <;> rfl
  | case2 rest ih =>
    rw [strip, encoded_cons, encoded_cons, encoded_cons, encoded_cons, ← ih rfl]
    rfl
  | case3 rest ih =>
    rw [strip, encoded_cons, encoded_cons, encoded_cons, encoded_cons, ← ih rfl]
    rfl
  | case4 c rest notLine notBlock ih =>
    rw [stripBytes_code notLine notBlock, ih (Mode.isReached_ite (fun quoted => quoted) rfl), strip,
      encoded_cons]
    · exact notLine
    · exact notBlock
  | case5 quote c rest ih =>
    rw [stripBytes_escape reached, ih reached, strip, encoded_cons, encoded_cons]
    rfl
  | case6 quote c rest notEscape ih =>
    rw [stripBytes_inLiteral reached notEscape, ih (Mode.isReached_ite (fun _ => rfl) reached), strip,
      encoded_cons]
    exact notEscape
  | case7 c rest ih =>
    rw [stripBytes_inLine, ih (Mode.isReached_ite (fun _ => rfl) rfl), strip, encoded_append]
  | case8 rest ih =>
    rw [strip, encoded_cons, encoded_cons, encoded_cons, encoded_cons, ← ih rfl]
    rfl
  | case9 c rest notEnd ih =>
    rw [stripBytes_inBlock notEnd, ih rfl, strip, encoded_append]
    exact notEnd

theorem utf8_ofList (text : List Char) : Wire.utf8 (.ofList text) = encoded text := by
  rw [Wire.utf8, String.toUTF8, String.toByteArray_ofList, List.utf8Encode, encoded,
    List.data_toByteArray, List.toList_toArray]

-- The bytes of a span, each with whether it is in a comment.
def Span.marks (span : Span) : List (UInt8 × Bool) :=
  (encoded span.text).map fun b => (b, span.isComment)

def clearedByte (mark : UInt8 × Bool) : UInt8 := if mark.2 then blankByte mark.1 else mark.1

theorem marks_fst (spans : List Span) :
    (spans.flatMap Span.marks).map Prod.fst = encoded (spans.flatMap Span.text) := by
  induction spans with
  | nil => rfl
  | cons span more ih =>
    rw [List.flatMap_cons, List.flatMap_cons, List.map_append, encoded_append, ih, Span.marks,
      List.map_map]
    exact congrArg (· ++ _) (List.map_id _)

theorem Span.marks_cleared (span : Span) :
    span.marks.map clearedByte = encoded (span.cleared.flatMap Span.text) := by
  rw [marks, List.map_map]
  cases span with
  | code c => exact List.map_id _
  | literal text =>
    rw [cleared, List.flatMap_singleton]
    exact List.map_id _
  | comment text =>
    have joined : ∀ blanks : List Char, (blanks.map code).flatMap Span.text = blanks := by
      intro blanks
      rw [List.flatMap_map]
      exact List.flatMap_singleton' blanks
    rw [cleared, joined, encoded_flatMap_blanked]
    rfl

theorem marks_clearedByte (spans : List Span) :
    (spans.flatMap Span.marks).map clearedByte
      = encoded ((spans.flatMap Span.cleared).flatMap Span.text) := by
  induction spans with
  | nil => rfl
  | cons span more ih =>
    rw [List.flatMap_cons, List.flatMap_cons, List.flatMap_append, List.map_append, encoded_append, ih,
      span.marks_cleared]

def uncommented (text : String) : String := .ofList (stripComments text.toList)

theorem uncommented_uncommented (text : String) :
    uncommented (uncommented text) = uncommented text := by
  rw [uncommented, uncommented, String.toList_ofList, stripComments_stripComments]

theorem stripBytes_utf8 (text : String) :
    stripBytes .plain (Wire.utf8 text) = Wire.utf8 (uncommented text) := by
  have given := utf8_ofList text.toList
  rw [String.ofList_toList] at given
  rw [given, stripBytes_encoded .plain _ rfl, uncommented, utf8_ofList, stripComments]

theorem stripComments_exact (text : String) :
    ∃ spans, (∀ others, Divided text.toList others ↔ others = spans) ∧
      Wire.utf8 text = (spans.flatMap Span.marks).map Prod.fst ∧
      Wire.utf8 (uncommented text) = (spans.flatMap Span.marks).map clearedByte ∧
      (Wire.utf8 (uncommented text)).length = (Wire.utf8 text).length ∧
      String.fromUTF8? ⟨⟨stripBytes .plain (Wire.utf8 text)⟩⟩ = some (uncommented text) ∧
      (∀ others, Divided (uncommented text).toList others →
        ∀ span ∈ others, span.isComment = false) ∧
      uncommented (uncommented text) = uncommented text ∧
      ∀ config path,
        SourceFile.read? config path (uncommented text) = SourceFile.read? config path text := by
  obtain ⟨spans, divided⟩ := exists_divided text.toList
  have given : Wire.utf8 text = (spans.flatMap Span.marks).map Prod.fst := by
    rw [marks_fst, divided.flatMap_text, ← utf8_ofList, String.ofList_toList]
  have cleared : Wire.utf8 (uncommented text) = (spans.flatMap Span.marks).map clearedByte := by
    rw [marks_clearedByte, divided.strip.flatMap_text, ← utf8_ofList, uncommented, stripComments]
  refine ⟨spans, ?_, given, cleared, ?_, ?_, ?_, uncommented_uncommented text, ?_⟩
  · exact fun others => ⟨fun dividedToo => dividedToo.unique divided, fun same => same ▸ divided⟩
  · rw [cleared, given, List.length_map, List.length_map]
  · rw [stripBytes_utf8, Wire.utf8_roundtrip]
  · intro others dividedToo
    rw [uncommented, String.toList_ofList] at dividedToo
    rw [dividedToo.unique divided.strip]
    exact isComment_cleared
  · intro config path
    rw [SourceFile.read?, SourceFile.read?, uncommented, String.toList_ofList,
      stripComments_stripComments]

end SigningSchema.Source
