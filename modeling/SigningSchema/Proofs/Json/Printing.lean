import Mathlib.Data.Char
import Mathlib.Data.List.Forall2
import SigningSchema.Json.Printer
import SigningSchema.Json.Reader

-- Printing and reading: the text of a document without numbers is read into the tree it was printed
-- from, whatever characters its texts and keys hold and however deep it is nested.

namespace SigningSchema.Json

theorem hexDigit_roundtrip {n : Nat} (small : n < 16) : Hex.digit? (Hex.digit n) = some n := by
  have all : ∀ n < 16, Hex.digit? (Hex.digit n) = some n := by decide
  exact all n small

-- A character is read as itself, or as the code unit of a control character.
inductive Spells : Piece → Char → Prop where
  | char (c : Char) : Spells (.char c) c
  | control {c : Char} (control : c.toNat < 0x20) : Spells (.unit c.toNat) c

theorem readPieces_escape (c : Char) :
    ∃ piece, Spells piece c ∧ ∀ rest, readPieces (escape c ++ rest)
      = (readPieces rest).map fun read => (piece :: read.1, read.2) := by
  unfold escape
  split
  case h_8 notQuote notBackslash _ _ _ _ _ =>
    split
    · rename_i control
      have high : Hex.digit? (Hex.digit (c.toNat / 16)) = some (c.toNat / 16) :=
        hexDigit_roundtrip (by omega)
      have low : Hex.digit? (Hex.digit (c.toNat % 16)) = some (c.toNat % 16) :=
        hexDigit_roundtrip (by omega)
      have zero : Hex.digit? '0' = some 0 := rfl
      refine ⟨.unit c.toNat, .control control, fun rest => ?_⟩
      have unit : hexUnit? '0' '0' (Hex.digit (c.toNat / 16)) (Hex.digit (c.toNat % 16))
          = some c.toNat := by
        rw [hexUnit?, zero, high, low]
        show some _ = some _
        congr 1
        omega
      simp only [List.cons_append, List.nil_append]
      rw [readPieces, unit]
      rfl
    · rename_i plain
      refine ⟨.char c, .char c, fun rest => ?_⟩
      rw [List.singleton_append, readPieces, if_neg plain]
      · exact fun same => notQuote same
      · exact fun _ _ _ _ _ same _ => notBackslash same
      · exact fun _ _ same _ => notBackslash same
  all_goals exact ⟨.char _, .char _, fun rest => rfl⟩

theorem unquote?_spelled {piece : Piece} {c : Char} (spells : Spells piece c) (rest : List Piece) :
    unquote? (piece :: rest) = (unquote? rest).map (c :: ·) := by
  cases spells with
  | char c => rfl
  | control control =>
    have notHigh : isHighSurrogate c.toNat = false := by
      rw [isHighSurrogate, Bool.and_eq_false_iff]
      exact .inl (decide_eq_false (by omega))
    have notLow : isLowSurrogate c.toNat = false := by
      rw [isLowSurrogate, Bool.and_eq_false_iff]
      exact .inl (decide_eq_false (by omega))
    rcases rest with _ | ⟨_ | low, more⟩
    all_goals simp [unquote?, notHigh, notLow, Char.ofNat_toNat]

-- The pieces that a text is read as where it stands between quotes.
structure Quoted (text : String) (pieces : List Piece) : Prop where
  read : ∀ rest, readPieces (text.toList.flatMap escape ++ '"' :: rest) = some (pieces, rest)
  denotes : textOf? pieces = some text

theorem exists_pieces (chars : List Char) :
    ∃ pieces, (∀ rest, readPieces (chars.flatMap escape ++ '"' :: rest) = some (pieces, rest)) ∧
      unquote? pieces = some chars := by
  induction chars with
  | nil => exact ⟨[], fun rest => rfl, rfl⟩
  | cons c more ih =>
    obtain ⟨pieces, read, denotes⟩ := ih
    obtain ⟨piece, spells, first⟩ := readPieces_escape c
    refine ⟨piece :: pieces, fun rest => ?_, ?_⟩
    · rw [List.flatMap_cons, List.append_assoc, first, read]
      rfl
    · rw [unquote?_spelled spells, denotes]
      rfl

theorem exists_quoted (text : String) : ∃ pieces, Quoted text pieces := by
  obtain ⟨pieces, read, denotes⟩ := exists_pieces text.toList
  refine ⟨pieces, read, ?_⟩
  rw [textOf?, denotes, Option.map_some, String.ofList_toList]

section Tokens

variable {rest : List Char}

-- What follows a word or a numeral does not go on with one.
def Ends (rest : List Char) : Prop := ∀ c more, rest = c :: more → isAtomic c = false

theorem ends_cons {c : Char} (notAtomic : isAtomic c = false) : Ends (c :: rest) := by
  rintro d more same
  cases same
  exact notAtomic

theorem readTokens_spaces {s : List Char} (blank : ∀ c ∈ s, isSpace c = true) :
    readTokens (s ++ rest) = readTokens rest := by
  induction s with
  | nil => rfl
  | cons c more ih =>
    obtain ⟨first, later⟩ := List.forall_mem_cons.mp blank
    rw [List.cons_append, readTokens, if_pos first, ih later]

theorem readTokens_mark {c : Char} (token : Token) (marks : mark? c = some token)
    (notSpace : isSpace c = false) (notQuote : c ≠ '"') :
    readTokens (c :: rest) = (readTokens rest).map (token :: ·) := by
  rw [readTokens, notSpace, if_neg Bool.false_ne_true, if_neg notQuote, marks]

theorem readTokens_quoted {text : String} {pieces : List Piece} (quoted : Quoted text pieces) :
    readTokens ((quote text).toList ++ rest) = (readTokens rest).map (.text pieces :: ·) := by
  have read := quoted.read rest
  rw [quote, String.toList_ofList, List.cons_append, List.cons_append, List.append_assoc,
    List.cons_append, readTokens, if_neg (by decide), if_pos rfl]
  split
  · rename_i unread
    rw [List.nil_append, read] at unread
    cases unread
  · rename_i found
    rw [List.nil_append, read] at found
    cases found
    rfl

theorem readTokens_word {c : Char} {w : List Char} {token : Token}
    (letters : ∀ d ∈ c :: w, isAtomic d = true) (reads : atom? (c :: w) = some token)
    (ends : Ends rest) :
    readTokens (c :: w ++ rest) = (readTokens rest).map (token :: ·) := by
  obtain ⟨first, later⟩ := List.forall_mem_cons.mp letters
  simp only [isAtomic, Bool.and_eq_true, Bool.not_eq_true', Option.isNone_iff_eq_none,
    decide_eq_true_eq] at first
  obtain ⟨⟨notSpace, notMark⟩, notQuote⟩ := first
  have taken : (w ++ rest).takeWhile isAtomic = w := by
    rw [List.takeWhile_append_of_pos later]
    cases rest with
    | nil => simp
    | cons d more => rw [List.takeWhile_cons_of_neg (by simp [ends d more rfl]), List.append_nil]
  have left : (w ++ rest).dropWhile isAtomic = rest := by
    rw [List.dropWhile_append_of_pos later]
    cases rest with
    | nil => rfl
    | cons d more => rw [List.dropWhile_cons_of_neg (by simp [ends d more rfl])]
  rw [List.cons_append, readTokens, notSpace, if_neg Bool.false_ne_true, if_neg notQuote, notMark]
  simp only
  rw [taken, left, reads]
  rfl

theorem readTokens_lineBreak (depth : Nat) :
    readTokens ((lineBreak depth).toList ++ rest) = readTokens rest := by
  refine readTokens_spaces fun c inside => ?_
  simp only [lineBreak, String.toList_append, String.toList_ofList, List.mem_append] at inside
  rcases inside with newline | space
  · rw [show c = '\n' by simpa using newline]
    rfl
  · rw [List.eq_of_mem_replicate space]
    rfl

end Tokens

-- The tokens of a document's text and the tree that they are read into.
structure Printed (json : Json) (tree : Tree) (tokens : List Token) : Prop where
  written : ∀ depth rest, Ends rest →
    readTokens ((json.pretty depth).toList ++ rest) = (readTokens rest).map (tokens ++ ·)
  parsed : ∀ frames, tokens.foldlM Progress.step? ⟨frames, .value⟩ = some ⟨frames, .afterValue tree⟩
  begins : ∃ first more, tokens = first :: more ∧ first ≠ .closeArray

def Written (json : Json) (tree : Tree) : Prop := ∃ tokens, Printed json tree tokens

theorem printed_bool (value : Bool) : Printed (.bool value) (.bool value) [.bool value] where
  written := by
    intro depth rest ends
    cases value with
    | true =>
      rw [pretty]
      exact readTokens_word (c := 't') (w := ['r', 'u', 'e']) (List.all_eq_true.mp (by decide)) rfl ends
    | false =>
      rw [pretty]
      exact readTokens_word (c := 'f') (w := ['a', 'l', 's', 'e']) (List.all_eq_true.mp (by decide)) rfl ends
  parsed := fun frames => rfl
  begins := ⟨_, _, rfl, nofun⟩

theorem printed_string {text : String} {pieces : List Piece} (quoted : Quoted text pieces) :
    Printed (.string text) (.text pieces) [.text pieces] where
  written := fun depth rest _ => by
    rw [pretty]
    exact readTokens_quoted quoted
  parsed := fun frames => rfl
  begins := ⟨_, _, rfl, nofun⟩

-- Where an item may come, so may the end of the array; the tokens of an item are not mistaken.
theorem parsed_first {tokens : List Token} (begins : ∃ first more, tokens = first :: more ∧ first ≠ .closeArray)
    (frames : List Frame) :
    tokens.foldlM Progress.step? ⟨frames, .itemOrEnd⟩ = tokens.foldlM Progress.step? ⟨frames, .value⟩ := by
  obtain ⟨first, more, rfl, notEnd⟩ := begins
  rw [List.foldlM_cons, List.foldlM_cons]
  congr 1
  cases first <;> first | rfl | exact absurd rfl notEnd

-- Items with commas between them, read on top of those that the array holds already.
structure PrintedItems (items : List Json) (trees : List Tree) (tokens : List Token) : Prop where
  written : ∀ depth rest, Ends rest →
    readTokens ((prettyItems depth items).toList ++ rest) = (readTokens rest).map (tokens ++ ·)
  parsed : ∀ held frames, ∃ last others, last :: others = trees.reverse ++ held ∧
    tokens.foldlM Progress.step? ⟨.array held :: frames, .value⟩
      = some ⟨.array others :: frames, .afterValue last⟩
  begins : ∃ first more, tokens = first :: more ∧ first ≠ .closeArray

theorem printedItems_cons {item : Json} {tree : Tree} {items : List Json} {trees : List Tree}
    (first : Written item tree) (others : List.Forall₂ Written items trees) :
    ∃ tokens, PrintedItems (item :: items) (tree :: trees) tokens := by
  obtain ⟨tokens, printed⟩ := first
  induction others generalizing item tree tokens with
  | nil =>
    refine ⟨tokens, fun depth rest ends => ?_, fun held frames => ?_, printed.begins⟩
    · rw [prettyItems, String.toList_append, List.append_assoc, readTokens_lineBreak,
        printed.written depth rest ends]
    · exact ⟨tree, held, rfl, printed.parsed _⟩
  | @cons second secondTree items trees next _ ih =>
    obtain ⟨nextTokens, printedNext⟩ := next
    obtain ⟨more, following⟩ := ih nextTokens printedNext
    obtain ⟨opening, remaining, rfl, notEnd⟩ := printed.begins
    refine ⟨(opening :: remaining) ++ .comma :: more, fun depth rest ends => ?_, fun held frames => ?_,
      opening, _, rfl, notEnd⟩
    · have comma : ",".toList = [','] := rfl
      rw [prettyItems, String.toList_append, String.toList_append, String.toList_append, comma]
      · simp only [List.append_assoc, List.cons_append, List.nil_append]
        rw [readTokens_lineBreak, printed.written depth _ (ends_cons rfl),
          readTokens_mark .comma rfl rfl (by decide), following.written depth rest ends]
        cases readTokens rest <;> simp
      · exact fun same => nomatch same
    · obtain ⟨last, others, all, parsed⟩ := following.parsed (tree :: held) frames
      refine ⟨last, others, by rw [all]; simp, ?_⟩
      rw [List.foldlM_append, printed.parsed, Option.bind_eq_bind, Option.bind_some, List.foldlM_cons]
      exact parsed

theorem written_array {items : List Json} {trees : List Tree}
    (each : List.Forall₂ Written items trees) : Written (.array items) (.array trees) := by
  cases each with
  | nil =>
    refine ⟨[.openArray, .closeArray], fun depth rest _ => ?_, fun frames => rfl, _, _, rfl, nofun⟩
    have marks : (pretty depth (.array [])).toList = ['[', ']'] := by rw [pretty]; rfl
    rw [marks, List.cons_append, List.cons_append, List.nil_append,
      readTokens_mark .openArray rfl rfl (by decide),
      readTokens_mark .closeArray rfl rfl (by decide)]
    cases readTokens rest <;> rfl
  | cons first others =>
    obtain ⟨tokens, printed⟩ := printedItems_cons first others
    refine ⟨.openArray :: (tokens ++ [.closeArray]), fun depth rest ends => ?_, fun frames => ?_,
      _, _, rfl, nofun⟩
    · rw [pretty]
      · have opening : "[".toList = ['['] := rfl
        have closing : "]".toList = [']'] := rfl
        simp only [String.toList_append, opening, closing, List.append_assoc, List.cons_append,
          List.nil_append]
        have breaks : Ends ((lineBreak depth).toList ++ ']' :: rest) := by
          rw [lineBreak, String.toList_append]
          exact ends_cons rfl
        rw [readTokens_mark .openArray rfl rfl (by decide),
          printed.written (depth + 1) _ breaks, readTokens_lineBreak,
          readTokens_mark .closeArray rfl rfl (by decide)]
        cases readTokens rest <;> simp
      · exact fun same => nomatch same
    · obtain ⟨last, others, all, parsed⟩ := printed.parsed [] frames
      rw [List.foldlM_cons]
      show List.foldlM Progress.step? ⟨.array [] :: frames, .itemOrEnd⟩ (tokens ++ [.closeArray]) = _
      have first : tokens.foldlM Progress.step? ⟨.array [] :: frames, .itemOrEnd⟩
          = some ⟨.array others :: frames, .afterValue last⟩ := by
        rw [parsed_first printed.begins, parsed]
      rw [List.foldlM_append, first]
      show some (Progress.mk frames (.afterValue (.array (last :: others).reverse))) = _
      rw [all]
      simp

structure WrittenMember (member : String × Json) (read : List Piece × Tree) : Prop where
  key : Quoted member.1 read.1
  value : Written member.2 read.2

structure PrintedMembers (members : List (String × Json)) (reads : List (List Piece × Tree))
    (tokens : List Token) : Prop where
  written : ∀ depth rest, Ends rest →
    readTokens ((prettyMembers depth members).toList ++ rest) = (readTokens rest).map (tokens ++ ·)
  parsed : ∀ held frames, ∃ key last others, (key, last) :: others = reads.reverse ++ held ∧
    tokens.foldlM Progress.step? ⟨frames, .key held⟩
      = some ⟨.object others key :: frames, .afterValue last⟩
  begins : ∃ key more, tokens = .text key :: more

-- A member on its line, and what it adds to the members before it.
theorem exists_member {name : String} {json : Json} {key : List Piece} {tree : Tree}
    (member : WrittenMember (name, json) (key, tree)) :
    ∃ tokens,
      (∀ depth rest, Ends rest →
        readTokens ((lineBreak depth).toList ++ ((quote name).toList
          ++ ':' :: ' ' :: ((json.pretty depth).toList ++ rest)))
          = (readTokens rest).map (.text key :: tokens ++ ·)) ∧
      ∀ held frames, (Token.text key :: tokens).foldlM Progress.step? ⟨frames, .key held⟩
        = some ⟨.object held key :: frames, .afterValue tree⟩ := by
  obtain ⟨quoted, tokens, printed⟩ := member
  refine ⟨.colon :: tokens, fun depth rest ends => ?_,
    fun held frames => printed.parsed (.object held key :: frames)⟩
  have space : readTokens (' ' :: ((json.pretty depth).toList ++ rest))
      = readTokens ((json.pretty depth).toList ++ rest) :=
    readTokens_spaces (s := [' ']) (List.all_eq_true.mp (by decide))
  rw [readTokens_lineBreak, readTokens_quoted quoted,
    readTokens_mark .colon rfl rfl (by decide), space, printed.written depth rest ends]
  cases readTokens rest <;> simp

theorem printedMembers_cons {member : String × Json} {read : List Piece × Tree}
    {members : List (String × Json)} {reads : List (List Piece × Tree)}
    (first : WrittenMember member read) (others : List.Forall₂ WrittenMember members reads) :
    ∃ tokens, PrintedMembers (member :: members) (read :: reads) tokens := by
  have colon : ": ".toList = [':', ' '] := rfl
  have comma : ",".toList = [','] := rfl
  induction others generalizing member read with
  | nil =>
    obtain ⟨name, json⟩ := member
    obtain ⟨key, tree⟩ := read
    obtain ⟨tokens, written, parsed⟩ := exists_member first
    refine ⟨.text key :: tokens, fun depth rest ends => ?_, fun held frames => ?_, key, _, rfl⟩
    · rw [← written depth rest ends, prettyMembers]
      simp only [String.toList_append, colon, List.append_assoc, List.cons_append, List.nil_append]
    · exact ⟨key, tree, held, rfl, parsed held frames⟩
  | @cons second secondRead members reads next _ ih =>
    obtain ⟨name, json⟩ := member
    obtain ⟨key, tree⟩ := read
    obtain ⟨tokens, written, parsed⟩ := exists_member first
    obtain ⟨more, following⟩ := ih next
    refine ⟨(.text key :: tokens) ++ .comma :: more, fun depth rest ends => ?_, fun held frames => ?_,
      key, _, rfl⟩
    · have later := written depth (',' :: ((prettyMembers depth (second :: members)).toList ++ rest))
        (ends_cons rfl)
      rw [readTokens_mark .comma rfl rfl (by decide), following.written depth rest ends]
        at later
      rw [prettyMembers]
      · simp only [String.toList_append, colon, comma, List.append_assoc, List.cons_append,
          List.nil_append] at later ⊢
        rw [later]
        cases readTokens rest <;> simp
      · exact fun same => nomatch same
    · obtain ⟨name, last, others, all, later⟩ := following.parsed ((key, tree) :: held) frames
      refine ⟨name, last, others, by rw [all]; simp, ?_⟩
      rw [List.foldlM_append, parsed, Option.bind_eq_bind, Option.bind_some, List.foldlM_cons]
      exact later

theorem written_object {members : List (String × Json)} {reads : List (List Piece × Tree)}
    (each : List.Forall₂ WrittenMember members reads) : Written (.object members) (.object reads) := by
  cases each with
  | nil =>
    refine ⟨[.openObject, .closeObject], fun depth rest _ => ?_, fun frames => rfl, _, _, rfl, nofun⟩
    have marks : (pretty depth (.object [])).toList = ['{', '}'] := by rw [pretty]; rfl
    rw [marks, List.cons_append, List.cons_append, List.nil_append,
      readTokens_mark .openObject rfl rfl (by decide),
      readTokens_mark .closeObject rfl rfl (by decide)]
    cases readTokens rest <;> rfl
  | cons first others =>
    obtain ⟨tokens, printed⟩ := printedMembers_cons first others
    refine ⟨.openObject :: (tokens ++ [.closeObject]), fun depth rest ends => ?_, fun frames => ?_,
      _, _, rfl, nofun⟩
    · rw [pretty]
      · have opening : "\x7b".toList = ['{'] := rfl
        have closing : "\x7d".toList = ['}'] := rfl
        simp only [String.toList_append, opening, closing, List.append_assoc, List.cons_append,
          List.nil_append]
        have breaks : Ends ((lineBreak depth).toList ++ '}' :: rest) := by
          rw [lineBreak, String.toList_append]
          exact ends_cons rfl
        rw [readTokens_mark .openObject rfl rfl (by decide),
          printed.written (depth + 1) _ breaks, readTokens_lineBreak,
          readTokens_mark .closeObject rfl rfl (by decide)]
        cases readTokens rest <;> simp
      · exact fun same => nomatch same
    · obtain ⟨key, last, others, all, parsed⟩ := printed.parsed [] frames
      obtain ⟨name, more, rfl⟩ := printed.begins
      -- Before the first member an object may also end; after that this is one case.
      have begun : List.foldlM Progress.step? ⟨frames, .keyOrEnd⟩ (.text name :: more ++ [.closeObject])
          = List.foldlM Progress.step? ⟨frames, .key []⟩ (.text name :: more ++ [.closeObject]) := rfl
      rw [List.foldlM_cons]
      show List.foldlM Progress.step? ⟨frames, .keyOrEnd⟩ (.text name :: more ++ [.closeObject]) = _
      rw [begun, List.foldlM_append, parsed]
      show some (Progress.mk frames (.afterValue (.object ((key, last) :: others).reverse))) = _
      rw [all]
      simp

-- A text is read into the tree of the document that it was printed from.
theorem ofText?_pretty {json : Json} {tree : Tree} (written : Written json tree) :
    Tree.ofText? (json.pretty 0 ++ "\n") = some tree := by
  obtain ⟨tokens, printed⟩ := written
  have newline : "\n".toList = ['\n'] := rfl
  have blank : readTokens ['\n'] = some [] := by
    rw [readTokens, if_pos (by decide), readTokens]
  rw [Tree.ofText?, String.toList_append, newline, printed.written 0 _ (ends_cons rfl), blank,
    Option.map_some, Option.bind_some, List.append_nil, Tree.ofTokens?, printed.parsed]

end SigningSchema.Json
