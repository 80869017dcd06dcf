import SigningSchema.Proofs.Source.Braces
import SigningSchema.Proofs.Source.Bytes

-- Blocks found by the place of their brace, and bodies as sequences of items. The body of a block is
-- all that stands between its braces, and of the items in a body only the statements are left.

namespace SigningSchema.Source

-- A statement with its semicolon, or a header with its block.
inductive Item where
  | statement (text : List Char) (flat : Flat text)
  | block (header body : List Char) (flat : Flat header) (matched : Matched body)

namespace Item

def text : Item → List Char
  | statement text _ => text ++ [';']
  | block header body _ _ => header ++ '{' :: (body ++ ['}'])

def statement? : Item → Option (List Char)
  | statement text _ => some text
  | block _ _ _ _ => none

end Item

variable {body : List Char}

section Blocks

-- By induction on the text before: each character takes its bytes off the offset.
theorem dropBytes_encoded (before rest : List Char) :
    dropBytes (encoded before).length (before ++ rest) = (rest, 0) := by
  induction before with
  | nil => rw [encoded, List.flatMap_nil, List.length_nil, List.nil_append, dropBytes]
  | cons c more ih =>
    have bytes : (encoded (c :: more)).length = c.utf8Size + (encoded more).length := by
      rw [encoded_cons, List.length_append, String.length_utf8EncodeChar]
    have given : c.utf8Size + (encoded more).length ≠ 0 := by
      have positive := c.utf8Size_pos
      omega
    rw [bytes, List.cons_append, dropBytes, if_neg (by omega), Nat.add_sub_cancel_left, ih]
    exact given

theorem Matched.untilClosed (matched : Matched body) (rest : List Char) :
    untilClosed 1 (marked none (body ++ '}' :: rest)) = body := by
  obtain ⟨marks, marked, nested⟩ := matched.marks
  rw [marked.marked, untilClosed_nested nested, marked.chars, marked_char rfl, Source.untilClosed,
    if_neg (by decide), if_pos rfl, if_pos (Nat.le_refl 1), List.append_nil]

-- What stands before the brace does not count, not even a quote there.
theorem Matched.blockBodyAt (matched : Matched body) (before rest : List Char) :
    blockBodyAt (before ++ '{' :: (body ++ '}' :: rest)) (encoded before).length = body := by
  have scanned : Source.untilClosed 0 (marked none ('{' :: (body ++ '}' :: rest))) = '{' :: body := by
    rw [marked_char rfl, Source.untilClosed, if_pos rfl, matched.untilClosed]
  rw [Source.blockBodyAt, dropBytes_encoded]
  simp only [scanned]
  rfl

end Blocks

section Statements

variable {rest : List Char}

theorem Item.statementsFrom (item : Item) (rest : List Char) :
    statementsFrom 0 [] (marked none (item.text ++ rest))
      = item.statement?.toList ++ statementsFrom 0 [] (marked none rest) := by
  cases item with
  | statement text flat =>
    rw [Item.text, List.append_assoc, List.singleton_append, flat.statementsFrom, statementsFrom_end,
      List.append_nil, List.reverse_reverse]
    rfl
  | block header body flat matched =>
    rw [Item.text, List.append_assoc, List.cons_append, List.append_assoc, List.singleton_append,
      flat.statementsFrom, matched.statementsFrom]
    rfl

theorem statementsFrom_items (items : List Item) (rest : List Char) :
    statementsFrom 0 [] (marked none (items.flatMap Item.text ++ rest))
      = items.filterMap Item.statement? ++ statementsFrom 0 [] (marked none rest) := by
  induction items with
  | nil => rfl
  | cons item more ih =>
    rw [List.flatMap_cons, List.append_assoc, item.statementsFrom, ih, ← List.append_assoc]
    cases item <;> rfl

-- A statement is none without its semicolon.
theorem Flat.statementsFrom_open (flat : Flat rest) :
    Source.statementsFrom 0 [] (marked none rest) = [] := by
  have read := flat.statementsFrom [] []
  rwa [List.append_nil] at read

theorem statements_items (items : List Item) (flat : Flat rest) :
    statements (items.flatMap Item.text ++ rest)
      = ((items.filterMap Item.statement?).map Unicode.trim).filter (fun s => !s.isEmpty) := by
  rw [statements, statementsFrom_items, flat.statementsFrom_open, List.append_nil]

theorem statements_closed (items : List Item) :
    statements (items.flatMap Item.text)
      = ((items.filterMap Item.statement?).map Unicode.trim).filter (fun s => !s.isEmpty) := by
  have all := statements_items items .nil
  rwa [List.append_nil] at all

end Statements

section Division

variable {text rest : List Char}

-- Text without a brace or a semicolon belongs to what comes after it.
theorem exists_items_after (flat : Flat text) (items : List Item) (flatToo : Flat rest) :
    ∃ (longer : List Item) (tail : List Char), Flat tail ∧
      text ++ (items.flatMap Item.text ++ rest) = longer.flatMap Item.text ++ tail := by
  cases items with
  | nil => exact ⟨[], text ++ rest, flat.append flatToo, rfl⟩
  | cons item more =>
    cases item with
    | statement first given =>
      refine ⟨.statement (text ++ first) (flat.append given) :: more, rest, flatToo, ?_⟩
      simp [Item.text]
    | block header body given matched =>
      refine ⟨.block (text ++ header) body (flat.append given) matched :: more, rest, flatToo, ?_⟩
      simp [Item.text]

-- By induction on the body: a semicolon and a block each begin a new item.
theorem Matched.exists_items (matched : Matched body) :
    ∃ (items : List Item) (rest : List Char), Flat rest ∧ body = items.flatMap Item.text ++ rest := by
  induction matched with
  | nil => exact ⟨[], [], .nil, rfl⟩
  | @char c rest notQuote notOpen notClose _ ih =>
    obtain ⟨items, tail, flat, rfl⟩ := ih
    by_cases ends : c = ';'
    · subst ends
      exact ⟨.statement [] .nil :: items, tail, flat, rfl⟩
    · exact exists_items_after (.char notQuote notOpen notClose ends .nil) items flat
  | @literal quote content rest quoted closed _ ih =>
    obtain ⟨items, tail, flat, rfl⟩ := ih
    obtain ⟨longer, rest, flatToo, same⟩ := exists_items_after (.literal quoted closed .nil) items flat
    refine ⟨longer, rest, flatToo, ?_⟩
    rw [← same]
    simp
  | @block inner rest inside _ _ ih =>
    obtain ⟨items, tail, flat, rfl⟩ := ih
    refine ⟨.block [] inner .nil inside :: items, tail, flat, ?_⟩
    simp [Item.text]

end Division

theorem bodies_exact :
    (∀ before body rest : List Char, Matched body →
      blockBodyAt (before ++ '{' :: (body ++ '}' :: rest)) (encoded before).length = body) ∧
    (∀ items : List Item, statements (items.flatMap Item.text)
      = ((items.filterMap Item.statement?).map Unicode.trim).filter (fun s => !s.isEmpty)) ∧
    (∀ items others : List Item,
      items.filterMap Item.statement? = others.filterMap Item.statement? →
      statements (items.flatMap Item.text) = statements (others.flatMap Item.text)) ∧
    ∀ body : List Char, Matched body → ∃ (items : List Item) (rest : List Char), Flat rest ∧
      body = items.flatMap Item.text ++ rest ∧
      statements body = statements (items.flatMap Item.text) := by
  refine ⟨fun before body rest matched => matched.blockBodyAt before rest, statements_closed, ?_, ?_⟩
  · intro items others same
    rw [statements_closed, statements_closed, same]
  · intro body matched
    obtain ⟨items, rest, flat, rfl⟩ := matched.exists_items
    refine ⟨items, rest, flat, rfl, ?_⟩
    rw [statements_items items flat, statements_closed]

def innerBody : List Char := " int32 hidden = 1; ".toList

theorem innerBody_matched : Matched innerBody := by
  have before : Flat " int32 hidden = 1".toList := flat_of_all (by decide)
  have after : Flat [' '] := flat_of_all (by decide)
  exact before.matched.append (.char rfl (by decide) (by decide) after.matched)

-- An option whose value holds a semicolon and a brace.
def bracedOption : List Char := " option (amino.name) = \";\x7d\"".toList

theorem bracedOption_flat : Flat bracedOption := by
  have before : Flat " option (amino.name) = ".toList := flat_of_all (by decide)
  have value : Enclosed '"' [';', '}'] :=
    .plain (by decide) (by decide) (.plain (by decide) (by decide) .nil)
  exact before.append (.literal rfl value .nil)

-- A field, a message with what it holds, and the option.
def noteItems (inner : List Char) (matched : Matched inner) : List Item :=
  [.statement " string owner = 1".toList (flat_of_all (by decide)),
    .block " message Inner ".toList inner (flat_of_all (by decide)) matched,
    .statement bracedOption bracedOption_flat]

theorem bodies_exact_note :
    Matched innerBody ∧
      blockBodyAt ("\"é message Note ".toList ++ '{' :: (innerBody ++ '}' :: " \x7d".toList))
        (encoded "\"é message Note ".toList).length = innerBody ∧
      (noteItems innerBody innerBody_matched).filterMap Item.statement?
        = (noteItems [] .nil).filterMap Item.statement? ∧
      statements ((noteItems innerBody innerBody_matched).flatMap Item.text)
        = statements ((noteItems [] .nil).flatMap Item.text) ∧
      statements ((noteItems innerBody innerBody_matched).flatMap Item.text)
        = ["string owner = 1".toList, "option (amino.name) = \";\x7d\"".toList] := by
  have same : (noteItems innerBody innerBody_matched).filterMap Item.statement?
      = (noteItems [] .nil).filterMap Item.statement? := rfl
  have exact := bodies_exact.2.1 (noteItems innerBody innerBody_matched)
  refine ⟨innerBody_matched, bodies_exact.1 _ _ _ innerBody_matched, same,
    bodies_exact.2.2.1 _ _ same, exact.trans ?_⟩
  decide

end SigningSchema.Source
