import SigningSchema.Proofs.Source.Blocks

-- Texts that differ in what their literals hold. The literals are closed at the same quotes, so
-- comments, blocks and statements end where they did.

namespace SigningSchema.Source

variable {config : Config} {before text other : List Char}

-- The statement that a character leaves behind, its last character first.
def advance (before : List Char) (c : Char) : List Char :=
  if c = ';' ∨ c = '{' ∨ c = '}' then [] else c :: before

-- A literal that comes now would be the value of the option for legacy names.
def Assigns (config : Config) (before : List Char) : Prop :=
  (option? config.legacyNameOption (skipBlanks before.reverse ++ ['"', '"'])).isSome = true

-- For texts without comments. From some place on the texts may be one text.
inductive Alike (config : Config) : List Char → List Char → List Char → Prop where
  | refl {before text : List Char} : Alike config before text text
  | char {before : List Char} {c : Char} {rest other : List Char} (notQuote : isQuote c = false)
      (more : Alike config (advance before c) rest other) : Alike config before (c :: rest) (c :: other)
  | literal {before : List Char} {quote : Char} {content changed rest other : List Char}
      (quoted : isQuote quote = true) (closed : Enclosed quote content)
      (closedToo : Enclosed quote changed)
      (kept : quote = '"' → Assigns config before → content = changed)
      (more : Alike config ((quote :: (content ++ [quote])).reverse ++ before) rest other) :
      Alike config before (quote :: (content ++ quote :: rest)) (quote :: (changed ++ quote :: other))

-- For texts with comments: outside of literals they have the same characters and comments. The values
-- of options for legacy names are the same.
inductive Reworded (config : Config) : List Char → List Char → List Char → Prop where
  | refl {before text : List Char} : Reworded config before text text
  | char {before : List Char} {c : Char} {rest other : List Char} (notQuote : isQuote c = false)
      (notSlash : c ≠ '/') (more : Reworded config (advance before c) rest other) :
      Reworded config before (c :: rest) (c :: other)
  | slash {before : List Char} {c : Char} {rest other : List Char} (notSlash : c ≠ '/')
      (notStar : c ≠ '*') (more : Reworded config ('/' :: before) (c :: rest) (c :: other)) :
      Reworded config before ('/' :: c :: rest) ('/' :: c :: other)
  | gap {before gap rest other : List Char} (spaced : Gap gap)
      (more : Reworded config ((stripComments gap).reverse ++ before) rest other) :
      Reworded config before (gap ++ rest) (gap ++ other)
  | literal {before : List Char} {quote : Char} {content changed rest other : List Char}
      (quoted : isQuote quote = true) (closed : Enclosed quote content)
      (closedToo : Enclosed quote changed)
      (kept : quote = '"' → Assigns config before → content = changed)
      (more : Reworded config ((quote :: (content ++ [quote])).reverse ++ before) rest other) :
      Reworded config before (quote :: (content ++ quote :: rest))
        (quote :: (changed ++ quote :: other))

-- A run of characters that leave the statement open.
theorem Alike.run {run : List Char} (notQuote : ∀ c ∈ run, isQuote c = false)
    (within : ∀ before, ∀ c ∈ run, advance before c = c :: before)
    (more : Alike config (run.reverse ++ before) text other) :
    Alike config before (run ++ text) (run ++ other) := by
  induction run generalizing before with
  | nil => exact more
  | cons c rest ih =>
    obtain ⟨first, later⟩ := List.forall_mem_cons.mp notQuote
    apply Alike.char first
    rw [within before c List.mem_cons_self]
    apply ih later (fun before d inside => within before d (List.mem_cons_of_mem c inside))
    simpa using more

theorem Reworded.run {run : List Char} (plain : run.all (fun c => !isQuote c && c != '/') = true)
    (more : Reworded config (run.foldl advance before) text other) :
    Reworded config before (run ++ text) (run ++ other) := by
  induction run generalizing before with
  | nil => exact more
  | cons c rest ih =>
    rw [List.all_cons, Bool.and_eq_true, Bool.and_eq_true, Bool.not_eq_true', bne_iff_ne] at plain
    exact .char plain.1.1 plain.1.2 (ih plain.2 more)

theorem advance_blank {c : Char} (blank : Unicode.isBlank c = true) (before : List Char) :
    advance before c = c :: before := by
  have semicolon : c ≠ ';' := ne_of_class blank rfl
  have opening : c ≠ '{' := ne_of_class blank rfl
  have closing : c ≠ '}' := ne_of_class blank rfl
  simp [advance, semicolon, opening, closing]

theorem strip_slash {c : Char} (notSlash : c ≠ '/') (notStar : c ≠ '*') (rest : List Char) :
    strip .plain ('/' :: c :: rest) = '/' :: strip .plain (c :: rest) := by
  rw [strip_first]
  · rfl
  · intro more _ same
    exact notSlash (List.cons.inj same).1
  · intro more _ same
    exact notStar (List.cons.inj same).1

theorem strip_quoted {quote : Char} {content : List Char} (quoted : isQuote quote = true)
    (closed : Enclosed quote content) (rest : List Char) :
    strip .plain (quote :: (content ++ quote :: rest))
      = quote :: (content ++ quote :: strip .plain rest) := by
  have notSlash : quote ≠ '/' := ne_of_class quoted rfl
  rw [strip_notSlash notSlash, if_pos quoted, strip_literal quoted closed]

-- Without comments the texts still differ in literals only.
theorem Reworded.strip (reworded : Reworded config before text other) :
    Alike config before (strip .plain text) (strip .plain other) := by
  induction reworded with
  | refl => exact .refl
  | char notQuote notSlash _ ih =>
    rw [strip_plain notSlash notQuote, strip_plain notSlash notQuote]
    exact .char notQuote ih
  | slash notSlash notStar _ ih =>
    rw [strip_slash notSlash notStar, strip_slash notSlash notStar]
    exact .char rfl ih
  | gap spaced _ ih =>
    obtain ⟨blanks, known⟩ := strip_gap spaced
    have stripped := known.strip []
    rw [List.append_nil, Source.strip, List.append_nil] at stripped
    rw [known.strip, known.strip]
    apply Alike.run
    · exact fun c inside => isQuote_of_class (known.blank c inside) rfl rfl
    · exact fun before c inside => advance_blank (known.blank c inside) before
    · rwa [stripComments, stripped] at ih
  | literal quoted closed closedToo kept _ ih =>
    rw [strip_quoted quoted closed, strip_quoted quoted closedToo]
    exact .literal quoted closed closedToo kept ih

theorem marked_quoted {quote : Char} {content : List Char} (quoted : isQuote quote = true)
    (closed : Enclosed quote content) (rest : List Char) :
    marked none (quote :: (content ++ quote :: rest))
      = (quote :: (content ++ [quote])).map (fun c => (c, true)) ++ marked none rest := by
  rw [marked, quoted, if_pos rfl, marked_literal quoted closed]
  rfl

theorem marked_char {c : Char} (notQuote : isQuote c = false) (rest : List Char) :
    marked none (c :: rest) = (c, false) :: marked none rest := by
  rw [marked, notQuote, if_neg Bool.false_ne_true]

theorem untilClosed_inside (depth : Nat) (inside : List Char) (rest : List (Char × Bool)) :
    untilClosed depth (inside.map (fun c => (c, true)) ++ rest) = inside ++ untilClosed depth rest := by
  induction inside with
  | nil => rfl
  | cons c more ih => rw [List.map_cons, List.cons_append, untilClosed, ih, List.cons_append]

theorem Alike.untilClosed (alike : Alike config before text other) (depth : Nat) :
    Alike config before (untilClosed depth (marked none text)) (untilClosed depth (marked none other)) := by
  induction alike generalizing depth with
  | refl => exact .refl
  | @char _ c _ _ notQuote _ ih =>
    rw [marked_char notQuote, marked_char notQuote, Source.untilClosed, Source.untilClosed]
    split
    · exact .char notQuote (ih _)
    · split
      · split
        · exact .refl
        · exact .char notQuote (ih _)
      · exact .char notQuote (ih _)
  | literal quoted closed closedToo kept _ ih =>
    rw [marked_quoted quoted closed, marked_quoted quoted closedToo, untilClosed_inside,
      untilClosed_inside, List.cons_append, List.cons_append, List.append_assoc, List.append_assoc]
    exact .literal quoted closed closedToo kept (ih depth)

-- Bodies of blocks differ in literals only.
theorem Alike.blockBody (alike : Alike config [] text other) :
    Alike config [] (blockBody text) (blockBody other) :=
  alike.untilClosed 1

end SigningSchema.Source
