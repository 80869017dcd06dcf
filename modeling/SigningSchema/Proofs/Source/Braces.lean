import SigningSchema.Proofs.Source.Rewording

-- Text by its braces, character by character: literals in it are closed, and braces in them do not
-- count.

namespace SigningSchema.Source

-- Neither a brace nor a semicolon outside literals.
inductive Flat : List Char → Prop where
  | nil : Flat []
  | char {c : Char} {rest : List Char} (notQuote : isQuote c = false) (notOpen : c ≠ '{')
      (notClose : c ≠ '}') (notEnd : c ≠ ';') (more : Flat rest) : Flat (c :: rest)
  | literal {quote : Char} {content rest : List Char} (quoted : isQuote quote = true)
      (closed : Enclosed quote content) (more : Flat rest) :
      Flat (quote :: (content ++ quote :: rest))

-- Every brace outside literals is that of a block.
inductive Matched : List Char → Prop where
  | nil : Matched []
  | char {c : Char} {rest : List Char} (notQuote : isQuote c = false) (notOpen : c ≠ '{')
      (notClose : c ≠ '}') (more : Matched rest) : Matched (c :: rest)
  | literal {quote : Char} {content rest : List Char} (quoted : isQuote quote = true)
      (closed : Enclosed quote content) (more : Matched rest) :
      Matched (quote :: (content ++ quote :: rest))
  | block {inner rest : List Char} (inside : Matched inner) (more : Matched rest) :
      Matched ('{' :: (inner ++ '}' :: rest))

section Marks

variable {text other rest : List Char} {c : Char}

theorem marks_char (notQuote : isQuote c = false) : Marks [c] [(c, false)] :=
  ⟨rfl, marked_char notQuote⟩

theorem marks_quoted {quote : Char} (quoted : isQuote quote = true) (closed : Enclosed quote text) :
    Marks (quote :: (text ++ [quote])) ((quote :: (text ++ [quote])).map fun c => (c, true)) where
  chars := by simp [Function.comp_def]
  marked := by
    intro rest
    rw [← marked_quoted quoted closed, List.cons_append, List.append_assoc, List.singleton_append]

theorem Flat.marks (flat : Flat text) : ∃ marks, Marks text marks ∧ ∀ c ∈ marks, Calm c := by
  induction flat with
  | nil => exact ⟨[], ⟨rfl, fun _ => rfl⟩, fun _ none => nomatch none⟩
  | char notQuote notOpen notClose notEnd _ ih =>
    obtain ⟨marks, marked, calm⟩ := ih
    exact ⟨_, (marks_char notQuote).append marked,
      List.forall_mem_cons.mpr ⟨.inr ⟨notOpen, notClose, notEnd⟩, calm⟩⟩
  | @literal quote content rest quoted closed _ ih =>
    obtain ⟨marks, marked, calm⟩ := ih
    have whole := (marks_quoted quoted closed).append marked
    rw [List.cons_append, List.append_assoc, List.singleton_append] at whole
    refine ⟨_, whole, List.forall_mem_append.mpr ⟨?_, calm⟩⟩
    exact List.forall_mem_map.mpr fun _ _ => .inl rfl

theorem Matched.marks (matched : Matched text) : ∃ marks, Marks text marks ∧ Nested marks := by
  induction matched with
  | nil => exact ⟨[], ⟨rfl, fun _ => rfl⟩, .nil⟩
  | char notQuote notOpen notClose _ ih =>
    obtain ⟨marks, marked, nested⟩ := ih
    exact ⟨_, (marks_char notQuote).append marked, .inert (.inr ⟨notOpen, notClose⟩) nested⟩
  | @literal quote content rest quoted closed _ ih =>
    obtain ⟨marks, marked, nested⟩ := ih
    have whole := (marks_quoted quoted closed).append marked
    rw [List.cons_append, List.append_assoc, List.singleton_append] at whole
    refine ⟨_, whole, (Nested.of_inert ?_).append nested⟩
    exact List.forall_mem_map.mpr fun _ _ => .inl rfl
  | block _ _ ihInner ih =>
    obtain ⟨inner, markedInner, nestedInner⟩ := ihInner
    obtain ⟨marks, marked, nested⟩ := ih
    have closing := (marks_char (c := '}') rfl).append marked
    exact ⟨_, (marks_char (c := '{') rfl).append (markedInner.append closing), .block nestedInner nested⟩

theorem Flat.append (flat : Flat text) (flatToo : Flat other) : Flat (text ++ other) := by
  induction flat with
  | nil => exact flatToo
  | char notQuote notOpen notClose notEnd _ ih => exact .char notQuote notOpen notClose notEnd ih
  | literal quoted closed _ ih =>
    rw [List.cons_append, List.append_assoc, List.cons_append]
    exact .literal quoted closed ih

theorem flat_blank (blank : Blank text) : Flat text := by
  induction text with
  | nil => exact .nil
  | cons c rest ih =>
    obtain ⟨first, later⟩ := List.forall_mem_cons.mp blank
    exact .char (isQuote_of_class first rfl rfl) (ne_of_class first rfl) (ne_of_class first rfl)
      (ne_of_class first rfl) (ih later)

theorem Flat.matched (flat : Flat text) : Matched text := by
  induction flat with
  | nil => exact .nil
  | char notQuote notOpen notClose _ _ ih => exact .char notQuote notOpen notClose ih
  | literal quoted closed _ ih => exact .literal quoted closed ih

theorem Matched.append (matched : Matched text) (matchedToo : Matched other) : Matched (text ++ other) := by
  induction matched with
  | nil => exact matchedToo
  | char notQuote notOpen notClose _ ih => exact .char notQuote notOpen notClose ih
  | literal quoted closed _ ih =>
    rw [List.cons_append, List.append_assoc, List.cons_append]
    exact .literal quoted closed ih
  | block inside _ _ ih =>
    rw [List.cons_append, List.append_assoc, List.cons_append]
    exact .block inside ih

def isFlat (c : Char) : Bool := !isQuote c && c != '{' && c != '}' && c != ';'

theorem flat_of_all (all : text.all isFlat = true) : Flat text := by
  induction text with
  | nil => exact .nil
  | cons c rest ih =>
    rw [List.all_cons, Bool.and_eq_true] at all
    have here := all.1
    simp only [isFlat, Bool.and_eq_true, bne_iff_ne, Bool.not_eq_true'] at here
    exact .char here.1.1.1 here.1.1.2 here.1.2 here.2 (ih all.2)

theorem flat_token {token : Token} (plain : token.Plain) : Flat token.text := by
  cases token with
  | word w =>
    have dotted := w.dotted
    rw [Token.text]
    generalize w.text = text at dotted
    induction text with
    | nil => exact .nil
    | cons c rest ih =>
      obtain ⟨first, later⟩ := List.forall_mem_cons.mp dotted
      exact .char (isQuote_of_class first rfl rfl) (ne_of_class first rfl) (ne_of_class first rfl)
        (ne_of_class first rfl) (ih later)
  | mark m =>
    obtain ⟨notOpen, notClose, notEnd⟩ := plain
    exact .char m.notQuote (of_decide_eq_false notOpen) (of_decide_eq_false notClose)
      (of_decide_eq_false notEnd) .nil
  | literal l => exact .literal l.quoted l.closed .nil

theorem flat_laid {after : Bool} {tokens : List Token} (laid : Laid Blank after tokens text)
    (plain : ∀ token ∈ tokens, token.Plain) : Flat text := by
  induction laid with
  | nil => exact .nil
  | cons blank _ _ ih =>
    obtain ⟨here, later⟩ := List.forall_mem_cons.mp plain
    exact (flat_blank blank).append ((flat_token here).append (ih later))

end Marks

section Statements

variable {text inner : List Char}

-- Flat text belongs to the statement under way.
theorem Flat.statementsFrom (flat : Flat text) (current rest : List Char) :
    statementsFrom 0 current (marked none (text ++ rest))
      = statementsFrom 0 (text.reverse ++ current) (marked none rest) := by
  obtain ⟨marks, marked, calm⟩ := flat.marks
  rw [marked.marked, statementsFrom_calm calm, marked.chars]

theorem statementsFrom_end (current rest : List Char) :
    statementsFrom 0 current (marked none (';' :: rest))
      = current.reverse :: statementsFrom 0 [] (marked none rest) := by
  rw [marked_char rfl, Source.statementsFrom, if_neg (by decide), if_neg (by decide), if_pos ⟨rfl, rfl⟩]

-- A block ends the statement under way, which is lost.
theorem Matched.statementsFrom (matched : Matched inner) (current rest : List Char) :
    statementsFrom 0 current (marked none ('{' :: (inner ++ '}' :: rest)))
      = statementsFrom 0 [] (marked none rest) := by
  obtain ⟨marks, marked, nested⟩ := matched.marks
  rw [marked_char rfl, Source.statementsFrom, if_pos rfl, marked.marked, statementsFrom_nested nested,
    marked_char rfl, Source.statementsFrom, if_neg (by decide), if_pos rfl, if_pos (Nat.le_refl 1)]

end Statements

end SigningSchema.Source
