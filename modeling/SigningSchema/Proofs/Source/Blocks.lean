import SigningSchema.Proofs.Source.Openings
import SigningSchema.Proofs.Text

-- Bodies of blocks and the statements in them, in a text that is laid out of tokens. Braces in
-- literals do not count, and blocks inside a body are passed over as a whole.

namespace SigningSchema.Source

open Unicode (isBlank isWord)

-- Marked characters that neither open nor close a block.
def Inert (c : Char × Bool) : Prop := c.2 = true ∨ (c.1 ≠ '{' ∧ c.1 ≠ '}')

-- And that do not end a statement either.
def Calm (c : Char × Bool) : Prop := c.2 = true ∨ (c.1 ≠ '{' ∧ c.1 ≠ '}' ∧ c.1 ≠ ';')

theorem Calm.inert {c : Char × Bool} (calm : Calm c) : Inert c :=
  Or.imp_right (fun plain => ⟨plain.1, plain.2.1⟩) calm

-- Marked characters whose blocks are all closed.
inductive Nested : List (Char × Bool) → Prop where
  | nil : Nested []
  | inert {c : Char × Bool} {rest : List (Char × Bool)} (plain : Inert c) (more : Nested rest) :
      Nested (c :: rest)
  | block {inner rest : List (Char × Bool)} (inside : Nested inner) (more : Nested rest) :
      Nested (('{', false) :: (inner ++ ('}', false) :: rest))

section Nesting

variable {text rest : List (Char × Bool)}

theorem Nested.of_inert (all : ∀ c ∈ text, Inert c) : Nested text := by
  induction text with
  | nil => exact .nil
  | cons c more ih =>
    obtain ⟨first, later⟩ := List.forall_mem_cons.mp all
    exact .inert first (ih later)

theorem Nested.append (first : Nested text) (second : Nested rest) : Nested (text ++ rest) := by
  induction first with
  | nil => exact second
  | inert plain _ ih => exact .inert plain ih
  | block inside _ _ ih =>
    rw [List.cons_append, List.append_assoc, List.cons_append]
    exact .block inside ih

theorem untilClosed_nested (nested : Nested text) (depth : Nat) (rest : List (Char × Bool)) :
    untilClosed (depth + 1) (text ++ rest) = text.map Prod.fst ++ untilClosed (depth + 1) rest := by
  induction nested generalizing depth rest with
  | nil => rfl
  | @inert c more plain _ ih =>
    obtain ⟨c, literal⟩ := c
    cases literal with
    | true => rw [List.cons_append, untilClosed, ih]; rfl
    | false =>
      have brace := plain.resolve_left Bool.false_ne_true
      rw [List.cons_append, untilClosed, if_neg brace.1, if_neg brace.2, ih]
      rfl
  | @block inner more _ _ ihInner ih =>
    rw [List.cons_append, List.append_assoc, List.cons_append, untilClosed, if_pos rfl, ihInner,
      untilClosed, if_neg (by decide), if_pos rfl, if_neg (by omega), Nat.add_sub_cancel, ih]
    simp

theorem statementsFrom_nested (nested : Nested text) (depth : Nat) (current : List Char)
    (rest : List (Char × Bool)) :
    statementsFrom (depth + 1) current (text ++ rest)
      = statementsFrom (depth + 1) ((text.map Prod.fst).reverse ++ current) rest := by
  induction nested generalizing depth current rest with
  | nil => rfl
  | @inert c more plain _ ih =>
    obtain ⟨c, literal⟩ := c
    cases literal with
    | true => rw [List.cons_append, statementsFrom, ih]; simp
    | false =>
      have brace := plain.resolve_left Bool.false_ne_true
      rw [List.cons_append, statementsFrom, if_neg brace.1, if_neg brace.2,
        if_neg (fun both => Nat.succ_ne_zero depth both.2), ih]
      simp
  | @block inner more _ _ ihInner ih =>
    rw [List.cons_append, List.append_assoc, List.cons_append, statementsFrom, if_pos rfl, ihInner,
      statementsFrom, if_neg (by decide), if_pos rfl, if_neg (by omega), Nat.add_sub_cancel, ih]
    simp

theorem statementsFrom_calm (all : ∀ c ∈ text, Calm c) (current : List Char)
    (rest : List (Char × Bool)) :
    statementsFrom 0 current (text ++ rest)
      = statementsFrom 0 ((text.map Prod.fst).reverse ++ current) rest := by
  induction text generalizing current with
  | nil => rfl
  | cons c more ih =>
    obtain ⟨first, later⟩ := List.forall_mem_cons.mp all
    obtain ⟨c, literal⟩ := c
    cases literal with
    | true => rw [List.cons_append, statementsFrom, ih later]; simp
    | false =>
      have plain := first.resolve_left Bool.false_ne_true
      rw [List.cons_append, statementsFrom, if_neg plain.1, if_neg plain.2.1,
        if_neg (fun both => plain.2.2 both.1), ih later]
      simp

end Nesting

namespace Token

def isMark (c : Char) : Token → Bool
  | mark m => m.char = c
  | _ => false

-- Neither a brace nor a semicolon.
def Plain (token : Token) : Prop :=
  token.isMark '{' = false ∧ token.isMark '}' = false ∧ token.isMark ';' = false

def marks : Token → List (Char × Bool)
  | word w => w.text.map fun c => (c, false)
  | mark m => [(m.char, false)]
  | literal l => (l.quote :: (l.content ++ [l.quote])).map fun c => (c, true)

theorem map_marks (token : Token) : token.marks.map Prod.fst = token.text := by
  cases token <;> simp [marks, text, Function.comp_def]

theorem marks_cases {token : Token} {c : Char × Bool} (inside : c ∈ token.marks) :
    c.2 = true ∨ isDotted c.1 = true ∨ token.isMark c.1 = true := by
  cases token with
  | word w =>
    obtain ⟨d, member, rfl⟩ := List.mem_map.mp inside
    exact .inr (.inl (w.dotted d member))
  | mark m =>
    rw [List.mem_singleton.mp inside]
    exact .inr (.inr (decide_eq_true rfl))
  | literal l =>
    obtain ⟨d, _, rfl⟩ := List.mem_map.mp inside
    exact .inl rfl

-- A character that is neither of a word nor the mark of the token is not among its characters.
theorem marks_ne {token : Token} {c : Char × Bool} (inside : c ∈ token.marks) {mark : Char}
    (other : token.isMark mark = false) (notDotted : isDotted mark = false) :
    c.2 = true ∨ c.1 ≠ mark := by
  rcases marks_cases inside with literal | dotted | here
  · exact .inl literal
  · exact .inr (ne_of_class dotted notDotted)
  · refine .inr ?_
    rintro rfl
    rw [here] at other
    cases other

theorem marks_inert {token : Token} (notOpen : token.isMark '{' = false)
    (notClose : token.isMark '}' = false) : ∀ c ∈ token.marks, Inert c := by
  intro c inside
  rcases marks_ne inside notOpen rfl with literal | open_
  · exact .inl literal
  · exact (marks_ne inside notClose rfl).imp_right fun close => ⟨open_, close⟩

theorem marks_calm {token : Token} (plain : token.Plain) : ∀ c ∈ token.marks, Calm c := by
  intro c inside
  rcases marks_inert plain.1 plain.2.1 c inside with literal | braces
  · exact .inl literal
  · exact (marks_ne inside plain.2.2 rfl).imp_right fun semicolon => ⟨braces.1, braces.2, semicolon⟩

end Token

section Marking

variable {text : List Char}

theorem marked_plain (all : ∀ c ∈ text, isQuote c = false) (rest : List Char) :
    marked none (text ++ rest) = text.map (fun c => (c, false)) ++ marked none rest := by
  induction text with
  | nil => rfl
  | cons c more ih =>
    obtain ⟨first, later⟩ := List.forall_mem_cons.mp all
    rw [List.cons_append, marked, first, if_neg Bool.false_ne_true, ih later]
    rfl

theorem marked_literal {quote : Char} (quoted : isQuote quote = true) (closed : Enclosed quote text)
    (rest : List Char) :
    marked (some quote) (text ++ quote :: rest)
      = (text ++ [quote]).map (fun c => (c, true)) ++ marked none rest := by
  have plain : quote ≠ '\\' := ne_of_class quoted rfl
  induction closed with
  | nil =>
    rw [List.nil_append, marked, if_pos rfl]
    · rfl
    · rintro _ _ rfl
      exact absurd rfl plain
  | escape c more ih =>
    rw [List.cons_append, List.cons_append, marked, ih]
    rfl
  | plain notEscape notQuote more ih =>
    rw [List.cons_append, marked, if_neg notQuote, ih]
    · rfl
    · rintro _ _ rfl
      exact absurd rfl notEscape

theorem marked_blank (blank : Blank text) (rest : List Char) :
    marked none (text ++ rest) = text.map (fun c => (c, false)) ++ marked none rest :=
  marked_plain (fun c inside => isQuote_of_class (blank c inside) rfl rfl) rest

theorem marked_token (token : Token) (rest : List Char) :
    marked none (token.text ++ rest) = token.marks ++ marked none rest := by
  cases token with
  | word w => exact marked_plain (fun c inside => isQuote_of_class (w.dotted c inside) rfl rfl) rest
  | mark m =>
    refine marked_plain (fun c inside => ?_) rest
    rw [List.mem_singleton.mp inside]
    exact m.notQuote
  | literal l =>
    rw [Token.text, List.cons_append, List.append_assoc, List.singleton_append, marked, l.quoted,
      if_pos rfl, marked_literal l.quoted l.closed]
    rfl

theorem calm_blank (blank : Blank text) : ∀ c ∈ text.map (fun c => (c, false)), Calm c := by
  intro c inside
  obtain ⟨d, member, rfl⟩ := List.mem_map.mp inside
  have white := blank d member
  exact .inr ⟨ne_of_class white rfl, ne_of_class white rfl, ne_of_class white rfl⟩

end Marking

-- Tokens whose blocks are all closed.
inductive Balanced : List Token → Prop where
  | nil : Balanced []
  | plain {token : Token} {rest : List Token} (notOpen : token.isMark '{' = false)
      (notClose : token.isMark '}' = false) (more : Balanced rest) : Balanced (token :: rest)
  | block {first last : Token} {inner rest : List Token} (opens : first.isMark '{' = true)
      (inside : Balanced inner) (closes : last.isMark '}' = true) (more : Balanced rest) :
      Balanced (first :: (inner ++ last :: rest))

-- The marked characters of a part of a text that no literal is open before or after.
structure Marks (text : List Char) (marks : List (Char × Bool)) : Prop where
  chars : marks.map Prod.fst = text
  marked : ∀ rest, Source.marked none (text ++ rest) = marks ++ Source.marked none rest

theorem Marks.append {one other : List Char} {marks others : List (Char × Bool)}
    (first : Marks one marks) (second : Marks other others) :
    Marks (one ++ other) (marks ++ others) where
  chars := by rw [List.map_append, first.chars, second.chars]
  marked := by
    intro rest
    rw [List.append_assoc, first.marked, second.marked, List.append_assoc]

theorem marks_blank {text : List Char} (blank : Blank text) :
    Marks text (text.map fun c => (c, false)) :=
  ⟨by simp [Function.comp_def], marked_blank blank⟩

theorem marks_token (token : Token) : Marks token.text token.marks :=
  ⟨token.map_marks, marked_token token⟩

section Bodies

variable {after : Bool} {tokens : List Token} {text : List Char}

theorem calm_laid (laid : Laid Blank after tokens text) (plain : ∀ token ∈ tokens, token.Plain) :
    ∃ marks, Marks text marks ∧ ∀ c ∈ marks, Calm c := by
  induction laid with
  | nil => exact ⟨[], ⟨rfl, fun _ => rfl⟩, fun _ none => nomatch none⟩
  | cons blank _ _ ih =>
    obtain ⟨here, later⟩ := List.forall_mem_cons.mp plain
    obtain ⟨marks, marked, calm⟩ := ih later
    refine ⟨_, (marks_blank blank).append ((marks_token _).append marked), ?_⟩
    exact List.forall_mem_append.mpr
      ⟨calm_blank blank, List.forall_mem_append.mpr ⟨Token.marks_calm here, calm⟩⟩

theorem nested_blank {text : List Char} (blank : Blank text) :
    Nested (text.map fun c => (c, false)) :=
  .of_inert fun c inside => (calm_blank blank c inside).inert

theorem mark_of_isMark {token : Token} {c : Char} (here : token.isMark c = true) :
    token.isWord = false ∧ token.text = [c] ∧ token.marks = [(c, false)] := by
  cases token with
  | mark m =>
    rw [Token.isMark, decide_eq_true_eq] at here
    exact ⟨rfl, congrArg (fun c => [c]) here, congrArg (fun c => [(c, false)]) here⟩
  | word _ => cases here
  | literal _ => cases here

theorem nested_laid (laid : Laid Blank after tokens text) (balanced : Balanced tokens) :
    ∃ marks, Marks text marks ∧ Nested marks := by
  induction balanced generalizing after text with
  | nil =>
    cases laid
    exact ⟨[], ⟨rfl, fun _ => rfl⟩, .nil⟩
  | plain notOpen notClose _ ih =>
    cases laid with
    | cons blank _ laid =>
      obtain ⟨marks, marked, nested⟩ := ih laid
      refine ⟨_, (marks_blank blank).append ((marks_token _).append marked), ?_⟩
      exact (nested_blank blank).append
        ((Nested.of_inert (Token.marks_inert notOpen notClose)).append nested)
  | @block first last _ _ opens _ closes _ ihInner ih =>
    cases laid with
    | cons blank _ laid =>
      obtain ⟨inside, more, rfl, inner, rest⟩ := laid.split
      cases rest with
      | cons blankToo _ rest =>
        obtain ⟨marks, marked, nested⟩ := ihInner inner
        obtain ⟨others, markedToo, nestedToo⟩ := ih rest
        have ending := (marks_blank blankToo).append ((marks_token last).append markedToo)
        refine ⟨_, (marks_blank blank).append ((marks_token first).append (marked.append ending)), ?_⟩
        rw [(mark_of_isMark opens).2.2, (mark_of_isMark closes).2.2, List.singleton_append,
          List.singleton_append, ← List.append_assoc marks]
        exact (nested_blank blank).append
          (.block (nested.append (nested_blank blankToo)) nestedToo)

-- A statement ends at its semicolon.
theorem statements_clause {clause rest : List Token} {last : Token}
    (plain : ∀ token ∈ clause, token.Plain) (ends : last.isMark ';' = true)
    (laid : Laid Blank after (clause ++ last :: rest) text) :
    ∃ first blanks body, Laid Blank after clause first ∧ Blank blanks ∧ Laid Blank false rest body ∧
      ∀ tail, statementsFrom 0 [] (marked none (text ++ tail))
        = (first ++ blanks) :: statementsFrom 0 [] (marked none (body ++ tail)) := by
  obtain ⟨first, others, rfl, inside, more⟩ := laid.split
  cases more with
  | @cons _ _ _ blanks body blank _ more =>
    rw [(mark_of_isMark ends).1] at more
    obtain ⟨marks, marked, calm⟩ := calm_laid inside plain
    refine ⟨first, blanks, body, inside, blank, more, fun tail => ?_⟩
    have gap := marks_blank blank
    rw [List.append_assoc, List.append_assoc, List.append_assoc, marked.marked, gap.marked,
      marked_token, (mark_of_isMark ends).2.2, statementsFrom_calm calm,
      statementsFrom_calm (calm_blank blank), marked.chars, gap.chars, List.singleton_append,
      statementsFrom, if_neg (by decide), if_neg (by decide), if_pos ⟨rfl, rfl⟩]
    simp

-- A block is dropped, with what came before its brace.
theorem statements_block {header inner rest : List Token} {first last : Token}
    (plain : ∀ token ∈ header, token.Plain) (opens : first.isMark '{' = true)
    (balanced : Balanced inner) (closes : last.isMark '}' = true)
    (laid : Laid Blank after (header ++ first :: (inner ++ last :: rest)) text) :
    ∃ body, Laid Blank false rest body ∧
      ∀ tail, statementsFrom 0 [] (marked none (text ++ tail))
        = statementsFrom 0 [] (marked none (body ++ tail)) := by
  obtain ⟨before, others, rfl, head, more⟩ := laid.split
  cases more with
  | @cons _ _ _ blanks _ blank _ more =>
    obtain ⟨inside, ending, rfl, insideLaid, closing⟩ := more.split
    cases closing with
    | @cons _ _ _ blanksToo body blankToo _ following =>
      rw [(mark_of_isMark closes).1] at following
      obtain ⟨marks, marked, calm⟩ := calm_laid head plain
      obtain ⟨others, markedToo, nested⟩ := nested_laid insideLaid balanced
      refine ⟨body, following, fun tail => ?_⟩
      have gap := marks_blank blank
      have gapToo := marks_blank blankToo
      simp only [List.append_assoc]
      rw [marked.marked, gap.marked, marked_token, (mark_of_isMark opens).2.2, markedToo.marked,
        gapToo.marked, marked_token, (mark_of_isMark closes).2.2, statementsFrom_calm calm,
        statementsFrom_calm (calm_blank blank), List.singleton_append, List.singleton_append,
        statementsFrom, if_pos rfl, statementsFrom_nested nested,
        statementsFrom_nested (nested_blank blankToo), statementsFrom, if_neg (by decide),
        if_pos rfl, if_pos (Nat.le_refl 1)]

end Bodies

section Trimming

theorem Token.getLast?_text (token : Token) :
    ∃ c, token.text.getLast? = some c ∧ isBlank c = false := by
  cases token with
  | word w =>
    refine ⟨w.text.getLast w.given, List.getLast?_eq_some_getLast w.given, ?_⟩
    exact dotted_notBlank (w.dotted _ (List.getLast_mem w.given))
  | mark m => exact ⟨m.char, rfl, m.notBlank⟩
  | literal l =>
    refine ⟨l.quote, ?_, isQuote_notBlank l.quoted⟩
    rw [Token.text, ← List.cons_append]
    exact List.getLast?_concat

theorem Laid.getLast? {after : Bool} {tokens : List Token} {text : List Char}
    (laid : Laid Blank after tokens text) : ∀ c ∈ text.getLast?, isBlank c = false := by
  induction laid with
  | nil => exact fun _ none => nomatch none
  | @cons _ token _ gap more _ _ _ ih =>
    intro c last
    obtain ⟨d, ends, notBlank⟩ := token.getLast?_text
    rw [List.getLast?_append, List.getLast?_append, ends] at last
    cases later : more.getLast? with
    | none =>
      rw [later] at last
      cases last
      exact notBlank
    | some e =>
      rw [later] at last
      cases last
      exact ih c later

-- Trimming leaves the tokens with the gaps between them.
theorem trim_laid {after : Bool} {token : Token} {rest : List Token} {text blanks : List Char}
    (laid : Laid Blank after (token :: rest) text) (blank : Blank blanks) :
    ∃ more, Laid Blank token.isWord rest more ∧
      Unicode.trim (text ++ blanks) = token.text ++ more := by
  cases laid with
  | @cons _ _ _ gap more spaced _ laid =>
    have alone : Laid Blank false (token :: rest) ([] ++ (token.text ++ more)) :=
      .cons .nil (fun word => nomatch word) laid
    refine ⟨more, laid, ?_⟩
    have front : ((gap ++ (token.text ++ more)) ++ blanks).dropWhile isBlank
        = (token.text ++ more) ++ blanks := by
      have kept := skipBlanks_token spaced token (more ++ blanks)
      rw [List.append_assoc, List.append_assoc]
      exact kept
    rw [Unicode.trim, front]
    exact Unicode.dropWhile_reverse_append blank alone.getLast?

end Trimming

end SigningSchema.Source
