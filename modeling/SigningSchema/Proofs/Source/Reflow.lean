import SigningSchema.Proofs.Source.Sites
import SigningSchema.Proofs.Source.Spacing

-- Texts that differ in breaks outside of literals, one kind for the other. What is read of a block is
-- the same: its statements differ in such breaks only, and no name and no value of an option holds one.

namespace SigningSchema.Source

open Unicode (isBlank isWord)

variable {config : Config} {text other rest : List Char}

-- A space may become a line break and a line break a space, but not in literals.
def Moves (c : Char × Bool) (d : Char) : Prop :=
  c.1 = d ∨ (c.2 = false ∧ breaks c.1 = true ∧ breaks d = true)

instance (c : Char × Bool) (d : Char) : Decidable (Moves c d) := inferInstanceAs (Decidable (_ ∨ _))

def Relaid (text other : List Char) : Prop := List.Forall₂ Moves (marked none text) other

instance (text other : List Char) : Decidable (Relaid text other) :=
  inferInstanceAs (Decidable (List.Forall₂ _ _ _))

-- The same by literals. The last one may lack its end.
inductive Reflow : List Char → List Char → Prop where
  | nil : Reflow [] []
  | char {c d : Char} {rest other : List Char} (notQuote : isQuote c = false) (same : Respaces c d)
      (more : Reflow rest other) : Reflow (c :: rest) (d :: other)
  | literal {quote : Char} {content rest other : List Char} (quoted : isQuote quote = true)
      (closed : Enclosed quote content) (more : Reflow rest other) :
      Reflow (quote :: (content ++ quote :: rest)) (quote :: (content ++ quote :: other))
  | unclosed {quote : Char} {rest : List Char} (quoted : isQuote quote = true)
      (inside : ∀ c ∈ marked (some quote) rest, c.2 = true) : Reflow (quote :: rest) (quote :: rest)

section Literals

-- A literal is closed somewhere, or it takes the rest of the text.
theorem closed_or_unclosed (quote : Char) (text : List Char) :
    (∃ content rest, text = content ++ quote :: rest ∧ Enclosed quote content) ∨
      ∀ c ∈ marked (some quote) text, c.2 = true := by
  generalize mode : some quote = state
  induction state, text using marked.induct with
  | case1 => exact .inr fun _ none => absurd none List.not_mem_nil
  | case2 => cases mode
  | case3 opener c rest ih =>
    cases mode
    rcases ih rfl with ⟨content, more, rfl, closed⟩ | inside
    · exact .inl ⟨'\\' :: c :: content, more, rfl, .escape c closed⟩
    · refine .inr ?_
      rw [marked]
      exact List.forall_mem_cons.mpr ⟨rfl, List.forall_mem_cons.mpr ⟨rfl, inside⟩⟩
  | case4 opener c rest notEscape ih =>
    cases mode
    by_cases ends : c = quote
    · exact .inl ⟨[], rest, by rw [ends]; rfl, .nil⟩
    · rw [if_neg ends] at ih
      rcases ih rfl with ⟨content, more, rfl, closed⟩ | inside
      · refine .inl ⟨c :: content, more, rfl, .plain ?_ ends closed⟩
        rintro rfl
        cases content with
        | nil => exact notEscape _ _ rfl rfl
        | cons d others => exact notEscape _ _ rfl rfl
      · refine .inr ?_
        rw [marked, if_neg ends]
        · exact List.forall_mem_cons.mpr ⟨rfl, inside⟩
        · exact notEscape

theorem moves_inside {inside : List Char} {marks : List (Char × Bool)}
    (moved : List.Forall₂ Moves (inside.map (fun c => (c, true)) ++ marks) other) :
    ∃ others, other = inside ++ others ∧ List.Forall₂ Moves marks others := by
  induction inside generalizing other with
  | nil => exact ⟨other, rfl, moved⟩
  | cons c more ih =>
    cases moved with
    | cons first later =>
      obtain ⟨others, rfl, moved⟩ := ih later
      rcases first with rfl | ⟨outside, _⟩
      · exact ⟨others, rfl, moved⟩
      · cases outside

theorem marked_unclosed {quote : Char} (quoted : isQuote quote = true)
    (inside : ∀ c ∈ marked (some quote) text, c.2 = true) :
    marked none (quote :: text) = (quote :: text).map fun c => (c, true) := by
  have flagged : ∀ marks : List (Char × Bool), (∀ c ∈ marks, c.2 = true) →
      marks = (marks.map Prod.fst).map fun c => (c, true) := by
    intro marks inside
    induction marks with
    | nil => rfl
    | cons c more ih =>
      obtain ⟨first, later⟩ := List.forall_mem_cons.mp inside
      rw [List.map_cons, List.map_cons, ← ih later, ← first]
  rw [marked, quoted, if_pos rfl, List.map_cons, flagged _ inside, map_marked]

-- By induction on the length: each character, or each literal as a whole.
theorem Relaid.reflow (relaid : Relaid text other) : Reflow text other := by
  generalize length : text.length = n
  induction n using Nat.strong_induction_on generalizing text other with
  | _ n ih =>
    subst length
    cases text with
    | nil =>
      cases relaid
      exact .nil
    | cons c rest =>
      rw [Relaid] at relaid
      cases quoted : isQuote c with
      | false =>
        rw [marked_char quoted] at relaid
        cases relaid with
        | cons first later =>
          exact .char quoted (first.imp_right And.right) (ih rest.length (Nat.lt_succ_self _) later rfl)
      | true =>
        rcases closed_or_unclosed c rest with ⟨content, more, rfl, closed⟩ | inside
        · rw [marked_quoted quoted closed] at relaid
          obtain ⟨others, rfl, later⟩ := moves_inside relaid
          have shorter : more.length < (c :: (content ++ c :: more)).length := by simp; omega
          have reflow := ih more.length shorter later rfl
          rw [List.cons_append, List.append_assoc, List.singleton_append]
          exact .literal quoted closed reflow
        · rw [marked_unclosed quoted inside, ← List.append_nil (List.map _ _)] at relaid
          obtain ⟨others, rfl, later⟩ := moves_inside relaid
          cases later
          rw [List.append_nil]
          exact .unclosed quoted inside

end Literals

section Layout

theorem Respaces.notQuote {c d : Char} (same : Respaces c d) (notQuote : isQuote c = false) :
    isQuote d = false := by
  rw [← same.level isQuote rfl, notQuote]

theorem Reflow.respaced (reflow : Reflow text other) : Respaced text other := by
  induction reflow with
  | nil => exact .nil
  | char _ same _ ih => exact .cons same ih
  | @literal quote content _ _ _ _ _ ih =>
    exact .cons (.refl quote) (List.rel_append (Respaced.refl content) (.cons (.refl quote) ih))
  | unclosed => exact .refl _

-- Both texts have the same literals.
def Level (c d : Char × Bool) : Prop := Respaces c.1 d.1 ∧ c.2 = d.2

theorem Level.refl (marks : List (Char × Bool)) : List.Forall₂ Level marks marks :=
  List.forall₂_same.mpr fun c _ => ⟨.refl c.1, rfl⟩

theorem Reflow.marked (reflow : Reflow text other) :
    List.Forall₂ Level (marked none text) (marked none other) := by
  induction reflow with
  | nil => exact .nil
  | char notQuote same _ ih =>
    rw [marked_char notQuote, marked_char (same.notQuote notQuote)]
    exact .cons ⟨same, rfl⟩ ih
  | literal quoted closed _ ih =>
    rw [marked_quoted quoted closed, marked_quoted quoted closed]
    exact List.rel_append (Level.refl _) ih
  | unclosed => exact Level.refl _

-- Comments begin with marks that stay.
theorem Reflow.strip (reflow : Reflow text other) (plain : stripComments text = text) :
    stripComments other = other := by
  rw [stripComments] at plain ⊢
  induction reflow with
  | nil => rfl
  | @char c d rest other notQuote same more ih =>
    by_cases slash : c = '/'
    · obtain rfl : d = '/' := (same.eq_iff '/' rfl).mp slash
      subst slash
      have related := more.respaced
      cases related with
      | nil => rfl
      | @cons e f others moreOthers here later =>
        have notSlash : e ≠ '/' := by
          rintro rfl
          cases plain
        have notStar : e ≠ '*' := by
          rintro rfl
          cases plain
        have notSlashToo : f ≠ '/' := fun equal => notSlash ((here.eq_iff '/' rfl).mpr equal)
        have notStarToo : f ≠ '*' := fun equal => notStar ((here.eq_iff '*' rfl).mpr equal)
        rw [strip_slash notSlash notStar] at plain
        rw [strip_slash notSlashToo notStarToo, ih (List.cons.inj plain).2]
    · have slashToo : d ≠ '/' := fun equal => slash ((same.eq_iff '/' rfl).mpr equal)
      rw [strip_plain slash notQuote] at plain
      rw [strip_plain slashToo (same.notQuote notQuote), ih (List.cons.inj plain).2]
  | @literal quote content rest other quoted closed more ih =>
    rw [strip_quoted quoted closed] at plain
    have later := List.append_cancel_left (List.cons.inj plain).2
    rw [strip_quoted quoted closed, ih (List.cons.inj later).2]
  | unclosed => exact plain

end Layout

section Blocks

theorem untilClosed_unclosed (depth : Nat) {quote : Char} (quoted : isQuote quote = true)
    (inside : ∀ c ∈ marked (some quote) rest, c.2 = true) :
    untilClosed depth (marked none (quote :: rest)) = quote :: rest := by
  rw [marked_unclosed quoted inside, ← List.append_nil (List.map _ _), untilClosed_inside]
  exact List.append_nil _

theorem Reflow.untilClosed (reflow : Reflow text other) (depth : Nat) :
    Reflow (untilClosed depth (Source.marked none text)) (untilClosed depth (Source.marked none other)) := by
  induction reflow generalizing depth with
  | nil => exact .nil
  | @char c d rest other notQuote same _ ih =>
    rw [marked_char notQuote, marked_char (same.notQuote notQuote), Source.untilClosed,
      Source.untilClosed]
    simp only [← same.eq_iff '{' rfl, ← same.eq_iff '}' rfl]
    split
    · exact .char notQuote same (ih _)
    · split
      · split
        · exact .nil
        · exact .char notQuote same (ih _)
      · exact .char notQuote same (ih _)
  | literal quoted closed _ ih =>
    rw [marked_quoted quoted closed, marked_quoted quoted closed, untilClosed_inside,
      untilClosed_inside, List.cons_append, List.cons_append, List.append_assoc, List.append_assoc]
    exact .literal quoted closed (ih depth)
  | unclosed quoted inside =>
    rw [untilClosed_unclosed depth quoted inside]
    exact .unclosed quoted inside

theorem Reflow.blockBody (reflow : Reflow text other) : Reflow (blockBody text) (blockBody other) :=
  reflow.untilClosed 1

end Blocks

-- Statements, which end outside of literals, from their ends.
inductive Restated : List Char → List Char → Prop where
  | nil : Restated [] []
  | char {c d : Char} {text other : List Char} (notQuote : isQuote c = false) (same : Respaces c d)
      (more : Restated text other) : Restated (text ++ [c]) (other ++ [d])
  | literal {quote : Char} {content text other : List Char} (quoted : isQuote quote = true)
      (more : Restated text other) :
      Restated (text ++ quote :: (content ++ [quote])) (other ++ quote :: (content ++ [quote]))

section Statements

theorem Restated.respaced (restated : Restated text other) : Respaced text other := by
  induction restated with
  | nil => exact .nil
  | char _ same _ ih => exact List.rel_append ih (.cons same .nil)
  | literal _ _ ih => exact List.rel_append ih (Respaced.refl _)

-- Only statements directly inside the body have to be related.
theorem Reflow.statementsFrom (reflow : Reflow text other) (depth : Nat) (current currentToo : List Char)
    (running : depth = 0 → Restated current.reverse currentToo.reverse) :
    List.Forall₂ Restated (statementsFrom depth current (Source.marked none text))
      (statementsFrom depth currentToo (Source.marked none other)) := by
  induction reflow generalizing depth current currentToo with
  | nil => exact .nil
  | @char c d rest other notQuote same _ ih =>
    have longer : depth = 0 → Restated (c :: current).reverse (d :: currentToo).reverse := by
      intro outermost
      rw [List.reverse_cons, List.reverse_cons]
      exact .char notQuote same (running outermost)
    rw [marked_char notQuote, marked_char (same.notQuote notQuote), Source.statementsFrom,
      Source.statementsFrom]
    simp only [← same.eq_iff '{' rfl, ← same.eq_iff '}' rfl, ← same.eq_iff ';' rfl]
    split
    · exact ih (depth + 1) _ _ fun none => absurd none (Nat.succ_ne_zero depth)
    · split
      · split
        · exact ih 0 [] [] fun _ => .nil
        · exact ih (depth - 1) _ _ fun none => by omega
      · split
        · rename_i ends
          exact .cons (running ends.2) (ih 0 [] [] fun _ => .nil)
        · exact ih depth _ _ longer
  | literal quoted closed _ ih =>
    rw [marked_quoted quoted closed, marked_quoted quoted closed, statementsFrom_inside,
      statementsFrom_inside]
    refine ih depth _ _ fun outermost => ?_
    rw [List.reverse_append, List.reverse_append, List.reverse_reverse]
    exact .literal quoted (running outermost)
  | unclosed quoted inside =>
    rw [marked_unclosed quoted inside, ← List.append_nil (List.map _ _), statementsFrom_inside,
      statementsFrom_inside]
    exact .nil

end Statements

section Values

variable {statement value front trail : List Char}

theorem mark?_suffix {mark : Char} (read : mark? mark text = some rest) : rest <:+ text := by
  rw [mark?] at read
  split at read
  · cases read
  · rename_i c more skipped
    split at read
    · cases read
      have within : c :: more <:+ text := skipped ▸ List.dropWhile_suffix _
      exact (List.dropWhile_suffix _).trans ((List.suffix_cons c more).trans within)
    · cases read

theorem optionValue?_some (read : optionValue? text = some value) :
    '"' :: (value ++ ['"']) <:+ text ∧ '"' ∉ value := by
  rw [optionValue?_reads] at read
  obtain ⟨after, marks, assigned⟩ := Option.bind_eq_some_iff.mp read
  obtain ⟨between, closed, equals⟩ := Option.bind_eq_some_iff.mp marks
  have within : after <:+ text := (mark?_suffix equals).trans (mark?_suffix closed)
  unfold assignedText? at assigned
  split at assigned
  · rename_i rest
    rw [optionText?] at assigned
    split at assigned
    · rename_i ends
      cases assigned
      refine ⟨?_, fun inside => absurd (List.mem_takeWhile_imp inside) (by decide)⟩
      rwa [← ends, List.takeWhile_append_dropWhile]
    · cases assigned
  · cases assigned

theorem optionNamed?_some {name : List Char} (read : optionNamed? name text = some value) :
    '"' :: (value ++ ['"']) <:+ text ∧ '"' ∉ value := by
  induction text with
  | nil => cases read
  | cons c more ih =>
    rw [optionNamed?] at read
    rcases Option.or_eq_some_iff.mp read with further | ⟨_, here⟩
    · split at further
      · obtain ⟨within, plain⟩ := ih further
        exact ⟨within.trans (List.suffix_cons c more), plain⟩
      · cases further
    · split at here
      · obtain ⟨within, plain⟩ := optionValue?_some here
        exact ⟨within.trans (List.drop_suffix _ _), plain⟩
      · cases here

-- The value of an option stands between the last two double quotes of its statement.
theorem option?_some {name : String} (read : option? name statement = some value) :
    '"' :: (value ++ ['"']) <:+ statement ∧ '"' ∉ value := by
  rw [option?_reads] at read
  obtain ⟨after, worded, inside⟩ := Option.bind_eq_some_iff.mp read
  unfold optionIn? at inside
  split at inside
  · rename_i rest skipped
    obtain ⟨within, plain⟩ := optionNamed?_some inside
    have opened : '(' :: rest <:+ after := skipped ▸ List.dropWhile_suffix _
    have whole : after <:+ statement := word?_some worded ▸ List.suffix_append _ _
    exact ⟨within.trans ((List.suffix_cons _ rest).trans (opened.trans whole)), plain⟩
  · cases inside

-- Where two characters of a text stand: at the same place, or one after the other.
theorem places {first second firstRest secondRest : List Char} {c d : Char}
    (same : first ++ c :: firstRest = second ++ d :: secondRest) :
    (first = second ∧ c = d ∧ firstRest = secondRest) ∨
      (∃ between, firstRest = between ++ d :: secondRest) ∨
        ∃ between, secondRest = between ++ c :: firstRest := by
  rcases List.append_eq_append_iff.mp same with ⟨between, rfl, tail⟩ | ⟨between, rfl, tail⟩
  · cases between with
    | nil => exact .inl ⟨(List.append_nil _).symm, (List.cons.inj tail).1, (List.cons.inj tail).2⟩
    | cons _ more => exact .inr (.inl ⟨more, (List.cons.inj tail).2⟩)
  · cases between with
    | nil => exact .inl ⟨List.append_nil _, (List.cons.inj tail).1.symm, (List.cons.inj tail).2.symm⟩
    | cons _ more => exact .inr (.inr ⟨more, (List.cons.inj tail).2⟩)

-- The last literals of both are the same, if there are any.
theorem Restated.last (restated : Restated text other) :
    (Unquoted text ∧ Unquoted other) ∨ ∃ first second quote content rest restToo,
      text = first ++ quote :: (content ++ quote :: rest) ∧
        other = second ++ quote :: (content ++ quote :: restToo) ∧ isQuote quote = true ∧
          Unquoted rest ∧ Unquoted restToo := by
  induction restated with
  | nil => exact .inl ⟨(fun _ none => nomatch none), fun _ none => nomatch none⟩
  | @char c d text other notQuote same _ ih =>
    have here : Unquoted [c] := List.forall_mem_singleton.mpr notQuote
    have hereToo : Unquoted [d] := List.forall_mem_singleton.mpr (same.notQuote notQuote)
    rcases ih with ⟨plain, plainToo⟩ | ⟨first, second, quote, content, rest, restToo, rfl, rfl, quoted, plain, plainToo⟩
    · exact .inl ⟨List.forall_mem_append.mpr ⟨plain, here⟩, List.forall_mem_append.mpr ⟨plainToo, hereToo⟩⟩
    · refine .inr ⟨first, second, quote, content, rest ++ [c], restToo ++ [d], by simp, by simp, quoted, ?_, ?_⟩
      · exact List.forall_mem_append.mpr ⟨plain, here⟩
      · exact List.forall_mem_append.mpr ⟨plainToo, hereToo⟩
  | @literal quote content text other quoted _ _ =>
    exact .inr ⟨text, other, quote, content, [], [], rfl, rfl, quoted, (fun _ none => nomatch none),
      fun _ none => nomatch none⟩

-- A text in double quotes at the end of a statement belongs to its last literal.
theorem value_suffix {first content : List Char} {quote : Char} (quoted : isQuote quote = true)
    (rest_plain : Unquoted rest) (trail_plain : Unquoted trail) (plain : '"' ∉ value)
    (same : first ++ quote :: (content ++ quote :: rest) = front ++ '"' :: (value ++ '"' :: trail)) :
    value <:+ content := by
  have absurdly : ∀ {between tail more : List Char} {c : Char}, isQuote c = true → Unquoted tail →
      tail ≠ between ++ c :: more := by
    rintro between tail more c quoted plain rfl
    rw [plain c (List.mem_append_right _ List.mem_cons_self)] at quoted
    cases quoted
  rw [← List.cons_append, ← List.append_assoc, ← List.cons_append, ← List.append_assoc] at same
  rcases places same with ⟨fronts, rfl, _⟩ | ⟨between, equal⟩ | ⟨between, equal⟩
  · rcases places fronts with ⟨_, _, equal⟩ | ⟨between, equal⟩ | ⟨between, equal⟩
    · exact equal ▸ List.suffix_rfl
    · exact equal ▸ (List.suffix_cons _ _).trans (List.suffix_append _ _)
    · exact absurd (equal ▸ List.mem_append_right _ List.mem_cons_self) plain
  · exact absurd equal (absurdly rfl rest_plain)
  · exact absurd equal (absurdly quoted trail_plain)

theorem Restated.same_value (restated : Restated text other) {valueToo frontToo trailToo : List Char}
    (stands : text = front ++ '"' :: (value ++ '"' :: trail))
    (standsToo : other = frontToo ++ '"' :: (valueToo ++ '"' :: trailToo)) (plain : '"' ∉ value)
    (plainToo : '"' ∉ valueToo) (ends : Unquoted trail) (endsToo : Unquoted trailToo)
    (length : value.length = valueToo.length) : value = valueToo := by
  rcases restated.last with ⟨unquoted, _⟩ | ⟨first, second, quote, content, rest, restToo, split, splitToo, quoted,
    last, lastToo⟩
  · have quote := unquoted '"' (stands ▸ List.mem_append_right _ List.mem_cons_self)
    cases quote
  · have suffix := value_suffix quoted last ends plain (split.symm.trans stands)
    have suffixToo := value_suffix quoted lastToo endsToo plainToo (splitToo.symm.trans standsToo)
    exact (List.suffix_of_suffix_length_le suffix suffixToo length.le).eq_of_length length

end Values

section Trimming

theorem Restated.option? {name : String} (unbroken : name.toList.all (fun c => !breaks c) = true)
    (restated : Restated text other) :
    option? name (Unicode.trim text) = option? name (Unicode.trim other) := by
  have related := option?_respaced unbroken (trim_respaced restated.respaced)
  generalize read : Source.option? name (Unicode.trim text) = found at related
  generalize readToo : Source.option? name (Unicode.trim other) = foundToo at related
  cases related with
  | none => rfl
  | @some value valueToo respaced =>
    obtain ⟨⟨front, stands⟩, plain⟩ := option?_some read
    obtain ⟨⟨frontToo, standsToo⟩, plainToo⟩ := option?_some readToo
    obtain ⟨lead, trail, whole, _, blank⟩ := Unicode.trim_split text
    obtain ⟨leadToo, trailToo, wholeToo, _, blankToo⟩ := Unicode.trim_split other
    have unquoted : ∀ {trail}, Blank trail → Unquoted trail :=
      fun blank c inside => isQuote_of_class (blank c inside) rfl rfl
    have split : text = (lead ++ front) ++ '"' :: (value ++ '"' :: trail) :=
      whole.trans (by rw [← stands]; simp)
    have splitToo : other = (leadToo ++ frontToo) ++ '"' :: (valueToo ++ '"' :: trailToo) :=
      wholeToo.trans (by rw [← standsToo]; simp)
    rw [restated.same_value split splitToo plain plainToo (unquoted blank) (unquoted blankToo)
      respaced.length_eq]

theorem Restated.read (unbroken : config.legacyNameOption.toList.all (fun c => !breaks c) = true)
    (restated : Restated text other) :
    Statement.read config (Unicode.trim text) = Statement.read config (Unicode.trim other) := by
  rw [Statement.read, Statement.read, field?_respaced (trim_respaced restated.respaced),
    restated.option? unbroken]

end Trimming

section Messages

-- A message is read alike from both texts.
theorem message_reflow (unbroken : config.legacyNameOption.toList.all (fun c => !breaks c) = true)
    (reflow : Reflow text other) (path package : String) (name : List Char) :
    message config path package name (blockBody text)
      = message config path package name (blockBody other) := by
  have restated := reflow.blockBody.statementsFrom 0 [] [] fun _ => .nil
  have read := read_related config (fun _ _ restated =>
    ⟨isEmpty_respaced (trim_respaced restated.respaced), restated.read unbroken⟩) restated
  rw [Source.message, Source.message, statements, statements, read]

end Messages

end SigningSchema.Source
