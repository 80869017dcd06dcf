import SigningSchema.Proofs.Source.Statements

-- Bodies of messages whose texts differ in what their literals hold. Running through both, the
-- statements directly inside are the same, or they part at a literal in them.

namespace SigningSchema.Source

variable {config : Config}

-- Statements that are read alike.
def Same (config : Config) (statement other : List Char) : Prop :=
  statement = other ∨ Parted config statement other

theorem Same.append {statement other : List Char} (same : Same config statement other)
    (more : List Char) : Same config (statement ++ more) (other ++ more) := by
  rcases same with rfl | parted
  · exact .inl rfl
  · exact .inr (parted.append more)

section Running

variable {before current currentToo : List Char}

theorem statementsFrom_inside (depth : Nat) (current inside : List Char) (rest : List (Char × Bool)) :
    statementsFrom depth current (inside.map (fun c => (c, true)) ++ rest)
      = statementsFrom depth (inside.reverse ++ current) rest := by
  induction inside generalizing current with
  | nil => rfl
  | cons c more ih => rw [List.map_cons, List.cons_append, statementsFrom, ih]; simp

-- What a character outside of literals does to the statements: it ends one, drops one, or belongs to
-- one. A statement directly inside the body goes on exactly where the running statement does.
inductive Step (depth : Nat) (c : Char) : Prop where
  | ends (cut : ∀ before, advance before c = []) (outermost : depth = 0)
      (step : ∀ current rest, statementsFrom depth current ((c, false) :: rest)
        = current.reverse :: statementsFrom 0 [] rest)
  | drops (cut : ∀ before, advance before c = [])
      (step : ∀ current rest, statementsFrom depth current ((c, false) :: rest)
        = statementsFrom 0 [] rest)
  | goesOn (next : Nat) (within : next = 0 → depth = 0 ∧ ∀ before, advance before c = c :: before)
      (step : ∀ current rest, statementsFrom depth current ((c, false) :: rest)
        = statementsFrom next (c :: current) rest)

theorem statementsFrom_step (depth : Nat) (c : Char) : Step depth c := by
  by_cases opens : c = '{'
  · refine .goesOn (depth + 1) (fun none => nomatch none) fun current rest => ?_
    rw [statementsFrom, if_pos opens]
  by_cases closes : c = '}'
  · by_cases outer : depth ≤ 1
    · refine .drops (fun before => if_pos (.inr (.inr closes))) fun current rest => ?_
      rw [statementsFrom, if_neg opens, if_pos closes, if_pos outer]
    · refine .goesOn (depth - 1) (fun none => by omega) fun current rest => ?_
      rw [statementsFrom, if_neg opens, if_pos closes, if_neg outer]
  by_cases ends : c = ';' ∧ depth = 0
  · refine .ends (fun before => if_pos (.inl ends.1)) ends.2 fun current rest => ?_
    rw [statementsFrom, if_neg opens, if_neg closes, if_pos ends]
  · refine .goesOn depth (fun none => ⟨none, fun before => if_neg ?_⟩) fun current rest => ?_
    · rintro (semicolon | opening | closing)
      · exact ends ⟨semicolon, none⟩
      · exact opens opening
      · exact closes closing
    · rw [statementsFrom, if_neg opens, if_neg closes, if_neg ends]

-- From here on the texts are the same.
theorem statementsFrom_tail {depth : Nat}
    (same : depth = 0 → Same config current.reverse currentToo.reverse) (rest : List (Char × Bool)) :
    List.Forall₂ (Same config) (statementsFrom depth current rest)
      (statementsFrom depth currentToo rest) := by
  induction rest generalizing depth current currentToo with
  | nil => exact .nil
  | cons c more ih =>
    have longer : ∀ d, depth = 0 → Same config (d :: current).reverse (d :: currentToo).reverse := by
      intro d outermost
      rw [List.reverse_cons, List.reverse_cons]
      exact (same outermost).append [d]
    obtain ⟨c, literal⟩ := c
    cases literal with
    | true =>
      rw [statementsFrom, statementsFrom]
      exact ih (longer c)
    | false =>
      cases statementsFrom_step depth c with
      | ends _ outermost step =>
        rw [step, step]
        exact .cons (same outermost) (ih fun _ => .inl rfl)
      | drops _ step =>
        rw [step, step]
        exact ih fun _ => .inl rfl
      | goesOn next within step =>
        rw [step, step]
        exact ih fun outermost => longer c (within outermost).1

-- Two running statements: no literal has been closed in them yet, or they have parted.
def Running (config : Config) (before current currentToo : List Char) : Prop :=
  (current = before ∧ currentToo = before ∧ Unquoted before) ∨
    Parted config current.reverse currentToo.reverse

theorem Running.nil : Running config [] [] [] := .inl ⟨rfl, rfl, fun _ none => nomatch none⟩

theorem Running.same (running : Running config before current currentToo) :
    Same config current.reverse currentToo.reverse := by
  rcases running with ⟨rfl, rfl, _⟩ | parted
  · exact .inl rfl
  · exact .inr parted

theorem Running.char (running : Running config before current currentToo) {c : Char}
    (notQuote : isQuote c = false) :
    Running config (c :: before) (c :: current) (c :: currentToo) := by
  rcases running with ⟨rfl, rfl, plain⟩ | parted
  · exact .inl ⟨rfl, rfl, List.forall_mem_cons.mpr ⟨notQuote, plain⟩⟩
  · refine .inr ?_
    rw [List.reverse_cons, List.reverse_cons]
    exact parted.append [c]

theorem Running.literal (running : Running config before current currentToo) {quote : Char}
    {content changed : List Char} (quoted : isQuote quote = true)
    (kept : quote = '"' → Assigns config before → content = changed) :
    Parted config ((quote :: (content ++ [quote])).reverse ++ current).reverse
      ((quote :: (changed ++ [quote])).reverse ++ currentToo).reverse := by
  rw [List.reverse_append, List.reverse_append, List.reverse_reverse, List.reverse_reverse]
  rcases running with ⟨rfl, rfl, plain⟩ | parted
  · refine .parted (fun c inside => plain c (List.mem_reverse.mp inside)) quoted quoted ?_
    intro double assigns
    rw [List.reverse_reverse] at assigns
    exact .inl ⟨kept double assigns, double⟩
  · generalize current.reverse = statement at parted
    generalize currentToo.reverse = other at parted
    cases parted with
    | @parted front first firstToo rest opening last plain opened closes keptToo =>
      have longer : Parted config
          (front ++ opening :: (first ++ last :: (rest ++ quote :: content) ++ quote :: []))
          (front ++ opening :: (firstToo ++ last :: (rest ++ quote :: changed) ++ quote :: [])) := by
        refine .parted plain opened quoted fun double assigns => .inr ?_
        rcases keptToo double assigns with ⟨_, rfl⟩ | ⟨inside, insideToo⟩
        · simp
        · exact ⟨List.mem_append_left _ inside, List.mem_append_left _ insideToo⟩
      simpa using longer

-- By induction on the likeness; only statements directly inside the body have to be related.
theorem Alike.statementsFrom {text other : List Char} (alike : Alike config before text other)
    (depth : Nat) (current currentToo : List Char)
    (running : depth = 0 → Running config before current currentToo) :
    List.Forall₂ (Same config) (statementsFrom depth current (marked none text))
      (statementsFrom depth currentToo (marked none other)) := by
  induction alike generalizing depth current currentToo with
  | refl => exact statementsFrom_tail (fun outermost => (running outermost).same) _
  | @char before c rest other notQuote _ ih =>
    rw [marked_char notQuote, marked_char notQuote]
    cases statementsFrom_step depth c with
    | ends cut outermost step =>
      rw [cut] at ih
      rw [step, step]
      exact .cons (running outermost).same (ih 0 [] [] fun _ => .nil)
    | drops cut step =>
      rw [cut] at ih
      rw [step, step]
      exact ih 0 [] [] fun _ => .nil
    | goesOn next within step =>
      rw [step, step]
      refine ih next _ _ fun outermost => ?_
      obtain ⟨outer, more⟩ := within outermost
      rw [more]
      exact (running outer).char notQuote
  | literal quoted closed closedToo kept _ ih =>
    rw [marked_quoted quoted closed, marked_quoted quoted closedToo, statementsFrom_inside,
      statementsFrom_inside]
    exact ih depth _ _ fun outermost => .inr ((running outermost).literal quoted kept)

end Running

section Bodies

variable {text other : List Char}

-- Statements are read one by one, once they are trimmed.
theorem read_related (config : Config) {related : List Char → List Char → Prop}
    (alike : ∀ statement other, related statement other →
      (Unicode.trim statement).isEmpty = (Unicode.trim other).isEmpty ∧
        Statement.read config (Unicode.trim statement) = Statement.read config (Unicode.trim other))
    {statements others : List (List Char)} (all : List.Forall₂ related statements others) :
    ((statements.map Unicode.trim).filter fun s => !s.isEmpty).map (Statement.read config)
      = ((others.map Unicode.trim).filter fun s => !s.isEmpty).map (Statement.read config) := by
  induction all with
  | nil => rfl
  | cons first _ ih =>
    obtain ⟨empty, same⟩ := alike _ _ first
    simp only [List.map_cons, List.filter_cons, empty]
    split
    · rw [List.map_cons, List.map_cons, ih, same]
    · exact ih

theorem read_same (named : Unquoted config.legacyNameOption.toList)
    {statements others : List (List Char)} (same : List.Forall₂ (Same config) statements others) :
    ((statements.map Unicode.trim).filter fun s => !s.isEmpty).map (Statement.read config)
      = ((others.map Unicode.trim).filter fun s => !s.isEmpty).map (Statement.read config) := by
  refine read_related config (fun statement other same => ?_) same
  rcases same with rfl | parted
  · exact ⟨rfl, rfl⟩
  · obtain ⟨given, givenToo⟩ := parted.given
    exact ⟨given.trans givenToo.symm, parted.read named⟩

-- A message is read alike from both texts.
theorem message_alike (named : Unquoted config.legacyNameOption.toList)
    (alike : Alike config [] text other) (path package : String) (name : List Char) :
    message config path package name (blockBody text)
      = message config path package name (blockBody other) := by
  have same := alike.blockBody.statementsFrom 0 [] [] fun _ => .nil
  rw [Source.message, Source.message, statements, statements, read_same named same]

end Bodies

end SigningSchema.Source
