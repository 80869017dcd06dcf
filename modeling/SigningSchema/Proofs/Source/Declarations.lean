import SigningSchema.Proofs.Source.Messages

-- Which declarations the tokens of a file open: pairs of words before a mark are looked for clause by
-- clause and block by block, since none reaches over a mark.

namespace SigningSchema.Source

open Unicode (isBlank isWord)

section Pairs

variable {c : Char}

-- A pair where more tokens follow.
def extended (rest : List Token) (pair : List Char × List Char × List Token) :
    List Char × List Char × List Token :=
  (pair.1, pair.2.1, pair.2.2 ++ rest)

theorem pairAt?_mark (token : Token) (tokens : List Token) (mark : Mark) (rest : List Token) :
    pairAt? c (token :: (tokens ++ .mark mark :: rest))
      = (pairAt? c (token :: (tokens ++ [.mark mark]))).map (extended rest) := by
  rcases token with first | _ | _
  · rcases tokens with _ | ⟨second | _ | _, _ | ⟨third | m | _, more⟩⟩
    all_goals simp only [List.nil_append, List.cons_append, pairAt?, afterMark?, Option.map_none]
    · split <;> rfl
    · split
      · simp [extended]
      · rfl
  · rfl
  · rfl

-- Up to a mark, and after it.
theorem pairs_mark (tokens : List Token) (mark : Mark) (rest : List Token) :
    pairs c (tokens ++ .mark mark :: rest)
      = (pairs c (tokens ++ [.mark mark])).map (extended rest) ++ pairs c rest := by
  induction tokens with
  | nil => rfl
  | cons token more ih =>
    rw [List.cons_append, List.cons_append, pairs, pairs, pairAt?_mark, ih, List.map_append,
      List.append_assoc]
    cases pairAt? c (token :: (more ++ [.mark mark])) <;> rfl

theorem pairAt?_concat (token : Token) (tokens : List Token) {mark : Mark} (differs : mark.char ≠ c) :
    pairAt? c (token :: (tokens ++ [.mark mark]))
      = (pairAt? c (token :: tokens)).map (extended [.mark mark]) := by
  rcases token with first | _ | _
  · rcases tokens with _ | ⟨second | _ | _, _ | ⟨third | m | _, more⟩⟩
    all_goals simp only [List.nil_append, List.cons_append, pairAt?, afterMark?, Option.map_none]
    · rw [if_neg differs]
      rfl
    · split
      · simp [extended]
      · rfl
  · rfl
  · rfl

theorem pairs_concat (tokens : List Token) {mark : Mark} (differs : mark.char ≠ c) :
    pairs c (tokens ++ [.mark mark]) = (pairs c tokens).map (extended [.mark mark]) := by
  induction tokens with
  | nil => rfl
  | cons token more ih =>
    rw [List.cons_append, pairs, pairs, pairAt?_concat token more differs, ih, List.map_append]
    cases pairAt? c (token :: more) <;> rfl

theorem pairs_unmarked {tokens : List Token} (none : ∀ token ∈ tokens, token.isMark c = false) :
    pairs c tokens = [] := by
  induction tokens with
  | nil => rfl
  | cons token rest ih =>
    obtain ⟨_, later⟩ := List.forall_mem_cons.mp none
    have nothing : pairAt? c (token :: rest) = Option.none := by
      rcases token with first | _ | _
      · rcases rest with _ | ⟨second | _ | _, _ | ⟨third | m | _, more⟩⟩
        all_goals simp only [pairAt?, afterMark?, Option.map_none]
        have other := later (.mark m) (by simp)
        rw [Token.isMark, decide_eq_false_iff_not] at other
        rw [if_neg other]
        rfl
      · rfl
      · rfl
    rw [pairs, nothing, ih later]
    rfl

end Pairs

-- Tokens that a search passes over.
def Skips {α : Type} (find : List Token → List α) (tokens : List Token) : Prop :=
  ∀ rest, find (tokens ++ rest) = find rest

section Skipping

variable {α : Type} {find : List Token → List α} {keyword : String} {c : Char}

theorem Skips.nil : Skips find [] := fun _ => rfl

theorem Skips.append {first second : List Token} (one : Skips find first) (other : Skips find second) :
    Skips find (first ++ second) := by
  intro rest
  rw [List.append_assoc, one, other]

theorem Skips.clause {clause rest : List Token} (one : Skips find (clause ++ [.mark .semicolon]))
    (more : Skips find rest) : Skips find (clause ++ .mark .semicolon :: rest) := by
  rw [List.append_cons]
  exact one.append more

theorem Skips.clauses {all : List (List Token)}
    (each : ∀ clause ∈ all, Skips find (clause ++ [.mark .semicolon])) : Skips find (clauses all) := by
  induction all with
  | nil => exact .nil
  | cons clause rest ih =>
    obtain ⟨first, later⟩ := List.forall_mem_cons.mp each
    exact first.append (ih later)

theorem skips_pairs {tokens : List Token} {mark : Mark}
    (none : pairs c (tokens ++ [.mark mark]) = []) : Skips (pairs c) (tokens ++ [.mark mark]) := by
  intro rest
  rw [List.append_assoc, List.singleton_append, pairs_mark, none]
  rfl

theorem skips_unmarked {tokens : List Token} {mark : Mark}
    (none : ∀ token ∈ tokens, token.isMark c = false) (other : mark.char ≠ c) :
    Skips (pairs c) (tokens ++ [.mark mark]) := by
  refine skips_pairs (pairs_unmarked (List.forall_mem_append.mpr ⟨none, ?_⟩))
  exact List.forall_mem_singleton.mpr (decide_eq_false other)

theorem Skips.openings {tokens : List Token} (skips : Skips (pairs c) tokens) :
    Skips (openings keyword c) tokens :=
  fun rest => congrArg (List.filterMap (opensWith? keyword)) (skips rest)

theorem opensWith?_extended (rest : List Token) (pair : List Char × List Char × List Token) :
    opensWith? keyword (extended rest pair)
      = (opensWith? keyword pair).map fun found => (found.1, found.2 ++ rest) := by
  cases opens : (endsIn keyword.toList false pair.1 && pair.2.1.all isWord) <;>
    simp [opensWith?, extended, opens]

theorem openings_mark (tokens : List Token) (mark : Mark) (rest : List Token) :
    openings keyword c (tokens ++ .mark mark :: rest)
      = (openings keyword c (tokens ++ [.mark mark])).map (fun found => (found.1, found.2 ++ rest))
        ++ openings keyword c rest := by
  rw [openings, pairs_mark, List.filterMap_append, List.filterMap_map, openings, openings,
    List.map_filterMap]
  congr 1
  exact List.filterMap_congr fun pair _ => opensWith?_extended rest pair

theorem skips_openings {tokens : List Token} {mark : Mark} (differs : mark.char ≠ c)
    (none : openings keyword c tokens = []) :
    Skips (openings keyword c) (tokens ++ [.mark mark]) := by
  have nothing : openings keyword c (tokens ++ [.mark mark]) = [] := by
    rw [openings, pairs_concat tokens differs, List.filterMap_map, List.filterMap_eq_nil_iff]
    rw [openings, List.filterMap_eq_nil_iff] at none
    intro pair inside
    rw [Function.comp_apply, opensWith?_extended, none pair inside]
    rfl
  intro rest
  rw [List.append_assoc, List.singleton_append, openings_mark, nothing]
  rfl

end Skipping

-- A search for pairs before a mark that finds none in lists of options.
structure Search {α : Type} (find : List Token → List α) (c : Char) : Prop where
  equals : '=' ≠ c
  pairs : ∀ tokens, Skips (pairs c) tokens → Skips find tokens
  options : ∀ options : Options, Skips find (options.tokens ++ [.mark .closeBracket])

theorem search_headers (keyword : String) : Search (openings keyword '{') '{' where
  equals := by decide
  pairs := fun _ => Skips.openings
  options := fun options =>
    (skips_unmarked (fun token inside => (options.plain token inside).1) (by decide)).openings

theorem search_calls : Search (openings "rpc" '(') '(' where
  equals := by decide
  pairs := fun _ => Skips.openings
  options := fun options => skips_openings (by decide) options.calls

theorem search_statements : Search (pairs ';') ';' where
  equals := by decide
  pairs := fun _ => id
  options := fun options =>
    skips_unmarked (fun token inside => (options.plain token inside).2.2) (by decide)

section Clauses

variable {α : Type} {find : List Token → List α} {c : Char} (search : Search find c)

include search

-- A token that is no word keeps what follows apart, and so does one word alone.
theorem Search.mark (mark : Mark) : Skips find [.mark mark] :=
  search.pairs [.mark mark] (@skips_pairs c [] mark rfl)

theorem Search.word (word : Word) (mark : Mark) : Skips find [.word word, .mark mark] :=
  search.pairs [.word word, .mark mark] (@skips_pairs c [.word word] mark rfl)

theorem Search.literal (literal : Literal) (mark : Mark) : Skips find [.literal literal, .mark mark] :=
  search.pairs [.literal literal, .mark mark] (@skips_pairs c [.literal literal] mark rfl)

theorem Search.words {words : List Token} (all : ∀ token ∈ words, token.isWord = true) (mark : Mark)
    (other : mark.char ≠ c) : Skips find (words ++ [.mark mark]) := by
  refine search.pairs _ (skips_unmarked (fun token inside => ?_) other)
  have word := all token inside
  cases token with
  | word _ => rfl
  | mark _ => cases word
  | literal _ => cases word

theorem Search.pair (first second : Word) (mark : Mark) (other : mark.char ≠ c) :
    Skips find [.word first, .word second, .mark mark] :=
  search.words (List.forall_mem_cons.mpr ⟨rfl, List.forall_mem_singleton.mpr rfl⟩) mark other

theorem Search.bracketed (word : Word) (options : Option Options) :
    Skips find (.word word :: (Options.bracketed options ++ [.mark .semicolon])) := by
  cases options with
  | none => exact search.word word .semicolon
  | some options =>
    have whole := (search.word word .openBracket).append
      ((search.options options).append (search.mark .semicolon))
    simpa [Options.bracketed] using whole

theorem Search.field (field : FieldClause) : Skips find (field.tokens ++ [.mark .semicolon]) := by
  have labelled : ∀ token ∈ field.label.tokens ++ [.word field.type.word, .word field.name.word],
      token.isWord = true := by
    cases field.label <;> simp [Label.tokens, Token.isWord]
  have whole := (search.words labelled .equals search.equals).append
    (search.bracketed (numeral field.tag.toNat) field.options)
  simpa [FieldClause.tokens] using whole

theorem Search.value (value : EnumValue) : Skips find (value.tokens ++ [.mark .semicolon]) := by
  have signed : Skips find (if value.negative then [Token.mark .minus] else []) := by
    cases value.negative with
    | false => exact .nil
    | true => exact search.mark .minus
  have whole := (search.word value.name.word .equals).append
    (signed.append (search.bracketed (numeral value.number) value.options))
  simpa [EnumValue.tokens] using whole

theorem Search.legacyName (name : TypeName) (value : LegacyValue) :
    Skips find (legacyClause name value ++ [.mark .semicolon]) :=
  (search.word .option .openParen).append ((search.word name.word .closeParen).append
    ((search.mark .equals).append (search.literal value.literal .semicolon)))

end Clauses

-- Blocks and calls are passed over where another mark is looked for.
section Blocks

variable {α : Type} {find : List Token → List α} {c : Char}

theorem Skips.block {keyword : Word} {name : Name} {inner rest : List Token}
    (header : Skips find [.word keyword, .word name.word, .mark .openBrace])
    (inside : Skips find inner) (close : Skips find [.mark .closeBrace]) (more : Skips find rest) :
    Skips find (block keyword name inner rest) := by
  have whole := header.append (inside.append (close.append more))
  simpa [Source.block] using whole

theorem Search.header (search : Search find c) (brace : '{' ≠ c) (keyword : Word) (name : Name) :
    Skips find [.word keyword, .word name.word, .mark .openBrace] :=
  search.pair keyword name.word .openBrace brace

theorem Search.values (search : Search find c) (values : List EnumValue) :
    Skips find (clauses (values.map EnumValue.tokens)) :=
  .clauses (List.forall_mem_map.mpr fun value _ => search.value value)

theorem Search.fields (search : Search find c) (fields : List FieldClause) :
    Skips find (clauses (fields.map FieldClause.tokens)) :=
  .clauses (List.forall_mem_map.mpr fun field _ => search.field field)

theorem Search.body (search : Search find c) (brace : '{' ≠ c) {option : String} (body : Body option) :
    Skips find body.tokens := by
  have close := search.mark .closeBrace
  induction body with
  | nil => exact .nil
  | field clause rest ih => exact .clause (search.field clause) ih
  | legacyName name _ value rest ih => exact .clause (search.legacyName name value) ih
  | message name body rest ihBody ih => exact .block (search.header brace .message name) ihBody close ih
  | enum name values rest ih =>
    exact .block (search.header brace .enum name) (search.values values) close ih
  | oneof name fields rest ih =>
    exact .block (search.header brace .oneof name) (search.fields fields) close ih

theorem Search.argument (search : Search find c) (paren : ')' ≠ c) (streams : Bool) (type : TypeName) :
    Skips find (argument streams type) := by
  cases streams with
  | false => exact search.word type.word .closeParen
  | true => exact search.pair .stream type.word .closeParen paren

theorem Search.inside (search : Search find c) (paren : ')' ≠ c) (call : Call) :
    Skips find (call.inside ++ [.mark .semicolon]) := by
  have whole := (search.argument paren call.streamsRequest call.request).append
    ((search.word .returns .openParen).append
      ((search.argument paren call.streamsResponse call.response).append (search.mark .semicolon)))
  simpa [Call.inside] using whole

theorem Search.call (search : Search find c) (open_ : '(' ≠ c) (close : ')' ≠ c) (call : Call) :
    Skips find (call.tokens ++ [.mark .semicolon]) :=
  (search.pair .rpc call.name.word .openParen open_).append (search.inside close call)

end Blocks

-- Tokens in which a search finds what stands for some items, one after another.
def Yields {α β : Type} (find : List Token → List α) (Stands : α → β → Prop) (tokens : List Token)
    (items : List β) : Prop :=
  ∀ rest, ∃ found, find (tokens ++ rest) = found ++ find rest ∧ List.Forall₂ Stands found items

section Yielding

variable {α β : Type} {find : List Token → List α} {Stands : α → β → Prop} {tokens : List Token}
  {items : List β}

theorem Skips.yields (skips : Skips find tokens) : Yields find Stands tokens [] :=
  fun rest => ⟨[], skips rest, .nil⟩

theorem Yields.append {more : List Token} {others : List β} (one : Yields find Stands tokens items)
    (other : Yields find Stands more others) : Yields find Stands (tokens ++ more) (items ++ others) := by
  intro rest
  obtain ⟨found, here, stands⟩ := one (more ++ rest)
  obtain ⟨foundToo, later, standsToo⟩ := other rest
  refine ⟨found ++ foundToo, ?_, List.rel_append stands standsToo⟩
  rw [List.append_assoc, here, later, List.append_assoc]

theorem Yields.flatMap {γ : Type} {all : List γ} {write : γ → List Token} {meant : γ → List β}
    (each : ∀ item ∈ all, Yields find Stands (write item) (meant item)) :
    Yields find Stands (all.flatMap write) (all.flatMap meant) := by
  induction all with
  | nil => exact Skips.nil.yields
  | cons item rest ih =>
    obtain ⟨first, later⟩ := List.forall_mem_cons.mp each
    exact first.append (ih later)

theorem Yields.clause {clause rest : List Token} (skips : Skips find (clause ++ [.mark .semicolon]))
    (more : Yields find Stands rest items) :
    Yields find Stands (clause ++ .mark .semicolon :: rest) items := by
  rw [List.append_cons]
  exact skips.yields.append more

theorem Yields.block {keyword : Word} {name : Name} {inner rest : List Token} {others : List β}
    (header : Skips find [.word keyword, .word name.word, .mark .openBrace])
    (inside : Yields find Stands inner items) (close : Skips find [.mark .closeBrace])
    (more : Yields find Stands rest others) :
    Yields find Stands (block keyword name inner rest) (items ++ others) := by
  have whole := header.yields.append (inside.append (close.yields.append more))
  simpa [Source.block] using whole

end Yielding

section Headers

variable {β : Type} {keyword : String} {c : Char} {Stands : List Char × List Token → β → Prop}

theorem openings_pair {first : Word} (named : endsIn keyword.toList false first.text = true)
    (name : Name) (mark : Mark) (rest : List Token) :
    openings keyword mark.char (.word first :: .word name.word :: .mark mark :: rest)
      = (name.word.text, rest) :: openings keyword mark.char rest := by
  have plain : name.word.text.all isWord = true := List.all_eq_true.mpr name.isWord_of_mem
  have after : afterMark? mark.char (.mark mark :: rest) = some rest := if_pos rfl
  have here := @pairAt?_opensWith keyword mark.char first named name.word (.mark mark :: rest)
  rw [plain, if_pos rfl, after] at here
  rw [openings, pairs, List.filterMap_append, here]
  rfl

-- A block with the keyword is found with what follows its brace.
theorem Yields.opens {kind : Word} (named : endsIn keyword.toList false kind.text = true) {name : Name}
    {inner rest : List Token} {items others : List β}
    (inside : Yields (openings keyword '{') Stands inner items)
    (more : Yields (openings keyword '{') Stands rest others) {item : β}
    (here : ∀ following, Stands (name.word.text, inner ++ .mark .closeBrace :: following) item) :
    Yields (openings keyword '{') Stands (Source.block kind name inner rest)
      (item :: items ++ others) := by
  intro after
  have close := (search_headers keyword).mark .closeBrace
  obtain ⟨found, split, stands⟩ := (inside.append (close.yields.append more)) after
  refine ⟨(name.word.text, inner ++ .mark .closeBrace :: (rest ++ after)) :: found, ?_,
    .cons (here _) stands⟩
  have opened : openings keyword '{' (.word kind :: .word name.word :: .mark .openBrace
      :: (inner ++ .mark .closeBrace :: (rest ++ after)))
        = (name.word.text, inner ++ .mark .closeBrace :: (rest ++ after))
          :: openings keyword '{' (inner ++ .mark .closeBrace :: (rest ++ after)) :=
    openings_pair named name .openBrace _
  simp only [List.append_assoc, List.cons_append, List.nil_append] at split
  simp only [Source.block, List.cons_append, List.append_assoc]
  rw [opened, split]

end Headers

section Declared

variable {option : String}

def StandsForCall (found : List Char × List Token) (call : Call) : Prop :=
  ∃ following, found.2 = call.inside ++ following

theorem Yields.call {call : Call} :
    Yields (openings "rpc" '(') StandsForCall (call.tokens ++ [.mark .semicolon]) [call] := by
  intro after
  have inside := search_calls.inside (by decide) call after
  have opened : openings "rpc" '(' (.word .rpc :: .word call.name.word :: .mark .openParen
      :: (call.inside ++ [.mark .semicolon] ++ after))
        = (call.name.word.text, call.inside ++ [.mark .semicolon] ++ after)
          :: openings "rpc" '(' (call.inside ++ [.mark .semicolon] ++ after) :=
    openings_pair (by decide) call.name .openParen _
  refine ⟨[(call.name.word.text, call.inside ++ [.mark .semicolon] ++ after)], ?_,
    .cons ⟨[.mark .semicolon] ++ after, List.append_assoc _ _ _⟩ .nil⟩
  rw [inside] at opened
  exact opened

namespace Declaration

def calls : Declaration option → List Call
  | service _ calls => calls
  | message _ _ | enum _ _ | setting _ => []

-- No statement of a declaration ends in two words, as the package statement does.
theorem skips_statements (declaration : Declaration option) : Skips (pairs ';') declaration.tokens := by
  have search := search_statements
  have close := search.mark .closeBrace
  cases declaration with
  | message name body =>
    exact .block (search.header (by decide) .message name) (search.body (by decide) body) close .nil
  | enum name values =>
    exact .block (search.header (by decide) .enum name) (search.values values) close .nil
  | service name calls =>
    refine .block (search.header (by decide) .service name) ?_ close .nil
    exact .clauses (List.forall_mem_map.mpr fun call _ => search.call (by decide) (by decide) call)
  | setting clause => exact skips_pairs clause.notPackage

end Declaration

end Declared

end SigningSchema.Source
