import SigningSchema.Proofs.Source.Clauses

-- Reading the body of a message: its own clauses become statements, one by one, and the blocks in
-- it are passed over.

namespace SigningSchema.Source

open Unicode (isBlank isWord)

section Plain

theorem Options.bracketed_plain (options : Option Options) :
    ∀ token ∈ Options.bracketed options, token.Plain := by
  cases options with
  | none => exact fun _ none => nomatch none
  | some options =>
    refine List.forall_mem_cons.mpr ⟨⟨rfl, rfl, rfl⟩, List.forall_mem_append.mpr ⟨options.plain, ?_⟩⟩
    exact List.forall_mem_singleton.mpr ⟨rfl, rfl, rfl⟩

theorem FieldClause.plain (field : FieldClause) : ∀ token ∈ field.tokens, token.Plain := by
  have labelled : ∀ token ∈ field.label.tokens, token.Plain := by
    cases field.label with
    | none => exact fun _ none => nomatch none
    | repeated => exact List.forall_mem_singleton.mpr ⟨rfl, rfl, rfl⟩
    | optional => exact List.forall_mem_singleton.mpr ⟨rfl, rfl, rfl⟩
  refine List.forall_mem_append.mpr ⟨labelled, ?_⟩
  simp only [List.forall_mem_cons]
  exact ⟨⟨rfl, rfl, rfl⟩, ⟨rfl, rfl, rfl⟩, ⟨rfl, rfl, rfl⟩, ⟨rfl, rfl, rfl⟩,
    Options.bracketed_plain field.options⟩

theorem EnumValue.plain (value : EnumValue) : ∀ token ∈ value.tokens, token.Plain := by
  have signed : ∀ token ∈ (if value.negative then [Token.mark .minus] else []), token.Plain := by
    cases value.negative with
    | false => exact fun _ none => nomatch none
    | true => exact List.forall_mem_singleton.mpr ⟨rfl, rfl, rfl⟩
  refine List.forall_mem_cons.mpr ⟨⟨rfl, rfl, rfl⟩, List.forall_mem_cons.mpr ⟨⟨rfl, rfl, rfl⟩, ?_⟩⟩
  refine List.forall_mem_append.mpr ⟨signed, List.forall_mem_cons.mpr ⟨⟨rfl, rfl, rfl⟩, ?_⟩⟩
  exact Options.bracketed_plain value.options

theorem legacyClause_plain (name : TypeName) (value : LegacyValue) :
    ∀ token ∈ legacyClause name value, token.Plain := by
  simp only [legacyClause, List.forall_mem_cons]
  exact ⟨⟨rfl, rfl, rfl⟩, ⟨rfl, rfl, rfl⟩, ⟨rfl, rfl, rfl⟩, ⟨rfl, rfl, rfl⟩, ⟨rfl, rfl, rfl⟩,
    ⟨rfl, rfl, rfl⟩, fun _ none => nomatch none⟩

end Plain

section Balance

theorem Balanced.append {first second : List Token} (one : Balanced first) (other : Balanced second) :
    Balanced (first ++ second) := by
  induction one with
  | nil => exact other
  | plain notOpen notClose _ ih => exact .plain notOpen notClose ih
  | block opens inside closes _ _ ih =>
    rw [List.cons_append, List.append_assoc, List.cons_append]
    exact .block opens inside closes ih

theorem Balanced.of_plain {tokens : List Token} (plain : ∀ token ∈ tokens, token.Plain) :
    Balanced tokens := by
  induction tokens with
  | nil => exact .nil
  | cons token rest ih =>
    obtain ⟨first, later⟩ := List.forall_mem_cons.mp plain
    exact .plain first.1 first.2.1 (ih later)

theorem Balanced.clause {clause rest : List Token} (plain : ∀ token ∈ clause, token.Plain)
    (more : Balanced rest) : Balanced (clause ++ .mark .semicolon :: rest) :=
  (Balanced.of_plain plain).append (.plain rfl rfl more)

theorem balanced_clauses {all : List (List Token)}
    (plain : ∀ clause ∈ all, ∀ token ∈ clause, token.Plain) : Balanced (clauses all) := by
  induction all with
  | nil => exact .nil
  | cons clause rest ih =>
    obtain ⟨first, later⟩ := List.forall_mem_cons.mp plain
    rw [clauses, List.flatMap_cons, List.append_assoc]
    exact .clause first (ih later)

theorem balanced_values (values : List EnumValue) :
    Balanced (clauses (values.map EnumValue.tokens)) :=
  balanced_clauses (List.forall_mem_map.mpr fun value _ => value.plain)

theorem balanced_fields (fields : List FieldClause) :
    Balanced (clauses (fields.map FieldClause.tokens)) :=
  balanced_clauses (List.forall_mem_map.mpr fun field _ => field.plain)

theorem balanced_block (keyword : Word) (name : Name) {inner rest : List Token}
    (inside : Balanced inner) (more : Balanced rest) : Balanced (block keyword name inner rest) :=
  .plain rfl rfl (.plain rfl rfl (.block rfl inside rfl more))

theorem Body.balanced {option : String} (body : Body option) : Balanced body.tokens := by
  induction body with
  | nil => exact .nil
  | field clause rest ih => exact .clause clause.plain ih
  | legacyName name _ value rest ih => exact .clause (legacyClause_plain name value) ih
  | message name body rest ihBody ih => exact balanced_block .message name ihBody ih
  | enum name values rest ih => exact balanced_block .enum name (balanced_values values) ih
  | oneof name fields rest ih => exact balanced_block .oneof name (balanced_fields fields) ih

end Balance

section Statements

variable {after : Bool} {text tail : List Char}

theorem Token.text_ne_nil (token : Token) : token.text ≠ [] := by
  cases token with
  | word w => exact w.given
  | mark _ => exact List.cons_ne_nil _ _
  | literal _ => exact List.cons_ne_nil _ _

theorem statements_first {token : Token} {tokens rest : List Token}
    (plain : ∀ other ∈ token :: tokens, other.Plain)
    (laid : Laid Blank after ((token :: tokens) ++ .mark .semicolon :: rest) text) :
    ∃ more body, Laid Blank token.isWord tokens more ∧ Laid Blank false rest body ∧
      ∀ tail, statements (text ++ tail) = (token.text ++ more) :: statements (body ++ tail) := by
  obtain ⟨first, blanks, body, clause, blank, following, split⟩ := statements_clause plain rfl laid
  obtain ⟨more, laidMore, trimmed⟩ := trim_laid clause blank
  refine ⟨more, body, laidMore, following, fun tail => ?_⟩
  have given : token.text ++ more ≠ [] := fun none => token.text_ne_nil (List.append_eq_nil_iff.mp none).1
  rw [statements, split, List.map_cons, trimmed, List.filter_cons_of_pos (by simpa using given),
    statements]

theorem statements_past {keyword : Word} {name : Name} {inner rest : List Token}
    (balanced : Balanced inner) (laid : Laid Blank after (block keyword name inner rest) text) :
    ∃ body, Laid Blank false rest body ∧
      ∀ tail, statements (text ++ tail) = statements (body ++ tail) := by
  have header : ∀ token ∈ [Token.word keyword, Token.word name.word], token.Plain := by
    simp only [List.forall_mem_cons]
    exact ⟨⟨rfl, rfl, rfl⟩, ⟨rfl, rfl, rfl⟩, fun _ none => nomatch none⟩
  obtain ⟨body, following, passed⟩ := statements_block header rfl balanced rfl laid
  refine ⟨body, following, fun tail => ?_⟩
  rw [statements, passed, statements]

theorem statements_blank (ends : Blank tail) : statements tail = [] := by
  have calm := statementsFrom_calm (calm_blank ends) [] []
  have marks := (marks_blank ends).marked []
  rw [List.append_nil, marked, List.append_nil] at marks
  rw [List.append_nil, statementsFrom] at calm
  rw [statements, marks, calm]
  rfl

end Statements

section Messages

variable {config : Config}

-- What the statements of the message itself say.
def Body.statements {option : String} : Body option → List Statement
  | nil => []
  | field clause rest => .field clause.declared :: rest.statements
  | legacyName _ _ value rest => .legacyName value.text :: rest.statements
  | message _ _ rest | enum _ _ rest | oneof _ _ rest => rest.statements

theorem FieldClause.tokens_cons (field : FieldClause) :
    ∃ token tokens, field.tokens = token :: tokens := by
  rw [FieldClause.tokens]
  cases field.label with
  | none => exact ⟨_, _, rfl⟩
  | repeated => exact ⟨_, _, rfl⟩
  | optional => exact ⟨_, _, rfl⟩

-- By induction on the body: each clause gives its statement, each block none.
theorem Body.read (body : Body config.legacyNameOption) {after : Bool} {text tail : List Char}
    (laid : Laid Blank after body.tokens text) (ends : Blank tail) :
    (Source.statements (text ++ tail)).map (Statement.read config) = body.statements := by
  induction body generalizing after text with
  | nil =>
    cases laid
    rw [List.nil_append, statements_blank ends]
    rfl
  | field clause rest ih =>
    obtain ⟨token, tokens, same⟩ := clause.tokens_cons
    rw [Body.tokens, same] at laid
    obtain ⟨more, following, first, laid, split⟩ := statements_first (same ▸ clause.plain) laid
    rw [split, List.map_cons, clause.read config same first, ih laid]
    rfl
  | legacyName name named value rest ih =>
    obtain ⟨more, following, first, laid, split⟩ := statements_first (legacyClause_plain name value) laid
    rw [split, List.map_cons, legacyName_read config named value rfl first, ih laid]
    rfl
  | message name body rest _ ih =>
    obtain ⟨following, laid, passed⟩ := statements_past body.balanced laid
    rw [passed, ih laid]
    rfl
  | enum name values rest ih =>
    obtain ⟨following, laid, passed⟩ := statements_past (balanced_values values) laid
    rw [passed, ih laid]
    rfl
  | oneof name fields rest ih =>
    obtain ⟨following, laid, passed⟩ := statements_past (balanced_fields fields) laid
    rw [passed, ih laid]
    rfl

end Messages

end SigningSchema.Source
