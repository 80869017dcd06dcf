import SigningSchema.Proofs.Spelling
import SigningSchema.Proofs.Text
import SigningSchema.Unicode.Word

-- Which spellings can stand as names in generated code. Case and underscores are set so that hardly
-- any word of the language comes out as a name; what a name begins with is left to the declarations.

namespace SigningSchema

namespace Unicode

theorem toUpper_capital : ∀ n < 0x80,
    ¬ (97 ≤ (Char.ofNat n).toUpper.toNat ∧ (Char.ofNat n).toUpper.toNat ≤ 122) := by decide

theorem upperShifts_capital : ∀ shift ∈ upperShifts,
    ((122 : Nat) : Int) < shift.1.low + shift.2 ∨ shift.1.high + shift.2 < ((97 : Nat) : Int) := by
  decide +kernel

theorem upperSpecial_capital : ∀ special ∈ upperSpecial,
    ∃ code more, special.2 = code :: more ∧ ¬ (97 ≤ code ∧ code ≤ 122) := by
  have given : ∀ special ∈ upperSpecial, special.2 ≠ [] := by decide +kernel
  have capital : ∀ special ∈ upperSpecial, ∀ code ∈ special.2, ¬ (97 ≤ code ∧ code ≤ 122) := by
    decide +kernel
  intro special member
  obtain ⟨code, more, same⟩ := List.exists_cons_of_ne_nil (given special member)
  exact ⟨code, more, same, capital special member code (same ▸ List.mem_cons_self)⟩

theorem toNat_ofNat_outside {low high n : Nat} (positive : 0 < low) (outside : ¬ (low ≤ n ∧ n ≤ high)) :
    ¬ (low ≤ (Char.ofNat n).toNat ∧ (Char.ofNat n).toNat ≤ high) := by
  by_cases valid : n.isValidChar
  · rw [Char.ofNat, dif_pos valid]
    exact outside
  · rw [Char.ofNat, dif_neg valid]
    exact fun inside => absurd (Nat.lt_of_lt_of_le positive inside.1) (Nat.lt_irrefl 0)

-- No small letter of ASCII comes first where a character is raised.
theorem toUpper_begins (c : Char) :
    ∃ d more, toUpper c = d :: more ∧ ¬ (97 ≤ d.toNat ∧ d.toNat ≤ 122) := by
  unfold toUpper
  split
  · rename_i ascii
    have capital := toUpper_capital c.toNat ascii
    rw [Char.ofNat_toNat] at capital
    exact ⟨_, _, rfl, capital⟩
  · split
    · rename_i codes found
      obtain ⟨code, more, same, capital⟩ := upperSpecial_capital _ (List.mem_of_find?_eq_some found)
      exact ⟨_, _, congrArg (List.map Char.ofNat) same, toNat_ofNat_outside (by decide) capital⟩
    · refine ⟨_, _, rfl, toNat_ofNat_outside (by decide) ?_⟩
      exact shifted_outside (by decide) upperShifts_capital (by omega)

theorem lowerShifts_clear : ∀ shift ∈ lowerShifts,
    ((95 : Nat) : Int) < shift.1.low + shift.2 ∨ shift.1.high + shift.2 < ((95 : Nat) : Int) := by
  decide +kernel

theorem toLower_ascii : ∀ n < 0x80, n ≠ 95 → (Char.ofNat n).toLower ≠ '_' := by decide

theorem toLower_begins (c : Char) : ∃ d more, toLower c = d :: more ∧ (d = '_' → c = '_') := by
  by_cases same : c = '_'
  · exact ⟨_, _, by rw [same]; rfl, fun _ => same⟩
  have code : c.toNat ≠ 95 := fun equal => same (Char.toNat_inj.mp equal)
  unfold toLower
  split
  · rename_i ascii
    have clear := toLower_ascii c.toNat ascii code
    rw [Char.ofNat_toNat] at clear
    exact ⟨_, _, rfl, fun equal => absurd equal clear⟩
  · split
    · exact ⟨_, _, rfl, fun equal => absurd equal (by decide)⟩
    · refine ⟨_, _, rfl, fun equal => absurd equal (ofNat_ne_underscore fun shift => ?_)⟩
      have outside := shifted_outside (by decide) lowerShifts_clear (by omega : 95 < c.toNat)
      omega

end Unicode

namespace Identifier

open Unicode (isUpper isWord toLower toUpper)

-- The keywords of the 2021 edition, and after them the words that it reserves.
def keywords : List String :=
  ["as", "async", "await", "break", "const", "continue", "crate", "dyn", "else", "enum",
    "extern", "false", "fn", "for", "if", "impl", "in", "let", "loop", "match", "mod", "move",
    "mut", "pub", "ref", "return", "self", "Self", "static", "struct", "super", "trait", "true",
    "type", "unsafe", "use", "where", "while", "abstract", "become", "box", "do", "final", "macro",
    "override", "priv", "try", "typeof", "unsized", "virtual", "yield"]

-- The ones that are taken for names as they are.
def unescaped : List String := keywords.filter fun word => !reserved.contains word

example : unescaped = ["abstract", "become", "box", "do", "final", "macro", "override", "priv", "try",
    "typeof", "unsized", "virtual"] := by decide

-- Any class of letters that has just those of ASCII there.
structure Letters where
  has : Char → Bool
  ascii : ∀ c, c.toNat < 0x80 → has c = c.isAlpha

variable {letters : Letters}

def Letters.Begins (letters : Letters) (name : String) : Prop :=
  ∃ c ∈ name.toList.head?, letters.has c = true ∨ c = '_'

structure Legal (letters : Letters) (name : String) : Prop where
  given : name ≠ ""
  notLone : name ≠ "_"
  begins : letters.Begins name
  free : name ∉ keywords

theorem keywords_plain : ∀ word ∈ keywords, '_' ∉ word.toList := by decide

theorem keywords_small : ∀ word ∈ keywords, word ≠ "Self" →
    (word.toList.head?.any fun c => 97 ≤ c.toNat ∧ c.toNat ≤ 122) = true := by decide

theorem mem_unescaped {word : String} : word ∈ unescaped ↔ word ∈ keywords ∧ word ∉ reserved := by
  rw [unescaped, List.mem_filter, Bool.not_eq_true', ← Bool.not_eq_true, List.contains_iff_mem]

theorem reserved_begins : ∀ word ∈ reserved,
    (word.toList.head?.any fun c => c.toNat < 0x80 ∧ c.isAlpha = true) = true := by decide

theorem Letters.begins_reserved {word : String} (member : word ∈ reserved) : letters.Begins word := by
  obtain ⟨c, first, holds⟩ := (Option.any_eq_true _ _).mp (reserved_begins word member)
  obtain ⟨ascii, alpha⟩ := of_decide_eq_true holds
  exact ⟨c, first, .inl (letters.ascii c ascii ▸ alpha)⟩

-- What stands first decides.
theorem Letters.begins_append {name more : String} (given : name ≠ "") :
    letters.Begins (name ++ more) ↔ letters.Begins name := by
  have chars : name.toList ≠ [] := fun empty => given (String.toList_eq_nil_iff.mp empty)
  obtain ⟨c, rest, same⟩ := List.exists_cons_of_ne_nil chars
  rw [Begins, Begins, String.toList_append, same]
  rfl

theorem Letters.Begins.given {name : String} (begins : letters.Begins name) : name ≠ "" := by
  rintro rfl
  obtain ⟨c, first, _⟩ := begins
  cases first

section Functions

theorem snakeChars_begins {before : Option Char} {chars : List Char} (given : chars ≠ []) :
    snakeChars before chars ≠ [] := by
  cases chars with
  | nil => exact absurd rfl given
  | cons c rest =>
    rw [snakeChars]
    split
    · obtain ⟨d, more, same, _⟩ := Unicode.toLower_begins c
      simp [same]
    · exact List.cons_ne_nil _ _

theorem snakeCase_ne_empty {text : String} (given : text ≠ "") : snakeCase text ≠ "" := by
  intro nothing
  rw [← String.toList_inj, snakeCase, String.toList_ofList] at nothing
  exact snakeChars_begins (fun empty => given (String.toList_eq_nil_iff.mp empty)) nothing

-- Only a lone underscore is spelled as one.
theorem snakeCase_eq_underscore {text : String} : snakeCase text = "_" ↔ text = "_" := by
  constructor
  · intro same
    rw [← String.toList_inj, snakeCase, String.toList_ofList] at same
    rw [← String.toList_inj]
    cases chars : text.toList with
    | nil =>
      rw [chars] at same
      cases same
    | cons c rest =>
      rw [chars, snakeChars] at same
      split at same
      · rename_i capital
        obtain ⟨d, more, lower, clear⟩ := Unicode.toLower_begins c
        rw [lower] at same
        have underscore : d = '_' := (List.cons.inj same).1
        rw [clear underscore, isUpper_underscore] at capital
        cases capital
      · obtain ⟨rfl, empty⟩ := List.cons.inj same
        cases rest with
        | nil => rfl
        | cons d more => exact absurd empty (snakeChars_begins (List.cons_ne_nil _ _))
  · rintro rfl
    decide

-- A word that is escaped is a name. Any other text is one where nothing is wrong with it.
theorem legal_function_iff {text : String} : Legal letters (escapeReserved (snakeCase text)) ↔
    (text ≠ "_" ∧ snakeCase text ∉ unescaped) ∧ letters.Begins (snakeCase text) := by
  by_cases escaped : snakeCase text ∈ reserved
  · have begins := letters.begins_reserved escaped
    have joined : "_" ∉ reserved := by decide
    rw [escapeReserved, if_pos (List.contains_iff_mem.mpr escaped)]
    constructor
    · intro _
      refine ⟨⟨fun lone => ?_, fun inside => (mem_unescaped.mp inside).2 escaped⟩, begins⟩
      rw [snakeCase_eq_underscore.mpr lone] at escaped
      exact joined escaped
    · intro _
      have marked : '_' ∈ (snakeCase text ++ "_").toList := by simp
      have begun : letters.Begins (snakeCase text ++ "_") :=
        (letters.begins_append begins.given).mpr begins
      refine ⟨begun.given, fun lone => ?_, begun, fun inside => keywords_plain _ inside marked⟩
      exact begins.given (by simpa using lone)
  · rw [escapeReserved, if_neg (by rwa [List.contains_iff_mem])]
    constructor
    · intro legal
      exact ⟨⟨fun lone => legal.notLone (snakeCase_eq_underscore.mpr lone),
        fun inside => legal.free (mem_unescaped.mp inside).1⟩, legal.begins⟩
    · rintro ⟨⟨notLone, free⟩, begins⟩
      exact ⟨begins.given, fun lone => notLone (snakeCase_eq_underscore.mp lone), begins,
        fun inside => free (mem_unescaped.mpr ⟨inside, escaped⟩)⟩

theorem lowerFirstText_ne_empty {text : String} (given : text ≠ "") : lowerFirstText text ≠ "" := by
  intro nothing
  rw [← String.toList_inj, lowerFirstText, String.toList_ofList] at nothing
  cases chars : text.toList with
  | nil => exact given (String.toList_eq_nil_iff.mp chars)
  | cons c rest =>
    obtain ⟨d, more, lower, _⟩ := Unicode.toLower_begins c
    rw [chars, lowerFirst, lower] at nothing
    cases nothing

end Functions

section Types

def setsApart (c : Char) : Bool := c = '_' || c = '.'

def words (chars : List Char) : List (List Char) :=
  (Text.splitChars '_' chars).flatMap (Text.splitChars '.')

-- The first character of a name where underscores and dots do not count.
def initial? (text : String) : Option Char := text.toList.find? fun c => !setsApart c

theorem words_apart {c : Char} (apart : setsApart c = true) (rest : List Char) :
    words (c :: rest) = [] :: words rest := by
  obtain ⟨first, more, parts⟩ := List.exists_cons_of_ne_nil (Text.splitChars_ne_nil '_' rest)
  rw [words, words, parts]
  have either : c = '_' ∨ c = '.' := by simpa [setsApart] using apart
  rcases either with rfl | rfl
  · rw [Text.splitChars, if_pos rfl, parts]
    rfl
  · rw [Text.splitChars, if_neg (by decide), parts]
    rfl

theorem words_cons {c : Char} (within : setsApart c = false) (rest : List Char) :
    ∃ first more, words rest = first :: more ∧ words (c :: rest) = (c :: first) :: more := by
  obtain ⟨first, more, parts⟩ := List.exists_cons_of_ne_nil (Text.splitChars_ne_nil '_' rest)
  obtain ⟨word, others, split⟩ := List.exists_cons_of_ne_nil (Text.splitChars_ne_nil '.' first)
  simp only [setsApart, Bool.or_eq_false_iff, decide_eq_false_iff_not] at within
  refine ⟨word, others ++ more.flatMap (Text.splitChars '.'), ?_, ?_⟩
  · rw [words, parts, List.flatMap_cons, split, List.cons_append]
  · rw [words, Text.splitChars, if_neg within.1, parts, List.flatMap_cons, Text.splitChars,
      if_neg within.2, split, List.cons_append]

theorem flatMap_words (chars : List Char) :
    match chars.find? fun c => !setsApart c with
    | none => (words chars).flatMap raiseFirst = []
    | some c => ∃ rest, (words chars).flatMap raiseFirst = toUpper c ++ rest := by
  induction chars with
  | nil => rfl
  | cons c rest ih =>
    cases apart : setsApart c with
    | true =>
      rw [List.find?_cons_of_neg (by simp [apart]), words_apart apart]
      exact ih
    | false =>
      rw [List.find?_cons_of_pos (by simp [apart])]
      obtain ⟨first, more, _, split⟩ := words_cons apart rest
      exact ⟨first ++ more.flatMap raiseFirst, by rw [split, List.flatMap_cons, raiseFirst, List.append_assoc]⟩

theorem pascalCase_chars (text : String) :
    (pascalCase text).toList = (words text.toList).flatMap raiseFirst :=
  String.toList_ofList

-- A name begins with its first character that counts, raised.
theorem begins_pascalCase_iff {text : String} : letters.Begins (pascalCase text) ↔
    ∃ c ∈ initial? text, ∃ d ∈ (toUpper c).head?, letters.has d = true ∨ d = '_' := by
  have raised := flatMap_words text.toList
  rw [Letters.Begins, pascalCase_chars, initial?]
  split at raised
  · rename_i none
    rw [raised, none]
    simp
  · rename_i c found
    obtain ⟨rest, raised⟩ := raised
    obtain ⟨d, more, upper, _⟩ := Unicode.toUpper_begins c
    rw [raised, found, upper]
    simp [upper]

theorem pascalCase_begins {text : String} {d : Char} (first : (pascalCase text).toList.head? = some d) :
    d ≠ '_' ∧ ¬ (97 ≤ d.toNat ∧ d.toNat ≤ 122) := by
  have raised := flatMap_words text.toList
  rw [pascalCase_chars] at first
  split at raised
  · rw [raised] at first
    cases first
  · rename_i c found
    obtain ⟨rest, raised⟩ := raised
    obtain ⟨e, more, upper, capital⟩ := Unicode.toUpper_begins c
    rw [raised, upper] at first
    obtain rfl : e = d := Option.some.inj first
    have counts := List.find?_some found
    have clear := Unicode.underscore_notMem_toUpper (c := c) (by rintro rfl; cases counts)
    rw [upper, List.mem_cons, not_or] at clear
    exact ⟨Ne.symm clear.1, capital⟩

-- Capitals keep all words but one away.
theorem legal_type_iff {text : String} :
    Legal letters (pascalCase text) ↔ pascalCase text ≠ "Self" ∧ letters.Begins (pascalCase text) := by
  constructor
  · intro legal
    refine ⟨fun same => legal.free ?_, legal.begins⟩
    rw [same]
    decide
  · rintro ⟨other, begins⟩
    refine ⟨begins.given, fun lone => ?_, begins, fun inside => ?_⟩
    · exact (pascalCase_begins (d := '_') (by rw [lone]; rfl)).1 rfl
    · obtain ⟨c, first, small⟩ := (Option.any_eq_true _ _).mp (keywords_small _ inside other)
      exact (pascalCase_begins first).2 (of_decide_eq_true small)

theorem pascalCase_append (text more : String) :
    pascalCase (text ++ "_" ++ more) = pascalCase text ++ pascalCase more := by
  have chars : (text ++ "_" ++ more).toList = text.toList ++ '_' :: more.toList := by simp
  rw [← String.toList_inj, String.toList_append, pascalCase_chars, pascalCase_chars, pascalCase_chars,
    chars, words, Text.splitChars_append, List.flatMap_append, List.flatMap_append]
  rfl

end Types

section Ascii

-- A character of names of ASCII.
def IsPlain (c : Char) : Prop := c.toNat < 0x80 ∧ isWord c = true

-- Of these the digits alone cannot begin a name, in whatever case.
theorem plain_cases : ∀ n < 0x80, isWord (Char.ofNat n) = true →
    ([Char.ofNat n, (Char.ofNat n).toLower, (Char.ofNat n).toUpper].all fun c =>
      c.toNat < 0x80 ∧ (c.isAlpha || c = '_') = !(Char.ofNat n).isDigit) = true := by decide

theorem Letters.begins_iff {c d : Char} (plain : IsPlain c) (case : d ∈ [c, c.toLower, c.toUpper]) :
    (letters.has d = true ∨ d = '_') ↔ c.isDigit = false := by
  have cases := plain_cases c.toNat plain.1
  rw [Char.ofNat_toNat] at cases
  obtain ⟨ascii, same⟩ := of_decide_eq_true (List.all_eq_true.mp (cases plain.2) d case)
  rw [letters.ascii d ascii, ← decide_eq_true_iff (p := d = '_'), ← Bool.or_eq_true, same,
    Bool.not_eq_true']

def IsPlainText (text : String) : Prop := ∀ c ∈ text.toList, IsPlain c

-- Names of ASCII, joined by dots.
def IsDotted (text : String) : Prop := ∀ c ∈ text.toList, IsPlain c ∨ c = '.'

theorem begins_snakeCase_iff {text : String} (plain : IsPlainText text) :
    letters.Begins (snakeCase text) ↔ ∃ c ∈ text.toList.head?, c.isDigit = false := by
  rw [Letters.Begins, snakeCase, String.toList_ofList]
  cases chars : text.toList with
  | nil => simp [snakeChars]
  | cons c rest =>
    have first : IsPlain c := plain c (by rw [chars]; exact List.mem_cons_self)
    obtain ⟨d, case, spelled⟩ : ∃ d ∈ [c, c.toLower, c.toUpper],
        (snakeChars none (c :: rest)).head? = some d := by
      rw [snakeChars, toLower, if_pos first.1]
      split
      · exact ⟨c.toLower, by simp, rfl⟩
      · exact ⟨c, by simp, rfl⟩
    rw [spelled]
    simp [Letters.begins_iff first case]

theorem begins_pascalCase_ascii {text : String} (dotted : IsDotted text) :
    letters.Begins (pascalCase text) ↔ ∃ c ∈ initial? text, c.isDigit = false := by
  rw [begins_pascalCase_iff]
  refine exists_congr fun c => and_congr_right fun first => ?_
  have plain : IsPlain c := by
    rcases dotted c (List.mem_of_find?_eq_some first) with plain | rfl
    · exact plain
    · cases List.find?_some first
  rw [toUpper, if_pos plain.1]
  simp [Letters.begins_iff plain (d := c.toUpper)]

section Plain

variable {text more : String}

theorem IsPlainText.dotted (plain : IsPlainText text) : IsDotted text :=
  fun c inside => .inl (plain c inside)

theorem forall_joined {accepts : Char → Prop} (mark : accepts '_') (first : ∀ c ∈ text.toList, accepts c)
    (second : ∀ c ∈ more.toList, accepts c) : ∀ c ∈ (text ++ "_" ++ more).toList, accepts c := by
  have chars : (text ++ "_" ++ more).toList = text.toList ++ '_' :: more.toList := by simp
  rw [chars]
  exact List.forall_mem_append.mpr ⟨first, List.forall_mem_cons.mpr ⟨mark, second⟩⟩

theorem isPlain_underscore : IsPlain '_' := ⟨by decide, by decide⟩

theorem IsDotted.joined (dotted : IsDotted text) (dottedToo : IsDotted more) :
    IsDotted (text ++ "_" ++ more) :=
  forall_joined (.inl isPlain_underscore) dotted dottedToo

theorem IsPlainText.joined (plain : IsPlainText text) (plainToo : IsPlainText more) :
    IsPlainText (text ++ "_" ++ more) :=
  forall_joined isPlain_underscore plain plainToo

theorem IsPlainText.joined_of_forall {parts : List String} (plain : ∀ part ∈ parts, IsPlainText part) :
    IsPlainText (Text.joined "_" parts) := by
  induction parts with
  | nil => exact fun c none => absurd none List.not_mem_nil
  | cons first rest ih =>
    obtain ⟨here, later⟩ := List.forall_mem_cons.mp plain
    cases rest with
    | nil => exact here
    | cons => exact here.joined (ih later)

theorem IsPlain.toLower {c : Char} (plain : IsPlain c) : ∀ d ∈ toLower c, IsPlain d := by
  have cases : ∀ n < 0x80, isWord (Char.ofNat n) = true →
      (Char.ofNat n).toLower.toNat < 0x80 ∧ isWord (Char.ofNat n).toLower = true := by decide
  have here := cases c.toNat plain.1
  rw [Char.ofNat_toNat] at here
  intro d inside
  rw [Unicode.toLower, if_pos plain.1, List.mem_singleton] at inside
  rw [inside]
  exact here plain.2

theorem IsPlainText.lowerFirst (plain : IsPlainText text) : IsPlainText (lowerFirstText text) := by
  intro d inside
  rw [lowerFirstText, String.toList_ofList] at inside
  cases chars : text.toList with
  | nil =>
    rw [chars] at inside
    cases inside
  | cons c rest =>
    rw [chars, Identifier.lowerFirst] at inside
    have first : IsPlain c := plain c (by rw [chars]; exact List.mem_cons_self)
    rcases List.mem_append.mp inside with here | later
    · exact first.toLower d here
    · exact plain d (by rw [chars]; exact List.mem_cons_of_mem _ later)

theorem snakeChars_plain {before : Option Char} {chars : List Char} (plain : ∀ c ∈ chars, IsPlain c) :
    ∀ d ∈ snakeChars before chars, IsPlain d := by
  induction chars generalizing before with
  | nil => exact fun d none => absurd none List.not_mem_nil
  | cons c rest ih =>
    obtain ⟨first, later⟩ := List.forall_mem_cons.mp plain
    intro d inside
    rw [snakeChars] at inside
    split at inside
    · rcases List.mem_append.mp inside with here | after
      · rcases List.mem_append.mp here with gap | lower
        · split at gap
          · obtain rfl := List.mem_singleton.mp gap
            exact isPlain_underscore
          · cases gap
        · exact first.toLower d lower
      · exact ih later d after
    · rcases List.mem_cons.mp inside with rfl | after
      · exact first
      · exact ih later d after

theorem IsPlainText.snakeCase (plain : IsPlainText text) : IsPlainText (snakeCase text) := by
  intro d inside
  rw [Identifier.snakeCase, String.toList_ofList] at inside
  exact snakeChars_plain plain d inside

end Plain

end Ascii

end Identifier

end SigningSchema
