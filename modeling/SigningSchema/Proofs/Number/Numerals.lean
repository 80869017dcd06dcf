import Mathlib.Data.List.Induction
import Mathlib.Data.Nat.Digits.Defs
import SigningSchema.Number.DecimalText
import SigningSchema.Proofs.Text

-- The integers that texts spell, and that they are what is read of them.

namespace SigningSchema.Number

-- The number that a row of digits denotes, place by place.
def decimal (digits : List Char) : Nat :=
  Nat.ofDigits 10 (digits.reverse.map fun c => c.toNat - 48)

theorem ofDigits_eq_decimal (digits : List Char) : ofDigits 0 digits = decimal digits := by
  induction digits using List.reverseRecOn with
  | nil => rfl
  | append_singleton digits c ih =>
    simp only [ofDigits, decimal, List.foldl_append, List.foldl_cons, List.foldl_nil, List.reverse_append,
      List.reverse_cons, List.reverse_nil, List.nil_append, List.singleton_append, List.map_cons,
      Nat.ofDigits_cons] at ih ⊢
    rw [ih]
    omega

-- An optional sign and at least one digit.
inductive Spells : List Char → Int → Prop where
  | plain {digits : List Char} (given : digits ≠ []) (each : ∀ c ∈ digits, c.isDigit = true) :
      Spells digits (decimal digits)
  | plus {digits : List Char} (given : digits ≠ []) (each : ∀ c ∈ digits, c.isDigit = true) :
      Spells ('+' :: digits) (decimal digits)
  | minus {digits : List Char} (given : digits ≠ []) (each : ∀ c ∈ digits, c.isDigit = true) :
      Spells ('-' :: digits) (-decimal digits)

theorem readInt?_of_split {text digits : List Char} {negative : Bool} {n : Int}
    (split : splitSign text = (negative, digits)) :
    readInt? text = some n ↔ (digits ≠ [] ∧ ∀ c ∈ digits, c.isDigit = true) ∧
      n = if negative then -(decimal digits : Int) else decimal digits := by
  rw [readInt?, split]
  simp only [ofDigits_eq_decimal]
  by_cases proper : digits ≠ [] ∧ ∀ c ∈ digits, c.isDigit = true
  · have whole : (digits.isEmpty || !digits.all Char.isDigit) = false := by
      simpa [List.isEmpty_iff] using proper
    rw [if_neg (by simp [whole]), Option.some.injEq]
    exact ⟨fun same => ⟨proper, same.symm⟩, fun both => both.2.symm⟩
  · have broken : (digits.isEmpty || !digits.all Char.isDigit) = true := by
      simp only [Bool.or_eq_true, List.isEmpty_iff, Bool.not_eq_true', List.all_eq_false]
      by_contra whole
      simp only [not_or, not_exists, not_and, Bool.not_eq_true] at whole
      exact proper ⟨whole.1, fun c inside => by simpa using whole.2 c inside⟩
    rw [if_pos broken]
    exact ⟨nofun, fun both => absurd both.1 proper⟩

theorem splitSign_cases (text : List Char) :
    (∃ rest, text = '-' :: rest ∧ splitSign text = (true, rest)) ∨
      (∃ rest, text = '+' :: rest ∧ splitSign text = (false, rest)) ∨ splitSign text = (false, text) := by
  unfold splitSign
  split
  · exact .inl ⟨_, rfl, rfl⟩
  · exact .inr (.inl ⟨_, rfl, rfl⟩)
  · exact .inr (.inr rfl)

theorem splitSign_digits {digits : List Char} (each : ∀ c ∈ digits, c.isDigit = true) :
    splitSign digits = (false, digits) := by
  rcases splitSign_cases digits with ⟨rest, rfl, _⟩ | ⟨rest, rfl, _⟩ | plain
  · exact absurd (each '-' List.mem_cons_self) (by decide)
  · exact absurd (each '+' List.mem_cons_self) (by decide)
  · exact plain

theorem readInt?_eq_some {text : List Char} {n : Int} : readInt? text = some n ↔ Spells text n := by
  constructor
  · intro read
    rcases splitSign_cases text with ⟨rest, rfl, split⟩ | ⟨rest, rfl, split⟩ | split
    · obtain ⟨⟨given, each⟩, rfl⟩ := (readInt?_of_split split).mp read
      exact .minus given each
    · obtain ⟨⟨given, each⟩, rfl⟩ := (readInt?_of_split split).mp read
      exact .plus given each
    · obtain ⟨⟨given, each⟩, rfl⟩ := (readInt?_of_split split).mp read
      exact .plain given each
  · intro spells
    cases spells with
    | plain given each => exact (readInt?_of_split (splitSign_digits each)).mpr ⟨⟨given, each⟩, rfl⟩
    | plus given each => exact (readInt?_of_split rfl).mpr ⟨⟨given, each⟩, rfl⟩
    | minus given each => exact (readInt?_of_split rfl).mpr ⟨⟨given, each⟩, rfl⟩

theorem toNat_of_isDigit {c : Char} (digit : c.isDigit = true) : 48 ≤ c.toNat ∧ c.toNat ≤ 57 := by
  simp only [Char.isDigit, Bool.and_eq_true, decide_eq_true_eq, UInt32.le_iff_toNat_le] at digit
  exact digit

theorem isBlank_of_isDigit {c : Char} (digit : c.isDigit = true) : Unicode.isBlank c = false := by
  have range := toNat_of_isDigit digit
  simp only [Unicode.isBlank, Bool.or_eq_false_iff, Bool.and_eq_false_iff, decide_eq_false_iff_not]
  omega

theorem Spells.solid {text : List Char} {n : Int} (spells : Spells text n) :
    text ≠ [] ∧ ∀ c ∈ text, Unicode.isBlank c = false := by
  cases spells with
  | plain given each => exact ⟨given, fun c inside => isBlank_of_isDigit (each c inside)⟩
  | plus _ each =>
    refine ⟨nofun, List.forall_mem_cons.mpr ⟨by decide, fun c inside => ?_⟩⟩
    exact isBlank_of_isDigit (each c inside)
  | minus _ each =>
    refine ⟨nofun, List.forall_mem_cons.mpr ⟨by decide, fun c inside => ?_⟩⟩
    exact isBlank_of_isDigit (each c inside)

-- The same with any white space around it.
def SpellsAmid (text : List Char) (n : Int) : Prop :=
  ∃ before numeral after, text = before ++ (numeral ++ after) ∧ Spells numeral n ∧
    (∀ c ∈ before, Unicode.isBlank c = true) ∧ ∀ c ∈ after, Unicode.isBlank c = true

theorem readInt?_trim {text : List Char} {n : Int} :
    readInt? (Unicode.trim text) = some n ↔ SpellsAmid text n := by
  rw [readInt?_eq_some]
  constructor
  · intro spells
    obtain ⟨before, after, whole, blank, blankToo⟩ := Unicode.trim_split text
    exact ⟨before, _, after, whole, spells, blank, blankToo⟩
  · rintro ⟨before, numeral, after, rfl, spells, blank, blankToo⟩
    obtain ⟨given, solid⟩ := spells.solid
    rwa [Unicode.trim_between blank blankToo given solid]

end SigningSchema.Number
