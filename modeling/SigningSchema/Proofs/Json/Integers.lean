import SigningSchema.Proofs.Json.Printing
import SigningSchema.Proofs.Number.Numerals
import SigningSchema.Proofs.Number.Rounding

-- Literals of integers: those of 64 bits are read exactly, and the others as doubles that are far
-- from small.

namespace SigningSchema.Json

open Number

-- At least one digit, and a leading zero only where it is the only one.
structure Unpadded (digits : List Char) : Prop where
  given : digits ≠ []
  each : ∀ c ∈ digits, c.isDigit = true
  leading : digits.head? = some '0' → digits.length = 1

-- The text of an integer: no fraction, no exponent, no plus sign and no leading zeros.
inductive Literal : List Char → Int → Prop where
  | natural {digits : List Char} (unpadded : Unpadded digits) : Literal digits (decimal digits)
  | negative {digits : List Char} (unpadded : Unpadded digits) : Literal ('-' :: digits) (-decimal digits)

-- The integers that have 64 bits, with a sign or without one.
def Fits64 (n : Int) : Prop := -9223372036854775808 ≤ n ∧ n ≤ 18446744073709551615

section Significands

variable {start : Nat} {digits : List Char}

theorem le_ofDigits (start : Nat) (digits : List Char) : start ≤ ofDigits start digits := by
  induction digits generalizing start with
  | nil => exact le_rfl
  | cons c rest ih =>
    have next := ih (start * 10 + (c.toNat - 48))
    simp only [ofDigits, List.foldl_cons] at next ⊢
    omega

-- A significand is the whole number, or a large one in front of digits that made it too large.
theorem significand_cases (small : start ≤ maxWord) (each : ∀ c ∈ digits, c.isDigit = true) :
    significand start digits = (ofDigits start digits, []) ∧ ofDigits start digits ≤ maxWord ∨
      ∃ size dropped, significand start digits = (size, dropped) ∧ dropped ≠ [] ∧ 2 ^ 60 ≤ size ∧
        maxWord < ofDigits start digits := by
  have bound : maxWord = 18446744073709551615 := rfl
  induction digits generalizing start with
  | nil => exact .inl ⟨rfl, small⟩
  | cons c rest ih =>
    obtain ⟨digit, later⟩ := List.forall_mem_cons.mp each
    have range := toNat_of_isDigit digit
    rw [significand]
    split
    · rename_i excess
      have rest := le_ofDigits (start * 10 + (c.toNat - 48)) rest
      refine .inr ⟨start, _, rfl, nofun, by omega, ?_⟩
      exact lt_of_lt_of_le excess rest
    · rename_i fits
      exact ih (by omega) later

-- How many digits a significand has taken.
theorem significand_length (small : start ≤ maxWord) (each : ∀ c ∈ digits, c.isDigit = true) :
    ∃ taken, (significand start digits).1 ≤ maxWord ∧
      digits.length = taken + (significand start digits).2.length ∧
      (significand start digits).1 < (start + 1) * 10 ^ taken := by
  induction digits generalizing start with
  | nil => exact ⟨0, small, rfl, by simp [significand]⟩
  | cons c rest ih =>
    obtain ⟨digit, later⟩ := List.forall_mem_cons.mp each
    have range := toNat_of_isDigit digit
    rw [significand]
    split
    · exact ⟨0, small, by simp, by simp⟩
    · rename_i fits
      obtain ⟨taken, bounded, whole, below⟩ := ih (not_lt.mp fits) later
      refine ⟨taken + 1, bounded, by rw [List.length_cons, whole]; omega, below.trans_le ?_⟩
      calc (start * 10 + (c.toNat - 48) + 1) * 10 ^ taken ≤ (start + 1) * 10 * 10 ^ taken :=
            Nat.mul_le_mul_right _ (by omega)
        _ = (start + 1) * 10 ^ (taken + 1) := by rw [pow_succ]; ring

end Significands

theorem scaled?_large {size magnitude : Nat} (large : 2 ^ 60 ≤ size) (places : Nat)
    (scaled : scaled? (double.ofRatio size 1) places = some magnitude) :
    powerWord 60 ≤ magnitude ∧ magnitude < double.infinity := by
  have above : powerWord 60 ≤ double.ofRatio size 1 :=
    powerWord_le_ofRatio Nat.one_pos (by omega) (by decide)
  have ten : powerWord 0 ≤ double.ofRatio (Nat.pow 10 places) 1 :=
    powerWord_le_ofRatio Nat.one_pos (by simpa using Nat.one_le_pow _ _ (by decide)) (by decide)
  have bound := ofRatio_le_infinity double size 1
  have boundToo := ofRatio_le_infinity double (Nat.pow 10 places) 1
  have product := powerWord_le_times above ten bound boundToo (by decide)
  rw [Nat.add_zero] at product
  rw [scaled?, if_pos (Int.natCast_nonneg places)] at scaled
  split at scaled
  · dsimp only at scaled
    rw [Int.toNat_natCast] at scaled
    split at scaled
    · cases scaled
    · rename_i finite
      cases scaled
      exact ⟨product, lt_of_le_of_ne (times_le_infinity double _ _) finite⟩
  · split at scaled
    · rename_i zero
      rw [zero] at above
      exact absurd above (by decide)
    · cases scaled

-- Products of a 64-bit number with up to 288 zeros stay below the largest double.
theorem scaled?_defined {size places : Nat} (word : size ≤ maxWord) (few : places ≤ 288) :
    ∃ magnitude, scaled? (double.ofRatio size 1) places = some magnitude := by
  have bound : maxWord = 18446744073709551615 := rfl
  have below : double.ofRatio size 1 ≤ powerWord 64 := ofRatio_le_powerWord Nat.one_pos (by omega)
  have tens : 10 ^ places ≤ 2 ^ 959 :=
    (Nat.pow_le_pow_right (by decide) few).trans (by decide +kernel)
  have belowToo : double.ofRatio (Nat.pow 10 places) 1 ≤ powerWord 959 :=
    ofRatio_le_powerWord Nat.one_pos (by rw [Nat.mul_one]; exact tens)
  obtain ⟨product, made⟩ : ∃ product,
      double.times (double.ofRatio size 1) (double.ofRatio (Nat.pow 10 places) 1) = product := ⟨_, rfl⟩
  have finite : product ≠ double.infinity := by
    have bounded := times_le_powerWord below belowToo le_rfl
    rw [made] at bounded
    exact (bounded.trans_lt (by decide)).ne
  refine ⟨product, ?_⟩
  rw [scaled?, if_pos (Int.natCast_nonneg places), if_pos (by omega)]
  dsimp only
  rw [Int.toNat_natCast, made, if_neg finite]

theorem scaled?_zero : scaled? (double.ofRatio 0 1) 0 = some 0 := by
  rw [scaled?]
  decide +kernel

-- The double of a magnitude, with its sign.
def signed (negative : Bool) (magnitude : Nat) : JsonNumber :=
  .double (UInt64.ofNat (double.withSign negative magnitude))

theorem toInt?_zero : double.toInt? (UInt64.ofNat (double.withSign true 0)).toNat = some 0 := by
  decide +kernel

-- A double far from zero, whatever its sign.
def Far (number : JsonNumber) : Prop :=
  ∃ word m, number = .double word ∧ double.toInt? word.toNat = some m ∧ 2 ^ 60 ≤ m.natAbs

theorem far_signed {size magnitude : Nat} (large : 2 ^ 60 ≤ size) (places : Nat) (negative : Bool)
    (scaled : scaled? (double.ofRatio size 1) places = some magnitude) :
    Far (signed negative magnitude) := by
  obtain ⟨above, finite⟩ := scaled?_large large places scaled
  obtain ⟨s, far, integer⟩ := toInt?_of_powerWord negative (by decide) above finite
  refine ⟨_, if negative then -(s : Int) else s, rfl, ?_, ?_⟩
  · rw [UInt64.toNat_ofNat_of_lt' (withSign_lt negative finite.le), integer]
  · split <;> omega

variable {digits : List Char} {n : Int}

theorem toNumber?_many {negative : Bool} {size : Nat} {dropped : List Char}
    (read : significand 0 digits = (size, dropped)) (many : dropped ≠ []) :
    Numeral.toNumber? ⟨negative, digits, none, none⟩
      = (scaled? (double.ofRatio size 1) dropped.length).map (signed negative) := by
  simp only [Numeral.toNumber?, read]
  rw [if_pos (by simpa [List.isEmpty_iff] using many)]
  rfl

theorem toNumber?_natural (read : significand 0 digits = (decimal digits, [])) :
    Numeral.toNumber? ⟨false, digits, none, none⟩ = some (.integer (decimal digits)) := by
  simp [Numeral.toNumber?, read]

theorem toNumber?_negative (read : significand 0 digits = (decimal digits, [])) :
    Numeral.toNumber? ⟨true, digits, none, none⟩
      = if decimal digits = 0 ∨ 9223372036854775808 < decimal digits then
          (scaled? (double.ofRatio (decimal digits) 1) 0).map (signed true)
        else some (.integer (-decimal digits)) := by
  simp only [Numeral.toNumber?, read]
  rfl

-- What a literal of 64 bits is read as: a minus alone makes a double of zero.
def Exact (n : Int) (number : JsonNumber) : Prop :=
  number = .integer n ∨ n = 0 ∧ ∃ word, number = .double word ∧ double.toInt? word.toNat = some 0

-- A literal is read exactly, or its first digits are scaled: there are at most 288 more if it has no more
-- than 307.
theorem toNumber?_cases (negative : Bool) (each : ∀ c ∈ digits, c.isDigit = true)
    (denotes : n = if negative then -(decimal digits : Int) else decimal digits) :
    (Fits64 n ∧ ∃ number,
        Numeral.toNumber? ⟨negative, digits, none, none⟩ = some number ∧ Exact n number) ∨
      ¬ Fits64 n ∧ ∃ (size places : Nat), 2 ^ 60 ≤ size ∧ size ≤ maxWord ∧
        (digits.length ≤ 307 → places ≤ 288) ∧
        Numeral.toNumber? ⟨negative, digits, none, none⟩
          = (scaled? (double.ofRatio size 1) places).map (signed negative) := by
  have bound : maxWord = 18446744073709551615 := rfl
  unfold Fits64
  rcases significand_cases (Nat.zero_le _) each with
    ⟨read, small⟩ | ⟨size, dropped, read, many, large, excess⟩
  · rw [ofDigits_eq_decimal] at read small
    cases negative with
    | false =>
      simp only [Bool.false_eq_true, if_false] at denotes
      exact .inl ⟨by omega, _, toNumber?_natural read, .inl (by rw [denotes])⟩
    | true =>
      simp only [if_true] at denotes
      rw [toNumber?_negative read]
      by_cases zero : decimal digits = 0
      · rw [if_pos (.inl zero), zero, scaled?_zero]
        exact .inl ⟨by omega, _, rfl, .inr ⟨by omega, _, rfl, toInt?_zero⟩⟩
      · by_cases excess : 9223372036854775808 < decimal digits
        · rw [if_pos (.inr excess)]
          exact .inr ⟨by omega, decimal digits, 0, by omega, small, fun _ => by omega, rfl⟩
        · rw [if_neg (by omega)]
          exact .inl ⟨by omega, _, rfl, .inl (by rw [denotes])⟩
  · rw [ofDigits_eq_decimal] at excess
    obtain ⟨taken, word, whole, below⟩ := significand_length (Nat.zero_le _) each
    rw [read] at word whole below
    dsimp only at word whole below
    have first : 19 ≤ taken := by
      by_contra few
      have : 10 ^ taken ≤ 10 ^ 18 := Nat.pow_le_pow_right (by decide) (by omega)
      omega
    refine .inr ⟨?_, size, dropped.length, large, word, fun _ => by omega, toNumber?_many read many⟩
    split at denotes <;> omega

-- What a literal of an integer is read as.
def ReadAs (n : Int) (number : JsonNumber) : Prop :=
  Fits64 n ∧ Exact n number ∨ ¬ Fits64 n ∧ Far number

theorem toNumber?_literal (negative : Bool) (each : ∀ c ∈ digits, c.isDigit = true)
    (denotes : n = if negative then -(decimal digits : Int) else decimal digits) :
    (Fits64 n ∨ digits.length ≤ 307 →
      ∃ number, Numeral.toNumber? ⟨negative, digits, none, none⟩ = some number) ∧
      ∀ number, Numeral.toNumber? ⟨negative, digits, none, none⟩ = some number → ReadAs n number := by
  rcases toNumber?_cases negative each denotes with
    ⟨fits, number, made, exact⟩ | ⟨outside, size, places, large, word, few, made⟩
  · rw [made]
    refine ⟨fun _ => ⟨number, rfl⟩, fun other same => ?_⟩
    cases same
    exact .inl ⟨fits, exact⟩
  · rw [made]
    constructor
    · intro short
      obtain ⟨magnitude, scaled⟩ := scaled?_defined word (few (short.resolve_left outside))
      exact ⟨_, by rw [scaled]; rfl⟩
    · intro number same
      obtain ⟨magnitude, scaled, rfl⟩ := Option.map_eq_some_iff.mp same
      exact .inr ⟨outside, far_signed large places negative scaled⟩

section Texts

variable {text : List Char}

theorem isAtomic_of_isDigit {c : Char} (digit : c.isDigit = true) : isAtomic c = true := by
  have range := toNat_of_isDigit digit
  have other {d : Char} (outside : d.toNat < 48 ∨ 57 < d.toNat) : c ≠ d := by
    rintro rfl
    omega
  have space : isSpace c = false := by
    simp only [isSpace, Bool.or_eq_false_iff, decide_eq_false_iff_not]
    exact ⟨⟨⟨other (by decide), other (by decide)⟩, other (by decide)⟩, other (by decide)⟩
  have mark : mark? c = none := by
    unfold mark?
    split
    case h_7 => rfl
    all_goals exact absurd digit (by decide)
  have quote : c ≠ '"' := other (by decide)
  simp [isAtomic, space, mark, quote]

theorem readNumeral?_unpadded (negative : Bool) (unpadded : Unpadded digits) :
    readNumeral? negative digits = some ⟨negative, digits, none, none⟩ := by
  have taken : digits.takeWhile Char.isDigit = digits := List.takeWhile_eq_self_iff.mpr unpadded.each
  have left : digits.dropWhile Char.isDigit = [] := List.dropWhile_eq_nil_iff.mpr unpadded.each
  have proper : (digits.isEmpty || (digits.head? = some '0' && digits.length ≠ 1)) = false := by
    simpa [List.isEmpty_iff, unpadded.given] using unpadded.leading
  simp only [readNumeral?, taken, left]
  rw [if_neg (by simpa using proper)]
  rfl

theorem atom?_unpadded (unpadded : Unpadded digits) :
    atom? digits = some (.number ⟨false, digits, none, none⟩) := by
  obtain ⟨c, rest, rfl⟩ := List.exists_cons_of_ne_nil unpadded.given
  have first := unpadded.each c List.mem_cons_self
  have numeral := readNumeral?_unpadded false unpadded
  unfold atom?
  -- None of the other atoms begins with a digit.
  split
  case h_5 => rw [numeral]; rfl
  all_goals
    rename_i same
    cases same
    exact absurd first (by decide)

theorem ofText?_word {numeral : Numeral} (given : text ≠ []) (letters : ∀ c ∈ text, isAtomic c = true)
    (reads : atom? text = some (.number numeral)) :
    ofText? (String.ofList text) = numeral.toNumber?.map .number := by
  obtain ⟨c, rest, rfl⟩ := List.exists_cons_of_ne_nil given
  have tokens : readTokens (c :: rest ++ []) = (readTokens []).map (Token.number numeral :: ·) :=
    readTokens_word letters reads nofun
  rw [List.append_nil, readTokens] at tokens
  rw [ofText?, Tree.ofText?, String.toList_ofList, tokens]
  rfl

end Texts

-- A literal of 64 bits or of at most 307 digits is a document, and what is read of it is the integer.
theorem ofText?_literal {text : List Char} (literal : Literal text n) :
    (Fits64 n ∨ text.length ≤ 307 → ∃ json, ofText? (String.ofList text) = some json) ∧
      ∀ json, ofText? (String.ofList text) = some json →
        ∃ number, json = .number number ∧ ReadAs n number := by
  obtain ⟨negative, digits, each, denotes, short, read⟩ : ∃ negative digits,
      (∀ c ∈ digits, c.isDigit = true) ∧
      (n = if negative then -(decimal digits : Int) else decimal digits) ∧
      digits.length ≤ text.length ∧
      ofText? (String.ofList text) = (Numeral.toNumber? ⟨negative, digits, none, none⟩).map .number := by
    cases literal with
    | natural unpadded =>
      refine ⟨false, _, unpadded.each, rfl, le_rfl, ?_⟩
      exact ofText?_word unpadded.given (fun c inside => isAtomic_of_isDigit (unpadded.each c inside))
        (atom?_unpadded unpadded)
    | negative unpadded =>
      refine ⟨true, _, unpadded.each, rfl, Nat.le_succ _, ?_⟩
      refine ofText?_word nofun (List.forall_mem_cons.mpr ⟨by decide, fun c inside => ?_⟩) ?_
      · exact isAtomic_of_isDigit (unpadded.each c inside)
      · show (readNumeral? true _).map Token.number = _
        rw [readNumeral?_unpadded true unpadded]
        rfl
  obtain ⟨defined, exact⟩ := toNumber?_literal negative each denotes
  rw [read]
  constructor
  · intro given
    obtain ⟨number, made⟩ := defined (given.imp_right short.trans)
    exact ⟨_, by rw [made]; rfl⟩
  · intro json same
    obtain ⟨number, made, rfl⟩ := Option.map_eq_some_iff.mp same
    exact ⟨number, rfl, exact number made⟩

end SigningSchema.Json
