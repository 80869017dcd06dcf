import SigningSchema.Proofs.Encoder.Typing
import SigningSchema.Proofs.Json.Integers
import SigningSchema.Proofs.Number.Magnitude

-- Integers are coerced by what they are, however they are given: as an exact number, as a double or as
-- a numeral in text.

namespace SigningSchema

-- The least and the greatest value of a kind of integers.
def ScalarKind.intRange? : ScalarKind → Option (Int × Int)
  | .int32 | .sint32 | .sfixed32 | .enum => some (-2147483648, 2147483647)
  | .uint32 | .fixed32 => some (0, 4294967295)
  | .int64 | .sint64 | .sfixed64 => some (-9223372036854775808, 9223372036854775807)
  | .uint64 | .fixed64 => some (0, 18446744073709551615)
  | _ => none

def Value.integer? : Value → Option Int
  | .int32 value => some value.toInt
  | .uint32 value => some value.toNat
  | .int64 value => some value.toInt
  | .uint64 value => some value.toNat
  | _ => none

namespace Value

variable {kind : ScalarKind} {low high n : Int} {value other : Value}

theorem bounded_of_integer? (range : kind.intRange? = some (low, high))
    (fits : value.ofKind kind = true) (whole : value.integer? = some n) : low ≤ n ∧ n ≤ high := by
  cases value with
  | int32 word | int64 word =>
    have above := word.le_toInt
    have below := word.toInt_lt
    cases whole
    cases kind <;> cases fits <;> cases range <;> omega
  | uint32 word | uint64 word =>
    have below := word.toNat_lt
    cases whole
    cases kind <;> cases fits <;> cases range <;> omega
  | _ => cases whole

theorem eq_of_integer? (fits : value.ofKind kind = true) (fitsToo : other.ofKind kind = true)
    (whole : value.integer? = some n) (wholeToo : other.integer? = some n) : value = other := by
  have same := whole.trans wholeToo.symm
  cases kind <;> cases value <;> cases fits <;> cases other <;> cases fitsToo <;> cases whole <;>
    simpa [integer?, ← Int32.toInt_inj, ← UInt32.toNat_inj, ← Int64.toInt_inj, ← UInt64.toNat_inj]
      using same

end Value

namespace Coercion

open Number

variable {kind : ScalarKind} {path : FieldPath} {low high n : Int} {input : Json}

theorem fits64_of_intRange? (range : kind.intRange? = some (low, high)) (above : low ≤ n)
    (below : n ≤ high) : Json.Fits64 n := by
  unfold Json.Fits64
  cases kind <;> cases range <;> omega

theorem scalar_bounded (range : kind.intRange? = some (low, high)) :
    ∃ make : Int → Value, (∀ n, low ≤ n → n ≤ high → (make n).integer? = some n) ∧
      ∀ path input, scalar kind path input = (readBounded kind path low high input).map make := by
  cases kind <;> cases range
  case int32 | sint32 | sfixed32 | enum =>
    refine ⟨fun n => .int32 (Int32.ofInt n), fun n above below => ?_, fun _ _ => rfl⟩
    exact congrArg some (Int32.toInt_ofInt_of_le (by omega) (by omega))
  case uint32 | fixed32 =>
    refine ⟨fun n => .uint32 (UInt32.ofNat n.toNat), fun n above below => ?_, fun _ _ => rfl⟩
    refine congrArg some ?_
    rw [UInt32.toNat_ofNat_of_lt' ((Int.toNat_lt above).mpr (Int.lt_of_le_sub_one below)),
      Int.toNat_of_nonneg above]
  case int64 | sint64 | sfixed64 =>
    refine ⟨fun n => .int64 (Int64.ofInt n), fun n above below => ?_, fun _ _ => rfl⟩
    exact congrArg some (Int64.toInt_ofInt_of_le (by omega) (by omega))
  case uint64 | fixed64 =>
    refine ⟨fun n => .uint64 (UInt64.ofNat n.toNat), fun n above below => ?_, fun _ _ => rfl⟩
    refine congrArg some ?_
    rw [UInt64.toNat_ofNat_of_lt' ((Int.toNat_lt above).mpr (Int.lt_of_le_sub_one below)),
      Int.toNat_of_nonneg above]

-- What an input denotes, if that is an integer.
inductive Denotes : Json → Int → Prop where
  | integer (n : Int) : Denotes (.number (.integer n)) n
  | double {word : UInt64} {n : Int} (value : double.value? word.toNat = some (n : ℚ)) :
      Denotes (.number (.double word)) n
  | text {text : String} {n : Int} (spells : SpellsAmid text.toList n) : Denotes (.string text) n

def integerOf? : Json → Option Int
  | .number (.integer n) => some n
  | .number (.double word) => double.toInt? word.toNat
  | .string text => readInt? (Unicode.trim text.toList)
  | _ => none

theorem denotes_iff : Denotes input n ↔ integerOf? input = some n := by
  constructor
  · intro denotes
    cases denotes with
    | integer => rfl
    | double value => exact Format.toInt?_eq_some.mpr value
    | text spells => exact readInt?_trim.mpr spells
  · intro found
    match input with
    | .number (.integer m) =>
      obtain rfl : m = n := Option.some.inj found
      exact .integer m
    | .number (.double word) => exact .double (Format.toInt?_eq_some.mp found)
    | .string text => exact .text (readInt?_trim.mp found)

section Reading

theorem readInteger_of_none (unread : integerOf? input = none) :
    readInteger kind path input = .error (.unlike path kind.keyword input) := by
  match input with
  | .number (.double word) =>
    replace unread : double.toInt? word.toNat = none := unread
    simp only [readInteger, unread]
  | .string text =>
    replace unread : readInt? (Unicode.trim text.toList) = none := unread
    simp only [readInteger, unread]
  | .null | .bool _ | .array _ | .object _ => rfl

theorem readInteger_double (kind : ScalarKind) (path : FieldPath) {word : UInt64}
    (found : double.toInt? word.toNat = some n) :
    (n.natAbs ≤ 9007199254740991 → readInteger kind path (.number (.double word)) = .ok n) ∧
      (9007199254740991 < n.natAbs → ∃ expected shown,
        readInteger kind path (.number (.double word)) = .error (.outOfRange path expected shown)) := by
  simp only [readInteger, found]
  have limit : maxSafe = 9007199254740991 := rfl
  constructor
  · intro small
    rw [if_neg (by omega)]
  · intro large
    rw [if_pos (by omega)]
    exact ⟨_, _, rfl⟩

theorem readInteger_text {text : String} (found : readInt? (Unicode.trim text.toList) = some n) :
    readInteger kind path (.string text) = .ok n ∨ ¬ Json.Fits64 n ∧ ∃ expected shown,
      readInteger kind path (.string text) = .error (.outOfRange path expected shown) := by
  simp only [readInteger, found]
  split
  · exact .inl rfl
  · rename_i wide
    refine .inr ⟨fun fits => wide ?_, _, _, rfl⟩
    unfold Json.Fits64 at fits
    simp only [fitsNumeral, Bool.decide_and, Bool.and_eq_true, decide_eq_true_eq]
    constructor
    · exact le_trans (by decide) fits.1
    · exact lt_of_le_of_lt fits.2 (by decide)

theorem readInteger_of_some (kind : ScalarKind) (path : FieldPath) (found : integerOf? input = some n) :
    readInteger kind path input = .ok n ∨
      ∃ expected shown, readInteger kind path input = .error (.outOfRange path expected shown) := by
  match input with
  | .number (.integer m) =>
    obtain rfl : m = n := Option.some.inj found
    exact .inl rfl
  | .number (.double word) =>
    obtain ⟨small, large⟩ := readInteger_double kind path found
    exact (le_or_gt _ _).imp small large
  | .string text => exact (readInteger_text found).imp_right And.right

theorem integerOf?_of_ok (read : readInteger kind path input = .ok n) : integerOf? input = some n := by
  cases found : integerOf? input with
  | none =>
    rw [readInteger_of_none found] at read
    cases read
  | some m =>
    rcases readInteger_of_some kind path found with same | ⟨expected, shown, failed⟩
    · rw [same] at read
      rw [Except.ok.inj read]
    · rw [failed] at read
      cases read

end Reading

-- The integer itself where it has the range of the kind, and an error that says so where it does not.
structure Settles (kind : ScalarKind) (low high : Int) (path : FieldPath) (n : Int)
    (result : Except CoercionError Value) : Prop where
  inside : low ≤ n → n ≤ high →
    ∃ value, result = .ok value ∧ value.ofKind kind = true ∧ value.integer? = some n
  outside : n < low ∨ high < n → ∃ expected shown, result = .error (.outOfRange path expected shown)

section Scalars

theorem scalar_error (range : kind.intRange? = some (low, high)) {error : CoercionError}
    (failed : readInteger kind path input = .error error) : scalar kind path input = .error error := by
  obtain ⟨make, _, coerces⟩ := scalar_bounded range
  rw [coerces, readBounded, failed]
  rfl

theorem settles_of_ok (range : kind.intRange? = some (low, high))
    (read : readInteger kind path input = .ok n) :
    Settles kind low high path n (scalar kind path input) := by
  obtain ⟨make, faithful, coerces⟩ := scalar_bounded range
  have coerced := coerces path input
  simp only [readBounded, read, bind, Except.bind] at coerced
  constructor
  · intro above below
    rw [if_pos ⟨above, below⟩] at coerced
    exact ⟨make n, coerced, scalar_ofKind coerced, faithful n above below⟩
  · intro far
    rw [if_neg (by omega)] at coerced
    exact ⟨_, _, coerced⟩

-- The exact number that a value is stands for the value.
theorem scalar_integer {value : Value} (range : kind.intRange? = some (low, high))
    (fits : value.ofKind kind = true) (whole : value.integer? = some n) (path : FieldPath) :
    scalar kind path (.number (.integer n)) = .ok value := by
  obtain ⟨above, below⟩ := Value.bounded_of_integer? range fits whole
  have settles : Settles kind low high path n (scalar kind path (.number (.integer n))) :=
    settles_of_ok range rfl
  obtain ⟨other, coerced, fitsToo, wholeToo⟩ := settles.inside above below
  rw [coerced, Value.eq_of_integer? fitsToo fits wholeToo whole]

theorem settles_of_error (range : kind.intRange? = some (low, high)) (wide : ¬ Json.Fits64 n)
    {expected shown : String}
    (failed : readInteger kind path input = .error (.outOfRange path expected shown)) :
    Settles kind low high path n (scalar kind path input) where
  inside above below := absurd (fits64_of_intRange? range above below) wide
  outside _ := ⟨expected, shown, scalar_error range failed⟩

theorem settles_literal (range : kind.intRange? = some (low, high)) {number : JsonNumber}
    (read : Json.ReadAs n number) : Settles kind low high path n (scalar kind path (.number number)) := by
  rcases read with ⟨_, rfl | ⟨rfl, word, rfl, zero⟩⟩ | ⟨wide, word, m, rfl, integer, far⟩
  · exact settles_of_ok range rfl
  · exact settles_of_ok range ((readInteger_double kind path zero).1 (by decide))
  · obtain ⟨expected, shown, failed⟩ := (readInteger_double kind path integer).2 (by omega)
    exact settles_of_error range wide failed

end Scalars

-- How a kind of integers with a given range coerces each input.
structure CoercesIntegers (kind : ScalarKind) (low high : Int) (path : FieldPath) : Prop where
  integer (n : Int) : Settles kind low high path n (scalar kind path (.number (.integer n)))
  -- A literal is coerced as the document that it is; it is one unless it exceeds all doubles.
  literal {text : List Char} {n : Int} (literal : Json.Literal text n) :
    (low ≤ n ∧ n ≤ high ∨ text.length ≤ 307 → ∃ json, Json.ofText? (String.ofList text) = some json) ∧
      ∀ json, Json.ofText? (String.ofList text) = some json →
        Settles kind low high path n (scalar kind path json)
  text {text : String} {n : Int} (spells : SpellsAmid text.toList n) :
    Settles kind low high path n (scalar kind path (.string text))
  -- Doubles are integers like the others up to 2^53 - 1, and are out of range from there on.
  double {word : UInt64} {n : Int} (value : double.value? word.toNat = some (n : ℚ)) :
    (n.natAbs ≤ 9007199254740991 →
      scalar kind path (.number (.double word)) = scalar kind path (.number (.integer n))) ∧
    (9007199254740991 < n.natAbs → ∃ expected shown,
      scalar kind path (.number (.double word)) = .error (.outOfRange path expected shown))
  -- Every other input is of the wrong kind: other doubles, other texts and other types.
  unlike (input : Json) (other : ∀ n, ¬ Denotes input n) :
    scalar kind path input = .error (.unlike path kind.keyword input)
  -- What is accepted keeps the integer.
  exact {input : Json} {value : Value} (accepted : scalar kind path input = .ok value) :
    value.ofKind kind = true ∧
      ∃ n, (∀ m, Denotes input m ↔ m = n) ∧ low ≤ n ∧ n ≤ high ∧ value.integer? = some n

theorem coercesIntegers_of_range (range : kind.intRange? = some (low, high)) (path : FieldPath) :
    CoercesIntegers kind low high path where
  integer n := settles_of_ok range rfl
  literal literal := by
    obtain ⟨defined, reads⟩ := Json.ofText?_literal literal
    constructor
    · intro given
      exact defined (given.imp_left fun inside => fits64_of_intRange? range inside.1 inside.2)
    · intro json read
      obtain ⟨number, rfl, same⟩ := reads json read
      exact settles_literal range same
  text spells := by
    rcases readInteger_text (readInt?_trim.mpr spells) with read | ⟨wide, expected, shown, failed⟩
    · exact settles_of_ok range read
    · exact settles_of_error range wide failed
  double {word n} value := by
    obtain ⟨small, large⟩ := readInteger_double kind path (Format.toInt?_eq_some.mpr value)
    obtain ⟨make, _, coerces⟩ := scalar_bounded range
    constructor
    · intro few
      rw [coerces, coerces, readBounded, readBounded, small few]
      rfl
    · intro many
      obtain ⟨expected, shown, failed⟩ := large many
      exact ⟨expected, shown, scalar_error range failed⟩
  unlike input other := by
    have unread : integerOf? input = none :=
      Option.eq_none_iff_forall_ne_some.mpr fun n found => other n (denotes_iff.mpr found)
    exact scalar_error range (readInteger_of_none unread)
  exact {input value} accepted := by
    refine ⟨scalar_ofKind accepted, ?_⟩
    obtain ⟨make, faithful, coerces⟩ := scalar_bounded range
    rw [coerces] at accepted
    obtain ⟨m, bounded, rfl⟩ := map_ok accepted
    obtain ⟨n, read, ran⟩ := bind_ok bounded
    split at ran
    · rename_i inside
      obtain rfl : n = m := Except.ok.inj ran
      refine ⟨n, fun m => ?_, inside.1, inside.2, faithful n inside.1 inside.2⟩
      rw [denotes_iff, integerOf?_of_ok read, Option.some.injEq, eq_comm]
    · cases ran

theorem coercesIntegers_of_range_uint64 :
    ScalarKind.uint64.intRange? = some (0, 18446744073709551615) ∧
      (∃ value, scalar .uint64 (.root "fee") (.string "\t+0042 ") = .ok value ∧
        value.ofKind .uint64 = true ∧ value.integer? = some 42) ∧
      scalar .uint64 (.root "fee") (.number (.double 0x4045000000000000))
        = scalar .uint64 (.root "fee") (.number (.integer 42)) ∧
      ∃ json, Json.ofText? "18446744073709551616" = some json ∧ ∃ expected shown,
        scalar .uint64 (.root "fee") json = .error (.outOfRange (.root "fee") expected shown) := by
  have range : ScalarKind.uint64.intRange? = some (0, 18446744073709551615) := rfl
  have coerces := coercesIntegers_of_range range (.root "fee")
  have spells : SpellsAmid "\t+0042 ".toList 42 := readInt?_trim.mp (by decide)
  have value : double.value? (0x4045000000000000 : UInt64).toNat = some ((42 : Int) : ℚ) :=
    Format.toInt?_eq_some.mp (by decide)
  have literal : Json.Literal "18446744073709551616".toList (decimal "18446744073709551616".toList) :=
    .natural ⟨by decide, List.all_eq_true.mp (by decide), by decide⟩
  have size : decimal "18446744073709551616".toList = 18446744073709551616 := by decide +kernel
  obtain ⟨defined, settles⟩ := coerces.literal literal
  obtain ⟨json, read⟩ := defined (.inr (by decide))
  rw [String.ofList_toList] at read settles
  refine ⟨range, (coerces.text spells).inside (by decide) (by decide),
    (coerces.double value).1 (by decide), json, read, (settles json read).outside (.inr ?_)⟩
  rw [size]
  decide

end Coercion

end SigningSchema
