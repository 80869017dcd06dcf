import SigningSchema.Proofs.Coercion.Integers
import SigningSchema.Proofs.Coercion.Parts

-- Spans and points in time are coerced by the seconds and the nanos that an input gives, each as any
-- integer may be given. The two parts of a span never have opposite signs, so there is one way to divide
-- a number of nanoseconds, and with it one value and one payload.

namespace SigningSchema

open Wire (Bytes)

namespace Coercion

open Number

variable {kind : ScalarKind} {path : FieldPath} {input other : Json}
variable {value again : Value} {n seconds nanos : Int}

-- An integer given in one of the spellings that are accepted: doubles only as far as they tell integers
-- apart.
structure Gives (input : Json) (n : Int) : Prop where
  denotes : Denotes input n
  exact : ∀ word, input = .number (.double word) → n.natAbs ≤ 9007199254740991

theorem Gives.unique {m : Int} (gives : Gives input n) (givesToo : Gives input m) : n = m :=
  Option.some.inj ((denotes_iff.mp gives.denotes).symm.trans (denotes_iff.mp givesToo.denotes))

theorem readInteger_ok_iff (fits : Json.Fits64 n) : readInteger kind path input = .ok n ↔ Gives input n := by
  constructor
  · intro read
    have found := integerOf?_of_ok read
    refine ⟨denotes_iff.mpr found, ?_⟩
    rintro word rfl
    by_contra large
    obtain ⟨_, _, failed⟩ := (readInteger_double kind path found).2 (by omega)
    rw [failed] at read
    cases read
  · rintro ⟨denotes, exact⟩
    cases denotes with
    | integer => rfl
    | double value =>
      exact (readInteger_double kind path (Format.toInt?_eq_some.mpr value)).1 (exact _ rfl)
    | text spells =>
      rcases readInteger_text (readInt?_trim.mpr spells) with read | ⟨wide, _⟩
      · exact read
      · exact absurd fits wide

-- An object whose two members, neither of them null, are integers: seconds of 64 bits, and nanos that
-- stay below a second.
inductive GivesMoment : Json → Int → Int → Prop where
  | object {members : List (String × Json)} {first second : Json} {seconds nanos : Int}
      (secondsGiven : Json.given? members "seconds" = some first) (givesSeconds : Gives first seconds)
      (nanosGiven : Json.given? members "nanos" = some second) (givesNanos : Gives second nanos)
      (fits : -9223372036854775808 ≤ seconds ∧ seconds ≤ 9223372036854775807)
      (fraction : nanos.natAbs ≤ 999999999) : GivesMoment (.object members) seconds nanos

theorem GivesMoment.unique {seconds' nanos' : Int} (gives : GivesMoment input seconds nanos)
    (givesToo : GivesMoment input seconds' nanos') : seconds = seconds' ∧ nanos = nanos' := by
  obtain ⟨given, whole, givenPart, part, _, _⟩ := gives
  obtain ⟨givenToo, wholeToo, givenPartToo, partToo, _, _⟩ := givesToo
  cases given.symm.trans givenToo
  cases givenPart.symm.trans givenPartToo
  exact ⟨whole.unique wholeToo, part.unique partToo⟩

theorem readSeconds_ok_iff {given : Option Json} : readSeconds path given = .ok seconds ↔
    ∃ input, given = some input ∧ Gives input seconds ∧
      -9223372036854775808 ≤ seconds ∧ seconds ≤ 9223372036854775807 := by
  have least : Int64.minValue.toInt = -9223372036854775808 := rfl
  have most : Int64.maxValue.toInt = 9223372036854775807 := rfl
  cases given with
  | none => exact iff_of_false nofun (by simp)
  | some input =>
    simp only [readSeconds, readBounded, least, most, Option.some.injEq, exists_eq_left']
    constructor
    · intro ran
      obtain ⟨n, read, kept⟩ := bind_ok ran
      split at kept
      · rename_i inside
        obtain rfl : n = seconds := Except.ok.inj kept
        have fits : Json.Fits64 n := by unfold Json.Fits64; omega
        exact ⟨(readInteger_ok_iff fits).mp read, inside⟩
      · cases kept
    · rintro ⟨gives, inside⟩
      have fits : Json.Fits64 seconds := by unfold Json.Fits64; omega
      rw [(readInteger_ok_iff fits).mpr gives]
      exact if_pos inside

theorem readMoment_ok_iff : readMoment kind path input = .ok (seconds, nanos) ↔
    GivesMoment input seconds nanos := by
  have limit : maxNanos = 999999999 := rfl
  cases input with
  | object members =>
    rw [readMoment_object]
    constructor
    · intro ran
      obtain ⟨first, readFirst, more⟩ := bind_ok ran
      obtain ⟨second, readSecond, last⟩ := bind_ok more
      obtain ⟨inputToo, givenToo⟩ : ∃ input, Json.given? members "nanos" = some input := by
        cases given : Json.given? members "nanos" with
        | none =>
          rw [given] at readSecond
          cases readSecond
        | some input => exact ⟨input, rfl⟩
      rw [givenToo] at readSecond
      split at last
      · cases last
      · rename_i small
        cases last
        obtain ⟨input, given, gives, fits⟩ := readSeconds_ok_iff.mp readFirst
        have narrow : Json.Fits64 nanos := by unfold Json.Fits64; omega
        exact .object given gives givenToo ((readInteger_ok_iff narrow).mp readSecond) fits (by omega)
    · rintro ⟨given, gives, givenToo, givesToo, fits, fraction⟩
      have narrow : Json.Fits64 nanos := by unfold Json.Fits64; omega
      have readFirst : readSeconds (path.field "seconds") (Json.given? members "seconds") = .ok seconds :=
        readSeconds_ok_iff.mpr ⟨_, given, gives, fits⟩
      have readSecond : readNanos (path.field "nanos") (Json.given? members "nanos") = .ok nanos := by
        rw [givenToo]
        exact (readInteger_ok_iff narrow).mpr givesToo
      rw [readFirst, readSecond]
      exact if_neg (by omega)
  | _ => exact iff_of_false nofun nofun

theorem GivesMoment.fraction (gives : GivesMoment input seconds nanos) : nanos.natAbs ≤ 999999999 := by
  cases gives
  assumption

def OpposeSigns (seconds nanos : Int) : Prop := (0 < seconds ∧ nanos < 0) ∨ (seconds < 0 ∧ 0 < nanos)

instance (seconds nanos : Int) : Decidable (OpposeSigns seconds nanos) :=
  inferInstanceAs (Decidable (_ ∨ _))

-- Where the parts agree in sign, the whole determines them.
theorem parts_of_total {seconds' nanos' : Int} (agree : ¬ OpposeSigns seconds nanos)
    (agreeToo : ¬ OpposeSigns seconds' nanos') (fraction : nanos.natAbs ≤ 999999999)
    (fractionToo : nanos'.natAbs ≤ 999999999)
    (same : seconds * 1000000000 + nanos = seconds' * 1000000000 + nanos') :
    seconds = seconds' ∧ nanos = nanos' := by
  unfold OpposeSigns at agree agreeToo
  omega

theorem scalar_duration_ok_iff : scalar .duration path input = .ok value ↔
    ∃ seconds nanos, GivesMoment input seconds nanos ∧ ¬ OpposeSigns seconds nanos ∧
      value = .duration (Int64.ofInt seconds) (Int32.ofInt nanos) := by
  simp only [scalar]
  constructor
  · intro ran
    obtain ⟨⟨seconds, nanos⟩, read, last⟩ := bind_ok ran
    dsimp only at last
    split at last
    · cases last
    · rename_i agree
      cases last
      exact ⟨seconds, nanos, readMoment_ok_iff.mp read, agree, rfl⟩
  · rintro ⟨seconds, nanos, gives, agree, rfl⟩
    rw [readMoment_ok_iff.mpr gives]
    exact if_neg agree

theorem scalar_timestamp_ok_iff : scalar .timestamp path input = .ok value ↔
    ∃ seconds nanos, GivesMoment input seconds nanos ∧
      value = .timestamp (Int64.ofInt seconds) (Int32.ofInt nanos) := by
  simp only [scalar]
  constructor
  · intro ran
    obtain ⟨⟨seconds, nanos⟩, read, last⟩ := bind_ok ran
    cases last
    exact ⟨seconds, nanos, readMoment_ok_iff.mp read, rfl⟩
  · rintro ⟨seconds, nanos, gives, rfl⟩
    rw [readMoment_ok_iff.mpr gives]
    rfl

-- How a kind of moments coerces each input: which ones are accepted, and that both parts are kept whole.
structure CoercesMoments (kind : ScalarKind) (make : Int64 → Int32 → Value)
    (allowed : Int → Int → Prop) (path : FieldPath) : Prop where
  accepted (input : Json) : (∃ value, scalar kind path input = .ok value) ↔
    ∃ seconds nanos, GivesMoment input seconds nanos ∧ allowed seconds nanos
  kept {input : Json} {value : Value} (coerced : scalar kind path input = .ok value)
    {seconds nanos : Int} (gives : GivesMoment input seconds nanos) :
    ∃ whole part, value = make whole part ∧ whole.toInt = seconds ∧ part.toInt = nanos

theorem coercesMoments_of_iff {make : Int64 → Int32 → Value} {allowed : Int → Int → Prop}
    (coerces : ∀ {input value}, scalar kind path input = .ok value ↔ ∃ seconds nanos,
      GivesMoment input seconds nanos ∧ allowed seconds nanos ∧
        value = make (Int64.ofInt seconds) (Int32.ofInt nanos)) :
    CoercesMoments kind make allowed path where
  accepted input := by
    constructor
    · rintro ⟨value, coerced⟩
      obtain ⟨seconds, nanos, gives, fine, _⟩ := coerces.mp coerced
      exact ⟨seconds, nanos, gives, fine⟩
    · rintro ⟨seconds, nanos, gives, fine⟩
      exact ⟨_, coerces.mpr ⟨seconds, nanos, gives, fine, rfl⟩⟩
  kept coerced seconds nanos gives := by
    obtain ⟨_, _, givesToo, _, rfl⟩ := coerces.mp coerced
    obtain ⟨rfl, rfl⟩ := givesToo.unique gives
    obtain ⟨_, _, _, _, fits, fraction⟩ := gives
    exact ⟨_, _, rfl, Int64.toInt_ofInt_of_le (by omega) (by omega),
      Int32.toInt_ofInt_of_le (by omega) (by omega)⟩

-- A payload stands for one value.
theorem payload?_inj {bytes : Bytes} (written : WireSchema.payload? kind value = some bytes)
    (writtenToo : WireSchema.payload? kind again = some bytes) : value = again := by
  obtain ⟨payload, stands, read⟩ := WireSchema.payload?_roundtrip written
  obtain ⟨payloadToo, standsToo, readToo⟩ := WireSchema.payload?_roundtrip writtenToo
  obtain ⟨rfl, _⟩ := Prod.mk.inj (Option.some.inj ((read []).symm.trans (readToo [])))
  exact Option.some.inj (stands.symm.trans standsToo)

-- Durations are accepted where the input gives seconds and nanos that do not oppose each other, and
-- timestamps where it gives any. Durations are one value, and one payload, exactly where they are of one
-- length.
theorem durations_canonical (path there : FieldPath) :
    CoercesMoments .duration .duration (fun seconds nanos => ¬ OpposeSigns seconds nanos) path ∧
    CoercesMoments .timestamp .timestamp (fun _ _ => True) path ∧
    ∀ {input other : Json} {value again : Value} {seconds nanos seconds' nanos' : Int},
      scalar .duration path input = .ok value → scalar .duration there other = .ok again →
      GivesMoment input seconds nanos → GivesMoment other seconds' nanos' →
      (value = again ↔ seconds * 1000000000 + nanos = seconds' * 1000000000 + nanos') ∧
      ∃ bytes others, WireSchema.payload? .duration value = some bytes ∧
        WireSchema.payload? .duration again = some others ∧ (bytes = others ↔ value = again) := by
  have durations : ∀ path, CoercesMoments .duration .duration _ path :=
    fun path => coercesMoments_of_iff scalar_duration_ok_iff
  refine ⟨durations path, coercesMoments_of_iff ?timestamps, ?_⟩
  case timestamps =>
    simp only [true_and]
    exact scalar_timestamp_ok_iff
  intro input other value again seconds nanos seconds' nanos' coerced coercedToo gives givesToo
  obtain ⟨whole, part, rfl, rfl, rfl⟩ := (durations path).kept coerced gives
  obtain ⟨wholeToo, partToo, rfl, rfl, rfl⟩ := (durations there).kept coercedToo givesToo
  constructor
  · constructor
    · rintro ⟨⟩
      rfl
    · intro same
      obtain ⟨_, _, given, agree⟩ := ((durations path).accepted input).mp ⟨_, coerced⟩
      obtain ⟨_, _, givenToo, agreeToo⟩ := ((durations there).accepted other).mp ⟨_, coercedToo⟩
      obtain ⟨rfl, rfl⟩ := given.unique gives
      obtain ⟨rfl, rfl⟩ := givenToo.unique givesToo
      obtain ⟨wholes, parts⟩ := parts_of_total agree agreeToo gives.fraction givesToo.fraction same
      rw [Int64.toInt_inj.mp wholes, Int32.toInt_inj.mp parts]
  · refine ⟨_, _, rfl, rfl, fun same => ?_, fun same => ?_⟩
    · have written : WireSchema.payload? .duration (.duration whole part)
          = some (Wire.lengthDelimited (WireSchema.momentBody whole part)) := rfl
      have writtenToo : WireSchema.payload? .duration (.duration wholeToo partToo)
          = some (Wire.lengthDelimited (WireSchema.momentBody wholeToo partToo)) := rfl
      exact payload?_inj written (writtenToo.trans (congrArg some same.symm))
    · cases same
      rfl

-- A second and five nanos back, in two spellings.
def agoInput : Json := .object [("nanos", .number (.integer (-5))), ("seconds", .string " -1 ")]

def agoRespelled : Json :=
  .object [("nanos", .string "-0005"), ("seconds", .number (.double 0xBFF0000000000000))]

theorem agoInput_gives : GivesMoment agoInput (-1) (-5) := by
  have spells : SpellsAmid " -1 ".toList (-1) := readInt?_trim.mp (by decide)
  exact .object rfl ⟨.text spells, nofun⟩ rfl ⟨.integer (-5), nofun⟩ (by decide) (by decide)

theorem agoRespelled_gives : GivesMoment agoRespelled (-1) (-5) := by
  have value : double.value? (0xBFF0000000000000 : UInt64).toNat = some ((-1 : Int) : ℚ) :=
    Format.toInt?_eq_some.mp (by decide)
  have spells : SpellsAmid "-0005".toList (-5) := readInt?_trim.mp (by decide)
  exact .object rfl ⟨.double value, fun _ _ => by decide⟩ rfl ⟨.text spells, nofun⟩ (by decide) (by decide)

theorem durations_canonical_ago : ∃ value again,
    scalar .duration (.root "wait") agoInput = .ok value ∧
    scalar .duration (.root "lock") agoRespelled = .ok again ∧
    GivesMoment agoInput (-1) (-5) ∧ GivesMoment agoRespelled (-1) (-5) ∧ value = again := by
  obtain ⟨durations, _, canonical⟩ := durations_canonical (.root "wait") (.root "lock")
  obtain ⟨durationsToo, _, _⟩ := durations_canonical (.root "lock") (.root "wait")
  obtain ⟨value, coerced⟩ := (durations.accepted agoInput).mpr ⟨_, _, agoInput_gives, by decide⟩
  obtain ⟨again, coercedToo⟩ :=
    (durationsToo.accepted agoRespelled).mpr ⟨_, _, agoRespelled_gives, by decide⟩
  have same := (canonical coerced coercedToo agoInput_gives agoRespelled_gives).1
  exact ⟨value, again, coerced, coercedToo, agoInput_gives, agoRespelled_gives, same.mpr rfl⟩

end Coercion

end SigningSchema
