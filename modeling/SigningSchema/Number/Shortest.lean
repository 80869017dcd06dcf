import SigningSchema.Number.Binary

-- The shortest decimal that reads back as a given word, and its written layouts.

namespace SigningSchema.Number

inductive Tie where
  | even
  | up
  deriving DecidableEq, Repr

structure Decimal where
  digits : Nat
  exponent : Int
  deriving DecidableEq, Repr

def leadingExponent (num den : Nat) : Int :=
  if den ≤ num then (Nat.toDigits 10 (num / den)).length - 1
  else
    let places := (Nat.toDigits 10 (den / num)).length
    if num * Nat.pow 10 (places - 1) = den then 1 - (places : Int) else -(places : Int)

def overPowerOfTen (num den : Nat) (exponent : Int) : Nat × Nat :=
  if 0 ≤ exponent then (num, den * Nat.pow 10 exponent.toNat)
  else (num * Nat.pow 10 (-exponent).toNat, den)

-- The reals that round to one word, in quarters of its last place: from `low` to `high` around
-- `value`, ends included when `closed`.
structure Interval where
  low : Nat
  value : Nat
  high : Nat
  closed : Bool

def Format.interval (f : Format) (significand : Nat) (exponent : Int) : Interval where
  -- Below a power of two the words lie twice as dense.
  low := if significand = Nat.pow 2 f.fractionBits ∧ f.lowest < exponent then 4 * significand - 1
    else 4 * significand - 2
  value := 4 * significand
  high := 4 * significand + 2
  closed := significand % 2 = 0

def Interval.gridPoint? (i : Interval) (tie : Tie) (num den : Nat) : Option Nat :=
  let down := i.value * num / den
  let up := down + 1
  let within (c : Nat) : Bool :=
    if i.closed then decide (i.low * num ≤ c * den ∧ c * den ≤ i.high * num)
    else decide (i.low * num < c * den ∧ c * den < i.high * num)
  match within down, within up with
  | false, false => none
  | true, false => some down
  | false, true => some up
  | true, true =>
    let twice := 2 * (i.value * num)
    let middle := (2 * down + 1) * den
    if twice < middle then some down
    else if middle < twice then some up
    else match tie with
      | .up => some up
      | .even => some (if down % 2 = 0 then down else up)

def Decimal.trimmed (d : Decimal) : Decimal :=
  if 0 < d.digits ∧ d.digits % 10 = 0 then trimmed ⟨d.digits / 10, d.exponent + 1⟩ else d
termination_by d.digits
decreasing_by
  rename_i divides
  omega

def Interval.search (i : Interval) (tie : Tie) (num den : Nat) (leading : Int) :
    Nat → Nat → Decimal
  | places, 0 =>
    let (n, d) := overPowerOfTen num den (leading - places)
    ⟨i.value * n / d, leading - places⟩
  | places, more + 1 =>
    let (n, d) := overPowerOfTen num den (leading - places)
    match i.gridPoint? tie n d with
    | some digits => ⟨digits, leading - places⟩
    | none => i.search tie num den leading (places + 1) more

-- Seventeen digits are always enough.
def Format.shortest (f : Format) (tie : Tie) (significand : Nat) (exponent : Int) : Decimal :=
  let i := f.interval significand exponent
  let (num, den) := overPowerOfTwo 1 1 (2 - exponent)
  let leading := leadingExponent (i.value * num) den
  (i.search tie num den leading 0 17).trimmed

structure Layout where
  positional : Option (Int × Int)
  plusSign : Bool
  pointZero : Bool
  tie : Tie

def zeros (n : Nat) : String := String.ofList (List.replicate n '0')

def Layout.positive (layout : Layout) (d : Decimal) : String :=
  let digits := Nat.toDigits 10 d.digits
  let leading : Int := d.exponent + digits.length - 1
  let positional := match layout.positional with
    | none => true
    | some (first, last) => decide (first ≤ leading ∧ leading ≤ last)
  if positional then
    if 0 ≤ d.exponent then
      String.ofList digits ++ zeros d.exponent.toNat ++ (if layout.pointZero then ".0" else "")
    else if 0 ≤ leading then
      String.ofList (digits.take (leading.toNat + 1)) ++ "."
        ++ String.ofList (digits.drop (leading.toNat + 1))
    else "0." ++ zeros (-leading - 1).toNat ++ String.ofList digits
  else
    let fraction := if digits.length ≤ 1 then "" else "." ++ String.ofList (digits.drop 1)
    let sign := if 0 ≤ leading ∧ layout.plusSign then "+" else ""
    String.ofList (digits.take 1) ++ fraction ++ "e" ++ sign ++ toString leading

def Format.text (f : Format) (layout : Layout) (word : Nat) : String :=
  match f.read word with
  | .nan => "NaN"
  | .infinite negative => if negative then "-inf" else "inf"
  | .finite negative m e =>
    let size :=
      if m = 0 then if layout.pointZero then "0.0" else "0"
      else layout.positive (f.shortest layout.tie m e)
    if negative then "-" ++ size else size

end SigningSchema.Number
