-- Binary floating-point words, read exactly and rounded exactly: every result is the
-- word nearest to an exact quotient of naturals, a tie going to the even word.

namespace SigningSchema.Number

-- Words are naturals below `2 * signBit`.
structure Format where
  fractionBits : Nat
  exponentBits : Nat
  deriving DecidableEq, Repr

def single : Format := ⟨23, 8⟩

def double : Format := ⟨52, 11⟩

inductive Reading where
  | finite (negative : Bool) (significand : Nat) (exponent : Int)
  | infinite (negative : Bool)
  | nan
  deriving DecidableEq, Repr

namespace Format

def signBit (f : Format) : Nat := Nat.pow 2 (f.fractionBits + f.exponentBits)

def infinity (f : Format) : Nat := (Nat.pow 2 f.exponentBits - 1) * Nat.pow 2 f.fractionBits

def lowest (f : Format) : Int := 2 - Int.ofNat (Nat.pow 2 (f.exponentBits - 1)) - f.fractionBits

def negative (f : Format) (word : Nat) : Bool := f.signBit ≤ word

def magnitude (f : Format) (word : Nat) : Nat := word % f.signBit

def isZero (f : Format) (word : Nat) : Bool := f.magnitude word = 0

def isNaN (f : Format) (word : Nat) : Bool := f.infinity < f.magnitude word

def equal (f : Format) (a b : Nat) : Bool :=
  !f.isNaN a && !f.isNaN b && (a = b || f.isZero a && f.isZero b)

def read (f : Format) (word : Nat) : Reading :=
  let size := f.magnitude word
  let exponent := size / Nat.pow 2 f.fractionBits
  let fraction := size % Nat.pow 2 f.fractionBits
  if f.infinity < size then .nan
  else if size = f.infinity then .infinite (f.negative word)
  else if exponent = 0 then .finite (f.negative word) fraction f.lowest
  else
    .finite (f.negative word) (Nat.pow 2 f.fractionBits + fraction)
      (f.lowest + (exponent - 1 : Nat))

def withSign (f : Format) (negative : Bool) (magnitude : Nat) : Nat :=
  if negative then f.signBit + magnitude else magnitude

end Format

-- A tie goes to the even neighbour.
def nearest (num den : Nat) : Nat :=
  let down := num / den
  let twice := 2 * (num % den)
  if twice > den ∨ twice = den ∧ down % 2 = 1 then down + 1 else down

def overPowerOfTwo (num den : Nat) (exponent : Int) : Nat × Nat :=
  if 0 ≤ exponent then (num, den * Nat.pow 2 exponent.toNat)
  else (num * Nat.pow 2 (-exponent).toNat, den)

-- From half a unit above the largest finite magnitude on it is infinity.
def Format.ofRatio (f : Format) (num den : Nat) : Nat :=
  if num = 0 ∨ den = 0 then 0
  else
    let guess : Int := (num.log2 : Int) - (den.log2 : Int) - (f.fractionBits : Int)
    let (n, d) := overPowerOfTwo num den guess
    let fitted := if n / d < Nat.pow 2 f.fractionBits then guess - 1 else guess
    let exponent := max fitted f.lowest
    let (n, d) := overPowerOfTwo num den exponent
    min ((exponent - f.lowest).toNat * Nat.pow 2 f.fractionBits + nearest n d) f.infinity

def Format.ofScaled (f : Format) (significand : Nat) (exponent : Int) : Nat :=
  let (n, d) := overPowerOfTwo significand 1 (-exponent)
  f.ofRatio n d

def Format.ofDecimal (f : Format) (digits : Nat) (exponent : Int) : Nat :=
  -- Magnitudes of either format lie well within these bounds.
  let last : Int := exponent + (Nat.toDigits 10 digits).length
  if digits = 0 ∨ last < -400 then 0
  else if last > 400 then f.infinity
  else if 0 ≤ exponent then f.ofRatio (digits * Nat.pow 10 exponent.toNat) 1
  else f.ofRatio digits (Nat.pow 10 (-exponent).toNat)

def Format.times (f : Format) (a b : Nat) : Nat :=
  match f.read a, f.read b with
  | .finite _ m e, .finite _ n d => f.ofScaled (m * n) (e + d)
  | _, _ => f.infinity

def Format.over (f : Format) (a b : Nat) : Nat :=
  match f.read a, f.read b with
  | .finite _ m e, .finite _ n d =>
    let (num, den) := overPowerOfTwo m n (d - e)
    f.ofRatio num den
  | _, _ => f.infinity

def Format.toInt? (f : Format) (word : Nat) : Option Int :=
  match f.read word with
  | .finite negative m e =>
    let size : Option Nat :=
      if 0 ≤ e then some (m * Nat.pow 2 e.toNat)
      else if m % Nat.pow 2 (-e).toNat = 0 then some (m / Nat.pow 2 (-e).toNat) else none
    size.map fun n => if negative then -(n : Int) else n
  | _ => none

def Format.convert (source target : Format) (word : Nat) : Nat :=
  match source.read word with
  | .finite negative m e => target.withSign negative (target.ofScaled m e)
  | .infinite negative => target.withSign negative target.infinity
  | .nan => target.infinity + Nat.pow 2 (target.fractionBits - 1)

end SigningSchema.Number
