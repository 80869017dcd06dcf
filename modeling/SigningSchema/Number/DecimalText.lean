import SigningSchema.Number.Binary

-- Decimal numerals in text.

namespace SigningSchema.Number

def digit? (c : Char) : Option Nat := if c.isDigit then some (c.toNat - 48) else none

def ofDigits (start : Nat) (digits : List Char) : Nat :=
  digits.foldl (fun total c => total * 10 + (c.toNat - 48)) start

def splitSign : List Char → Bool × List Char
  | '-' :: rest => (true, rest)
  | '+' :: rest => (false, rest)
  | text => (false, text)

def readInt? (text : List Char) : Option Int :=
  let (negative, digits) := splitSign text
  if digits.isEmpty || !digits.all Char.isDigit then none
  else some (if negative then -(ofDigits 0 digits : Int) else ofDigits 0 digits)

def readDouble? (text : List Char) : Option Nat := do
  let (negative, body) := splitSign text
  let whole := body.takeWhile Char.isDigit
  let afterWhole := body.dropWhile Char.isDigit
  let (fraction, afterFraction) := match afterWhole with
    | '.' :: rest => (rest.takeWhile Char.isDigit, rest.dropWhile Char.isDigit)
    | rest => ([], rest)
  if whole.isEmpty && fraction.isEmpty then none
  let exponent ← match afterFraction with
    | [] => some 0
    | c :: rest => if c = 'e' || c = 'E' then readInt? rest else none
  let size := double.ofDecimal (ofDigits 0 (whole ++ fraction)) (exponent - fraction.length)
  if size = double.infinity then none else some (double.withSign negative size)

end SigningSchema.Number
