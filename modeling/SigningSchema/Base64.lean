import SigningSchema.Wire

-- The standard base-64 alphabet, with padding required and no stray bits.

namespace SigningSchema.Base64

open Wire (Bytes)

def sextet? (c : Char) : Option Nat :=
  if 'A' ≤ c ∧ c ≤ 'Z' then some (c.toNat - 65)
  else if 'a' ≤ c ∧ c ≤ 'z' then some (c.toNat - 71)
  else if c.isDigit then some (c.toNat + 4)
  else if c = '+' then some 62
  else if c = '/' then some 63
  else none

def decode? : List Char → Option Bytes
  | [] => some []
  | [a, b, '=', '='] => do
    let high ← sextet? a
    let low ← sextet? b
    if low % 16 = 0 then some [UInt8.ofNat (high * 4 + low / 16)] else none
  | [a, b, c, '='] => do
    let high ← sextet? a
    let middle ← sextet? b
    let low ← sextet? c
    if low % 4 = 0 then
      some [UInt8.ofNat (high * 4 + middle / 16), UInt8.ofNat (middle % 16 * 16 + low / 4)]
    else none
  | a :: b :: c :: d :: rest => do
    let high := (← sextet? a) * 64 + (← sextet? b)
    let low := (← sextet? c) * 64 + (← sextet? d)
    let word := high * 4096 + low
    let more ← decode? rest
    some (UInt8.ofNat (word / 65536) :: UInt8.ofNat (word / 256) :: UInt8.ofNat word :: more)
  | _ => none

end SigningSchema.Base64
