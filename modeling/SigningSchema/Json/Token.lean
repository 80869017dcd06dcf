import SigningSchema.Hex
import SigningSchema.Number.DecimalText

-- The tokens of a JSON text. Texts are cut into tokens before anything is decided about
-- them: a text holds its escapes unread and a number its digits, since a member
-- that nobody asks for has to be well formed but need not denote anything.

namespace SigningSchema.Json

inductive Piece where
  | char (c : Char)
  | unit (code : Nat)
  deriving DecidableEq, Repr

structure Numeral where
  negative : Bool
  whole : List Char
  fraction : Option (List Char)
  exponent : Option Int
  deriving DecidableEq, Repr

inductive Token where
  | openArray
  | closeArray
  | openObject
  | closeObject
  | comma
  | colon
  | null
  | bool (value : Bool)
  | number (numeral : Numeral)
  | text (pieces : List Piece)
  deriving DecidableEq, Repr

def hexUnit? (a b c d : Char) : Option Nat := do
  let high := (← Hex.digit? a) * 16 + (← Hex.digit? b)
  let low := (← Hex.digit? c) * 16 + (← Hex.digit? d)
  return high * 256 + low

def unescape? : Char → Option Char
  | '"' => some '"'
  | '\\' => some '\\'
  | '/' => some '/'
  | 'b' => some '\x08'
  | 'f' => some '\x0c'
  | 'n' => some '\n'
  | 'r' => some '\r'
  | 't' => some '\t'
  | _ => none

def readPieces : List Char → Option (List Piece × List Char)
  | [] => none
  | '"' :: rest => some ([], rest)
  | '\\' :: 'u' :: a :: b :: c :: d :: rest =>
    (hexUnit? a b c d).bind fun code =>
      (readPieces rest).map fun read => (.unit code :: read.1, read.2)
  | '\\' :: letter :: rest =>
    (unescape? letter).bind fun c =>
      (readPieces rest).map fun read => (.char c :: read.1, read.2)
  | c :: rest =>
    if c.toNat < 0x20 then none
    else (readPieces rest).map fun read => (.char c :: read.1, read.2)

theorem readPieces_length {text : List Char} {read : List Piece × List Char}
    (found : readPieces text = some read) : read.2.length < text.length := by
  fun_induction readPieces text generalizing read with
  | case1 => simp at found
  | case2 rest => simp at found; simp [← found]
  | case3 a b c d rest ih =>
    simp only [Option.bind_eq_some_iff, Option.map_eq_some_iff] at found
    obtain ⟨_, _, inner, here, rfl⟩ := found
    have := ih here
    simp only [List.length_cons]
    omega
  | case4 letter rest _ ih =>
    simp only [Option.bind_eq_some_iff, Option.map_eq_some_iff] at found
    obtain ⟨_, _, inner, here, rfl⟩ := found
    have := ih here
    simp only [List.length_cons]
    omega
  | case5 => simp at found
  | case6 c rest _ _ _ _ ih =>
    simp only [Option.map_eq_some_iff] at found
    obtain ⟨inner, here, rfl⟩ := found
    have := ih here
    simp only [List.length_cons]
    omega

def readFraction : List Char → Option (Option (List Char) × List Char)
  | '.' :: rest =>
    let digits := rest.takeWhile Char.isDigit
    if digits.isEmpty then none else some (some digits, rest.dropWhile Char.isDigit)
  | rest => some (none, rest)

def readExponent : List Char → Option (Option Int)
  | [] => some none
  | c :: rest => if c = 'e' || c = 'E' then (Number.readInt? rest).map some else none

def readNumeral? (negative : Bool) (text : List Char) : Option Numeral := do
  let whole := text.takeWhile Char.isDigit
  if whole.isEmpty || (whole.head? = some '0' && whole.length ≠ 1) then none
  let (fraction, rest) ← readFraction (text.dropWhile Char.isDigit)
  return ⟨negative, whole, fraction, ← readExponent rest⟩

def mark? : Char → Option Token
  | '[' => some .openArray
  | ']' => some .closeArray
  | '{' => some .openObject
  | '}' => some .closeObject
  | ',' => some .comma
  | ':' => some .colon
  | _ => none

def atom? : List Char → Option Token
  | ['n', 'u', 'l', 'l'] => some .null
  | ['t', 'r', 'u', 'e'] => some (.bool true)
  | ['f', 'a', 'l', 's', 'e'] => some (.bool false)
  | '-' :: rest => (readNumeral? true rest).map .number
  | text => (readNumeral? false text).map .number

def isSpace (c : Char) : Bool := c = ' ' || c = '\t' || c = '\n' || c = '\r'

def isAtomic (c : Char) : Bool := !isSpace c && (mark? c).isNone && c ≠ '"'

def readTokens : List Char → Option (List Token)
  | [] => some []
  | c :: rest =>
    if isSpace c then readTokens rest
    else if c = '"' then
      match _found : readPieces rest with
      | none => none
      | some (pieces, tail) => (readTokens tail).map (.text pieces :: ·)
    else match mark? c with
      | some token => (readTokens rest).map (token :: ·)
      | none =>
        (atom? (c :: rest.takeWhile isAtomic)).bind fun token =>
          (readTokens (rest.dropWhile isAtomic)).map (token :: ·)
termination_by text => text.length
decreasing_by
  · simp
  · have : tail.length < rest.length := readPieces_length _found
    simp only [List.length_cons]
    omega
  · simp
  · have := (List.dropWhile_sublist isAtomic (l := rest)).length_le
    simp only [List.length_cons]
    omega

end SigningSchema.Json
