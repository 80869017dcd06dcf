import SigningSchema.Json.Basic
import SigningSchema.Json.Token

-- Reading documents. A text is first read into a tree in which nothing is decided yet:
-- members keep their order and their repetitions, texts their escapes and numbers their
-- digits. What a reader asks of the tree is decided when it asks.

namespace SigningSchema.Json

inductive Tree where
  | null
  | bool (value : Bool)
  | number (numeral : Numeral)
  | text (pieces : List Piece)
  | array (items : List Tree)
  | object (members : List (List Piece × Tree))

inductive Frame where
  | array (items : List Tree)
  | object (members : List (List Piece × Tree)) (key : List Piece)

inductive Expectation where
  | value
  | itemOrEnd
  | keyOrEnd
  | key (members : List (List Piece × Tree))
  | colon (members : List (List Piece × Tree)) (key : List Piece)
  | afterValue (value : Tree)

structure Progress where
  frames : List Frame
  expects : Expectation

def Progress.begin? (frames : List Frame) : Token → Option Progress
  | .null => some ⟨frames, .afterValue .null⟩
  | .bool b => some ⟨frames, .afterValue (.bool b)⟩
  | .number n => some ⟨frames, .afterValue (.number n)⟩
  | .text t => some ⟨frames, .afterValue (.text t)⟩
  | .openArray => some ⟨.array [] :: frames, .itemOrEnd⟩
  | .openObject => some ⟨frames, .keyOrEnd⟩
  | _ => none

def Progress.step? (progress : Progress) (token : Token) : Option Progress :=
  match progress.expects with
  | .value => begin? progress.frames token
  | .itemOrEnd =>
    match token, progress.frames with
    | .closeArray, .array _ :: frames => some ⟨frames, .afterValue (.array [])⟩
    | _, frames => begin? frames token
  | .keyOrEnd =>
    match token with
    | .closeObject => some ⟨progress.frames, .afterValue (.object [])⟩
    | .text key => some ⟨progress.frames, .colon [] key⟩
    | _ => none
  | .key members =>
    match token with
    | .text key => some ⟨progress.frames, .colon members key⟩
    | _ => none
  | .colon members key =>
    match token with
    | .colon => some ⟨.object members key :: progress.frames, .value⟩
    | _ => none
  | .afterValue value =>
    match token, progress.frames with
    | .comma, .array items :: frames => some ⟨.array (value :: items) :: frames, .value⟩
    | .comma, .object members key :: frames => some ⟨frames, .key ((key, value) :: members)⟩
    | .closeArray, .array items :: frames =>
      some ⟨frames, .afterValue (.array (value :: items).reverse)⟩
    | .closeObject, .object members key :: frames =>
      some ⟨frames, .afterValue (.object ((key, value) :: members).reverse)⟩
    | _, _ => none

def Tree.ofTokens? (tokens : List Token) : Option Tree :=
  match tokens.foldlM Progress.step? ⟨[], .value⟩ with
  | some ⟨[], .afterValue value⟩ => some value
  | _ => none

def Tree.ofText? (text : String) : Option Tree := (readTokens text.toList).bind ofTokens?

def isHighSurrogate (code : Nat) : Bool := 0xd800 ≤ code && code < 0xdc00

def isLowSurrogate (code : Nat) : Bool := 0xdc00 ≤ code && code < 0xe000

def unquote? : List Piece → Option (List Char)
  | [] => some []
  | .char c :: rest => (unquote? rest).map (c :: ·)
  | .unit high :: .unit low :: rest =>
    if isHighSurrogate high then
      if isLowSurrogate low then
        (unquote? rest).map
          (Char.ofNat (0x10000 + (high - 0xd800) * 0x400 + (low - 0xdc00)) :: ·)
      else none
    else if isLowSurrogate high then none
    else (unquote? (.unit low :: rest)).map (Char.ofNat high :: ·)
  | .unit code :: rest =>
    if isHighSurrogate code || isLowSurrogate code then none
    else (unquote? rest).map (Char.ofNat code :: ·)

def textOf? (pieces : List Piece) : Option String := (unquote? pieces).map String.ofList

def maxWord : Nat := UInt64.size - 1

def significand (start : Nat) : List Char → Nat × List Char
  | [] => (start, [])
  | c :: rest =>
    let next := start * 10 + (c.toNat - 48)
    if maxWord < next then (start, c :: rest) else significand next rest

-- Each scaling rounds, so the result need not be the double nearest to the numeral.
def scaled? (size : Nat) (exponent : Int) : Option Nat :=
  let ten (places : Nat) : Nat := Number.double.ofRatio (Nat.pow 10 places) 1
  if 0 ≤ exponent then
    if exponent ≤ 308 then
      let product := Number.double.times size (ten exponent.toNat)
      if product = Number.double.infinity then none else some product
    else if size = 0 then some 0
    else none
  else if -308 ≤ exponent then some (Number.double.over size (ten (-exponent).toNat))
  else if size = 0 then some 0
  else scaled? (Number.double.over size (ten 308)) (exponent + 308)
termination_by (-exponent).toNat

-- Negative zero is a double, and so is an integer that does not fit 64 bits, signed or not.
def Numeral.toNumber? (n : Numeral) : Option JsonNumber :=
  let (whole, dropped) := significand 0 n.whole
  let asDouble (size : Nat) (exponent : Int) : Option JsonNumber :=
    (scaled? (Number.double.ofRatio size 1) exponent).map fun magnitude =>
      .double (UInt64.ofNat (Number.double.withSign n.negative magnitude))
  match n.fraction, n.exponent with
  | none, none =>
    if !dropped.isEmpty then asDouble whole dropped.length
    else if !n.negative then some (.integer whole)
    else if whole = 0 ∨ UInt64.size / 2 < whole then asDouble whole 0
    else some (.integer (-(whole : Int)))
  | fraction, exponent =>
    let places := fraction.getD []
    let (size, ignored) := significand whole places
    let used := places.length - ignored.length
    asDouble size (dropped.length - used + exponent.getD 0)

-- How deep arrays and objects may be nested, plus one.
def depthLimit : Nat := 128

mutual

def Tree.toJson? : Nat → Tree → Option Json
  | _, .null => some .null
  | _, .bool value => some (.bool value)
  | _, .number numeral => numeral.toNumber?.map .number
  | _, .text pieces => (textOf? pieces).map .string
  | depth, .array items =>
    if depth ≤ 1 then none else (itemsToJson? (depth - 1) items).map .array
  | depth, .object members =>
    if depth ≤ 1 then none
    else (membersToJson? (depth - 1) members).map fun found => .object (Table.ofList found)

def itemsToJson? : Nat → List Tree → Option (List Json)
  | _, [] => some []
  | depth, item :: rest =>
    (item.toJson? depth).bind fun first => (itemsToJson? depth rest).map (first :: ·)

def membersToJson? : Nat → List (List Piece × Tree) → Option (List (String × Json))
  | _, [] => some []
  | depth, (key, value) :: rest =>
    (textOf? key).bind fun name =>
      (value.toJson? depth).bind fun first =>
        (membersToJson? depth rest).map ((name, first) :: ·)

end

def ofText? (text : String) : Option Json := (Tree.ofText? text).bind (Tree.toJson? depthLimit)

end SigningSchema.Json
