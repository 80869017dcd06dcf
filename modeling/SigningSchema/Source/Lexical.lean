import SigningSchema.Unicode.Blank

-- The lexical layer of schema text: comments, string literals, braces and statements.
-- A literal is closed by the quote that opened it; a backslash in it takes the next
-- character with it; one that is not closed reaches to the end of the text.

namespace SigningSchema.Source

def isQuote (c : Char) : Bool := c = '"' || c = '\''

inductive Mode where
  | plain
  | literal (quote : Char)
  | lineComment
  | blockComment
  deriving DecidableEq, Repr

-- As many blanks as the character has bytes; line ends stay.
def blanked (c : Char) : List Char :=
  if c = '\n' then [c] else List.replicate c.utf8Size ' '

def strip : Mode → List Char → List Char
  | _, [] => []
  | .plain, '/' :: '/' :: rest => ' ' :: ' ' :: strip .lineComment rest
  | .plain, '/' :: '*' :: rest => ' ' :: ' ' :: strip .blockComment rest
  | .plain, c :: rest => c :: strip (if isQuote c then .literal c else .plain) rest
  | .literal quote, '\\' :: c :: rest => '\\' :: c :: strip (.literal quote) rest
  | .literal quote, c :: rest => c :: strip (if c = quote then .plain else .literal quote) rest
  | .lineComment, c :: rest =>
    blanked c ++ strip (if c = '\n' then .plain else .lineComment) rest
  | .blockComment, '*' :: '/' :: rest => ' ' :: ' ' :: strip .plain rest
  | .blockComment, c :: rest => blanked c ++ strip .blockComment rest

def stripComments (text : List Char) : List Char := strip .plain text

-- Whether a character is in a literal; the text may begin inside one with the given quote.
def marked : Option Char → List Char → List (Char × Bool)
  | _, [] => []
  | none, c :: rest => (c, isQuote c) :: marked (if isQuote c then some c else none) rest
  | some quote, '\\' :: c :: rest => ('\\', true) :: (c, true) :: marked (some quote) rest
  | some quote, c :: rest => (c, true) :: marked (if c = quote then none else some quote) rest

def untilClosed (depth : Nat) : List (Char × Bool) → List Char
  | [] => []
  | (c, true) :: rest => c :: untilClosed depth rest
  | (c, false) :: rest =>
    if c = '{' then c :: untilClosed (depth + 1) rest
    else if c = '}' then if depth ≤ 1 then [] else c :: untilClosed (depth - 1) rest
    else c :: untilClosed depth rest

def blockBody (afterBrace : List Char) : List Char := untilClosed 1 (marked none afterBrace)

-- Where the bytes end within a character, it is dropped too and the bytes beyond are counted.
def dropBytes : Nat → List Char → List Char × Nat
  | 0, text => (text, 0)
  | _, [] => ([], 0)
  | n, c :: rest =>
    if n < c.utf8Size then (rest, c.utf8Size - n) else dropBytes (n - c.utf8Size) rest

def blockBodyAt (text : List Char) (offset : Nat) : List Char :=
  let (rest, beyond) := dropBytes offset text
  let body := untilClosed 0 (marked none rest)
  match beyond, body with
  | 0, c :: inner => if c.utf8Size = 1 then inner else []
  | 1, body => body
  | _, _ => []

-- A closing brace that returns to the outermost level drops what came before it, and so does the
-- end of the body.
def statementsFrom (depth : Nat) (current : List Char) : List (Char × Bool) → List (List Char)
  | [] => []
  | (c, true) :: rest => statementsFrom depth (c :: current) rest
  | (c, false) :: rest =>
    if c = '{' then statementsFrom (depth + 1) (c :: current) rest
    else if c = '}' then
      if depth ≤ 1 then statementsFrom 0 [] rest
      else statementsFrom (depth - 1) (c :: current) rest
    else if c = ';' ∧ depth = 0 then
      current.reverse :: statementsFrom 0 [] rest
    else statementsFrom depth (c :: current) rest

def statements (body : List Char) : List (List Char) :=
  ((statementsFrom 0 [] (marked none body)).map Unicode.trim).filter (fun s => !s.isEmpty)

end SigningSchema.Source
