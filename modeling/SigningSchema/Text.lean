-- Cutting and joining text.

namespace SigningSchema.Text

def splitChars (separator : Char) : List Char → List (List Char)
  | [] => [[]]
  | c :: rest =>
    if c = separator then [] :: splitChars separator rest
    else match splitChars separator rest with
      | [] => [[c]]
      | first :: more => (c :: first) :: more

def split (separator : Char) (text : String) : List String :=
  (splitChars separator text.toList).map String.ofList

def lastPart (separator : Char) (text : String) : String :=
  (split separator text).getLast?.getD text

def dropBeginning? (beginning text : String) : Option String :=
  if beginning.toList.isPrefixOf text.toList then
    some (String.ofList (text.toList.drop beginning.toList.length))
  else none

def beginsWith (beginning text : String) : Bool := beginning.toList.isPrefixOf text.toList

def endsWith (ending text : String) : Bool := ending.toList.isSuffixOf text.toList

def joined (separator : String) : List String → String
  | [] => ""
  | [text] => text
  | text :: rest => text ++ separator ++ joined separator rest

def concat (parts : List String) : String := joined "" parts

end SigningSchema.Text
