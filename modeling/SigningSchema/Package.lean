import SigningSchema.Text
import SigningSchema.Identifier
import SigningSchema.Unicode.Word

-- What the layout of package names says about modules, methods and addresses.

namespace SigningSchema.Package

def isStage (text : List Char) : Bool :=
  ["alpha", "beta"].any fun word =>
    word.toList.isPrefixOf text && (text.drop word.toList.length).all Unicode.isDigit

def isVersion (segment : String) : Bool :=
  match segment.toList with
  | 'v' :: rest =>
    let tail := rest.dropWhile Unicode.isDigit
    !(rest.takeWhile Unicode.isDigit).isEmpty && (tail.isEmpty || isStage tail)
  | _ => false

def beforeVersion? : List String → Option String
  | [] => none
  | first :: rest =>
    if isVersion first then none
    else match rest with
      | [] => none
      | next :: _ => if isVersion next then some first else beforeVersion? rest

def moduleName (roots : List String) (package : String) : String :=
  let segments := Text.split '.' package
  match segments with
  | first :: second :: _ =>
    if roots.contains first then second
    else (beforeVersion? segments).getD (Text.lastPart '.' package)
  | _ => (beforeVersion? segments).getD (Text.lastPart '.' package)

def methodName (beginning localName : String) : String :=
  let stripped := (Text.dropBeginning? beginning localName).getD localName
  Identifier.lowerFirstText (if stripped = "" then localName else stripped)

def typeUrl (fullName : String) : String := "/" ++ fullName

end SigningSchema.Package
