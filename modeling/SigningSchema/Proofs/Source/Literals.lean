import SigningSchema.Proofs.Source.Sites

-- Literals of schema files. What a file declares outside of them does not depend on what they hold.
-- The reader takes declarations from literals as well, and with them the files are read differently.

namespace SigningSchema

namespace Source

-- The characters of a file without comments, with those in literals marked.
def characters (text : String) : List (Char × Bool) := marked none (stripComments text.toList)

def packageSites (text : String) : List (List Char × Bool) :=
  sites packageAt? endsLine true (characters text)

def headerSites (keyword text : String) : List ((List Char × List Char) × Bool) :=
  sites (header? keyword) notWord true (characters text)

def requestSites (text : String) : List (List Char × Bool) :=
  sites request? notWord true (characters text)

-- No declaration of a file is taken from a literal.
structure Undisturbed (config : Config) (text : String) : Prop where
  package : ((packageSites text).map Prod.fst).head? = (outside (packageSites text)).head?
  messages : ∀ site ∈ headerSites "message" text, site.2 = false
  enums : ∀ site ∈ headerSites "enum" text, site.2 = false
  requests : ∀ site ∈ requestSites text, isRequest config (.ofList site.1) = true → site.2 = false

instance (config : Config) (text : String) : Decidable (Undisturbed config text) :=
  decidable_of_iff
    (((packageSites text).map Prod.fst).head? = (outside (packageSites text)).head? ∧
      (∀ site ∈ headerSites "message" text, site.2 = false) ∧
      (∀ site ∈ headerSites "enum" text, site.2 = false) ∧
      ∀ site ∈ requestSites text, isRequest config (.ofList site.1) = true → site.2 = false)
    ⟨fun ⟨package, messages, enums, requests⟩ => ⟨package, messages, enums, requests⟩,
      fun all => ⟨all.package, all.messages, all.enums, all.requests⟩⟩

namespace Noted

-- A file with one literal.
def front : List Char :=
  ("package pay.v1;\nservice Msg \x7b rpc Pay(MsgPay) returns (MsgPay); \x7d\n"
    ++ "message MsgPay \x7b string memo = 1 [json_name = ").toList

def ending : List Char := "]; \x7d\n".toList

def text (name : String) : String := .ofList (front ++ '"' :: (name.toList ++ '"' :: ending))

def file : SourceFile where
  path := "pay.proto"
  package := "pay.v1"
  messages := [⟨"pay.v1", "MsgPay", [⟨"memo", "string", false, 1⟩], "pay.proto", none⟩]
  enums := []
  requests := ["MsgPay"]

theorem closed {name : String} (plain : name.toList.all (fun c => c != '\\' && c != '"') = true) :
    Enclosed '"' name.toList := by
  rw [List.all_eq_true] at plain
  refine .of_plain (fun c inside => ?_) fun c inside => ?_
  · simpa using (Bool.and_eq_true_iff.mp (plain c inside)).1
  · simpa using (Bool.and_eq_true_iff.mp (plain c inside)).2

theorem reworded {name other : String} (closed : Enclosed '"' name.toList)
    (closedToo : Enclosed '"' other.toList) :
    Reworded Config.standard [] (text name).toList (text other).toList := by
  rw [text, text, String.toList_ofList, String.toList_ofList]
  refine .run (by decide +kernel) (.literal rfl closed closedToo ?_ .refl)
  intro _ assigns
  exact absurd assigns (by unfold Assigns; decide +kernel)

-- Evaluation takes the characters of a list much faster than those of a text.
theorem read_memo : SourceFile.read? Config.standard "pay.proto" (text "memo") = some file := by
  unfold SourceFile.read? text front ending
  rw [String.toList_append]
  repeat rw [String.toList_ofList]
  decide +kernel

end Noted

end Source

namespace SourceFile

open Source

variable {config : Config} {path text other : String}

-- The declarations of a file that stand outside of literals.
def outside? (config : Config) (path text : String) : Option SourceFile :=
  (outside (packageSites text)).head?.map fun package =>
    { path := path
      package := .ofList package
      messages := (outside (headerSites "message" text)).map fun (name, rest) =>
        message config path (.ofList package) name (blockBody rest)
      enums := (outside (headerSites "enum" text)).map fun (name, _) => .ofList name
      requests := ((outside (requestSites text)).map String.ofList).filter (isRequest config) }

-- What is read of a file, by the places where it is found.
theorem read?_sites (config : Config) (path text : String) :
    read? config path text = ((packageSites text).map Prod.fst).head?.map fun package =>
      { path := path
        package := .ofList package
        messages := ((headerSites "message" text).map Prod.fst).map fun (name, rest) =>
          message config path (.ofList package) name (blockBody rest)
        enums := ((headerSites "enum" text).map Prod.fst).map fun (name, _) => .ofList name
        requests := (((requestSites text).map Prod.fst).map String.ofList).filter
          (isRequest config) } := by
  have found : ∀ {α : Type} (reader? : List Char → Option α),
      (sites reader? notWord true (characters text)).map Prod.fst
        = occurrences reader? false (stripComments text.toList) := by
    intro α reader?
    have all := sites_occurrences reader? false (characters text)
    rwa [characters, map_marked] at all
  have package := sites_package true (characters text)
  rw [characters, map_marked] at package
  rw [headerSites, headerSites, requestSites, found, found, found, packageSites, characters, package]
  rfl

theorem outside?_undisturbed (undisturbed : Undisturbed config text) :
    outside? config path text = read? config path text := by
  have messages := (outside_all _).mpr undisturbed.messages
  have enums := (outside_all _).mpr undisturbed.enums
  have requests := (filter_outside _ String.ofList (isRequest config)).mpr undisturbed.requests
  rw [read?_sites, undisturbed.package, outside?, requests, messages, enums]

theorem undisturbed_of_outside? {file : SourceFile} (read : read? config path text = some file)
    (same : outside? config path text = some file) : Undisturbed config text := by
  rw [read?_sites] at read
  obtain ⟨package, first, rfl⟩ := Option.map_eq_some_iff.mp read
  obtain ⟨packageToo, firstToo, files⟩ := Option.map_eq_some_iff.mp same
  rw [SourceFile.mk.injEq] at files
  obtain ⟨_, packages, messages, enums, requests⟩ := files
  obtain rfl := String.ofList_injective packages
  exact
    { package := by rw [first, firstToo]
      messages := (map_outside _ _).mp messages
      enums := (map_outside _ _).mp enums
      requests := (filter_outside _ _ _).mp requests }

-- What stands outside of literals is read alike from both texts.
theorem outside?_reworded (named : Unquoted config.legacyNameOption.toList)
    (reworded : Reworded config [] text.toList other.toList) :
    outside? config path text = outside? config path other := by
  have alike := reworded.strip
  have message : ∀ package : List Char, Blind config (header? "message")
      fun header => message config path (.ofList package) header.1 (blockBody header.2) :=
    fun package => blind_header ⟨by decide, by decide⟩
      fun name _ _ more => message_alike named more path (.ofList package) name
  have enum : Blind config (header? "enum") fun header => String.ofList header.1 :=
    blind_header ⟨by decide, by decide⟩ fun _ _ _ _ => rfl
  have packages := blind_package.outside alike endsLine true
  have messages := fun package => (message package).outside alike notWord true
  have enums := enum.outside alike notWord true
  have requests := blind_request.outside alike notWord true
  rw [List.map_id, List.map_id] at packages requests
  rw [outside?, outside?, packageSites, packageSites, requestSites, requestSites, headerSites, headerSites,
    headerSites, headerSites, characters, characters, stripComments, stripComments, packages, requests]
  refine congrArg (fun read => Option.map read _) (funext fun package => ?_)
  rw [messages, enums]

-- Literals carry no structure as long as no declaration is taken from one.
theorem read_reworded (named : Unquoted config.legacyNameOption.toList)
    (reworded : Reworded config [] text.toList other.toList) :
    outside? config path text = outside? config path other ∧
      (Undisturbed config text → Undisturbed config other →
        read? config path text = read? config path other) ∧
      (∀ file, read? config path text = some file → Undisturbed config text →
        (read? config path other = some file ↔ Undisturbed config other)) := by
  have same : outside? config path text = outside? config path other :=
    outside?_reworded named reworded
  refine ⟨same, ?_, ?_⟩
  · intro undisturbed undisturbedToo
    rw [← outside?_undisturbed undisturbed, ← outside?_undisturbed undisturbedToo, same]
  · intro file read undisturbed
    have there : outside? config path other = some file := by
      rw [← same, outside?_undisturbed undisturbed, read]
    constructor
    · intro readToo
      exact undisturbed_of_outside? readToo there
    · intro undisturbedToo
      rw [← outside?_undisturbed undisturbedToo, there]

theorem read_reworded_noted :
    (Reworded Config.standard [] (Noted.text "memo").toList (Noted.text "\x7d /* ; */ \x7b").toList ∧
      Undisturbed Config.standard (Noted.text "memo") ∧
      Undisturbed Config.standard (Noted.text "\x7d /* ; */ \x7b")) ∧
      read? Config.standard "pay.proto" (Noted.text "memo") = some Noted.file ∧
      read? Config.standard "pay.proto" (Noted.text "\x7d /* ; */ \x7b") = some Noted.file := by
  have named : Unquoted Config.standard.legacyNameOption.toList := unquoted_of_all (by decide +kernel)
  have reworded : Reworded Config.standard [] (Noted.text "memo").toList
      (Noted.text "\x7d /* ; */ \x7b").toList :=
    Noted.reworded (Noted.closed rfl) (Noted.closed rfl)
  have undisturbed : Undisturbed Config.standard (Noted.text "memo") := by decide +kernel
  have undisturbedToo : Undisturbed Config.standard (Noted.text "\x7d /* ; */ \x7b") := by
    decide +kernel
  obtain ⟨_, _, exactly⟩ := @read_reworded Config.standard "pay.proto" _ _ named reworded
  exact ⟨⟨reworded, undisturbed, undisturbedToo⟩, Noted.read_memo,
    (exactly Noted.file Noted.read_memo undisturbed).mpr undisturbedToo⟩

-- A header in a literal is taken for a declaration.
theorem read_reworded_disturbed :
    Reworded Config.standard [] (Noted.text "memo").toList
        (Noted.text "message Note \x7b string x = 1; \x7d").toList ∧
      read? Config.standard "pay.proto" (Noted.text "memo") = some Noted.file ∧
      read? Config.standard "pay.proto" (Noted.text "message Note \x7b string x = 1; \x7d")
        = some { Noted.file with messages := Noted.file.messages
            ++ [⟨"pay.v1", "Note", [⟨"x", "string", false, 1⟩], "pay.proto", none⟩] } := by
  refine ⟨Noted.reworded (Noted.closed rfl) (Noted.closed rfl), Noted.read_memo, ?_⟩
  unfold read? Noted.text Noted.front Noted.ending
  rw [String.toList_append]
  repeat rw [String.toList_ofList]
  decide +kernel

end SourceFile

end SigningSchema
