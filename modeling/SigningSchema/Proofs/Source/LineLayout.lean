import SigningSchema.Proofs.Source.Literals
import SigningSchema.Proofs.Source.Reflow

-- Line layout of schema files. Where lines break says nothing about messages, enums and requests. It
-- decides which package is found, as its statement has to start a line.

namespace SigningSchema

namespace Source

variable {α β : Type} {keyword : String} {text other : List Char}

section Headers

theorem unquoted_or_split (text : List Char) :
    Unquoted text ∨ ∃ front quote rest, Unquoted front ∧ isQuote quote = true ∧
      text = front ++ quote :: rest := by
  induction text with
  | nil => exact .inl fun _ none => nomatch none
  | cons c more ih =>
    cases quoted : isQuote c with
    | true => exact .inr ⟨[], c, more, (fun _ none => nomatch none), quoted, rfl⟩
    | false =>
      rcases ih with plain | ⟨front, quote, rest, plain, found, rfl⟩
      · exact .inl (List.forall_mem_cons.mpr ⟨quoted, plain⟩)
      · exact .inr ⟨c :: front, quote, rest, List.forall_mem_cons.mpr ⟨quoted, plain⟩, found, rfl⟩

-- No header goes beyond a quote.
theorem header?_unquoted (known : IsKeyword keyword) {found : List Char × List Char}
    (read : header? keyword text = some found) : ∃ run, text = run ++ found.2 ∧ Unquoted run := by
  have opens : Opens '{' := ⟨rfl, rfl⟩
  have within : ∀ {text : List Char} {found : List Char × List Char}, Unquoted text →
      opening? keyword '{' text = some found → ∃ run, text = run ++ found.2 ∧ Unquoted run := by
    intro text found plain opened
    obtain ⟨run, rfl⟩ := opening?_some opened
    refine ⟨run ++ ['{'], by simp, fun c inside => plain c ?_⟩
    rw [List.append_cons]
    exact List.mem_append_left _ inside
  rw [header?_reads] at read
  obtain ⟨reads, opened, named⟩ := Option.bind_eq_some_iff.mp read
  obtain rfl : reads = found := by
    rw [named?] at named
    split at named
    · exact Option.some.inj named
    · cases named
  rcases unquoted_or_split text with plain | ⟨front, quote, rest, plain, quoted, rfl⟩
  · exact within plain opened
  · rw [opening?_before quoted rest known opens] at opened
    obtain ⟨inside, openedInside, rfl⟩ := Option.map_eq_some_iff.mp opened
    obtain ⟨run, rfl, unquoted⟩ := within plain openedInside
    exact ⟨run, List.append_assoc _ _ _, unquoted⟩

theorem Reflow.tail {c d : Char} (notQuote : isQuote c = false) (reflow : Reflow (c :: text) (d :: other)) :
    Reflow text other := by
  cases reflow with
  | char _ _ more => exact more
  | literal quoted =>
    rw [notQuote] at quoted
    cases quoted
  | unclosed quoted =>
    rw [notQuote] at quoted
    cases quoted

theorem Reflow.past {run runToo : List Char} (plain : Unquoted run) (length : run.length = runToo.length)
    (reflow : Reflow (run ++ text) (runToo ++ other)) : Reflow text other := by
  induction run generalizing runToo with
  | nil =>
    obtain rfl := List.length_eq_zero_iff.mp length.symm
    exact reflow
  | cons c more ih =>
    obtain ⟨first, later⟩ := List.forall_mem_cons.mp plain
    cases runToo with
    | nil => cases length
    | cons d moreToo => exact ih later (Nat.succ.inj length) (reflow.tail first)

-- A header is read from both texts or from none, with bodies that differ in breaks only.
theorem header?_reflow (known : IsKeyword keyword) (unbroken : keyword.toList.all (fun c => !breaks c) = true)
    (reflow : Reflow text other) :
    Option.Rel (fun found foundToo => found.1 = foundToo.1 ∧ Reflow found.2 foundToo.2)
      (header? keyword text) (header? keyword other) := by
  have related := header?_respaced unbroken reflow.respaced
  generalize read : header? keyword text = first at related
  generalize readToo : header? keyword other = second at related
  cases related with
  | none => exact .none
  | some reads =>
    obtain ⟨run, rfl, plain⟩ := header?_unquoted known read
    obtain ⟨runToo, rfl, _⟩ := header?_unquoted known readToo
    have lengths := reflow.respaced.length_eq
    rw [List.length_append, List.length_append, reads.2.length_eq] at lengths
    exact .some ⟨reads.1, reflow.past plain (Nat.add_right_cancel lengths)⟩

end Headers

section Places

variable {read? : List Char → Option α} {what : α → β} {next : Char → Bool}

-- The same is found at the same places, in literals and outside.
theorem sites_level (level : next ' ' = next '\n')
    (same : ∀ text other, Respaced text other → (read? text).map what = (read? other).map what)
    {marks others : List (Char × Bool)} (related : List.Forall₂ Level marks others) (looks : Bool) :
    (sites read? next looks marks).map (fun site => (what site.1, site.2))
      = (sites read? next looks others).map fun site => (what site.1, site.2) := by
  induction related generalizing looks with
  | nil => rfl
  | @cons c d rest more first later ih =>
    obtain ⟨c, literal⟩ := c
    obtain ⟨d, literalToo⟩ := d
    obtain ⟨here, rfl⟩ := first
    have text : Respaced (c :: rest.map Prod.fst) (d :: more.map Prod.fst) := by
      refine .cons here (List.forall₂_map_left_iff.mpr (List.forall₂_map_right_iff.mpr ?_))
      exact later.imp fun _ _ both => both.1
    have found := same _ _ text
    rw [sites, sites, List.map_append, List.map_append, here.level next level, ih]
    congr 1
    cases looks with
    | false => rfl
    | true =>
      rw [if_pos rfl, if_pos rfl]
      generalize read? (c :: rest.map Prod.fst) = one at found
      generalize read? (d :: more.map Prod.fst) = two at found
      cases one with
      | none =>
        obtain rfl := Option.map_eq_none_iff.mp found.symm
        rfl
      | some a =>
        obtain ⟨b, rfl, equal⟩ := Option.map_eq_some_iff.mp found.symm
        simp [equal]

-- What is found outside of literals is followed by texts that differ in breaks only.
theorem Reflow.outside (reflow : Reflow text other) (level : next ' ' = next '\n')
    (same : ∀ text other, Reflow text other → (read? text).map what = (read? other).map what)
    (looks : Bool) :
    (outside (sites read? next looks (Source.marked none text))).map what
      = (outside (sites read? next looks (Source.marked none other))).map what := by
  induction reflow generalizing looks with
  | nil => rfl
  | @char c d rest other notQuote related more ih =>
    have here := same _ _ (.char notQuote related more)
    rw [marked_char notQuote, marked_char (related.notQuote notQuote), outside_plain, outside_plain,
      map_marked, map_marked, ih, related.level next level]
    cases looks with
    | false => rfl
    | true => rw [if_pos rfl, if_pos rfl, here]
  | literal quoted closed _ ih =>
    rw [marked_quoted quoted closed, marked_quoted quoted closed, ← List.cons_append, outside_literal,
      outside_literal]
    exact ih _
  | unclosed => rfl

end Places

section Packages

-- No package statement comes right after a break that is moved, but for blanks.
def Undivided : List Char → List Char → Prop
  | c :: text, d :: other => (c = d ∨ packageAt? text = none) ∧ Undivided text other
  | _, _ => True

instance decidableUndivided : (text other : List Char) → Decidable (Undivided text other)
  | c :: text, d :: other =>
    haveI := decidableUndivided text other
    inferInstanceAs (Decidable ((c = d ∨ packageAt? text = none) ∧ Undivided text other))
  | [], _ => isTrue trivial
  | _ :: _, [] => isTrue trivial

theorem packageFrom?_undivided (same : Respaced text other) (undivided : Undivided text other)
    {lineStart lineStartToo : Bool} (start : lineStart = lineStartToo ∨ packageAt? text = none) :
    packageFrom? lineStart text = packageFrom? lineStartToo other := by
  induction same generalizing lineStart lineStartToo with
  | nil => rfl
  | @cons c d rest more first later ih =>
    obtain ⟨here, undivided⟩ := undivided
    have level : packageAt? (c :: rest) = packageAt? (d :: more) := packageAt?_respaced (.cons first later)
    have further : packageFrom? (c = '\n') rest = packageFrom? (d = '\n') more :=
      ih undivided (here.imp_left fun equal => by rw [equal])
    rw [packageFrom?, packageFrom?, further, ← level]
    rcases start with rfl | none
    · rfl
    · rw [none, ite_self, ite_self]

end Packages

namespace Split

-- A file whose package statement comes after another one, with a break between them.
def packaged (gap inner : String) : String :=
  "syntax = \"proto3\";" ++ gap ++ "package pay.v1;\nmessage MsgPay \x7b string" ++ inner
    ++ "memo = 1; \x7d\n"

def file : SourceFile where
  path := "pay.proto"
  package := "pay.v1"
  messages := [⟨"pay.v1", "MsgPay", [⟨"memo", "string", false, 1⟩], "pay.proto", none⟩]
  enums := []
  requests := []

-- An option with a name in two words.
def config : Config := { Config.standard with legacyNameOption := "amino name" }

def worded (gap : String) : String :=
  "package pay.v1;\nmessage MsgPay \x7b option (amino" ++ gap ++ "name) = \"pay\"; \x7d\n"

-- A literal with the header of a message, whose body goes on after it.
def quoted (gap : String) : String :=
  "package pay.v1;\nmessage MsgPay \x7b string memo = 1 [json_name = \"message Note \x7b option (amino.name) = \","
    ++ gap ++ "other = \"; \x7d\"]; \x7d\n"

end Split

end Source

namespace SourceFile

open Source

variable {config : Config} {path text other : String}

-- What a file declares once its package is known; of its messages, those whose headers stand outside of
-- literals.
def declared (config : Config) (path text package : String) : SourceFile where
  path := path
  package := package
  messages := (outside (headerSites "message" text)).map fun (name, rest) =>
    message config path package name (blockBody rest)
  enums := ((headerSites "enum" text).map Prod.fst).map fun (name, _) => .ofList name
  requests := (((requestSites text).map Prod.fst).map String.ofList).filter (isRequest config)

theorem read?_declared (plain : stripComments text.toList = text.toList)
    (outer : ∀ site ∈ headerSites "message" text, site.2 = false) :
    read? config path text = (packageFrom? true text.toList).map fun package =>
      declared config path text (.ofList package) := by
  have package := sites_package true (characters text)
  rw [characters, map_marked, plain] at package
  rw [read?_sites, packageSites, characters, plain, package, ← (outside_all _).mpr outer]
  rfl

-- The same headers, in literals and outside.
theorem headerSites_reflow (plain : stripComments text.toList = text.toList)
    (reflow : Reflow text.toList other.toList) (keyword : String)
    (unbroken : keyword.toList.all (fun c => !breaks c) = true) :
    (headerSites keyword text).map (fun site => (site.1.1, site.2))
      = (headerSites keyword other).map fun site => (site.1.1, site.2) := by
  rw [headerSites, headerSites, characters, characters, plain, reflow.strip plain]
  refine sites_level (by decide : notWord ' ' = notWord '\n') (fun _ _ respaced => ?_) reflow.marked true
  exact rel_eq.mp (rel_map (header?_respaced unbroken respaced) fun _ _ reads => reads.1)

theorem requestSites_reflow (plain : stripComments text.toList = text.toList)
    (reflow : Reflow text.toList other.toList) : requestSites text = requestSites other := by
  have read : ∀ text other, Respaced text other → (request? text).map id = (request? other).map id :=
    fun text other respaced => by rw [request?_respaced respaced]
  have same := sites_level (by decide : notWord ' ' = notWord '\n') read reflow.marked true
  rw [requestSites, requestSites, characters, characters, plain, reflow.strip plain]
  simpa using same

theorem outer_reflow (plain : stripComments text.toList = text.toList)
    (reflow : Reflow text.toList other.toList) (outer : ∀ site ∈ headerSites "message" text, site.2 = false) :
    ∀ site ∈ headerSites "message" other, site.2 = false := by
  have same := headerSites_reflow plain reflow "message" (by decide)
  intro site inside
  obtain ⟨there, member, equal⟩ := List.mem_map.mp (same ▸ List.mem_map_of_mem inside)
  exact (congrArg Prod.snd equal).symm.trans (outer there member)

theorem declared_reflow (unbroken : config.legacyNameOption.toList.all (fun c => !breaks c) = true)
    (plain : stripComments text.toList = text.toList) (reflow : Reflow text.toList other.toList)
    (package : String) : declared config path text package = declared config path other package := by
  have read : ∀ text other, Reflow text other →
      (header? "message" text).map (fun found => message config path package found.1 (blockBody found.2))
        = (header? "message" other).map fun found =>
          message config path package found.1 (blockBody found.2) := by
    intro text other reflow
    refine rel_eq.mp (rel_map (header?_reflow ⟨by decide, by decide⟩ (by decide) reflow) ?_)
    rintro found foundToo ⟨named, body⟩
    rw [named, message_reflow unbroken body]
  have messages : (outside (headerSites "message" text)).map (fun found =>
        message config path package found.1 (blockBody found.2))
      = (outside (headerSites "message" other)).map fun found =>
        message config path package found.1 (blockBody found.2) := by
    rw [headerSites, headerSites, characters, characters, plain, reflow.strip plain]
    exact reflow.outside (by decide) read true
  have enums : ((headerSites "enum" text).map Prod.fst).map (fun found => String.ofList found.1)
      = ((headerSites "enum" other).map Prod.fst).map fun found => String.ofList found.1 := by
    have same := congrArg (List.map fun site => String.ofList site.1)
      (headerSites_reflow plain reflow "enum" (by decide))
    rw [List.map_map, List.map_map] at same ⊢
    exact same
  rw [declared, declared, messages, requestSites_reflow plain reflow]
  exact congrArg (fun enums => SourceFile.mk path package _ enums _) enums

theorem declared_injective (config : Config) (path text : String) :
    Function.Injective fun package => declared config path text (.ofList package) :=
  fun _ _ same => String.ofList_injective (congrArg SourceFile.package same)

-- Line layout carries no structure, but for the package: its statement has to start a line.
theorem read_relaid (unbroken : config.legacyNameOption.toList.all (fun c => !breaks c) = true)
    (plain : stripComments text.toList = text.toList) (relaid : Relaid text.toList other.toList) :
    (∀ package, declared config path text package = declared config path other package) ∧
      ((∀ site ∈ headerSites "message" text, site.2 = false) →
        (read? config path text = read? config path other ↔
          packageFrom? true text.toList = packageFrom? true other.toList)) ∧
      (Undivided text.toList other.toList →
        packageFrom? true text.toList = packageFrom? true other.toList) := by
  have reflow := relaid.reflow
  have same : ∀ package, declared config path text package = declared config path other package :=
    declared_reflow unbroken plain reflow
  refine ⟨same, ?_, fun undivided => packageFrom?_undivided reflow.respaced undivided (.inl rfl)⟩
  intro outer
  rw [read?_declared plain outer, read?_declared (reflow.strip plain) (outer_reflow plain reflow outer)]
  simp only [← same]
  exact (Option.map_injective (declared_injective config path text)).eq_iff

theorem read_relaid_packaged :
    (Config.standard.legacyNameOption.toList.all (fun c => !breaks c) = true ∧
      stripComments (Split.packaged "\n" " ").toList = (Split.packaged "\n" " ").toList ∧
      Relaid (Split.packaged "\n" " ").toList (Split.packaged "\n" "\n").toList ∧
      (∀ site ∈ headerSites "message" (Split.packaged "\n" " "), site.2 = false) ∧
      Undivided (Split.packaged "\n" " ").toList (Split.packaged "\n" "\n").toList) ∧
      read? Config.standard "pay.proto" (Split.packaged "\n" " ") = some Split.file ∧
      read? Config.standard "pay.proto" (Split.packaged "\n" "\n") = some Split.file := by
  have unbroken : Config.standard.legacyNameOption.toList.all (fun c => !breaks c) = true := by
    decide +kernel
  have plain : stripComments (Split.packaged "\n" " ").toList = (Split.packaged "\n" " ").toList := by
    decide +kernel
  have relaid : Relaid (Split.packaged "\n" " ").toList (Split.packaged "\n" "\n").toList := by
    decide +kernel
  have outer : ∀ site ∈ headerSites "message" (Split.packaged "\n" " "), site.2 = false := by
    decide +kernel
  have undivided : Undivided (Split.packaged "\n" " ").toList (Split.packaged "\n" "\n").toList := by
    decide +kernel
  have read : read? Config.standard "pay.proto" (Split.packaged "\n" " ") = some Split.file := by
    decide +kernel
  obtain ⟨_, exactly, package⟩ := @read_relaid Config.standard "pay.proto" _ _ unbroken plain relaid
  exact ⟨⟨unbroken, plain, relaid, outer, undivided⟩, read,
    ((exactly outer).mpr (package undivided)).symm.trans read⟩

-- Without the break before its package statement the file is skipped. A name with a break in it, and a
-- literal that holds a header, are read differently as well.
theorem read_relaid_divided :
    (Relaid (Split.packaged "\n" " ").toList (Split.packaged " " " ").toList ∧
      read? Config.standard "pay.proto" (Split.packaged "\n" " ") = some Split.file ∧
      read? Config.standard "pay.proto" (Split.packaged " " " ") = none) ∧
    (Relaid (Split.worded " ").toList (Split.worded "\n").toList ∧
      (read? Split.config "pay.proto" (Split.worded " ")).map (fun file =>
          file.messages.map MessageDecl.legacyName) = some [some "pay"] ∧
      (read? Split.config "pay.proto" (Split.worded "\n")).map (fun file =>
          file.messages.map MessageDecl.legacyName) = some [none]) ∧
    (Relaid (Split.quoted " ").toList (Split.quoted "\n").toList ∧
      (read? Config.standard "pay.proto" (Split.quoted " ")).map (fun file =>
          file.messages.map MessageDecl.legacyName)
        = some [none, some ", other = "] ∧
      (read? Config.standard "pay.proto" (Split.quoted "\n")).map (fun file =>
          file.messages.map MessageDecl.legacyName)
        = some [none, some ",\nother = "]) := by
  unfold read? Split.packaged Split.worded Split.quoted
  simp only [String.toList_append]
  repeat rw [String.toList_ofList]
  decide +kernel

end SourceFile

end SigningSchema
