import SigningSchema.Proofs.Corpus.Closure
import SigningSchema.Proofs.Text

-- Two readings of one reference: as the type of a field it is looked for among the declarations, as a
-- payload it is only completed to a full name. They differ in references that look like nested names.

namespace SigningSchema

namespace ScalarKind

theorem ofKeyword?_of_dotted {word : String} (dotted : '.' ∈ word.toList) : ofKeyword? word = none := by
  refine Option.eq_none_iff_forall_not_mem.mpr fun kind known => ?_
  obtain ⟨named, _⟩ := Option.filter_eq_some_iff.mp known
  have same : kind.keyword = word := by simpa using List.find?_some named
  rw [← same] at dotted
  revert dotted
  cases kind <;> decide

theorem ofWellKnown?_dot (typeName : String) : ofWellKnown? ("." ++ typeName) = ofWellKnown? typeName := by
  have chars : ("." ++ typeName).toList = '.' :: typeName.toList := by rw [String.toList_append]; rfl
  rw [ofWellKnown?, ofWellKnown?, chars, List.dropWhile_cons_of_pos (by decide)]

theorem ofWellKnown?_of_bare {typeName : String} (bare : '.' ∉ typeName.toList) :
    ofWellKnown? typeName = none := by
  have whole : typeName.toList.dropWhile (· = '.') = typeName.toList := by
    cases chars : typeName.toList with
    | nil => rfl
    | cons c rest =>
      refine List.dropWhile_cons_of_neg fun dot => bare ?_
      rw [chars, of_decide_eq_true dot]
      exact List.mem_cons_self
  rw [ofWellKnown?, whole, String.ofList_toList, if_neg, if_neg]
  · rintro rfl
    exact bare (by decide)
  · rintro rfl
    exact bare (by decide)

end ScalarKind

namespace Corpus

variable {corpus : Corpus} {typeRef package name : String}

-- A dotted reference that is declared nowhere as it is written and whose first part is a message of
-- the package: it may stand for a name within the package.
structure LooksNested (corpus : Corpus) (typeRef package : String) : Prop where
  undeclared : corpus.classOf? typeRef = none
  withinMessage : ∃ outer inner, typeRef = outer ++ "." ++ inner ∧ outer ≠ "" ∧ '.' ∉ outer.toList ∧
    corpus.declares (package ++ "." ++ outer) = true

section Spellings

variable {outer inner : String}

theorem spelling_cases (typeRef : String) :
    (∃ rest, typeRef = "." ++ rest) ∨ '.' ∉ typeRef.toList ∨
      ∃ outer inner, typeRef = outer ++ "." ++ inner ∧ outer ≠ "" ∧ '.' ∉ outer.toList := by
  by_cases dotted : '.' ∈ typeRef.toList
  · obtain ⟨outer, inner, rfl, plain⟩ := Text.exists_first_part "." rfl dotted
    by_cases empty : outer = ""
    · subst empty
      exact .inl ⟨inner, by rw [String.empty_append]⟩
    · exact .inr (.inr ⟨outer, inner, rfl, empty, plain⟩)
  · exact .inr (.inl dotted)

theorem not_rooted_of_bare (bare : '.' ∉ typeRef.toList) : Text.dropBeginning? "." typeRef = none := by
  refine Option.eq_none_iff_forall_not_mem.mpr fun rest dropped => bare ?_
  rw [Text.dropBeginning?_iff.mp dropped, String.toList_append]
  exact List.mem_append_left _ (by decide)

theorem not_rooted_of_outer (named : outer ≠ "") (plain : '.' ∉ outer.toList) :
    Text.dropBeginning? "." (outer ++ "." ++ inner) = none := by
  refine Option.eq_none_iff_forall_not_mem.mpr fun rest dropped => ?_
  have same := congrArg String.toList (Text.dropBeginning?_iff.mp dropped)
  simp only [String.toList_append] at same
  cases chars : outer.toList with
  | nil => exact named (String.toList_inj.mp chars)
  | cons c more =>
    rw [chars] at same plain
    obtain ⟨first, _⟩ := List.cons.inj same
    exact plain (first ▸ List.mem_cons_self)

theorem candidates_rooted (corpus : Corpus) (rest package : String) :
    corpus.candidates ("." ++ rest) package = [rest] := by
  rw [candidates, Text.dropBeginning?_iff.mpr rfl]

theorem candidates_bare (corpus : Corpus) (bare : '.' ∉ typeRef.toList) (package : String) :
    corpus.candidates typeRef package = [package ++ "." ++ typeRef] := by
  rw [candidates, not_rooted_of_bare bare, Text.split_of_notMem bare]

theorem candidates_dotted (corpus : Corpus) (named : outer ≠ "") (plain : '.' ∉ outer.toList)
    (package : String) :
    corpus.candidates (outer ++ "." ++ inner) package =
      if corpus.declares (package ++ "." ++ outer) then
        [outer ++ "." ++ inner, package ++ "." ++ (outer ++ "." ++ inner),
          package ++ "." ++ Text.lastPart '.' (outer ++ "." ++ inner)]
      else [outer ++ "." ++ inner] := by
  obtain ⟨second, more, parts⟩ := List.exists_cons_of_ne_nil (Text.split_ne_nil '.' inner)
  rw [candidates, not_rooted_of_outer named plain, Text.split_append rfl, Text.split_of_notMem plain,
    parts]
  rfl

theorem qualify_rooted (rest package : String) : qualify ("." ++ rest) package = rest := by
  rw [qualify, Text.dropBeginning?_iff.mpr rfl]

theorem qualify_bare (bare : '.' ∉ typeRef.toList) (package : String) :
    qualify typeRef package = package ++ "." ++ typeRef := by
  rw [qualify, not_rooted_of_bare bare]
  exact if_neg (by simpa using bare)

theorem qualify_dotted (named : outer ≠ "") (plain : '.' ∉ outer.toList) (package : String) :
    qualify (outer ++ "." ++ inner) package = outer ++ "." ++ inner := by
  rw [qualify, not_rooted_of_outer named plain]
  exact if_pos (by simp [String.toList_append])

theorem qualify_full (dotted : '.' ∈ typeRef.toList) (unrooted : ∀ rest, typeRef ≠ "." ++ rest)
    (package : String) : qualify typeRef package = typeRef := by
  rcases spelling_cases typeRef with ⟨rest, rooted⟩ | bare | ⟨outer, inner, rfl, named, plain⟩
  · exact absurd rooted (unrooted rest)
  · exact absurd dotted bare
  · exact qualify_dotted named plain package

end Spellings

section Readings

theorem classOf?_message (found : corpus.classOf? typeRef = some (.message name)) : typeRef = name := by
  rw [classOf?] at found
  split at found
  · cases found
    rfl
  · split at found <;> cases found

theorem classOf?_declared (declared : corpus.declares name = true) :
    corpus.classOf? name = some (.message name) := if_pos declared

theorem resolve?_named (keyword : ScalarKind.ofKeyword? typeRef = none)
    (wellKnown : ScalarKind.ofWellKnown? typeRef = none) (package : String) :
    corpus.resolve? typeRef package = (corpus.candidates typeRef package).findSome? corpus.classOf? := by
  rw [resolve?, keyword, wellKnown]
  rfl

theorem resolve?_scalar {kind : ScalarKind} (keyword : ScalarKind.ofKeyword? typeRef = none)
    (wellKnown : ScalarKind.ofWellKnown? typeRef = some kind) (package : String) :
    corpus.resolve? typeRef package = some (.scalar kind) := by
  rw [resolve?, keyword, wellKnown]
  rfl

theorem message_of_candidates (known : corpus.resolve? typeRef package = some (.message name)) :
    (corpus.candidates typeRef package).findSome? corpus.classOf? = some (.message name) := by
  rw [resolve?] at known
  split at known
  · cases known
  · exact known

-- What a reference that looks like a nested name stands for.
theorem candidates_looksNested (nested : corpus.LooksNested typeRef package) :
    (corpus.candidates typeRef package).findSome? corpus.classOf?
      = (corpus.classOf? (package ++ "." ++ typeRef)).or
          (corpus.classOf? (package ++ "." ++ Text.lastPart '.' typeRef)) := by
  obtain ⟨undeclared, outer, inner, rfl, named, plain, declared⟩ := nested
  rw [candidates_dotted corpus named plain, if_pos declared, List.findSome?_cons, undeclared]
  cases found : corpus.classOf? (package ++ "." ++ (outer ++ "." ++ inner)) <;>
    cases foundToo : corpus.classOf? (package ++ "." ++ Text.lastPart '.' (outer ++ "." ++ inner)) <;>
    simp [found, foundToo]

-- Any other reference stands for the full name that a payload gets, or for nothing.
theorem candidates_not_looksNested (other : ¬ corpus.LooksNested typeRef package) :
    (corpus.candidates typeRef package).findSome? corpus.classOf?
      = corpus.classOf? (qualify typeRef package) := by
  rcases spelling_cases typeRef with ⟨rest, rfl⟩ | bare | ⟨outer, inner, rfl, named, plain⟩
  · rw [candidates_rooted, qualify_rooted, List.findSome?_singleton]
  · rw [candidates_bare corpus bare, qualify_bare bare, List.findSome?_singleton]
  · rw [candidates_dotted corpus named plain, qualify_dotted named plain]
    split
    · rename_i declared
      cases found : corpus.classOf? (outer ++ "." ++ inner) with
      | some type => rw [List.findSome?_cons, found]
      | none => exact absurd ⟨found, outer, inner, rfl, named, plain, declared⟩ other
    · rw [List.findSome?_singleton]

-- The name that is declared with the package, however the package is written before it.
theorem resolve?_bare (bare : '.' ∉ name.toList) (keyword : ScalarKind.ofKeyword? name = none)
    (package : String) : corpus.resolve? name package = corpus.classOf? (package ++ "." ++ name) := by
  rw [resolve?_named keyword (ScalarKind.ofWellKnown?_of_bare bare), candidates_bare corpus bare,
    List.findSome?_singleton]

theorem resolve?_rooted (wellKnown : ScalarKind.ofWellKnown? name = none) (package : String) :
    corpus.resolve? ("." ++ name) package = corpus.classOf? name := by
  have keyword : ScalarKind.ofKeyword? ("." ++ name) = none :=
    ScalarKind.ofKeyword?_of_dotted (by rw [String.toList_append]; exact List.mem_cons_self)
  rw [resolve?_named keyword (by rwa [ScalarKind.ofWellKnown?_dot]), candidates_rooted,
    List.findSome?_singleton]

theorem lastPart_of_bare (bare : '.' ∉ name.toList) (package : String) :
    Text.lastPart '.' (package ++ "." ++ name) = name := by
  rw [Text.lastPart, Text.split_append rfl, Text.split_of_notMem bare, List.getLast?_append]
  rfl

theorem looksNested_unqualified (nested : corpus.LooksNested typeRef package)
    (known : corpus.resolve? typeRef package = some (.message name)) : qualify typeRef package ≠ name := by
  have declared := declares_of_resolve? known
  obtain ⟨undeclared, outer, inner, rfl, named, plain, _⟩ := nested
  rw [qualify_dotted named plain]
  rintro rfl
  rw [classOf?_declared declared] at undeclared
  cases undeclared

end Readings

-- A field and a payload mean the same message by a reference that does not look nested, and a name of
-- the package is the same name wherever the package is written before it, with the same exception.
theorem resolve?_spellings (corpus : Corpus) (package : String) :
    (∀ typeRef name, corpus.resolve? typeRef package = some (.message name) →
      (¬ corpus.LooksNested typeRef package → qualify typeRef package = name) ∧
      (corpus.LooksNested typeRef package → qualify typeRef package ≠ name ∧
        (name = package ++ "." ++ typeRef ∨
          corpus.classOf? (package ++ "." ++ typeRef) = none ∧
            name = package ++ "." ++ Text.lastPart '.' typeRef))) ∧
    ∀ name, '.' ∉ name.toList → ScalarKind.ofKeyword? name = none →
      let written := package ++ "." ++ name
      (∀ kind, ScalarKind.ofWellKnown? written = some kind →
        corpus.resolve? written package = some (.scalar kind) ∧
          corpus.resolve? ("." ++ written) package = some (.scalar kind)) ∧
      (ScalarKind.ofWellKnown? written = none →
        corpus.resolve? ("." ++ written) package = corpus.resolve? name package ∧
        ((∀ rest, written ≠ "." ++ rest) → ¬ corpus.LooksNested written package →
          corpus.resolve? written package = corpus.resolve? name package) ∧
        (corpus.LooksNested written package → corpus.resolve? name package = none ∧
          corpus.resolve? written package = corpus.classOf? (package ++ "." ++ written)) ∧
        ∀ rest, written = "." ++ rest → corpus.resolve? written package = corpus.classOf? rest) := by
  constructor
  · intro typeRef name known
    have found := message_of_candidates known
    refine ⟨fun other => ?_, fun nested => ⟨looksNested_unqualified nested known, ?_⟩⟩
    · rw [candidates_not_looksNested other] at found
      exact classOf?_message found
    · rw [candidates_looksNested nested] at found
      rcases Option.or_eq_some_iff.mp found with whole | ⟨undeclared, last⟩
      · exact .inl (classOf?_message whole).symm
      · exact .inr ⟨undeclared, (classOf?_message last).symm⟩
  · intro name bare keyword written
    have dotted : '.' ∈ written.toList := by simp [written, String.toList_append]
    have noKeyword := ScalarKind.ofKeyword?_of_dotted dotted
    have noKeywordToo : ScalarKind.ofKeyword? ("." ++ written) = none :=
      ScalarKind.ofKeyword?_of_dotted (by simp [String.toList_append])
    refine ⟨fun kind wellKnown => ?_, fun unknown => ⟨?_, ?_, ?_, ?_⟩⟩
    · exact ⟨resolve?_scalar noKeyword wellKnown package,
        resolve?_scalar noKeywordToo (by rwa [ScalarKind.ofWellKnown?_dot]) package⟩
    · rw [resolve?_rooted unknown, resolve?_bare bare keyword]
    · intro unrooted other
      rw [resolve?_named noKeyword unknown, candidates_not_looksNested other, resolve?_bare bare keyword,
        qualify_full dotted unrooted]
    · intro nested
      rw [resolve?_bare bare keyword, resolve?_named noKeyword unknown, candidates_looksNested nested,
        lastPart_of_bare bare]
      exact ⟨nested.undeclared, by rw [nested.undeclared, Option.or_none]⟩
    · intro rest rooted
      rw [rooted] at unknown ⊢
      exact resolve?_rooted (by rwa [← ScalarKind.ofWellKnown?_dot]) package

section Spelled

def spelledFiles : List SourceFile :=
  let declare (path package : String) (names : List String) : SourceFile :=
    { path, package, messages := names.map fun name => ⟨package, name, [], path, none⟩, enums := []
      requests := [] }
  [declare "a.proto" ".a" ["Coin"], declare "b.proto" "demo.v1" ["MsgSend", "Node", "demo"],
    declare "c.proto" "demo.v1.demo.v1" ["Part"], declare "d.proto" "google.protobuf" ["Duration"]]

-- The files are in the order of their paths.
theorem ofFiles_spelled : ofFiles spelledFiles = spelledFiles.foldl addFile empty := by
  rw [ofFiles, List.mergeSort_of_pairwise (by decide)]

-- Nested names, for a field and for a payload; a name with its package, where only the package within
-- the package declares it; a type that is known by its full name; a package that begins with a dot.
theorem spellings_differ :
    let corpus := ofFiles spelledFiles
    (corpus.resolve? "MsgSend.Node" "demo.v1" = some (.message "demo.v1.Node") ∧
      qualify "MsgSend.Node" "demo.v1" = "MsgSend.Node") ∧
    (corpus.resolve? "Part" "demo.v1" = none ∧
      corpus.resolve? "demo.v1.Part" "demo.v1" = some (.message "demo.v1.demo.v1.Part")) ∧
    (corpus.resolve? "Duration" "google.protobuf" = some (.message "google.protobuf.Duration") ∧
      corpus.resolve? "google.protobuf.Duration" "google.protobuf" = some (.scalar .duration)) ∧
    corpus.resolve? "Coin" ".a" = some (.message ".a.Coin") ∧ corpus.resolve? ".a.Coin" ".a" = none := by
  intro corpus
  have built : corpus = spelledFiles.foldl addFile empty := ofFiles_spelled
  rw [built]
  refine ⟨⟨?_, ?_⟩, ⟨?_, ?_⟩, ⟨?_, ?_⟩, ?_, ?_⟩ <;> rfl

theorem resolve?_spellings_node :
    let corpus := ofFiles spelledFiles
    (corpus.resolve? "demo.v1.Node" "demo.v1" = some (.message "demo.v1.Node") ∧
      qualify "demo.v1.Node" "demo.v1" = "demo.v1.Node") ∧
    (corpus.LooksNested "MsgSend.Node" "demo.v1" ∧ qualify "MsgSend.Node" "demo.v1" ≠ "demo.v1.Node") ∧
    corpus.resolve? ".demo.v1.Node" "demo.v1" = corpus.resolve? "Node" "demo.v1" ∧
    corpus.resolve? "demo.v1.Node" "demo.v1" = corpus.resolve? "Node" "demo.v1" := by
  intro corpus
  have built : corpus = spelledFiles.foldl addFile empty := ofFiles_spelled
  have found : corpus.resolve? "demo.v1.Node" "demo.v1" = some (.message "demo.v1.Node") := by
    rw [built]
    rfl
  have foundToo : corpus.resolve? "MsgSend.Node" "demo.v1" = some (.message "demo.v1.Node") := by
    rw [built]
    rfl
  have nested : corpus.LooksNested "MsgSend.Node" "demo.v1" := by
    rw [built]
    exact ⟨rfl, "MsgSend", "Node", rfl, by decide, by decide, rfl⟩
  have other : ¬ corpus.LooksNested "demo.v1.Node" "demo.v1" := by
    rw [built]
    exact fun nested => absurd nested.undeclared (by decide)
  obtain ⟨agree, spelled⟩ := resolve?_spellings corpus "demo.v1"
  obtain ⟨_, known⟩ := spelled "Node" (by decide) rfl
  obtain ⟨rooted, full, _⟩ := known rfl
  refine ⟨⟨found, (agree _ _ found).1 other⟩, ⟨nested, ((agree _ _ foundToo).2 nested).1⟩, rooted,
    full ?_ other⟩
  intro rest same
  have dropped := Text.dropBeginning?_iff.mpr same
  cases dropped

end Spelled

end Corpus

end SigningSchema
