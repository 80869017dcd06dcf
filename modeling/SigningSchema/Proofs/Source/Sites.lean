import SigningSchema.Proofs.Source.Bodies

-- Where the declarations of a file stand: outside of literals, or in one. What stands outside does not
-- depend on what literals hold.

namespace SigningSchema.Source

open Unicode (isBlank isWord)

variable {α β : Type} {config : Config} {before text other : List Char}

-- What a reader recognizes, and whether it begins in a literal. It looks at the next place after the
-- characters of a class.
def sites (read? : List Char → Option α) (next : Char → Bool) (looks : Bool) :
    List (Char × Bool) → List (α × Bool)
  | [] => []
  | (c, literal) :: rest =>
    let here := if looks then read? (c :: rest.map Prod.fst) else none
    (here.map fun found => (found, literal)).toList ++ sites read? next (next c) rest

def outside (found : List (α × Bool)) : List α := (found.filter fun site => !site.2).map Prod.fst

def notWord (c : Char) : Bool := !isWord c

def endsLine (c : Char) : Bool := c = '\n'

section Reading

theorem map_marked (mode : Option Char) (text : List Char) :
    (marked mode text).map Prod.fst = text := by
  induction mode, text using marked.induct with
  | case1 => simp [marked]
  | case2 c rest ih => simp [marked, ih]
  | case3 quote c rest ih => simp [marked, ih]
  | case4 quote c rest other ih => simp [marked, ih]

theorem sites_occurrences (read? : List Char → Option α) (afterWord : Bool)
    (marks : List (Char × Bool)) :
    (sites read? notWord (!afterWord) marks).map Prod.fst
      = occurrences read? afterWord (marks.map Prod.fst) := by
  induction marks generalizing afterWord with
  | nil => rfl
  | cons site rest ih =>
    obtain ⟨c, literal⟩ := site
    rw [sites, List.map_append, notWord, ih, List.map_cons, occurrences]
    cases afterWord with
    | true => rfl
    | false =>
      simp only [Bool.not_false, if_pos, Bool.false_eq_true, if_false]
      cases read? (c :: rest.map Prod.fst) <;> rfl

theorem sites_package (lineStart : Bool) (marks : List (Char × Bool)) :
    ((sites packageAt? endsLine lineStart marks).map Prod.fst).head?
      = packageFrom? lineStart (marks.map Prod.fst) := by
  induction marks generalizing lineStart with
  | nil => rfl
  | cons site rest ih =>
    obtain ⟨c, literal⟩ := site
    rw [sites, List.map_append, List.head?_append, ih, List.map_cons, packageFrom?, endsLine]
    cases lineStart with
    | false => rfl
    | true =>
      simp only [if_pos]
      cases packageAt? (c :: rest.map Prod.fst) <;> rfl

end Reading

-- What passes a test is found outside of literals only.
theorem filter_outside (found : List (α × Bool)) (what : α → β) (counts : β → Bool) :
    ((outside found).map what).filter counts = ((found.map Prod.fst).map what).filter counts ↔
      ∀ site ∈ found, counts (what site.1) = true → site.2 = false := by
  have all : ((outside found).map what).filter counts
      = (((found.filter fun site => counts (what site.1)).filter fun site => !site.2).map
        fun site => what site.1) := by
    rw [outside, List.map_map, List.filter_map, List.filter_comm]
    rfl
  have counted : ((found.map Prod.fst).map what).filter counts
      = (found.filter fun site => counts (what site.1)).map fun site => what site.1 := by
    rw [List.map_map, List.filter_map]
    rfl
  rw [all, counted]
  constructor
  · intro same site inside counts
    have length := congrArg List.length same
    rw [List.length_map, List.length_map, List.length_filter_eq_length_iff] at length
    simpa using length site (List.mem_filter.mpr ⟨inside, counts⟩)
  · intro none
    rw [List.filter_eq_self.mpr]
    intro site inside
    obtain ⟨member, counts⟩ := List.mem_filter.mp inside
    rw [none site member counts]
    rfl

theorem map_outside (found : List (α × Bool)) (what : α → β) :
    (outside found).map what = (found.map Prod.fst).map what ↔ ∀ site ∈ found, site.2 = false := by
  have every := filter_outside found what fun _ => true
  simpa using every

theorem outside_all (found : List (α × Bool)) :
    outside found = found.map Prod.fst ↔ ∀ site ∈ found, site.2 = false := by
  have every := map_outside found id
  rwa [List.map_id, List.map_id] at every

section Likeness

theorem outside_append (one more : List (α × Bool)) :
    outside (one ++ more) = outside one ++ outside more := by
  rw [outside, List.filter_append, List.map_append]
  rfl

theorem outside_here (here : Option α) :
    outside (here.map fun found => (found, false)).toList = here.toList := by
  cases here <;> rfl

theorem outside_plain (read? : List Char → Option α) (what : α → β) (next : Char → Bool) (looks : Bool)
    (c : Char) (rest : List (Char × Bool)) :
    (outside (sites read? next looks ((c, false) :: rest))).map what
      = ((if looks then read? (c :: rest.map Prod.fst) else none).map what).toList
        ++ (outside (sites read? next (next c) rest)).map what := by
  rw [sites, outside_append, outside_here, List.map_append, Option.toList_map]

theorem outside_literal (read? : List Char → Option α) (next : Char → Bool) (looks : Bool)
    (content : List Char) (last : Char) (rest : List (Char × Bool)) :
    outside (sites read? next looks ((content ++ [last]).map (fun c => (c, true)) ++ rest))
      = outside (sites read? next (next last) rest) := by
  induction content generalizing looks with
  | nil =>
    rw [List.nil_append, List.map_singleton, List.singleton_append, sites, outside_append]
    cases looks with
    | false => rfl
    | true => cases read? (last :: rest.map Prod.fst) <;> rfl
  | cons c more ih =>
    rw [List.cons_append, List.map_cons, List.cons_append, sites, outside_append, ih]
    split
    · cases read? _ <;> rfl
    · rfl

-- A reader that takes the same off the front of texts that are alike.
def Blind (config : Config) (read? : List Char → Option α) (what : α → β) : Prop :=
  ∀ before text other, Alike config before text other →
    (read? text).map what = (read? other).map what

-- Finds the same outside of literals, by induction on the likeness.
theorem Blind.outside {read? : List Char → Option α} {what : α → β} (blind : Blind config read? what)
    (alike : Alike config before text other) (next : Char → Bool) (looks : Bool) :
    (outside (sites read? next looks (marked none text))).map what
      = (outside (sites read? next looks (marked none other))).map what := by
  induction alike generalizing looks with
  | refl => rfl
  | @char before c rest other notQuote more ih =>
    have here := blind before _ _ (.char notQuote more)
    rw [marked_char notQuote, marked_char notQuote, outside_plain, outside_plain, map_marked, map_marked, ih]
    cases looks with
    | false => rfl
    | true => rw [if_pos rfl, if_pos rfl, here]
  | @literal before quote content changed rest other quoted closed closedToo kept _ ih =>
    rw [marked_quoted quoted closed, marked_quoted quoted closedToo, ← List.cons_append,
      ← List.cons_append, outside_literal, outside_literal]
    exact ih _

theorem Alike.split (alike : Alike config before text other) :
    text = other ∨ ∃ front quote rest restToo, Unquoted front ∧ isQuote quote = true ∧
      text = front ++ quote :: rest ∧ other = front ++ quote :: restToo := by
  induction alike with
  | refl => exact .inl rfl
  | @char _ c _ _ notQuote _ ih =>
    rcases ih with rfl | ⟨front, quote, rest, restToo, plain, quoted, rfl, rfl⟩
    · exact .inl rfl
    · exact .inr ⟨c :: front, quote, rest, restToo, List.forall_mem_cons.mpr ⟨notQuote, plain⟩, quoted,
        rfl, rfl⟩
  | literal quoted =>
    exact .inr ⟨[], _, _, _, (fun _ none => nomatch none), quoted, rfl, rfl⟩

theorem Alike.tail {c : Char} (notQuote : isQuote c = false)
    (alike : Alike config before (c :: text) (c :: other)) : Alike config (advance before c) text other := by
  cases alike with
  | refl => exact .refl
  | char _ more => exact more
  | literal quoted =>
    rw [notQuote] at quoted
    cases quoted

-- The texts stay alike where no literal has begun; after a brace a new statement begins.
theorem Alike.past {run : List Char} (plain : Unquoted run)
    (alike : Alike config before (run ++ '{' :: text) (run ++ '{' :: other)) :
    Alike config [] text other := by
  induction run generalizing before with
  | nil => exact alike.tail rfl
  | cons c more ih =>
    obtain ⟨first, later⟩ := List.forall_mem_cons.mp plain
    exact ih later (alike.tail first)

end Likeness

section Readers

theorem Blind.of_before {read? : List Char → Option α}
    (stops : ∀ front quote rest, isQuote quote = true → read? (front ++ quote :: rest) = read? front) :
    Blind config read? id := by
  intro before text other alike
  rcases alike.split with rfl | ⟨front, quote, rest, restToo, _, quoted, rfl, rfl⟩
  · rfl
  · rw [stops front quote rest quoted, stops front quote restToo quoted]

theorem blind_package : Blind config packageAt? id :=
  .of_before fun front _ rest quoted => packageAt?_before quoted rest front

theorem blind_request : Blind config request? id := by
  refine .of_before fun front quote rest quoted => ?_
  rw [request?_reads, request?_reads, opening?_before quoted rest ⟨by decide, by decide⟩ ⟨rfl, rfl⟩]
  cases opening? "rpc" '(' front with
  | none => rfl
  | some found => exact requestIn?_before quoted rest found.2

-- A header is read from both texts or from none, with bodies that are alike.
theorem header?_alike {keyword : String} (known : IsKeyword keyword)
    (alike : Alike config before text other) :
    (header? keyword text = none ∧ header? keyword other = none) ∨
      ∃ name rest restToo, header? keyword text = some (name, rest) ∧
        header? keyword other = some (name, restToo) ∧ Alike config [] rest restToo := by
  rcases alike.split with rfl | ⟨front, quote, tail, tailToo, plain, quoted, rfl, rfl⟩
  · cases read : header? keyword text with
    | none => exact .inl ⟨rfl, rfl⟩
    | some found => exact .inr ⟨found.1, found.2, found.2, rfl, rfl, .refl⟩
  · have opens : Opens '{' := ⟨rfl, rfl⟩
    rw [header?_reads, header?_reads, opening?_before quoted tail known opens,
      opening?_before quoted tailToo known opens]
    cases opened : opening? keyword '{' front with
    | none => exact .inl ⟨rfl, rfl⟩
    | some found =>
      obtain ⟨run, rfl⟩ := opening?_some opened
      rw [Option.map_some, Option.bind_some, Option.map_some, Option.bind_some, named?, named?]
      split
      · refine .inr ⟨found.1, _, _, rfl, rfl, ?_⟩
        simp only [List.append_assoc, List.cons_append] at alike
        exact alike.past fun c inside => plain c (List.mem_append_left _ inside)
      · exact .inl ⟨rfl, rfl⟩

theorem blind_header {keyword : String} (known : IsKeyword keyword)
    {what : List Char × List Char → β}
    (same : ∀ name rest restToo, Alike config [] rest restToo → what (name, rest) = what (name, restToo)) :
    Blind config (header? keyword) what := by
  intro before text other alike
  rcases header?_alike known alike with ⟨none, noneToo⟩ | ⟨name, rest, restToo, read, readToo, more⟩
  · rw [none, noneToo]
  · rw [read, readToo, Option.map_some, Option.map_some, same name rest restToo more]

end Readers

end SigningSchema.Source
