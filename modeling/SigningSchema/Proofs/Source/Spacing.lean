import Mathlib.Data.List.Forall2
import SigningSchema.Proofs.Source.Statements

-- Readers of texts that differ in spaces and line breaks, one for the other. Readers take any blanks,
-- so they answer the same, and what follows differs in the same way.

namespace SigningSchema.Source

open Unicode (isBlank isWord)

def breaks (c : Char) : Bool := c = ' ' || c = '\n'

def Respaces (c d : Char) : Prop := c = d ∨ (breaks c = true ∧ breaks d = true)

abbrev Respaced (text other : List Char) : Prop := List.Forall₂ Respaces text other

variable {c d : Char} {text other : List Char}

section Characters

theorem Respaces.refl (c : Char) : Respaces c c := .inl rfl

theorem Respaced.refl (text : List Char) : Respaced text text :=
  List.forall₂_same.mpr fun c _ => .refl c

theorem breaks_cases (spaces : breaks c = true) : c = ' ' ∨ c = '\n' := by
  simpa [breaks] using spaces

-- Classes take both kinds of breaks or none.
theorem Respaces.level (same : Respaces c d) (accepts : Char → Bool)
    (level : accepts ' ' = accepts '\n') : accepts c = accepts d := by
  rcases same with rfl | ⟨spaces, spacesToo⟩
  · rfl
  · rcases breaks_cases spaces with rfl | rfl <;> rcases breaks_cases spacesToo with rfl | rfl <;>
      simp [level]

theorem Respaces.eq (same : Respaces c d) (accepts : Char → Bool) (refusesSpace : accepts ' ' = false)
    (refusesLine : accepts '\n' = false) (accepted : accepts c = true) : c = d := by
  rcases same with rfl | ⟨spaces, _⟩
  · rfl
  · rcases breaks_cases spaces with rfl | rfl
    · rw [accepted] at refusesSpace
      cases refusesSpace
    · rw [accepted] at refusesLine
      cases refusesLine

theorem Respaces.eq_iff (same : Respaces c d) (mark : Char) (notBreak : breaks mark = false) :
    c = mark ↔ d = mark := by
  rcases same with rfl | ⟨spaces, spacesToo⟩
  · rfl
  · constructor
    · rintro rfl
      rw [notBreak] at spaces
      cases spaces
    · rintro rfl
      rw [notBreak] at spacesToo
      cases spacesToo

end Characters

section Results

variable {α β γ δ : Type} {r : α → β → Prop} {s : γ → δ → Prop}

theorem rel_bind {first : Option α} {second : Option β} {next : α → Option γ} {nextToo : β → Option δ}
    (here : Option.Rel r first second) (then' : ∀ a b, r a b → Option.Rel s (next a) (nextToo b)) :
    Option.Rel s (first.bind next) (second.bind nextToo) := by
  cases here with
  | none => exact .none
  | some related => exact then' _ _ related

theorem rel_map {first : Option α} {second : Option β} {what : α → γ} {whatToo : β → δ}
    (here : Option.Rel r first second) (then' : ∀ a b, r a b → s (what a) (whatToo b)) :
    Option.Rel s (first.map what) (second.map whatToo) := by
  cases here with
  | none => exact .none
  | some related => exact .some (then' _ _ related)

theorem rel_or {first more : Option α} {second moreToo : Option β} (here : Option.Rel r first second)
    (later : Option.Rel r more moreToo) : Option.Rel r (first.or more) (second.or moreToo) := by
  cases here with
  | none => exact later
  | some related => exact .some related

theorem rel_eq {first second : Option α} : Option.Rel Eq first second ↔ first = second := by
  constructor
  · rintro (same | _)
    · rw [same]
    · rfl
  · rintro rfl
    cases first with
    | none => exact .none
    | some a => exact .some rfl

end Results

section Pieces

theorem takeWhile_respaced {accepts : Char → Bool} (level : accepts ' ' = accepts '\n')
    (same : Respaced text other) : Respaced (text.takeWhile accepts) (other.takeWhile accepts) := by
  induction same with
  | nil => exact .nil
  | @cons c d rest more first _ ih =>
    have here : accepts c = accepts d := first.level accepts level
    cases accepted : accepts c with
    | true =>
      rw [List.takeWhile_cons_of_pos accepted, List.takeWhile_cons_of_pos (here ▸ accepted)]
      exact .cons first ih
    | false =>
      rw [List.takeWhile_cons_of_neg (by simp [accepted]),
        List.takeWhile_cons_of_neg (by simp [← here, accepted])]
      exact .nil

-- Where a class takes no breaks, the characters are the same.
theorem takeWhile_unbroken {accepts : Char → Bool} (refusesSpace : accepts ' ' = false)
    (refusesLine : accepts '\n' = false) (same : Respaced text other) :
    text.takeWhile accepts = other.takeWhile accepts := by
  have taken := takeWhile_respaced (refusesSpace.trans refusesLine.symm) same
  have equal : List.Forall₂ Eq (text.takeWhile accepts) (other.takeWhile accepts) :=
    ((List.forall₂_and_left _ _).mpr ⟨fun _ => List.mem_takeWhile_imp, taken⟩).imp
      fun _ _ both => both.2.eq accepts refusesSpace refusesLine both.1
  rwa [List.forall₂_eq_eq_eq] at equal

theorem dropWhile_respaced {accepts : Char → Bool} (level : accepts ' ' = accepts '\n')
    (same : Respaced text other) : Respaced (text.dropWhile accepts) (other.dropWhile accepts) := by
  induction same with
  | nil => exact .nil
  | @cons c d rest more first later ih =>
    have here : accepts c = accepts d := first.level accepts level
    cases accepted : accepts c with
    | true =>
      rw [List.dropWhile_cons_of_pos accepted, List.dropWhile_cons_of_pos (here ▸ accepted)]
      exact ih
    | false =>
      rw [List.dropWhile_cons_of_neg (by simp [accepted]),
        List.dropWhile_cons_of_neg (by simp [← here, accepted])]
      exact .cons first later

theorem isPrefixOf_respaced {word : List Char} (unbroken : word.all (fun c => !breaks c) = true)
    (same : Respaced text other) : word.isPrefixOf text = word.isPrefixOf other := by
  induction word generalizing text other with
  | nil => rw [List.isPrefixOf_nil_left, List.isPrefixOf_nil_left]
  | cons c more ih =>
    rw [List.all_cons, Bool.and_eq_true, Bool.not_eq_true'] at unbroken
    cases same with
    | nil => rfl
    | @cons d e rest others first later =>
      have level : (c == d) = (c == e) := by
        rw [Bool.eq_iff_iff, beq_iff_eq, beq_iff_eq, eq_comm, first.eq_iff c unbroken.1, eq_comm]
      rw [List.isPrefixOf, List.isPrefixOf, ih unbroken.2 later, level]

theorem isEmpty_respaced (same : Respaced text other) : text.isEmpty = other.isEmpty := by
  cases same <;> rfl

theorem skipBlanks_respaced (same : Respaced text other) :
    Respaced (skipBlanks text) (skipBlanks other) :=
  dropWhile_respaced rfl same

theorem trim_respaced (same : Respaced text other) : Respaced (Unicode.trim text) (Unicode.trim other) := by
  have front : Respaced (text.dropWhile isBlank) (other.dropWhile isBlank) := dropWhile_respaced rfl same
  exact List.rel_reverse (dropWhile_respaced rfl (List.rel_reverse front))

end Pieces

section Readers

-- What a reader takes off the front, and what follows.
def Reads (first second : List Char × List Char) : Prop :=
  first.1 = second.1 ∧ Respaced first.2 second.2

theorem blanks?_respaced (same : Respaced text other) :
    Option.Rel Respaced (blanks? text) (blanks? other) := by
  cases same with
  | nil => exact .none
  | @cons c d rest more first later =>
    rw [blanks?, blanks?, first.level isBlank rfl]
    split
    · exact .some (skipBlanks_respaced later)
    · exact .none

theorem word?_respaced {word : String} (unbroken : word.toList.all (fun c => !breaks c) = true)
    (same : Respaced text other) : Option.Rel Respaced (word? word text) (word? word other) := by
  rw [word?, word?, isPrefixOf_respaced unbroken same]
  split
  · exact .some (List.forall₂_drop _ same)
  · exact .none

theorem pastMark?_respaced {mark : Char} (notBreak : breaks mark = false) (same : Respaced text other) :
    Option.Rel Respaced (pastMark? mark text) (pastMark? mark other) := by
  have skipped := skipBlanks_respaced same
  rw [pastMark?, pastMark?]
  generalize skipBlanks text = first at skipped
  generalize skipBlanks other = second at skipped
  cases skipped with
  | nil => exact .none
  | @cons c d rest more here later =>
    simp only [here.eq_iff mark notBreak]
    split
    · exact .some later
    · exact .none

theorem mark?_respaced {mark : Char} (notBreak : breaks mark = false) (same : Respaced text other) :
    Option.Rel Respaced (mark? mark text) (mark? mark other) := by
  rw [mark?_past, mark?_past]
  exact rel_map (pastMark?_respaced notBreak same) fun _ _ => skipBlanks_respaced

theorem label?_respaced {label : String} (unbroken : label.toList.all (fun c => !breaks c) = true)
    (same : Respaced text other) : Option.Rel Respaced (label? label text) (label? label other) :=
  rel_bind (word?_respaced unbroken same) fun _ _ => blanks?_respaced

theorem row?_respaced {accepts : Char → Bool} (refusesSpace : accepts ' ' = false)
    (refusesLine : accepts '\n' = false) (same : Respaced text other) :
    Option.Rel Reads (row? accepts text) (row? accepts other) := by
  rw [row?, row?, takeWhile_unbroken refusesSpace refusesLine same]
  split
  · exact .none
  · exact .some ⟨rfl, dropWhile_respaced (refusesSpace.trans refusesLine.symm) same⟩

theorem name?_respaced {continues : Char → Bool} (refusesSpace : continues ' ' = false)
    (refusesLine : continues '\n' = false) (same : Respaced text other) :
    Option.Rel Reads (name? continues text) (name? continues other) := by
  cases same with
  | nil => exact .none
  | @cons c d rest more first later =>
    rw [name?, name?, ← first.level beginsName rfl]
    split
    · rename_i begins
      rw [first.eq beginsName rfl rfl begins,
        takeWhile_unbroken refusesSpace refusesLine later]
      exact .some ⟨rfl, dropWhile_respaced (refusesSpace.trans refusesLine.symm) later⟩
    · exact .none

theorem typeName?_respaced (same : Respaced text other) :
    Option.Rel Reads (typeName? text) (typeName? other) := by
  by_cases dot : ∃ more, text = '.' :: more
  · obtain ⟨more, rfl⟩ := dot
    cases same with
    | @cons _ d _ others first later =>
      have dotToo : d = '.' := (first.eq_iff '.' rfl).mp rfl
      rw [dotToo, typeName?, typeName?]
      exact rel_map (name?_respaced rfl rfl later) fun _ _ reads => ⟨by rw [reads.1], reads.2⟩
  · have dotless : ∀ more, text ≠ '.' :: more := fun more same => dot ⟨more, same⟩
    have dotlessToo : ∀ more, other ≠ '.' :: more := by
      rintro more rfl
      cases same with
      | @cons c _ rest _ first later => exact dotless rest (by rw [(first.eq_iff '.' rfl).mpr rfl])
    rw [typeName?_dotless dotless, typeName?_dotless dotlessToo]
    exact name?_respaced rfl rfl same

end Readers

section Declarations

theorem packageAt?_respaced (same : Respaced text other) : packageAt? text = packageAt? other := by
  rw [packageAt?_label, packageAt?_label, ← rel_eq]
  refine rel_bind (label?_respaced (by decide) (skipBlanks_respaced same)) fun _ _ after => ?_
  refine rel_bind (name?_respaced rfl rfl after) fun _ _ reads => ?_
  exact rel_bind (mark?_respaced rfl reads.2) fun _ _ _ => .some reads.1

theorem opening?_respaced {keyword : String} (unbroken : keyword.toList.all (fun c => !breaks c) = true)
    {mark : Char} (notBreak : breaks mark = false) (same : Respaced text other) :
    Option.Rel Reads (opening? keyword mark text) (opening? keyword mark other) := by
  refine rel_bind (label?_respaced unbroken same) fun _ _ after => ?_
  refine rel_bind (row?_respaced rfl rfl after) fun _ _ reads => ?_
  exact rel_map (pastMark?_respaced notBreak reads.2) fun _ _ rest => ⟨reads.1, rest⟩

theorem header?_respaced {keyword : String} (unbroken : keyword.toList.all (fun c => !breaks c) = true)
    (same : Respaced text other) : Option.Rel Reads (header? keyword text) (header? keyword other) := by
  rw [header?_reads, header?_reads]
  refine rel_bind (opening?_respaced unbroken rfl same) fun first second reads => ?_
  rw [named?, named?, reads.1]
  split
  · exact .some reads
  · exact .none

theorem typeIn?_respaced (same : Respaced text other) :
    Option.Rel Reads (typeIn? text) (typeIn? other) := by
  have plain : ∀ {text other}, Respaced text other →
      Option.Rel Reads (plainType? text) (plainType? other) := by
    intro text other same
    refine rel_bind (row?_respaced rfl rfl same) fun _ _ reads => ?_
    exact rel_map (pastMark?_respaced rfl reads.2) fun _ _ rest => ⟨reads.1, rest⟩
  have streamed : Option.Rel Respaced (label? "stream" text) (label? "stream" other) :=
    label?_respaced (by decide) same
  exact rel_or (rel_bind streamed fun _ _ => plain) (plain same)

theorem request?_respaced (same : Respaced text other) : request? text = request? other := by
  have parameter : ∀ {text other}, Respaced text other →
      Option.Rel Reads (parameter? text) (parameter? other) := by
    intro text other same
    rw [parameter?_reads, parameter?_reads]
    exact rel_bind (mark?_respaced rfl same) fun _ _ => typeIn?_respaced
  rw [request?_reads, request?_reads, ← rel_eq]
  refine rel_bind (opening?_respaced (by decide) rfl same) fun _ _ opened => ?_
  refine rel_bind (typeIn?_respaced (skipBlanks_respaced opened.2)) fun first second reads => ?_
  refine rel_bind (word?_respaced (by decide) (skipBlanks_respaced reads.2)) fun _ _ after => ?_
  exact rel_bind (parameter after) fun _ _ _ => .some reads.1

theorem getLast?_respaced (same : Respaced text other) (mark : Char) (notBreak : breaks mark = false) :
    text.getLast? = some mark ↔ other.getLast? = some mark := by
  have backwards := List.rel_reverse same
  rw [← List.head?_reverse, ← List.head?_reverse]
  generalize text.reverse = first at backwards
  generalize other.reverse = second at backwards
  cases backwards with
  | nil => rfl
  | cons here _ => simpa using here.eq_iff mark notBreak

theorem endsField_respaced (same : Respaced text other) : endsField text = endsField other := by
  have skipped := skipBlanks_respaced same
  rw [endsField, endsField, isEmpty_respaced same]
  generalize skipBlanks text = first at skipped
  generalize skipBlanks other = second at skipped
  cases skipped with
  | nil => rfl
  | @cons c d rest more here later =>
    by_cases bracket : c = '['
    · rw [(here.eq_iff '[' rfl).mp bracket, bracket]
      simp only [getLast?_respaced later ']' rfl]
    · have bracketToo : d ≠ '[' := fun equal => bracket ((here.eq_iff '[' rfl).mpr equal)
      simp [bracket, bracketToo]

theorem fieldAfter?_respaced (repeated : Bool) (same : Respaced text other) :
    fieldAfter? repeated text = fieldAfter? repeated other := by
  rw [← rel_eq]
  refine rel_bind (typeName?_respaced same) fun _ _ typed => ?_
  refine rel_bind (blanks?_respaced typed.2) fun _ _ after => ?_
  refine rel_bind (name?_respaced rfl rfl after) fun _ _ named => ?_
  refine rel_bind (mark?_respaced rfl named.2) fun _ _ assigned => ?_
  refine rel_bind (row?_respaced rfl rfl assigned) fun first second digits => ?_
  dsimp only
  rw [endsField_respaced digits.2, typed.1, named.1, digits.1]
  exact rel_eq.mpr rfl

theorem field?_respaced (same : Respaced text other) : field? text = field? other := by
  have unlabelled : ∀ repeated {text other}, Respaced text other →
      unlabelled? repeated text = unlabelled? repeated other := by
    intro repeated text other same
    rw [unlabelled?, unlabelled?, fieldAfter?_respaced repeated same, ← rel_eq]
    refine rel_or (rel_bind (label?_respaced (by decide) same) fun _ _ after => ?_) (rel_eq.mpr rfl)
    exact rel_eq.mpr (fieldAfter?_respaced repeated after)
  rw [field?_unlabelled, field?_unlabelled, unlabelled false same, ← rel_eq]
  refine rel_or (rel_bind (label?_respaced (by decide) same) fun _ _ after => ?_) (rel_eq.mpr rfl)
  exact rel_eq.mpr (unlabelled true after)

end Declarations

section Options

variable {name value : List Char}

theorem optionText?_respaced (same : Respaced text other) :
    Option.Rel Respaced (optionText? text) (optionText? other) := by
  have rest : Respaced (text.dropWhile (· ≠ '"')) (other.dropWhile (· ≠ '"')) :=
    dropWhile_respaced rfl same
  have ends : text.dropWhile (· ≠ '"') = ['"'] ↔ other.dropWhile (· ≠ '"') = ['"'] := by
    generalize text.dropWhile (· ≠ '"') = first at rest
    generalize other.dropWhile (· ≠ '"') = second at rest
    cases rest with
    | nil => rfl
    | @cons c d more others here later => cases later <;> simp [here.eq_iff '"' rfl]
  rw [optionText?, optionText?]
  simp only [ends]
  split
  · exact .some (takeWhile_respaced rfl same)
  · exact .none

theorem optionValue?_respaced (same : Respaced text other) :
    Option.Rel Respaced (optionValue? text) (optionValue? other) := by
  rw [optionValue?_reads, optionValue?_reads]
  refine rel_bind (rel_bind (mark?_respaced rfl same) fun _ _ => mark?_respaced rfl) fun first second after => ?_
  cases after with
  | nil => exact .none
  | @cons c d rest more here later =>
    by_cases quote : c = '"'
    · rw [(here.eq_iff '"' rfl).mp quote, quote]
      exact optionText?_respaced later
    · have quoteToo : d ≠ '"' := fun equal => quote ((here.eq_iff '"' rfl).mpr equal)
      simp [assignedText?, quote, quoteToo]

theorem optionNamed?_respaced (unbroken : name.all (fun c => !breaks c) = true)
    (same : Respaced text other) : Option.Rel Respaced (optionNamed? name text) (optionNamed? name other) := by
  induction same with
  | nil => exact .none
  | @cons c d rest more here later ih =>
    have whole : Respaced (c :: rest) (d :: more) := .cons here later
    rw [optionNamed?, optionNamed?, here.level isBlank rfl, isPrefixOf_respaced unbroken whole]
    apply rel_or
    · split
      · exact ih
      · exact .none
    · split
      · exact optionValue?_respaced (List.forall₂_drop _ whole)
      · exact .none

theorem option?_respaced {name : String} (unbroken : name.toList.all (fun c => !breaks c) = true)
    (same : Respaced text other) : Option.Rel Respaced (option? name text) (option? name other) := by
  rw [option?_reads, option?_reads]
  refine rel_bind (word?_respaced (by decide) same) fun _ _ after => ?_
  have skipped := skipBlanks_respaced after
  rw [optionIn?, optionIn?]
  generalize skipBlanks _ = first at skipped
  generalize skipBlanks _ = second at skipped
  cases skipped with
  | nil => exact .none
  | @cons c d rest more here later =>
    by_cases opens : c = '('
    · rw [(here.eq_iff '(' rfl).mp opens, opens]
      exact optionNamed?_respaced unbroken later
    · have opensToo : d ≠ '(' := fun equal => opens ((here.eq_iff '(' rfl).mpr equal)
      simp [opens, opensToo]

end Options

end SigningSchema.Source
