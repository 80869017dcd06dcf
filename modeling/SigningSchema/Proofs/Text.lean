import Mathlib.Data.List.TakeWhile
import SigningSchema.Text
import SigningSchema.Unicode.Blank

-- Texts put together from parts, and parts found again in texts; what is left of a text without the
-- blanks around it.

namespace SigningSchema

namespace Text

theorem concat_eq_join (parts : List String) : concat parts = String.join parts := by
  induction parts with
  | nil => rfl
  | cons part rest ih =>
    rw [String.join_cons, ← ih]
    cases rest with
    | nil => exact String.append_empty.symm
    | cons => exact congrArg (· ++ _) String.append_empty

theorem splitChars_of_notMem {separator : Char} {chars : List Char} (absent : separator ∉ chars) :
    splitChars separator chars = [chars] := by
  induction chars with
  | nil => rfl
  | cons c rest ih =>
    rw [List.mem_cons, not_or] at absent
    rw [splitChars, if_neg (Ne.symm absent.1), ih absent.2]

theorem mem_of_split {separator : Char} {text first second : String} {more : List String}
    (parts : split separator text = first :: second :: more) : separator ∈ text.toList := by
  refine Decidable.byContradiction fun absent => ?_
  rw [split, splitChars_of_notMem absent] at parts
  cases parts

-- Where there is a separator, the parts before it and those after it are all the parts.
theorem splitChars_append {separator : Char} (before after : List Char) :
    splitChars separator (before ++ separator :: after)
      = splitChars separator before ++ splitChars separator after := by
  induction before with
  | nil => simp [splitChars]
  | cons c rest ih =>
    rw [List.cons_append, splitChars, splitChars, ih]
    by_cases same : c = separator
    · simp [same]
    · cases parts : splitChars separator rest with
      | nil =>
        cases rest <;> simp only [splitChars] at parts
        · cases parts
        · split at parts
          · cases parts
          · split at parts <;> cases parts
      | cons first more => simp [same]

theorem split_append {separator : Char} {mark : String} (single : mark.toList = [separator])
    (before after : String) :
    split separator (before ++ mark ++ after) = split separator before ++ split separator after := by
  have chars : (before ++ mark ++ after).toList = before.toList ++ separator :: after.toList := by
    simp [String.toList_append, single]
  rw [split, chars, splitChars_append, List.map_append]
  rfl

theorem split_of_notMem {separator : Char} {text : String} (absent : separator ∉ text.toList) :
    split separator text = [text] := by
  rw [split, splitChars_of_notMem absent, List.map_singleton, String.ofList_toList]

theorem splitChars_ne_nil (separator : Char) (chars : List Char) : splitChars separator chars ≠ [] := by
  cases chars with
  | nil => exact List.cons_ne_nil _ _
  | cons c rest =>
    rw [splitChars]
    split
    · exact List.cons_ne_nil _ _
    · split <;> exact List.cons_ne_nil _ _

theorem split_ne_nil (separator : Char) (text : String) : split separator text ≠ [] :=
  fun nothing => splitChars_ne_nil separator _ (List.map_eq_nil_iff.mp nothing)

-- Parts have the characters of the text, without the separator.
theorem mem_splitChars {separator : Char} {chars part : List Char}
    (member : part ∈ splitChars separator chars) : ∀ c ∈ part, c ∈ chars ∧ c ≠ separator := by
  induction chars generalizing part with
  | nil =>
    obtain rfl := List.mem_singleton.mp member
    exact fun c none => absurd none List.not_mem_nil
  | cons d rest ih =>
    have later : ∀ {part}, part ∈ splitChars separator rest →
        ∀ c ∈ part, c ∈ d :: rest ∧ c ≠ separator := fun listed c inside =>
      (ih listed c inside).imp_left (List.mem_cons_of_mem d)
    obtain ⟨first, more, parts⟩ := List.exists_cons_of_ne_nil (splitChars_ne_nil separator rest)
    rw [parts] at later
    rw [splitChars, parts] at member
    split at member
    · rcases List.mem_cons.mp member with rfl | listed
      · exact fun c none => absurd none List.not_mem_nil
      · exact later listed
    · rename_i other
      rcases List.mem_cons.mp member with rfl | listed
      · exact List.forall_mem_cons.mpr ⟨⟨List.mem_cons_self, other⟩, later List.mem_cons_self⟩
      · exact later (List.mem_cons_of_mem _ listed)

theorem mem_split {separator : Char} {text part : String} (member : part ∈ split separator text) :
    ∀ c ∈ part.toList, c ∈ text.toList ∧ c ≠ separator := by
  obtain ⟨chars, listed, rfl⟩ := List.mem_map.mp member
  rw [String.toList_ofList]
  exact mem_splitChars listed

theorem lastPart_mem (separator : Char) (text : String) :
    lastPart separator text ∈ split separator text := by
  have given := split_ne_nil separator text
  rw [lastPart, List.getLast?_eq_some_getLast given, Option.getD_some]
  exact List.getLast_mem given

-- A text that holds a separator has a first part.
theorem exists_first_part {separator : Char} {text : String} (mark : String)
    (single : mark.toList = [separator]) (inside : separator ∈ text.toList) :
    ∃ before after, text = before ++ mark ++ after ∧ separator ∉ before.toList := by
  obtain ⟨before, after, chars, absent⟩ := List.eq_append_cons_of_mem inside
  refine ⟨String.ofList before, String.ofList after, ?_, by rwa [String.toList_ofList]⟩
  rw [← String.toList_inj]
  simp [String.toList_append, single, chars]

theorem dropBeginning?_iff {beginning text rest : String} :
    dropBeginning? beginning text = some rest ↔ text = beginning ++ rest := by
  rw [dropBeginning?, ← String.toList_inj, String.toList_append]
  constructor
  · intro dropped
    split at dropped
    · rename_i starts
      obtain ⟨tail, same⟩ := List.isPrefixOf_iff_prefix.mp starts
      cases dropped
      rw [← same, List.drop_left, String.toList_ofList]
    · cases dropped
  · intro same
    have starts : beginning.toList.isPrefixOf text.toList = true :=
      List.isPrefixOf_iff_prefix.mpr ⟨rest.toList, same.symm⟩
    rw [if_pos starts, same, List.drop_left, String.ofList_toList]

-- A text without underscores is all that stands before the first one.
theorem head_of_joined {first second more others : String} (plain : '_' ∉ first.toList)
    (plainToo : '_' ∉ second.toList) (same : first ++ "_" ++ more = second ++ "_" ++ others) :
    first = second := by
  have before : ∀ {chars rest : List Char}, '_' ∉ chars →
      (chars ++ '_' :: rest).takeWhile (· ≠ '_') = chars := by
    intro chars rest absent
    rw [List.takeWhile_append_of_pos fun c inside => by
      simpa using fun equal : c = '_' => absent (equal ▸ inside)]
    simp
  rw [← String.toList_inj] at same ⊢
  simp only [String.toList_append, List.append_assoc] at same
  rw [← before plain, ← before plainToo]
  exact congrArg _ same

def Within (part text : String) : Prop := ∃ before after, text = before ++ part ++ after

namespace Within

variable {part text : String}

theorem refl (text : String) : Within text text :=
  ⟨"", "", by rw [String.empty_append, String.append_empty]⟩

theorem empty (text : String) : Within "" text :=
  ⟨text, "", by rw [String.append_empty, String.append_empty]⟩

theorem after (before : String) (within : Within part text) : Within part (before ++ text) := by
  obtain ⟨front, back, rfl⟩ := within
  exact ⟨before ++ front, back, by simp only [String.append_assoc]⟩

theorem before (within : Within part text) (after : String) : Within part (text ++ after) := by
  obtain ⟨front, back, rfl⟩ := within
  exact ⟨front, back ++ after, by simp only [String.append_assoc]⟩

theorem joined (front part more : String) : Within (part ++ more) (front ++ part ++ more) :=
  ⟨front, "", by rw [String.append_empty, String.append_assoc]⟩

theorem concat {parts : List String} (member : text ∈ parts) (within : Within part text) :
    Within part (Text.concat parts) := by
  rw [concat_eq_join]
  induction parts with
  | nil => cases member
  | cons first rest ih =>
    rw [String.join_cons]
    rcases List.mem_cons.mp member with rfl | later
    · exact within.before _
    · exact (ih later).after _

end Within

end Text

namespace Unicode

variable {before core after : List Char}

theorem dropWhile_reverse_append (blank : ∀ c ∈ after, isBlank c = true)
    (ends : ∀ c ∈ core.getLast?, isBlank c = false) :
    ((core ++ after).reverse.dropWhile isBlank).reverse = core := by
  have reversed : ∀ c ∈ after.reverse, isBlank c = true :=
    fun c inside => blank c (List.mem_reverse.mp inside)
  rw [List.reverse_append, List.dropWhile_append_of_pos reversed]
  cases backwards : core.reverse with
  | nil => rw [List.reverse_eq_nil_iff.mp backwards]; rfl
  | cons c rest =>
    have last : core.getLast? = some c := by
      rw [← List.head?_reverse, backwards]
      rfl
    rw [List.dropWhile_cons_of_neg (by simp [ends c (by simp [last])]), ← backwards, List.reverse_reverse]

-- What is trimmed off is blank, and what is not stays.
theorem trim_split (text : List Char) : ∃ before after, text = before ++ (trim text ++ after) ∧
    (∀ c ∈ before, isBlank c = true) ∧ ∀ c ∈ after, isBlank c = true := by
  refine ⟨text.takeWhile isBlank, ((text.dropWhile isBlank).reverse.takeWhile isBlank).reverse, ?_,
    fun c inside => List.mem_takeWhile_imp inside,
    fun c inside => List.mem_takeWhile_imp (List.mem_reverse.mp inside)⟩
  rw [trim, ← List.reverse_append, List.takeWhile_append_dropWhile, List.reverse_reverse,
    List.takeWhile_append_dropWhile]

theorem trim_between (blank : ∀ c ∈ before, isBlank c = true) (blankToo : ∀ c ∈ after, isBlank c = true)
    (given : core ≠ []) (solid : ∀ c ∈ core, isBlank c = false) :
    trim (before ++ (core ++ after)) = core := by
  obtain ⟨c, rest, rfl⟩ := List.exists_cons_of_ne_nil given
  have front : (before ++ (c :: rest ++ after)).dropWhile isBlank = c :: rest ++ after := by
    rw [List.dropWhile_append_of_pos blank]
    simp [solid c List.mem_cons_self]
  rw [trim, front]
  exact dropWhile_reverse_append blankToo fun d last => solid d (List.mem_of_getLast? last)

end Unicode

end SigningSchema
