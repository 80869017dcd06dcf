import SigningSchema.Identifier

-- Spelling in snake_case goes word by word: an underscore ends a word before it and begins one after
-- it, whatever stands around it. So names joined by underscores are spelled part by part. Spelling in
-- camelCase leaves no underscore, and a name without one is spelled already.

namespace SigningSchema

namespace Unicode

theorem ofNat_ne_underscore {n : Nat} (other : n ≠ 95) : Char.ofNat n ≠ '_' := by
  intro same
  by_cases valid : n.isValidChar
  · have code := congrArg Char.toNat same
    rw [Char.ofNat, dif_pos valid] at code
    exact other code
  · rw [Char.ofNat, dif_neg valid] at same
    cases same

-- The code points that are moved at once stay on their side of a range of ASCII.
theorem shifted_outside {shifts : List (Run × Int)} {low high n : Nat} (positive : 0 < low)
    (clear : ∀ shift ∈ shifts, (high : Int) < shift.1.low + shift.2 ∨ shift.1.high + shift.2 < (low : Int))
    (above : high < n) : ¬ (low ≤ shifted shifts n ∧ shifted shifts n ≤ high) := by
  unfold shifted
  split
  · rename_i run distance found
    have outside := clear _ (List.mem_of_find?_eq_some found)
    have inside := List.find?_some found
    simp only [Run.contains, Bool.and_eq_true, decide_eq_true_eq] at inside outside
    omega
  · omega

theorem upperShifts_clear : ∀ shift ∈ upperShifts,
    ((95 : Nat) : Int) < shift.1.low + shift.2 ∨ shift.1.high + shift.2 < ((95 : Nat) : Int) := by
  decide +kernel

theorem upperSpecial_clear : ∀ special ∈ upperSpecial, ∀ code ∈ special.2, code ≠ 95 := by
  decide +kernel

theorem shifted_ne_underscore {n : Nat} (above : 0x80 ≤ n) : shifted upperShifts n ≠ 95 := by
  have outside := shifted_outside (by decide) upperShifts_clear (Nat.lt_of_lt_of_le (by decide) above)
  omega

theorem toUpper_ascii : ∀ n < 0x80, n ≠ 95 → (Char.ofNat n).toUpper ≠ '_' := by decide

theorem underscore_notMem_toUpper {c : Char} (other : c ≠ '_') : '_' ∉ toUpper c := by
  have code : c.toNat ≠ 95 := fun same => other (Char.toNat_inj.mp same)
  unfold toUpper
  split
  · rename_i ascii
    have clear := toUpper_ascii c.toNat ascii code
    rw [Char.ofNat_toNat] at clear
    simpa using clear.symm
  · split
    · rename_i codes found
      intro inside
      obtain ⟨code, member, same⟩ := List.mem_map.mp inside
      exact ofNat_ne_underscore
        (upperSpecial_clear _ (List.mem_of_find?_eq_some found) code member) same
    · have clear := ofNat_ne_underscore (shifted_ne_underscore (n := c.toNat) (by omega))
      simpa using clear.symm

end Unicode

namespace Identifier

open Unicode (isUpper)

theorem underscore_notMem_camelChars (raise : Bool) (chars : List Char) :
    '_' ∉ camelChars raise chars := by
  induction chars generalizing raise with
  | nil => simp [camelChars]
  | cons c rest ih =>
    unfold camelChars
    split
    · exact ih true
    · rename_i other
      split
      · simp [ih, Unicode.underscore_notMem_toUpper other]
      · simp [ih, Ne.symm other]

theorem camelChars_plain {chars : List Char} (plain : '_' ∉ chars) :
    camelChars false chars = chars := by
  induction chars with
  | nil => rfl
  | cons c rest ih =>
    simp only [List.mem_cons, not_or] at plain
    obtain ⟨first, later⟩ := plain
    simp [camelChars, Ne.symm first, ih later]

theorem camelCase_camelCase (name : String) : camelCase (camelCase name) = camelCase name := by
  simp [camelCase, camelChars_plain (underscore_notMem_camelChars false name.toList)]

theorem isUpper_underscore : isUpper '_' = false := by decide

-- What follows an underscore is spelled like the beginning of a name.
theorem snakeChars_underscore (chars : List Char) :
    snakeChars (some '_') chars = snakeChars none chars := by
  cases chars with
  | nil => rfl
  | cons c rest =>
    have closed : beginsWord '_' rest.head? = false := by
      rw [beginsWord, isUpper_underscore]
      rfl
    simp only [snakeChars, Option.any_some, Option.any_none, closed]

-- An underscore ends a word just as the end of a name does.
theorem beginsWord_underscore (before : Char) :
    beginsWord before (some '_') = beginsWord before none := by
  have small : Unicode.isLower '_' = false := by decide
  simp only [beginsWord, Option.any_some, Option.any_none, small]

theorem snakeChars_append (before : Option Char) (chars more : List Char) :
    snakeChars before (chars ++ '_' :: more)
      = snakeChars before chars ++ '_' :: snakeChars none more := by
  induction chars generalizing before with
  | nil =>
    simp only [snakeChars, isUpper_underscore, Bool.false_eq_true, if_false, List.nil_append,
      snakeChars_underscore]
  | cons c rest ih =>
    have head : ∀ b, beginsWord b (rest ++ '_' :: more).head? = beginsWord b rest.head? := by
      intro b
      cases rest with
      | nil => exact beginsWord_underscore b
      | cons => rfl
    simp only [List.cons_append, snakeChars, ih, head]
    split <;> simp only [List.cons_append, List.append_assoc]

theorem snakeCase_joined (name more : String) :
    snakeCase (name ++ "_" ++ more) = snakeCase name ++ "_" ++ snakeCase more := by
  rw [← String.toList_inj]
  simp only [snakeCase, String.toList_append, String.toList_ofList, List.append_assoc]
  exact snakeChars_append none _ _

theorem reserved_plain : ∀ word ∈ reserved, '_' ∉ word.toList := by decide

theorem escapeReserved_joined (name more : String) :
    escapeReserved (name ++ "_" ++ more) = name ++ "_" ++ more := by
  refine if_neg fun inside => reserved_plain _ (List.contains_iff_mem.mp inside) ?_
  simp

end Identifier

end SigningSchema
