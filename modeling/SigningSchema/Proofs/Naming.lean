import Mathlib.Data.List.Nodup

-- Names for items of several kinds: an item that is alone of its kind is named plainly, and those that
-- share a kind are qualified. Only items of one kind are compared, so clashes across kinds are left.

namespace SigningSchema

-- An item is found by its key, whatever else has been listed, exactly where keys are not repeated.
theorem find?_key_iff [DecidableEq β] {items : List α} (distinct : items.Nodup) (key : α → β) :
    (∀ item ∈ items, items.find? (fun other => key other = key item) = some item) ↔
      (items.map key).Nodup := by
  rw [List.nodup_map_iff_inj_on distinct]
  constructor
  · intro found item inside other insideToo same
    have first := found item inside
    rw [same, found other insideToo] at first
    exact (Option.some.inj first).symm
  · intro injective item inside
    cases found : items.find? (fun other => key other = key item) with
    | none => exact absurd (decide_eq_true rfl) (List.find?_eq_none.mp found item inside)
    | some other =>
      have same : key other = key item := by simpa using List.find?_some found
      rw [injective other (List.mem_of_find?_eq_some found) item inside same]

-- Where keys are not repeated there is one item for each.
theorem filter_key_eq [DecidableEq β] {items : List α} {key : α → β} (distinct : (items.map key).Nodup)
    {item : α} (member : item ∈ items) : items.filter (fun other => key other = key item) = [item] := by
  have apart : (items.filter fun other => key other = key item).Nodup :=
    (List.Nodup.of_map key distinct).filter _
  refine List.perm_singleton.mp ((List.perm_ext_iff_of_nodup apart (List.nodup_singleton item)).mpr ?_)
  intro other
  rw [List.mem_filter, List.mem_singleton, decide_eq_true_iff]
  constructor
  · rintro ⟨inside, same⟩
    exact List.inj_on_of_nodup_map distinct inside member same
  · rintro rfl
    exact ⟨member, rfl⟩

structure Naming (α κ ν : Type) where
  kind : α → κ
  plain : α → ν
  qualified : α → ν

namespace Naming

variable {α κ ν : Type} [DecidableEq κ] {naming : Naming α κ ν} {items : List α} {one other : α}

def alike (naming : Naming α κ ν) (items : List α) (item : α) : List α :=
  items.filter fun other => naming.kind other = naming.kind item

def IsAlone (naming : Naming α κ ν) (items : List α) (item : α) : Prop :=
  (naming.alike items item).length ≤ 1

instance : Decidable (naming.IsAlone items one) := inferInstanceAs (Decidable (_ ≤ _))

def name (naming : Naming α κ ν) (items : List α) (item : α) : ν :=
  if naming.IsAlone items item then naming.plain item else naming.qualified item

-- All the ways for two items to be given one name.
inductive Clash (naming : Naming α κ ν) (items : List α) (one other : α) : Prop where
  | sameKind (shared : naming.kind one = naming.kind other)
      (same : naming.qualified one = naming.qualified other)
  | plain (apart : naming.kind one ≠ naming.kind other)
      (alone : naming.IsAlone items one) (aloneToo : naming.IsAlone items other)
      (same : naming.plain one = naming.plain other)
  | mixed (apart : naming.kind one ≠ naming.kind other)
      (alone : naming.IsAlone items one) (shared : ¬ naming.IsAlone items other)
      (same : naming.plain one = naming.qualified other)
  | qualified (apart : naming.kind one ≠ naming.kind other)
      (shared : ¬ naming.IsAlone items one) (sharedToo : ¬ naming.IsAlone items other)
      (same : naming.qualified one = naming.qualified other)

-- No item clashes with another.
def Free (naming : Naming α κ ν) (items : List α) : Prop :=
  ∀ one ∈ items, ∀ other ∈ items, one ≠ other → ¬ naming.Clash items one other

theorem mem_alike : other ∈ naming.alike items one ↔ other ∈ items ∧ naming.kind other = naming.kind one := by
  rw [alike, List.mem_filter, decide_eq_true_iff]

theorem not_alone (shared : naming.kind one = naming.kind other) (member : one ∈ items)
    (memberToo : other ∈ items) (differ : one ≠ other) :
    ¬ naming.IsAlone items one ∧ ¬ naming.IsAlone items other := by
  have same : naming.alike items other = naming.alike items one := by rw [alike, alike, shared]
  have shown : ¬ naming.IsAlone items one := by
    intro alone
    have inside : one ∈ naming.alike items one := mem_alike.mpr ⟨member, rfl⟩
    have insideToo : other ∈ naming.alike items one := mem_alike.mpr ⟨memberToo, shared.symm⟩
    obtain ⟨only, single⟩ := List.length_eq_one_iff.mp
      (Nat.le_antisymm alone (List.length_pos_of_mem inside))
    rw [single, List.mem_singleton] at inside insideToo
    exact differ (inside.trans insideToo.symm)
  exact ⟨shown, by rwa [IsAlone, same]⟩

theorem Clash.same_name (clash : naming.Clash items one other) (member : one ∈ items)
    (memberToo : other ∈ items) (differ : one ≠ other) :
    naming.name items one = naming.name items other := by
  unfold name
  cases clash with
  | sameKind shared same =>
    obtain ⟨own, ownToo⟩ := not_alone shared member memberToo differ
    rw [if_neg own, if_neg ownToo, same]
  | plain apart alone aloneToo same => rw [if_pos alone, if_pos aloneToo, same]
  | mixed apart alone shared same => rw [if_pos alone, if_neg shared, same]
  | qualified apart shared sharedToo same => rw [if_neg shared, if_neg sharedToo, same]

-- The cases are those of who is alone of its kind.
theorem clash_of_same_name (member : one ∈ items) (memberToo : other ∈ items) (differ : one ≠ other)
    (same : naming.name items one = naming.name items other) :
    naming.Clash items one other ∨ naming.Clash items other one := by
  unfold name at same
  by_cases shared : naming.kind one = naming.kind other
  · obtain ⟨own, ownToo⟩ := not_alone shared member memberToo differ
    rw [if_neg own, if_neg ownToo] at same
    exact .inl (.sameKind shared same)
  · by_cases alone : naming.IsAlone items one <;> by_cases aloneToo : naming.IsAlone items other
    · rw [if_pos alone, if_pos aloneToo] at same
      exact .inl (.plain shared alone aloneToo same)
    · rw [if_pos alone, if_neg aloneToo] at same
      exact .inl (.mixed shared alone aloneToo same)
    · rw [if_neg alone, if_pos aloneToo] at same
      exact .inr (.mixed (Ne.symm shared) aloneToo alone same.symm)
    · rw [if_neg alone, if_neg aloneToo] at same
      exact .inl (.qualified shared alone aloneToo same)

-- Items have names of their own exactly where none of them clash.
theorem nodup_iff (naming : Naming α κ ν) (distinct : items.Nodup) :
    (items.map (naming.name items)).Nodup ↔ naming.Free items := by
  rw [List.nodup_map_iff_inj_on distinct]
  constructor
  · intro injective one member other memberToo differ clash
    exact differ (injective one member other memberToo
      (clash.same_name member memberToo differ))
  · intro free one member other memberToo same
    by_contra differ
    rcases clash_of_same_name member memberToo differ same with clash | clash
    · exact free one member other memberToo differ clash
    · exact free other memberToo one member (Ne.symm differ) clash

end Naming

end SigningSchema
