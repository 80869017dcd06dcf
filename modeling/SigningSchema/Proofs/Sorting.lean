import Mathlib.Data.List.Perm.Basic

-- Sorting keeps the order of items that are level. A sorted list is determined by its levels, so
-- leaving items out before the sort or after it makes no difference.

namespace SigningSchema.Sorting

def level (le : α → α → Bool) (a b : α) : Bool := le a b && le b a

-- An order that any two items can be compared in, though different items may be level.
structure Compares (le : α → α → Bool) : Prop where
  trans : ∀ a b c, le a b = true → le b c = true → le a c = true
  total : ∀ a b, (le a b || le b a) = true

variable {le : α → α → Bool}

theorem Compares.refl (compares : Compares le) (a : α) : le a a = true := by
  simpa using compares.total a a

theorem Compares.sorted (compares : Compares le) (items : List α) :
    (items.mergeSort le).Pairwise fun a b => le a b = true :=
  List.pairwise_mergeSort compares.trans compares.total items

theorem Compares.comap (compares : Compares le) (f : β → α) : Compares fun a b => le (f a) (f b) :=
  ⟨fun a b c => compares.trans (f a) (f b) (f c), fun a b => compares.total (f a) (f b)⟩

theorem filter_level_mergeSort (compares : Compares le) (a : α) (items : List α) :
    (items.mergeSort le).filter (level le a) = items.filter (level le a) := by
  -- Level items are in order among themselves, so the sort keeps them as they stood.
  have inOrder : (items.filter (level le a)).Pairwise fun b c => le b c = true := by
    refine List.pairwise_of_forall_mem_list fun b inB c inC => ?_
    have levelB := (Bool.and_eq_true_iff.mp (List.mem_filter.mp inB).2).2
    have levelC := (Bool.and_eq_true_iff.mp (List.mem_filter.mp inC).2).1
    exact compares.trans b a c levelB levelC
  have kept := (List.sublist_mergeSort compares.trans compares.total inOrder
    List.filter_sublist).filter (level le a)
  rw [List.filter_filter] at kept
  simp only [Bool.and_self] at kept
  have length := ((List.mergeSort_perm items le).filter (level le a)).length_eq
  exact (kept.eq_of_length length.symm).symm

theorem mem_of_levels (compares : Compares le) {first second : List α}
    (same : ∀ a, first.filter (level le a) = second.filter (level le a)) {a : α} (member : a ∈ first) :
    a ∈ second := by
  have itself : level le a a = true := Bool.and_eq_true_iff.mpr ⟨compares.refl a, compares.refl a⟩
  have inside := List.mem_filter.mpr ⟨member, itself⟩
  rw [same] at inside
  exact List.mem_of_mem_filter inside

-- The first item of one list is level with the first of the other, for each of them comes somewhere
-- in the other list too.
theorem eq_of_levels (compares : Compares le) {first second : List α}
    (sorted : first.Pairwise fun a b => le a b = true)
    (sortedToo : second.Pairwise fun a b => le a b = true)
    (same : ∀ a, first.filter (level le a) = second.filter (level le a)) : first = second := by
  induction first generalizing second with
  | nil =>
    refine (List.eq_nil_iff_forall_not_mem.mpr fun a member => ?_).symm
    exact List.not_mem_nil (mem_of_levels compares (fun b => (same b).symm) member)
  | cons a rest ih =>
    have inSecond := mem_of_levels compares same List.mem_cons_self
    cases second with
    | nil => cases inSecond
    | cons b others =>
      have inFirst : b ∈ a :: rest := mem_of_levels compares (fun c => (same c).symm) List.mem_cons_self
      have below : le a b = true := by
        rcases List.mem_cons.mp inFirst with rfl | later
        · exact compares.refl b
        · exact (List.pairwise_cons.mp sorted).1 b later
      have above : le b a = true := by
        rcases List.mem_cons.mp inSecond with rfl | later
        · exact compares.refl a
        · exact (List.pairwise_cons.mp sortedToo).1 a later
      have heads := same a
      rw [List.filter_cons_of_pos (by simp [level, compares.refl]),
        List.filter_cons_of_pos (by simp [level, below, above])] at heads
      obtain ⟨rfl, _⟩ := List.cons.inj heads
      congr 1
      refine ih (List.pairwise_cons.mp sorted).2 (List.pairwise_cons.mp sortedToo).2 fun c => ?_
      have tails := same c
      rw [List.filter_cons, List.filter_cons] at tails
      split at tails
      · exact (List.cons.inj tails).2
      · exact tails

theorem filter_mergeSort (compares : Compares le) (keep : α → Bool) (items : List α) :
    (items.mergeSort le).filter keep = (items.filter keep).mergeSort le := by
  refine eq_of_levels compares ((compares.sorted items).filter _) (compares.sorted _) fun a => ?_
  rw [filter_level_mergeSort compares, List.filter_filter, List.filter_filter]
  simp only [Bool.and_comm]
  rw [← List.filter_filter, filter_level_mergeSort compares, List.filter_filter]

end SigningSchema.Sorting
