import Mathlib.Order.Basic
import SigningSchema.Path
import SigningSchema.Proofs.Sorting

-- Paths in order: their components go first by what they are and then by name, and paths go by
-- their components. Only paths of the same components are level.

namespace SigningSchema.Path

open Sorting (Compares)

namespace Component

def rank : Component → Nat
  | root => 0
  | current => 1
  | parent => 2
  | normal _ => 3

def name : Component → String
  | normal name => name
  | _ => ""

theorem compare_eq : Component.compare = compareLex (compareOn rank) (compareOn name) := by
  funext a b
  cases a <;> cases b <;> rfl

instance : Std.TransCmp Component.compare := by
  rw [compare_eq]
  infer_instance

instance : Std.LawfulEqCmp Component.compare where
  eq_of_compare {a b} level := by
    rw [compare_eq, compareLex, Ordering.then_eq_eq, compareOn, compareOn, Nat.compare_eq_eq,
      Std.LawfulEqCmp.compare_eq_iff_eq] at level
    obtain ⟨ranks, names⟩ := level
    cases a <;> cases b <;> cases ranks <;> cases names <;> rfl

end Component

theorem compareComponents_eq : compareComponents = List.compareLex Component.compare := by
  funext as bs
  induction as generalizing bs with
  | nil => cases bs <;> rfl
  | cons a as ih =>
    cases bs with
    | nil => rfl
    | cons b bs => rw [compareComponents, List.compareLex_cons_cons, ih]

theorem notAfter_iff {a b : String} : notAfter a b = true ↔
    (List.compareLex Component.compare (components a) (components b)).isLE := by
  rw [notAfter, compareComponents_eq, decide_eq_true_iff]
  cases List.compareLex Component.compare (components a) (components b) <;> simp

theorem notAfter_compares : Compares notAfter where
  trans a b c ab bc := by
    rw [notAfter_iff] at ab bc ⊢
    exact Std.TransCmp.isLE_trans ab bc
  total a b := by
    rw [Bool.or_eq_true, notAfter_iff, notAfter_iff, ← Std.OrientedCmp.isGE_iff_isLE]
    cases List.compareLex Component.compare (components b) (components a) <;> simp

theorem components_eq_of_level {a b : String} (ab : notAfter a b = true) (ba : notAfter b a = true) :
    components a = components b := by
  rw [notAfter_iff] at ab ba
  exact Std.LawfulEqCmp.eq_of_compare (Std.OrientedCmp.isLE_antisymm ab ba)

end SigningSchema.Path
