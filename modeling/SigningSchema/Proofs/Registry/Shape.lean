import Mathlib.Data.String.Basic
import SigningSchema.Proofs.Corpus.Reachability
import SigningSchema.Proofs.Sorting
import SigningSchema.Registry.Derivation

-- The order of signed members, and the shapes that messages sign as.

namespace SigningSchema

namespace Shape

-- The members of a structure in descending order of their names; members of one name stay as they
-- stood.
structure Ordered (fields shape : Shape) : Prop where
  descending : shape.Pairwise fun a b => b.name ≤ a.name
  stable : ∀ name, shape.filter (·.name = name) = fields.filter (·.name = name)

def notBelow (a b : SigningField) : Bool := !decide (a.name < b.name)

theorem notBelow_iff {a b : SigningField} : notBelow a b = true ↔ b.name ≤ a.name := by
  rw [notBelow, Bool.not_eq_true', decide_eq_false_iff_not, not_lt]

theorem notBelow_compares : Sorting.Compares notBelow where
  trans a b c ab bc := by
    rw [notBelow_iff] at ab bc ⊢
    exact le_trans bc ab
  total a b := by
    rw [Bool.or_eq_true, notBelow_iff, notBelow_iff]
    exact le_total b.name a.name

theorem level_notBelow (a : SigningField) :
    Sorting.level notBelow a = fun b => decide (b.name = a.name) := by
  funext b
  rw [Bool.eq_iff_iff, Sorting.level, Bool.and_eq_true, notBelow_iff, notBelow_iff, decide_eq_true_iff]
  exact ⟨fun both => le_antisymm both.1 both.2, fun same => ⟨same.le, same.ge⟩⟩

theorem canonical_ordered (fields : Shape) : fields.Ordered fields.canonical where
  descending := (notBelow_compares.sorted fields).imp notBelow_iff.mp
  stable name := by
    have kept := Sorting.filter_level_mergeSort notBelow_compares ⟨name, ""⟩ fields
    rwa [level_notBelow] at kept

theorem Ordered.unique {fields first second : Shape} (one : fields.Ordered first)
    (other : fields.Ordered second) : first = second := by
  refine Sorting.eq_of_levels notBelow_compares (one.descending.imp notBelow_iff.mpr)
    (other.descending.imp notBelow_iff.mpr) fun field => ?_
  rw [level_notBelow]
  exact (one.stable field.name).trans (other.stable field.name).symm

end Shape

namespace Corpus

variable {corpus : Corpus} {message : String} {fields : List ResolvedField}

def HasMember (corpus : Corpus) (message name : String) (type : TypeClass) : Prop :=
  ∃ fields, corpus.resolvedFields message = .ok fields ∧
    ∃ field ∈ fields, field.camelName = name ∧ field.type = type

def signingField (field : ResolvedField) : SigningField :=
  ⟨field.camelName, Expansion.typeText field⟩

def SignsAs (corpus : Corpus) (message : String) (shape : Shape) : Prop :=
  ∃ fields, corpus.resolvedFields message = .ok fields ∧ Shape.Ordered (fields.map signingField) shape

theorem HasMember.refers {name target : String}
    (member : corpus.HasMember message name (.message target)) : corpus.Refers message target := by
  obtain ⟨fields, resolved, field, declared, _, type⟩ := member
  exact ⟨fields, resolved, field, declared, type⟩

theorem signsAs_canonical (resolved : corpus.resolvedFields message = .ok fields) :
    corpus.SignsAs message (Shape.canonical (fields.map signingField)) :=
  ⟨fields, resolved, Shape.canonical_ordered _⟩

theorem SignsAs.unique {first second : Shape} (one : corpus.SignsAs message first)
    (other : corpus.SignsAs message second) : first = second := by
  obtain ⟨fields, resolved, ordered⟩ := one
  obtain ⟨again, resolvedAgain, orderedAgain⟩ := other
  rw [resolved] at resolvedAgain
  cases resolvedAgain
  exact ordered.unique orderedAgain

end Corpus

end SigningSchema
