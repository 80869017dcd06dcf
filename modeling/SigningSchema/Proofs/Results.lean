import Mathlib.Data.List.Forall2
import Mathlib.Data.List.Perm.Basic

-- Steps that may fail: what is known of the parts where the whole succeeded.

namespace SigningSchema

theorem map_ok {f : α → β} {result : Except ε α} {value : β} (mapped : result.map f = .ok value) :
    ∃ given, result = .ok given ∧ f given = value := by
  cases result with
  | error error => cases mapped
  | ok given => exact ⟨given, rfl, Except.ok.inj mapped⟩

theorem bind_ok {next : α → Except ε β} {result : Except ε α} {value : β}
    (ran : result >>= next = .ok value) : ∃ given, result = .ok given ∧ next given = .ok value := by
  cases result with
  | error error => cases ran
  | ok given => exact ⟨given, rfl, ran⟩

theorem mapM_ok {f : α → Except ε β} {items : List α} {results : List β}
    (ran : items.mapM f = .ok results) :
    List.Forall₂ (fun item result => f item = .ok result) items results := by
  induction items generalizing results with
  | nil =>
    cases ran
    exact .nil
  | cons item rest ih =>
    rw [List.mapM_cons] at ran
    obtain ⟨first, made, more⟩ := bind_ok ran
    obtain ⟨others, later, last⟩ := bind_ok more
    cases last
    exact .cons made (ih later)

theorem mapM_of_ok {f : α → Except ε β} {items : List α}
    (each : ∀ item ∈ items, ∃ result, f item = .ok result) : ∃ results, items.mapM f = .ok results := by
  induction items with
  | nil => exact ⟨[], rfl⟩
  | cons item rest ih =>
    obtain ⟨first, made⟩ := each item List.mem_cons_self
    obtain ⟨others, later⟩ := ih fun other member => each other (List.mem_cons_of_mem _ member)
    refine ⟨first :: others, ?_⟩
    rw [List.mapM_cons, made, later]
    rfl

theorem mapM_error {f : α → Except ε β} {items : List α} {error : ε} (ran : items.mapM f = .error error) :
    ∃ item ∈ items, f item = .error error := by
  induction items with
  | nil => cases ran
  | cons item rest ih =>
    rw [List.mapM_cons] at ran
    cases made : f item with
    | error cause =>
      rw [made] at ran
      cases ran
      exact ⟨item, List.mem_cons_self, made⟩
    | ok first =>
      rw [made] at ran
      cases later : rest.mapM f with
      | error cause =>
        rw [later] at ran
        cases ran
        obtain ⟨other, inside, failed⟩ := ih later
        exact ⟨other, List.mem_cons_of_mem _ inside, failed⟩
      | ok others =>
        rw [later] at ran
        cases ran

-- What gives the same results item by item gives them for the list.
theorem mapM_ok_congr {f g : α → Except ε β} {items : List α} {results : List β}
    (ran : items.mapM f = .ok results)
    (each : ∀ item ∈ items, ∀ result, f item = .ok result → g item = .ok result) :
    items.mapM g = .ok results := by
  induction items generalizing results with
  | nil => exact ran
  | cons item rest ih =>
    rw [List.mapM_cons] at ran
    obtain ⟨first, made, more⟩ := bind_ok ran
    obtain ⟨others, later, last⟩ := bind_ok more
    cases last
    rw [List.mapM_cons, each item List.mem_cons_self first made,
      ih later fun other member => each other (List.mem_cons_of_mem _ member)]
    rfl

theorem exists_of_forall₂ {related : α → β → Prop} {items : List α} {others : List β}
    (each : List.Forall₂ related items others) {item : α} (member : item ∈ items) :
    ∃ other ∈ others, related item other := by
  induction each with
  | nil => cases member
  | cons first _ ih =>
    rcases List.mem_cons.mp member with rfl | later
    · exact ⟨_, List.mem_cons_self, first⟩
    · obtain ⟨other, inside, relates⟩ := ih later
      exact ⟨other, List.mem_cons_of_mem _ inside, relates⟩

theorem forall₂_with_mem {related : α → β → Prop} {items : List α} {others : List β}
    (each : List.Forall₂ related items others) :
    List.Forall₂ (fun item other => item ∈ items ∧ related item other) items others := by
  obtain ⟨lengths, pairs⟩ := List.forall₂_iff_zip.mp each
  exact List.forall₂_iff_zip.mpr ⟨lengths, fun inside => ⟨(List.of_mem_zip inside).1, pairs inside⟩⟩

theorem forall₂_of_common {related : α → β → Prop} {relatedToo : α → γ → Prop} {items : List α}
    {results : List β} {others : List γ} (one : List.Forall₂ related items results)
    (other : List.Forall₂ relatedToo items others) :
    List.Forall₂ (fun result other => ∃ item ∈ items, related item result ∧ relatedToo item other)
      results others := by
  induction one generalizing others with
  | nil =>
    cases other
    exact .nil
  | cons first _ ih =>
    cases other with
    | cons firstToo rest =>
      refine .cons ⟨_, List.mem_cons_self, first, firstToo⟩ ((ih rest).imp ?_)
      rintro result other ⟨item, inside, both⟩
      exact ⟨item, List.mem_cons_of_mem _ inside, both⟩

theorem attach_map_val (items : List α) (f : α → β) :
    (items.attach.map fun item => f item.1) = items.map f := by
  show items.attach.map (f ∘ Subtype.val) = _
  rw [← List.map_map, List.attach_map_subtype_val]

-- Two lists of names that agree place by place are one list.
theorem map_eq_of_forall₂ {f : α → γ} {g : β → γ} {items : List α} {others : List β}
    (each : List.Forall₂ (fun item other => f item = g other) items others) :
    items.map f = others.map g := by
  rw [← List.forall₂_eq_eq_eq, List.forall₂_map_left_iff, List.forall₂_map_right_iff]
  exact each

-- Steps that do not depend on each other can be taken in any order.
theorem mapM_perm {f : α → Except ε β} {items others : List α} {results : List β}
    (perm : items.Perm others) (ran : items.mapM f = .ok results) :
    ∃ results', others.mapM f = .ok results' ∧ results.Perm results' := by
  have each := mapM_ok ran
  obtain ⟨results', ranToo⟩ := mapM_of_ok (f := f) fun item member => by
    obtain ⟨result, _, made⟩ := exists_of_forall₂ each (perm.symm.subset member)
    exact ⟨result, made⟩
  have one : items.map f = results.map Except.ok := map_eq_of_forall₂ each
  have other : others.map f = results'.map Except.ok := map_eq_of_forall₂ (mapM_ok ranToo)
  have same := perm.map f
  rw [one, other] at same
  exact ⟨results', ranToo, (List.map_perm_map_iff (fun _ _ => Except.ok.inj)).mp same⟩

end SigningSchema
