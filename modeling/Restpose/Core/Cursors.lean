import Mathlib

/-!
# Merging sorted lists of numbers

Several cursors stand in strictly increasing lists of positive numbers.  The
merge takes the least number under a cursor and moves every cursor that stands
at it, so that each number of the lists comes up exactly once.  Zero stands for
the end of all lists.
-/

namespace Restpose.Cursors

open List

/-- One step of the search for the least number under a cursor. -/
def lower (next : ℕ) : List ℕ → ℕ
  | [] => next
  | first :: _ => if next = 0 ∨ first < next then first else next

/-- The least number under a cursor, or 0 if all cursors are at the end. -/
def least (cursors : List (List ℕ)) : ℕ :=
  cursors.foldl lower 0

/-- Move a cursor that stands at a number. -/
def advance (value : ℕ) : List ℕ → List ℕ
  | [] => []
  | first :: rest => if first = value then rest else first :: rest

/-- What the merge needs of its lists. -/
structure Increasing (cursors : List (List ℕ)) : Prop where
  pairwise : ∀ cursor ∈ cursors, cursor.Pairwise (· < ·)
  positive : ∀ value ∈ cursors.flatten, 0 < value

theorem foldl_lower_mem (cursors : List (List ℕ)) (next : ℕ) :
    cursors.foldl lower next = next ∨
      cursors.foldl lower next ∈ cursors.flatten := by
  induction cursors generalizing next with
  | nil => exact Or.inl rfl
  | cons cursor cursors ih =>
    have hlower : lower next cursor = next ∨ lower next cursor ∈ cursor := by
      cases cursor with
      | nil => exact Or.inl rfl
      | cons first rest =>
        rw [lower]
        split
        · exact Or.inr (mem_cons_self ..)
        · exact Or.inl rfl
    rw [foldl_cons, flatten_cons, mem_append]
    rcases ih (lower next cursor) with heq | hmem
    · rw [heq]
      exact hlower.imp_right Or.inl
    · exact Or.inr (Or.inr hmem)

theorem Increasing.cons {cursor : List ℕ} {cursors : List (List ℕ)}
    (hincreasing : Increasing (cursor :: cursors)) : Increasing cursors where
  pairwise := fun other hother =>
    hincreasing.pairwise other (mem_cons_of_mem _ hother)
  positive := fun value hvalue =>
    hincreasing.positive value (by simp [mem_flatten.mp hvalue])

/-- The search goes down from any number and below all numbers of the lists,
and never comes back to zero. -/
theorem Increasing.foldl_lower_le {cursors : List (List ℕ)}
    (hincreasing : Increasing cursors) (next : ℕ) :
    (next ≠ 0 → cursors.foldl lower next ≠ 0 ∧ cursors.foldl lower next ≤ next) ∧
      ∀ value ∈ cursors.flatten, cursors.foldl lower next ≠ 0 ∧
        cursors.foldl lower next ≤ value := by
  induction cursors generalizing next with
  | nil => simp
  | cons cursor cursors ih =>
    obtain ⟨hdown, hbelow⟩ := ih hincreasing.cons (lower next cursor)
    rw [foldl_cons]
    have hfirst : (next ≠ 0 → lower next cursor ≠ 0 ∧ lower next cursor ≤ next) ∧
        ∀ value ∈ cursor, lower next cursor ≠ 0 ∧ lower next cursor ≤ value := by
      cases cursor with
      | nil => simp [lower]
      | cons first rest =>
        have hpositive : 0 < first := hincreasing.positive first (by simp)
        have hleast : ∀ value ∈ first :: rest, first ≤ value := by
          intro value hvalue
          have hsorted := hincreasing.pairwise (first :: rest) (by simp)
          rcases mem_cons.mp hvalue with rfl | hvalue
          · exact le_refl _
          · exact ((pairwise_cons.mp hsorted).1 value hvalue).le
        rw [lower]
        split
        next hlower =>
          refine ⟨fun hnext => ⟨hpositive.ne', by omega⟩, ?_⟩
          exact fun value hvalue => ⟨hpositive.ne', hleast value hvalue⟩
        next hlower =>
          rw [not_or, not_lt] at hlower
          refine ⟨fun hnext => ⟨hnext, le_refl _⟩, ?_⟩
          exact fun value hvalue =>
            ⟨hlower.1, hlower.2.trans (hleast value hvalue)⟩
    constructor
    · intro hnext
      obtain ⟨hne, hle⟩ := hfirst.1 hnext
      exact ⟨(hdown hne).1, (hdown hne).2.trans hle⟩
    · intro value hvalue
      rw [flatten_cons, mem_append] at hvalue
      rcases hvalue with hvalue | hvalue
      · obtain ⟨hne, hle⟩ := hfirst.2 value hvalue
        exact ⟨(hdown hne).1, (hdown hne).2.trans hle⟩
      · exact hbelow value hvalue

section Merge

variable {cursors : List (List ℕ)}

theorem least_mem (hleast : least cursors ≠ 0) : least cursors ∈ cursors.flatten :=
  (foldl_lower_mem cursors 0).resolve_left hleast

theorem Increasing.least_le (hincreasing : Increasing cursors) {value : ℕ}
    (hvalue : value ∈ cursors.flatten) : least cursors ≤ value :=
  ((hincreasing.foldl_lower_le 0).2 value hvalue).2

theorem Increasing.notMem_of_least (hincreasing : Increasing cursors)
    (hleast : least cursors = 0) (value : ℕ) : value ∉ cursors.flatten :=
  fun hvalue => ((hincreasing.foldl_lower_le 0).2 value hvalue).1 hleast

theorem mem_advance {cursor : List ℕ} {least : ℕ} (hpairwise : cursor.Pairwise (· < ·))
    (hleast : ∀ value ∈ cursor, least ≤ value) (value : ℕ) :
    value ∈ advance least cursor ↔ value ∈ cursor ∧ value ≠ least := by
  cases cursor with
  | nil => simp [advance]
  | cons first rest =>
    have hrest := (pairwise_cons.mp hpairwise).1
    have hfirst := hleast first (mem_cons_self ..)
    rw [advance]
    split
    next heq =>
      subst heq
      constructor
      · exact fun hvalue =>
          ⟨mem_cons_of_mem _ hvalue, (hrest value hvalue).ne'⟩
      · exact fun ⟨hvalue, hne⟩ => (mem_cons.mp hvalue).resolve_left hne
    next hne =>
      refine ⟨fun hvalue => ⟨hvalue, ?_⟩, And.left⟩
      rcases mem_cons.mp hvalue with rfl | hvalue
      · exact hne
      · have := hrest value hvalue
        omega

/-- A round of the merge takes one number from the lists. -/
theorem Increasing.mem_advance (hincreasing : Increasing cursors) (value : ℕ) :
    value ∈ (cursors.map (advance (least cursors))).flatten ↔
      value ∈ cursors.flatten ∧ value ≠ least cursors := by
  have hcursor : ∀ cursor ∈ cursors, value ∈ advance (least cursors) cursor ↔
      value ∈ cursor ∧ value ≠ least cursors := by
    intro cursor hmem
    refine Cursors.mem_advance (hincreasing.pairwise cursor hmem) ?_ value
    intro other hother
    exact hincreasing.least_le (mem_flatten.mpr ⟨cursor, hmem, hother⟩)
  simp only [mem_flatten, mem_map, exists_exists_and_eq_and]
  constructor
  · rintro ⟨cursor, hmem, hvalue⟩
    obtain ⟨hvalue, hne⟩ := (hcursor cursor hmem).mp hvalue
    exact ⟨⟨cursor, hmem, hvalue⟩, hne⟩
  · rintro ⟨⟨cursor, hmem, hvalue⟩, hne⟩
    exact ⟨cursor, hmem, (hcursor cursor hmem).mpr ⟨hvalue, hne⟩⟩

theorem advance_sublist (value : ℕ) (cursor : List ℕ) :
    (advance value cursor).Sublist cursor := by
  cases cursor with
  | nil => exact List.Sublist.refl _
  | cons first rest =>
    rw [advance]
    split
    · exact sublist_cons_self ..
    · exact List.Sublist.refl _

theorem Increasing.advance (hincreasing : Increasing cursors) :
    Increasing (cursors.map (advance (least cursors))) where
  pairwise := by
    intro cursor hcursor
    obtain ⟨before, hbefore, rfl⟩ := mem_map.mp hcursor
    exact (hincreasing.pairwise before hbefore).sublist (advance_sublist _ _)
  positive := fun value hvalue =>
    hincreasing.positive value ((hincreasing.mem_advance value).mp hvalue).1

theorem Increasing.filter (hincreasing : Increasing cursors) :
    Increasing (cursors.filter fun cursor => !cursor.isEmpty) where
  pairwise := fun cursor hcursor =>
    hincreasing.pairwise cursor (mem_of_mem_filter hcursor)
  positive := by
    rw [flatten_filter_not_isEmpty]
    exact hincreasing.positive

theorem flatten_advance_sublist (value : ℕ) (cursors : List (List ℕ)) :
    (cursors.map (advance value)).flatten.Sublist cursors.flatten := by
  induction cursors with
  | nil => exact List.Sublist.refl _
  | cons cursor cursors ih => exact (advance_sublist value cursor).append ih

theorem Increasing.length_advance_lt (hincreasing : Increasing cursors)
    (hleast : least cursors ≠ 0) :
    (cursors.map (Cursors.advance (least cursors))).flatten.length <
      cursors.flatten.length := by
  have hsublist := flatten_advance_sublist (least cursors) cursors
  refine lt_of_le_of_ne hsublist.length_le fun hlength => ?_
  have hequal := hsublist.eq_of_length hlength
  have htaken := (hincreasing.mem_advance (least cursors)).mp (hequal ▸ least_mem hleast)
  exact htaken.2 rfl

end Merge

end Restpose.Cursors
