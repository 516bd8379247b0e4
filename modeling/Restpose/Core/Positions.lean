import Mathlib

/-!
# Positions in a list with increasing keys

A position in such a list is what is left of the list.  It can be described by
a bound on the keys instead, and this is how a movement to a bound is compared
with one to the next item.
-/

namespace Restpose.Positions

open List

variable {Item : Type*} {key : Item → ℕ} {items rest : List Item} {item : Item}

/-- The keys of the list increase. -/
def Increasing (key : Item → ℕ) (items : List Item) : Prop :=
  items.Pairwise fun first second => key first < key second

/-- The items from a bound on. -/
def since (key : Item → ℕ) (bound : ℕ) (items : List Item) : List Item :=
  items.filter fun item => bound ≤ key item

variable {bound : ℕ}

theorem mem_since : item ∈ since key bound items ↔ item ∈ items ∧ bound ≤ key item := by
  simp [since]

theorem since_of_forall (hitems : ∀ item ∈ items, bound ≤ key item) :
    since key bound items = items :=
  filter_eq_self.mpr fun item hitem => by simpa using hitems item hitem

theorem Increasing.since (hincreasing : Increasing key items) (bound : ℕ) :
    Increasing key (since key bound items) :=
  hincreasing.filter _

/-- Skipping the items below a bound leaves those from the bound on. -/
theorem Increasing.dropWhile_eq (hincreasing : Increasing key items) (bound : ℕ) :
    items.dropWhile (fun item => key item < bound) = Positions.since key bound items := by
  induction items with
  | nil => rfl
  | cons first items ih =>
    obtain ⟨hfirst, hitems⟩ := pairwise_cons.mp hincreasing
    by_cases hbound : bound ≤ key first
    · rw [dropWhile_cons_of_neg (by simpa using hbound), since_of_forall]
      intro item hitem
      rcases mem_cons.mp hitem with rfl | hitem
      · exact hbound
      · exact hbound.trans (hfirst item hitem).le
    · rw [dropWhile_cons_of_pos (by simpa using hbound), ih hitems, Positions.since,
        Positions.since, filter_cons_of_neg (by simpa using hbound)]

theorem Increasing.since_suffix (hincreasing : Increasing key items) (bound : ℕ) :
    Positions.since key bound items <:+ items := by
  rw [← hincreasing.dropWhile_eq]
  exact dropWhile_suffix _

theorem since_since {low : ℕ} (hbound : low ≤ bound) :
    since key bound (since key low items) = since key bound items := by
  rw [since, since, since, filter_filter]
  refine filter_congr fun item _ => ?_
  simp only [Bool.and_eq_decide, decide_eq_true_eq, decide_eq_decide]
  omega

/-- What is left of the list is what comes from the key of its first item. -/
theorem Increasing.eq_since (hincreasing : Increasing key items)
    (hsuffix : item :: rest <:+ items) :
    item :: rest = Positions.since key (key item) items := by
  obtain ⟨before, rfl⟩ := hsuffix
  obtain ⟨-, hrest, hbefore⟩ := pairwise_append.mp hincreasing
  have hnone : Positions.since key (key item) before = [] := by
    refine filter_eq_nil_iff.mpr fun earlier hearlier => ?_
    simpa using hbefore earlier hearlier item (mem_cons_self ..)
  have hall : Positions.since key (key item) (item :: rest) = item :: rest := by
    refine since_of_forall fun later hlater => ?_
    rcases mem_cons.mp hlater with rfl | hlater
    · exact le_rfl
    · exact ((pairwise_cons.mp hrest).1 later hlater).le
  unfold Positions.since at hnone hall ⊢
  rw [filter_append, hnone, nil_append, hall]

/-- Only the first item from a bound on can have the bound as its key. -/
theorem Increasing.eq_of_since (hincreasing : Increasing key items)
    (hsince : Positions.since key bound items = item :: rest) {other : Item}
    (hother : other ∈ items) (hkey : key other = bound) : other = item := by
  have hsorted := hincreasing.since bound
  rw [hsince] at hsorted
  have hbound : bound ≤ key item := (mem_since.mp (hsince ▸ mem_cons_self ..)).2
  have hmem : other ∈ item :: rest := hsince ▸ mem_since.mpr ⟨hother, hkey.ge⟩
  rcases mem_cons.mp hmem with heq | hmem
  · exact heq
  · have hlater := (pairwise_cons.mp hsorted).1 other hmem
    omega

theorem Increasing.since_succ (hincreasing : Increasing key items)
    (hsince : Positions.since key bound items = item :: rest) :
    Positions.since key (bound + 1) items =
      if key item = bound then rest else item :: rest := by
  have hsorted := hincreasing.since bound
  rw [hsince] at hsorted
  have hfirst := (pairwise_cons.mp hsorted).1
  have hbound : bound ≤ key item := (mem_since.mp (hsince ▸ mem_cons_self ..)).2
  have hrest : Positions.since key (bound + 1) rest = rest :=
    since_of_forall fun later hlater => hbound.trans_lt (hfirst later hlater)
  rw [← since_since (Nat.le_succ bound), hsince]
  unfold Positions.since at hrest ⊢
  split_ifs with hkey
  · rw [filter_cons_of_neg (by simp [hkey]), hrest]
  · rw [filter_cons_of_pos (by simp; omega), hrest]

theorem since_succ_of_forall_ne (hitems : ∀ item ∈ items, key item ≠ bound) :
    since key (bound + 1) items = since key bound items := by
  refine filter_congr fun item hitem => ?_
  have hkey := hitems item hitem
  simp only [decide_eq_decide]
  omega

end Restpose.Positions
