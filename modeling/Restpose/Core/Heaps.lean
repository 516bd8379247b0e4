import Mathlib

/-!
# Heaps and selection

The heap algorithms of the C++ standard library are given by what the standard
says of them: each of them permutes a range, and a heap has a greatest element
at its front.  With a heap one can select the least elements of a sequence: when
one more element arrives, it is exchanged for the greatest of those selected so
far.
-/

namespace Restpose.Heaps

open scoped List

variable {Item : Type*} [LinearOrder Item]

/-! ## Heaps -/

/-- `is_heap`: no element is greater than the one above it. -/
def IsHeap (items : List Item) : Prop :=
  ∀ (index : ℕ) (hindex : index + 1 < items.length),
    items[index + 1] ≤ items[index / 2]

theorem IsHeap.getElem_le {items : List Item} (hheap : IsHeap items) (index : ℕ)
    (hindex : index < items.length) :
    items[index] ≤ items[0] := by
  induction index using Nat.strong_induction_on with
  | _ index ih =>
    cases index with
    | zero => exact le_rfl
    | succ index =>
      calc items[index + 1] ≤ items[index / 2] := hheap index hindex
        _ ≤ items[0] := ih (index / 2) (by omega) (by omega)

theorem IsHeap.le_front {first : Item} {rest : List Item}
    (hheap : IsHeap (first :: rest)) :
    ∀ item ∈ first :: rest, item ≤ first := by
  intro item hitem
  obtain ⟨index, hindex, rfl⟩ := List.getElem_of_mem hitem
  exact hheap.getElem_le index hindex

theorem isHeap_of_pairwise {items : List Item} (hsorted : items.Pairwise (· ≥ ·)) :
    IsHeap items := by
  intro index hindex
  exact List.pairwise_iff_getElem.mp hsorted (index / 2) (index + 1) (by omega)
    hindex (by omega)

/-- The heap algorithms, with what the standard says of them. -/
class Algorithms (Item : Type*) [LinearOrder Item] where
  makeHeap : List Item → List Item
  pushHeap : List Item → List Item
  popHeap : List Item → List Item
  sortHeap : List Item → List Item
  makeHeap_perm : ∀ items, (makeHeap items).Perm items
  isHeap_makeHeap : ∀ items, IsHeap (makeHeap items)
  pushHeap_perm : ∀ items item, IsHeap items →
    (pushHeap (items ++ [item])).Perm (items ++ [item])
  isHeap_pushHeap : ∀ items item, IsHeap items →
    IsHeap (pushHeap (items ++ [item]))
  /-- The front is moved to the end, and the others are a heap. -/
  popHeap_eq : ∀ first rest, IsHeap (first :: rest) → ∃ others,
    popHeap (first :: rest) = others ++ [first] ∧ others.Perm rest ∧
      IsHeap others
  sortHeap_perm : ∀ items, IsHeap items → (sortHeap items).Perm items
  pairwise_sortHeap : ∀ items, IsHeap items →
    (sortHeap items).Pairwise (· ≤ ·)

export Algorithms (makeHeap pushHeap popHeap sortHeap)

/-- The elements in descending order. -/
def descending (items : List Item) : List Item :=
  items.insertionSort (· ≥ ·)

theorem descending_perm (items : List Item) : (descending items).Perm items :=
  List.perm_insertionSort _ items

theorem isHeap_descending (items : List Item) : IsHeap (descending items) :=
  isHeap_of_pairwise (List.pairwise_insertionSort _ items)

/-- Sorting is one way to do what the standard asks for. -/
abbrev sorting : Algorithms Item where
  makeHeap := descending
  pushHeap := descending
  popHeap := fun items => descending items.tail ++ items.head?.toList
  sortHeap := fun items => items.insertionSort (· ≤ ·)
  makeHeap_perm := descending_perm
  isHeap_makeHeap := isHeap_descending
  pushHeap_perm := fun items item _ => descending_perm (items ++ [item])
  isHeap_pushHeap := fun items item _ => isHeap_descending (items ++ [item])
  popHeap_eq := fun _ rest _ =>
    ⟨descending rest, rfl, descending_perm rest, isHeap_descending rest⟩
  sortHeap_perm := fun items _ => List.perm_insertionSort _ items
  pairwise_sortHeap := fun items _ => List.pairwise_insertionSort _ items

/-! ## Exchanging an element -/

section Exchange

variable [Algorithms Item]

/-- `push_back`, `push_heap`, `pop_heap` and `pop_back`. -/
def exchange (items : List Item) (item : Item) : List Item :=
  (popHeap (pushHeap (items ++ [item]))).dropLast

/-- The greatest element goes, and the others are a heap. -/
theorem exchange_spec {items : List Item} (hheap : IsHeap items) (item : Item) :
    ∃ greatest,
      (greatest :: exchange items item).Perm (item :: items) ∧
        IsHeap (exchange items item) ∧
        ∀ other ∈ item :: items, other ≤ greatest := by
  have hperm := Algorithms.pushHeap_perm items item hheap
  have hpushed := Algorithms.isHeap_pushHeap items item hheap
  have hmoved : (items ++ [item]).Perm (item :: items) :=
    List.perm_append_singleton item items
  rw [exchange]
  generalize pushHeap (items ++ [item]) = pushed at hperm hpushed
  cases pushed with
  | nil => exact absurd hperm.length_eq (by simp)
  | cons greatest rest =>
    obtain ⟨others, hpop, hothers, hheap⟩ := Algorithms.popHeap_eq greatest rest hpushed
    rw [hpop, List.dropLast_concat]
    refine ⟨greatest, ?_, hheap, ?_⟩
    · exact (hothers.cons greatest).trans (hperm.trans hmoved)
    · intro other hother
      exact hpushed.le_front other ((hperm.trans hmoved).mem_iff.mpr hother)

end Exchange

/-! ## The least elements -/

/-- None of the elements that are left out is less than one that is kept. -/
def Least (all kept : List Item) : Prop :=
  ∃ dropped, all.Perm (kept ++ dropped) ∧
    ∀ item ∈ kept, ∀ other ∈ dropped, item ≤ other

namespace Least

variable {all kept : List Item}

theorem of_perm (hperm : all.Perm kept) :
    Least all kept := ⟨[], by simpa using hperm, by simp⟩

variable (hleast : Least all kept)

include hleast

theorem subset : kept ⊆ all := by
  obtain ⟨dropped, hperm, -⟩ := hleast
  intro item hitem
  exact hperm.mem_iff.mpr (List.mem_append_left dropped hitem)

theorem perm_kept {other : List Item} (hother : other.Perm kept) : Least all other := by
  obtain ⟨dropped, hperm, hle⟩ := hleast
  refine ⟨dropped, hperm.trans (hother.symm.append_right dropped), ?_⟩
  intro item hitem
  exact hle item (hother.mem_iff.mp hitem)

theorem skip {item : Item} (hitem : ∀ other ∈ kept, other ≤ item) :
    Least (all ++ [item]) kept := by
  obtain ⟨dropped, hperm, hle⟩ := hleast
  refine ⟨dropped ++ [item], ?_, ?_⟩
  · rw [← List.append_assoc]
    exact hperm.append_right [item]
  · intro other hother left hleft
    rcases List.mem_append.mp hleft with hleft | hleft
    · exact hle other hother left hleft
    · rw [List.mem_singleton.mp hleft]
      exact hitem other hother

theorem exchange {item greatest : Item} {others : List Item}
    (hothers : (greatest :: others).Perm (item :: kept))
    (hgreatest : ∀ other ∈ item :: kept, other ≤ greatest) :
    Least (all ++ [item]) others := by
  obtain ⟨dropped, hperm, hle⟩ := hleast
  refine ⟨greatest :: dropped, ?_, ?_⟩
  · calc all ++ [item] ~ item :: all := List.perm_append_singleton item all
      _ ~ item :: kept ++ dropped := hperm.cons item
      _ ~ greatest :: others ++ dropped := (hothers.append_right dropped).symm
      _ ~ others ++ greatest :: dropped := List.perm_middle.symm
  · have hmem : ∀ other ∈ others, other ∈ item :: kept := fun other hother =>
      hothers.mem_iff.mp (List.mem_cons_of_mem greatest hother)
    intro other hother left hleft
    rcases List.mem_cons.mp hleft with rfl | hleft
    · exact hgreatest other (hmem other hother)
    · rcases List.mem_cons.mp (hothers.mem_iff.mp List.mem_cons_self) with
        rfl | hkept
      · -- The new element is the one that goes.
        have hsame : others.Perm kept := (List.perm_cons greatest).mp hothers
        exact hle other (hsame.mem_iff.mp hother) left hleft
      · exact (hgreatest other (hmem other hother)).trans (hle greatest hkept left hleft)

/-- In order, the least elements are at the beginning of all elements. -/
theorem eq_take (hsorted : kept.Pairwise (· ≤ ·)) :
    kept = (all.insertionSort (· ≤ ·)).take kept.length := by
  obtain ⟨dropped, hperm, hle⟩ := hleast
  have hall : all.insertionSort (· ≤ ·) = kept ++ dropped.insertionSort (· ≤ ·) := by
    have hdropped := List.perm_insertionSort (· ≤ ·) dropped
    apply List.Perm.eq_of_pairwise' (r := (· ≤ ·))
    · exact List.pairwise_insertionSort _ all
    · apply List.pairwise_append.mpr
      refine ⟨hsorted, List.pairwise_insertionSort _ dropped, ?_⟩
      intro item hitem other hother
      exact hle item hitem other (hdropped.mem_iff.mp hother)
    · exact (List.perm_insertionSort _ all).trans
        (hperm.trans (hdropped.symm.append_left kept))
  rw [hall, List.take_left]

omit hleast

end Least

end Restpose.Heaps
