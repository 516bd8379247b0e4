import Mathlib

/-!
# Precedence in a list

An element precedes another in a list when it stands before it.  The lists of
this development grow at their ends and do not repeat elements, so what
precedes an element is settled once the element is there.
-/

namespace Restpose

open List

variable {Element : Type*} {front rest : List Element}
  {first second last : Element}

/-- One element stands before another. -/
def Precedes (elements : List Element) (first second : Element) : Prop :=
  [first, second].Sublist elements

namespace Precedes

variable (hprecedes : Precedes front first second)

include hprecedes

theorem mem_left : first ∈ front := hprecedes.subset (by simp)

theorem mem_right : second ∈ front := hprecedes.subset (by simp)

theorem ne (hnodup : front.Nodup) : first ≠ second := by
  have hpair := hprecedes.nodup hnodup
  simpa using hpair

theorem append_right (rest : List Element) : Precedes (front ++ rest) first second :=
  hprecedes.trans (sublist_append_left front rest)

omit hprecedes

theorem of_mem_append (hfirst : first ∈ front) (hsecond : second ∈ rest) :
    Precedes (front ++ rest) first second :=
  (singleton_sublist.mpr hfirst).append (singleton_sublist.mpr hsecond)

/-- What precedes an element does not change when the list grows. -/
theorem of_append (hprecedes : Precedes (front ++ rest) first second)
    (hnodup : (front ++ rest).Nodup) (hsecond : second ∈ front) :
    Precedes front first second := by
  have hdisjoint := (nodup_append.mp hnodup).2.2
  have houtside : second ∉ rest := fun hmem =>
    hdisjoint second hsecond second hmem rfl
  obtain ⟨left, right, hpair, hleft, hright⟩ := sublist_append_iff.mp hprecedes
  rcases append_eq_cons_iff.mp hpair.symm with
    ⟨_, hall⟩ | ⟨tail, hcons, htail⟩
  · exact absurd (hright.subset (by simp [hall])) houtside
  · rcases append_eq_cons_iff.mp htail.symm with
      ⟨_, hlast⟩ | ⟨rest', hcons', hnil⟩
    · exact absurd (hright.subset (by simp [hlast])) houtside
    · have hempty : rest' = [] := (append_eq_nil_iff.mp hnil.symm).1
      rw [hcons, hcons', hempty] at hleft
      exact hleft

end Precedes

end Restpose
