import Restpose.Taxonomy.Edits

/-!
# The representation invariant of a taxonomy

In every taxonomy that the operations can produce, the stored ancestors and
descendants are the transitive closures of the stored parents and children,
and the graph has no cycle.  Each operation is described by what it does to
the four relations; the same description says which names it notes as
modified.
-/

namespace Restpose

open Relation Finset

namespace Taxonomy

/-- One of the stored relations. -/
def Edge (taxonomy : Taxonomy) (link : Link) (name other : Bytes) : Prop :=
  other ∈ taxonomy.linked link name

/-- The representation invariant. -/
structure WellFormed (taxonomy : Taxonomy) : Prop where
  known : ∀ link name, taxonomy.linked link name ⊆ taxonomy.names
  dual : ∀ child parent, parent ∈ taxonomy.linked .parents child ↔
    child ∈ taxonomy.linked .children parent
  acyclic : ∀ name, ¬ TransGen (taxonomy.Edge .parents) name name
  ancestors_iff : ∀ name other, other ∈ taxonomy.linked .ancestors name ↔
    TransGen (taxonomy.Edge .parents) name other
  descendants_iff : ∀ name other, other ∈ taxonomy.linked .descendants name ↔
    TransGen (taxonomy.Edge .children) name other

namespace WellFormed

variable {taxonomy : Taxonomy}

variable (hwell : taxonomy.WellFormed)

include hwell

variable (name : Bytes)

theorem mem_descendants_iff (other : Bytes) : other ∈ taxonomy.linked .descendants name ↔
      TransGen (taxonomy.Edge .parents) other name := by
  have hswap : taxonomy.Edge .children = Function.swap (taxonomy.Edge .parents) := by
    funext parent child
    exact propext (hwell.dual child parent).symm
  rw [hwell.descendants_iff, hswap, transGen_swap]

theorem acyclic_children : ¬ TransGen (taxonomy.Edge .children) name name := by
  rw [← hwell.descendants_iff, hwell.mem_descendants_iff]
  exact hwell.acyclic name

theorem mem_ancestors_comm (other : Bytes) : other ∈ taxonomy.linked .ancestors name ↔
      name ∈ taxonomy.linked .descendants other := by
  rw [hwell.ancestors_iff, hwell.mem_descendants_iff]

theorem notMem_ancestors : name ∉ taxonomy.linked .ancestors name := by
  rw [hwell.ancestors_iff]
  exact hwell.acyclic name

theorem notMem_descendants : name ∉ taxonomy.linked .descendants name := by
  rw [hwell.mem_descendants_iff]
  exact hwell.acyclic name

omit hwell

/-- Enough to check the invariant in terms of the parent relation alone. -/
theorem of_parents (hknown : ∀ link name, taxonomy.linked link name ⊆ taxonomy.names)
    (hdual : ∀ child parent, parent ∈ taxonomy.linked .parents child ↔
      child ∈ taxonomy.linked .children parent)
    (hacyclic : ∀ name, ¬ TransGen (taxonomy.Edge .parents) name name)
    (hancestors : ∀ name other, other ∈ taxonomy.linked .ancestors name ↔
      TransGen (taxonomy.Edge .parents) name other)
    (hdescendants : ∀ name other, other ∈ taxonomy.linked .descendants name ↔
      TransGen (taxonomy.Edge .parents) other name) :
    taxonomy.WellFormed where
  known := hknown
  dual := hdual
  acyclic := hacyclic
  ancestors_iff := hancestors
  descendants_iff := by
    intro name other
    have hswap : taxonomy.Edge .children = Function.swap (taxonomy.Edge .parents) := by
      funext parent child
      exact propext (hdual child parent).symm
    rw [hdescendants, hswap, transGen_swap]

end WellFormed

theorem wellFormed_empty : empty.WellFormed := by
  have hlinked : ∀ link name, empty.linked link name = ∅ := by
    intro link name
    simp [linked, find, empty]
  have hnone : ∀ name other, ¬ TransGen (empty.Edge .parents) name other := by
    intro name other hpath
    obtain ⟨middle, hstep, _⟩ := TransGen.head'_iff.mp hpath
    simp [Edge, hlinked] at hstep
  apply WellFormed.of_parents
  · simp [hlinked]
  · simp [hlinked]
  · exact fun name => hnone name name
  all_goals simp [hlinked, hnone]

/-! ## Recalculation -/

theorem recalcPass_of_nonempty {taxonomy : Taxonomy} (edge : Link)
    {state : Recalc} (hstack : state.stack.Nonempty)
    (hknown : state.stack ⊆ taxonomy.names) :
    ∃ key ∈ state.stack, (∀ other ∈ state.stack, key ≤ other) ∧
      (taxonomy.recalcPass edge state).closure = insert key state.closure ∧
      (taxonomy.recalcPass edge state).stack =
        state.stack.erase key ∪ taxonomy.linked edge key := by
  obtain ⟨key, hmin⟩ := min_of_nonempty hstack
  have hkey : key ∈ state.stack := mem_of_min hmin
  obtain ⟨category, hfind⟩ := mem_names_iff.mp (hknown hkey)
  have hname : category.name = key := taxonomy.named key category hfind
  have hpass : taxonomy.recalcPass edge state =
      { closure := insert category.name state.closure
        seen := insert category.name state.seen
        stack := state.stack.erase key ∪ category.linked edge } := by
    unfold recalcPass
    split
    next hnone =>
      rw [hmin] at hnone
      cases hnone
    next found hfound =>
      cases hmin.symm.trans hfound
      rw [hfind]
  refine ⟨key, hkey, fun other hother => min_le_of_eq hother hmin, ?_,
    ?_⟩
  · rw [hpass, hname]
  · rw [hpass, linked_of_find hfind]

/-- The loop of `recalc_ancestors` and `recalc_descendants` ends on every
acyclic graph, having collected the transitive closure. -/
theorem mem_recalcLoop_iff {taxonomy : Taxonomy} {edge : Link}
    (hknown : ∀ name, taxonomy.linked edge name ⊆ taxonomy.names)
    (hacyclic : ∀ name, ¬ TransGen (taxonomy.Edge edge) name name) (name other : Bytes) :
    other ∈ (taxonomy.recalcLoop edge name).closure ↔
      TransGen (taxonomy.Edge edge) name other := by
  obtain ⟨ranking⟩ := Closure.exists_ranking (taxonomy.linked edge)
    taxonomy.names hacyclic
  let invariant : Recalc → Prop := fun state =>
    state.stack ⊆ taxonomy.names ∧
      Closure.WorklistCovers (taxonomy.linked edge) name state.closure
        state.stack
  have hstep : ∀ state : Recalc, invariant state →
      decide state.stack.Nonempty = true → invariant (taxonomy.recalcPass edge state) ∧
          ranking.weight (taxonomy.recalcPass edge state).stack <
            ranking.weight state.stack := by
    rintro state ⟨hsubset, hcovers⟩ hguard
    obtain ⟨key, hkey, -, hclosure, hstack⟩ :=
      recalcPass_of_nonempty edge (of_decide_eq_true hguard) hsubset
    simp only [invariant, hclosure, hstack]
    refine ⟨⟨?_, Closure.worklistCovers_step _ hcovers hkey⟩, ?_⟩
    · exact union_subset ((erase_subset _ _).trans hsubset) (hknown key)
    · exact ranking.weight_step hkey (hsubset hkey) (hknown key)
  have hinit : invariant ⟨∅, ∅, taxonomy.linked edge name⟩ :=
    ⟨hknown name, Closure.worklistCovers_init _ name⟩
  have hfuel : ranking.weight (taxonomy.linked edge name) ≤
      2 ^ taxonomy.categories.size := by
    rw [← card_names]
    exact (ranking.weight_lt (hknown name) fun vertex hvertex =>
      ranking.lt_card vertex (hknown name hvertex)).le
  obtain ⟨⟨_, hcovers⟩, hdone⟩ := Loops.whileLoop_of_measure invariant
    (fun state => ranking.weight state.stack) hstep hinit hfuel
  change decide (taxonomy.recalcLoop edge name).stack.Nonempty = false at hdone
  change Closure.WorklistCovers _ _ (taxonomy.recalcLoop edge name).closure
    (taxonomy.recalcLoop edge name).stack at hcovers
  have hempty : (taxonomy.recalcLoop edge name).stack = ∅ := by
    simpa using hdone
  have hresult := hcovers other
  simp only [hempty, notMem_empty, false_and, exists_false, or_false] at hresult
  exact hresult.symm

end Taxonomy

end Restpose
