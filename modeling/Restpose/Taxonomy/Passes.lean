import Restpose.Taxonomy.Codec

/-!
# How often the recalculation loops run

The loops of `recalc_ancestors` and `recalc_descendants` keep the set of what
they have seen, but they do not look at it: a category that was expanded goes
back onto the stack whenever it is met again.  How often that happens depends
on the order of the names, in which the stack is worked off.  Over all names
that the categories could have, the greatest number of passes is the number of
paths that start at the category, which may be exponential.
-/

namespace Restpose

open Relation Finset Closure

/-- The two links that the loops follow. -/
def Link.Direct (edge : Link) : Prop :=
  edge = .parents ∨ edge = .children

namespace Taxonomy

/-- The passes of the loop of `recalc_ancestors` or `recalc_descendants`. -/
def recalcPasses (taxonomy : Taxonomy) (edge : Link) (name : Bytes) : ℕ :=
  Loops.whilePasses (fun state => decide state.stack.Nonempty)
    (taxonomy.recalcPass edge) (2 ^ taxonomy.categories.size)
    ⟨∅, ∅, taxonomy.linked edge name⟩

/-- The number of paths that follow a direct link from a category. -/
def pathCount (taxonomy : Taxonomy) (edge : Link) (name : Bytes) : ℕ :=
  Closure.paths (taxonomy.linked edge) taxonomy.categories.size name

theorem WellFormed.acyclic_direct {taxonomy : Taxonomy} (hwell : taxonomy.WellFormed)
    {edge : Link} (hedge : edge.Direct) (name : Bytes) :
    ¬ TransGen (taxonomy.Edge edge) name name := by
  rcases hedge with rfl | rfl
  · exact hwell.acyclic name
  · exact hwell.acyclic_children name

section Passes

variable {taxonomy : Taxonomy} {edge : Link} (hwell : taxonomy.WellFormed)

include hwell

/-- What one pass costs, in terms of the paths that start at the categories on
the stack. -/
theorem pathWeight_recalcPass
    (ranking : Closure.Ranking (taxonomy.linked edge) taxonomy.names) {state : Recalc}
    (hknown : state.stack ⊆ taxonomy.names) (hstack : state.stack.Nonempty) :
    (taxonomy.recalcPass edge state).stack ⊆ taxonomy.names ∧
      pathWeight (taxonomy.linked edge) taxonomy.names.card
          (taxonomy.recalcPass edge state).stack + 1 ≤
        pathWeight (taxonomy.linked edge) taxonomy.names.card state.stack ∧
      ((∀ name, ∀ other ∈ taxonomy.linked edge name, other < name) →
        pathWeight (taxonomy.linked edge) taxonomy.names.card
            (taxonomy.recalcPass edge state).stack + 1 =
          pathWeight (taxonomy.linked edge) taxonomy.names.card state.stack) := by
  obtain ⟨key, hkey, hleast, -, hnext⟩ := recalcPass_of_nonempty edge hstack hknown
  rw [hnext]
  obtain ⟨hle, heq⟩ := ranking.pathWeight_step
    (fun name _ => hwell.known edge name) hkey (hknown hkey)
  refine ⟨union_subset ((erase_subset _ _).trans hknown)
    (hwell.known edge key), hle, fun hbelow => heq ?_⟩
  -- Everything else on the stack comes after the key, and what it leads to
  -- before.
  refine disjoint_left.mpr fun other hother hmet => ?_
  exact absurd (hbelow key other hmet)
    (not_lt.mpr (hleast other (mem_of_mem_erase hother)))

variable {name : Bytes}

theorem pathWeight_linked
    (ranking : Closure.Ranking (taxonomy.linked edge) taxonomy.names)
    (hname : name ∈ taxonomy.names) :
    pathWeight (taxonomy.linked edge) taxonomy.names.card
      (taxonomy.linked edge name) = taxonomy.pathCount edge name := by
  rw [pathCount, ← card_names]
  exact (ranking.paths_card (fun name _ => hwell.known edge name) hname).symm

/-- No path is followed twice. -/
theorem recalcPasses_le (hedge : edge.Direct) (hname : name ∈ taxonomy.names) :
    taxonomy.recalcPasses edge name ≤ taxonomy.pathCount edge name := by
  obtain ⟨ranking⟩ := exists_ranking (taxonomy.linked edge)
    taxonomy.names (hwell.acyclic_direct hedge)
  rw [← pathWeight_linked hwell ranking hname]
  refine Loops.whilePasses_le_of_measure
    (fun state : Recalc => state.stack ⊆ taxonomy.names)
    (fun state : Recalc => pathWeight (taxonomy.linked edge)
      taxonomy.names.card state.stack) ?_ (hwell.known edge name)
  intro state hknown hguard
  obtain ⟨hsubset, hle, -⟩ :=
    pathWeight_recalcPass hwell ranking hknown (of_decide_eq_true hguard)
  exact ⟨hsubset, hle⟩

/-- Where every link leads to a name that comes before, every path is
followed. -/
theorem recalcPasses_eq (hedge : edge.Direct)
    (hbelow : ∀ name, ∀ other ∈ taxonomy.linked edge name, other < name)
    (hname : name ∈ taxonomy.names) :
    taxonomy.recalcPasses edge name = taxonomy.pathCount edge name := by
  obtain ⟨ranking⟩ := exists_ranking (taxonomy.linked edge)
    taxonomy.names (hwell.acyclic_direct hedge)
  have hclosed := fun name (_ : name ∈ taxonomy.names) =>
    hwell.known edge name
  rw [← pathWeight_linked hwell ranking hname]
  refine Loops.whilePasses_eq_of_measure
    (fun state : Recalc => state.stack ⊆ taxonomy.names)
    (fun state : Recalc => pathWeight (taxonomy.linked edge)
      taxonomy.names.card state.stack) ?_ ?_ (hwell.known edge name) ?_
  · intro state hknown hguard
    obtain ⟨hsubset, -, heq⟩ := pathWeight_recalcPass hwell ranking hknown
      (of_decide_eq_true hguard)
    exact ⟨hsubset, heq hbelow⟩
  · intro state hguard
    have hempty : state.stack = ∅ := by simpa using hguard
    rw [hempty]
    exact sum_empty
  · change pathWeight _ _ (taxonomy.linked edge name) ≤ _
    rw [pathWeight_linked hwell ranking hname]
    calc taxonomy.pathCount edge name ≤ 2 ^ ranking.rank name :=
      (ranking.paths_lt hclosed hname).le
      _ ≤ 2 ^ taxonomy.categories.size := by
          rw [← card_names]
          exact Nat.pow_le_pow_right (by decide) (ranking.lt_card name hname).le

end Passes

/-! ## Other names for the categories -/

/-- The same hierarchy with other names. -/
structure Renamed (taxonomy : Taxonomy) (rename : Bytes → Bytes)
    (renamed : Taxonomy) : Prop where
  injOn : Set.InjOn rename taxonomy.names
  names_eq : renamed.names = taxonomy.names.image rename
  parents_eq : ∀ name ∈ taxonomy.names,
    renamed.linked .parents (rename name) =
      (taxonomy.linked .parents name).image rename

section Renaming

variable {taxonomy renamed : Taxonomy} {rename : Bytes → Bytes}

variable {name : Bytes}

variable (hrenamed : Renamed taxonomy rename renamed)

include hrenamed

theorem Renamed.size_eq : renamed.categories.size = taxonomy.categories.size := by
  rw [← card_names, ← card_names, hrenamed.names_eq,
    Finset.card_image_of_injOn hrenamed.injOn]

variable (hwell : taxonomy.WellFormed) (hwell' : renamed.WellFormed)

include hwell hwell'

theorem Renamed.children_eq (hname : name ∈ taxonomy.names) :
    renamed.linked .children (rename name) = (taxonomy.linked .children name).image
      rename := by
  ext other
  rw [mem_image, ← hwell'.dual]
  constructor
  · intro hparent
    have hother := hwell'.known .children (rename name)
      ((hwell'.dual other (rename name)).mp hparent)
    rw [hrenamed.names_eq] at hother
    obtain ⟨child, hchild, rfl⟩ := mem_image.mp hother
    rw [hrenamed.parents_eq child hchild] at hparent
    obtain ⟨parent, hlinked, heq⟩ := mem_image.mp hparent
    have hsame := hrenamed.injOn (hwell.known _ _ hlinked) hname heq
    subst hsame
    exact ⟨child, (hwell.dual child parent).mp hlinked, rfl⟩
  · rintro ⟨child, hchild, rfl⟩
    rw [hrenamed.parents_eq child (hwell.known _ _ hchild)]
    exact mem_image_of_mem rename ((hwell.dual child name).mpr hchild)

theorem Renamed.linked_eq {edge : Link} (hedge : edge.Direct)
    (hname : name ∈ taxonomy.names) :
    renamed.linked edge (rename name) = (taxonomy.linked edge name).image rename := by
  rcases hedge with rfl | rfl
  · exact hrenamed.parents_eq name hname
  · exact hrenamed.children_eq hwell hwell' hname

theorem Renamed.pathCount_eq {edge : Link} (hedge : edge.Direct)
    (hname : name ∈ taxonomy.names) :
    renamed.pathCount edge (rename name) = taxonomy.pathCount edge name := by
  rw [pathCount, pathCount, hrenamed.size_eq]
  exact paths_image hrenamed.injOn (fun name _ => hwell.known edge name)
    (fun name hname => hrenamed.linked_eq hwell hwell' hedge hname) _ hname

omit hrenamed hwell hwell'

/-- The members of the renamed hierarchy. -/
def renamedMembers (taxonomy : Taxonomy)
    (rename : Bytes → Bytes) : List (Bytes × Json) :=
  (taxonomy.names.sort (· ≤ ·)).map fun name =>
    (rename name, .array (((taxonomy.linked .parents name).sort
      (· ≤ ·)).map fun parent => .string (rename parent)))

theorem described_renamedMembers (child parent : Bytes) :
    Described (taxonomy.renamedMembers rename) child parent ↔
      ∃ name ∈ taxonomy.names, ∃ above ∈ taxonomy.linked .parents name,
        rename name = child ∧ rename above = parent := by
  simp only [Described, renamedMembers, List.mem_map, Finset.mem_sort, Prod.mk.injEq]
  constructor
  · rintro ⟨item, ⟨name, hname, rfl, rfl⟩, hparent⟩
    obtain ⟨above, habove, heq⟩ := List.mem_map.mp hparent
    exact ⟨name, hname, above, (mem_sort _).mp habove, rfl, Json.string.inj heq⟩
  · rintro ⟨name, hname, above, habove, rfl, rfl⟩
    refine ⟨_, ⟨name, hname, rfl, rfl⟩, List.mem_map.mpr ⟨above, ?_, rfl⟩⟩
    exact (Finset.mem_sort _).mpr habove

theorem parentLists_renamedMembers : ParentLists (taxonomy.renamedMembers rename) := by
  intro entry hentry
  obtain ⟨name, -, rfl⟩ := List.mem_map.mp hentry
  refine .inr ⟨((taxonomy.linked .parents name).sort (· ≤ ·)).map rename, ?_⟩
  rw [List.map_map]
  rfl

/-- A path between new names is one between the old ones. -/
theorem transGen_renamedMembers (hwell : taxonomy.WellFormed)
    (hinjective : Set.InjOn rename taxonomy.names) {child parent : Bytes}
    (hpath : TransGen (Described (taxonomy.renamedMembers rename)) child parent) :
    ∃ name ∈ taxonomy.names, ∃ above ∈ taxonomy.names, rename name = child ∧
      rename above = parent ∧
        TransGen (taxonomy.Edge .parents) name above := by
  induction hpath with
  | single hstep =>
    obtain ⟨name, hname, above, habove, hchild, hparent⟩ :=
      (described_renamedMembers _ _).mp hstep
    exact ⟨name, hname, above, hwell.known _ _ habove, hchild, hparent, .single habove⟩
  | tail _ hstep ih =>
    obtain ⟨name, hname, middle, hmiddle, hchild, heq, hpath⟩ := ih
    obtain ⟨other, hother, above, habove, heq', hparent⟩ :=
      (described_renamedMembers _ _).mp hstep
    have hsame := hinjective hother hmiddle (heq'.trans heq.symm)
    subst hsame
    exact ⟨name, hname, above, hwell.known _ _ habove, hchild, hparent, hpath.tail habove⟩

/-- Every hierarchy can be built with any other names. -/
theorem exists_renamed (hwell : taxonomy.WellFormed)
    (hinjective : Set.InjOn rename taxonomy.names) :
    ∃ renamed, Reachable renamed ∧ Renamed taxonomy rename renamed := by
  have hlists : ParentLists (taxonomy.renamedMembers rename) := parentLists_renamedMembers
  have hthrown : (fromJson (.object (taxonomy.renamedMembers rename))).thrown = none := by
    rw [fromJson_thrown_iff hlists]
    intro name hcycle
    obtain ⟨first, hfirst, last, hlast, heq, heq', hpath⟩ :=
      transGen_renamedMembers hwell hinjective hcycle
    have hsame := hinjective hfirst hlast (heq.trans heq'.symm)
    subst hsame
    exact hwell.acyclic _ hpath
  refine ⟨_, .fromJson .empty (.object (taxonomy.renamedMembers rename)),
    hinjective, ?_, ?_⟩
  · ext name
    rw [mem_names_fromJson hlists hthrown, Mentioned, mem_image]
    have hkeys : name ∈ (taxonomy.renamedMembers rename).map Prod.fst ↔
        ∃ old ∈ taxonomy.names, rename old = name := by
      simp [renamedMembers]
    rw [hkeys]
    refine or_iff_left_of_imp ?_
    rintro ⟨child, hchild⟩
    obtain ⟨old, hold, above, habove, -, hname⟩ :=
      (described_renamedMembers _ _).mp hchild
    exact ⟨above, hwell.known _ _ habove, hname⟩
  · intro name hname
    ext parent
    rw [mem_parents_fromJson hlists hthrown, described_renamedMembers, mem_image]
    constructor
    · rintro ⟨old, hold, above, habove, heq, hparent⟩
      have hsame := hinjective hold hname heq
      subst hsame
      exact ⟨above, habove, hparent⟩
    · rintro ⟨above, habove, hparent⟩
      exact ⟨name, hname, above, habove, rfl, hparent⟩

end Renaming

/-! ## Names in the worst order -/

/-- Names whose order is that of the numbers. -/
def numbered (number : ℕ) : Bytes :=
  List.replicate (number + 1) 97

theorem numbered_injective : Function.Injective numbered := by
  intro left right heq
  have hlength := congrArg List.length heq
  simpa [numbered] using hlength

theorem numbered_lt {left right : ℕ} (hlt : left < right) :
    numbered left < numbered right := by
  induction left generalizing right with
  | zero =>
    obtain ⟨rest, rfl⟩ := Nat.exists_eq_add_of_lt hlt
    rw [Nat.zero_add]
    exact List.cons_lt_cons_iff.mpr (.inr ⟨rfl, List.nil_lt_cons _ _⟩)
  | succ left ih =>
    cases right with
    | zero => cases hlt
    | succ right =>
      exact List.cons_lt_cons_iff.mpr (.inr ⟨rfl, ih (Nat.lt_of_succ_lt_succ hlt)⟩)

/-- Names in the order of a topological numbering have every link lead to a
name that comes before. -/
theorem Renamed.lt_of_linked {taxonomy renamed : Taxonomy} {edge : Link}
    {ranking : Closure.Ranking (taxonomy.linked edge) taxonomy.names}
    (hrenamed : Renamed taxonomy (fun name => numbered (ranking.rank name)) renamed)
    (hwell : taxonomy.WellFormed) (hwell' : renamed.WellFormed) (hedge : edge.Direct)
    (name : Bytes) :
    ∀ other ∈ renamed.linked edge name, other < name := by
  intro other hother
  by_cases hname : name ∈ renamed.names
  · rw [hrenamed.names_eq] at hname
    obtain ⟨old, hold, rfl⟩ := mem_image.mp hname
    rw [hrenamed.linked_eq hwell hwell' hedge hold] at hother
    obtain ⟨next, hnext, rfl⟩ := mem_image.mp hother
    exact numbered_lt (ranking.decreasing old hold next hnext (hwell.known _ _ hnext))
  · rw [linked_of_notMem hname] at hother
    exact absurd hother (notMem_empty other)

/-- The number of passes is at most the square of the number of categories for
all names that the categories could have if and only if there are at most as
many paths. -/
theorem recalcPasses_le_square_iff {taxonomy : Taxonomy}
    (hreachable : Reachable taxonomy) {edge : Link} (hedge : edge.Direct)
    {name : Bytes} (hname : name ∈ taxonomy.names) :
    (∀ rename renamed, Reachable renamed → Renamed taxonomy rename renamed →
      renamed.recalcPasses edge (rename name) ≤
        renamed.categories.size * renamed.categories.size) ↔
      taxonomy.pathCount edge name ≤
        taxonomy.categories.size * taxonomy.categories.size := by
  have hwell := hreachable.invariant
  constructor
  · intro hbound
    obtain ⟨ranking⟩ := Closure.exists_ranking (taxonomy.linked edge)
      taxonomy.names (hwell.acyclic_direct hedge)
    have hinjective : Set.InjOn (fun name => numbered (ranking.rank name))
        taxonomy.names :=
      numbered_injective.comp_injOn ranking.injOn
    obtain ⟨renamed, hreachable', hrenamed⟩ := exists_renamed hwell hinjective
    have hwell' := hreachable'.invariant
    have hmem : numbered (ranking.rank name) ∈ renamed.names := by
      rw [hrenamed.names_eq]
      exact Finset.mem_image_of_mem _ hname
    have hpasses := hbound _ renamed hreachable' hrenamed
    rw [recalcPasses_eq hwell' hedge
      (hrenamed.lt_of_linked hwell hwell' hedge) hmem,
      hrenamed.pathCount_eq hwell hwell' hedge hname,
      hrenamed.size_eq] at hpasses
    exact hpasses
  · intro hcount rename renamed hreachable' hrenamed
    have hwell' := hreachable'.invariant
    rw [hrenamed.size_eq]
    refine le_trans (recalcPasses_le hwell' hedge ?_) ?_
    · rw [hrenamed.names_eq]
      exact Finset.mem_image_of_mem rename hname
    · rwa [hrenamed.pathCount_eq hwell hwell' hedge hname]

theorem recalcPasses_le_square_iff_chain :
    (∀ rename renamed, Reachable renamed → Renamed chain rename renamed →
      renamed.recalcPasses .parents (rename (ascii "c")) ≤
        renamed.categories.size * renamed.categories.size) ↔
      chain.pathCount .parents (ascii "c") ≤
        chain.categories.size * chain.categories.size :=
  recalcPasses_le_square_iff reachable_chain (.inl rfl) (by decide)

/-! ## Dense hierarchies -/

/-- A hierarchy in which every category has all those before it as parents. -/
def denseMembers (last : ℕ) : List (Bytes × Json) :=
  (List.range (last + 1)).map fun number =>
    (numbered number, .array (((List.range number).map numbered).map .string))

theorem parentLists_denseMembers (last : ℕ) : ParentLists (denseMembers last) := by
  intro entry hentry
  obtain ⟨number, -, rfl⟩ := List.mem_map.mp hentry
  exact .inr ⟨_, rfl⟩

theorem described_denseMembers {last : ℕ} {child parent : Bytes} :
    Described (denseMembers last) child parent ↔ ∃ number ≤ last,
      numbered number = child ∧
        ∃ lower < number, numbered lower = parent := by
  simp only [Described, denseMembers, List.mem_map, List.mem_range, Nat.lt_succ_iff,
    Prod.mk.injEq]
  constructor
  · rintro ⟨item, ⟨number, hnumber, rfl, rfl⟩, hparent⟩
    rw [Json.items, mem_map_string, List.mem_map] at hparent
    obtain ⟨lower, hlower, rfl⟩ := hparent
    exact ⟨number, hnumber, rfl, lower, List.mem_range.mp hlower, rfl⟩
  · rintro ⟨number, hnumber, rfl, lower, hlower, rfl⟩
    refine ⟨_, ⟨number, hnumber, rfl, rfl⟩, ?_⟩
    rw [Json.items, mem_map_string, List.mem_map]
    exact ⟨lower, List.mem_range.mpr hlower, rfl⟩

theorem lt_of_described {last : ℕ} {child parent : Bytes}
    (hdescribed : Described (denseMembers last) child parent) :
    parent < child := by
  obtain ⟨number, -, rfl, lower, hlower, rfl⟩ := described_denseMembers.mp hdescribed
  exact numbered_lt hlower

/-- The dense hierarchy with the numbers up to `last`. -/
def dense (last : ℕ) : Taxonomy :=
  (fromJson (.object (denseMembers last))).state

section Dense

variable (last : ℕ)

theorem dense_accepted : (fromJson (.object (denseMembers last))).thrown = none := by
  rw [fromJson_thrown_iff (parentLists_denseMembers last)]
  intro name hcycle
  have hlower : ∀ child parent, TransGen (Described (denseMembers last)) child parent →
        parent < child := by
    intro child parent hpath
    induction hpath with
    | single hstep => exact lt_of_described hstep
    | tail _ hstep ih => exact (lt_of_described hstep).trans ih
  exact lt_irrefl name (hlower name name hcycle)

theorem reachable_dense : Reachable (dense last) := .fromJson .empty _

theorem names_dense : (dense last).names = (Finset.range (last + 1)).image numbered := by
  ext name
  rw [dense, mem_names_fromJson (parentLists_denseMembers last)
    (dense_accepted last), Mentioned, mem_image]
  have hkeys : name ∈ (denseMembers last).map Prod.fst ↔
      ∃ number ∈ range (last + 1), numbered number = name := by
    simp [denseMembers]
  rw [hkeys]
  refine or_iff_left_of_imp ?_
  rintro ⟨child, hchild⟩
  obtain ⟨number, hnumber, -, lower, hlower, hname⟩ := described_denseMembers.mp hchild
  exact ⟨lower, mem_range.mpr (by omega), hname⟩

theorem parents_dense {number : ℕ} (hnumber : number ≤ last) :
    (dense last).linked .parents (numbered number) =
      (Finset.range number).image numbered := by
  ext name
  rw [dense, mem_parents_fromJson (parentLists_denseMembers last)
    (dense_accepted last), described_denseMembers, mem_image]
  constructor
  · rintro ⟨other, -, heq, lower, hlower, hname⟩
    rw [numbered_injective heq] at hlower
    exact ⟨lower, mem_range.mpr hlower, hname⟩
  · rintro ⟨lower, hlower, hname⟩
    exact ⟨number, hnumber, rfl, lower, mem_range.mp hlower, hname⟩

theorem size_dense : (dense last).categories.size = last + 1 := by
  rw [← card_names, names_dense,
    Finset.card_image_of_injective _ numbered_injective, Finset.card_range]

/-- A path from a number is a set of lower numbers that is not empty. -/
theorem paths_dense {length number : ℕ} (hlength : number ≤ length)
    (hnumber : number ≤ last) :
    paths ((dense last).linked .parents) length (numbered number) = 2 ^ number - 1 := by
  induction length generalizing number with
  | zero =>
    obtain rfl := Nat.le_zero.mp hlength
    rfl
  | succ length ih =>
    rw [Closure.paths, parents_dense last hnumber,
      Finset.sum_image numbered_injective.injOn]
    calc ∑ lower ∈ Finset.range number, (Closure.paths
            ((dense last).linked .parents) length (numbered lower) + 1)
        = ∑ lower ∈ range number, 2 ^ lower := by
          refine sum_congr rfl fun lower hlower => ?_
          have hlt := mem_range.mp hlower
          rw [ih (by omega) (by omega)]
          exact Nat.sub_add_cancel Nat.one_le_two_pow
      _ = 2 ^ number - 1 := by simp [Nat.geomSum_eq (le_refl 2)]

end Dense

/-- The number of passes may be exponential in the number of categories. -/
theorem recalcPasses_dense (last : ℕ) :
    (dense last).recalcPasses .parents (numbered last) = 2 ^ last - 1 := by
  have hbelow : ∀ name, ∀ other ∈ (dense last).linked .parents name, other < name := by
    intro name other hother
    rw [dense, mem_parents_fromJson (parentLists_denseMembers last)
      (dense_accepted last)] at hother
    exact lt_of_described hother
  have hname : numbered last ∈ (dense last).names := by
    rw [names_dense]
    exact Finset.mem_image_of_mem _ (Finset.self_mem_range_succ last)
  rw [recalcPasses_eq (reachable_dense last).invariant (.inl rfl) hbelow hname,
    pathCount, size_dense]
  exact paths_dense last (Nat.le_succ last) (le_refl last)

/-- Seven categories can take more than seven times seven passes. -/
theorem recalcPasses_exceeds_square :
    ∃ taxonomy, Reachable taxonomy ∧ ∃ name ∈ taxonomy.names,
      taxonomy.categories.size * taxonomy.categories.size <
        taxonomy.recalcPasses .parents name := by
  refine ⟨dense 6, reachable_dense 6, numbered 6, ?_, ?_⟩
  · rw [names_dense]
    exact Finset.mem_image_of_mem _ (Finset.self_mem_range_succ 6)
  · rw [size_dense, recalcPasses_dense]
    decide

end Taxonomy

end Restpose
