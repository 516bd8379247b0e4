import Mathlib

/-!
# Transitive closures under graph edits

General facts about the transitive closure of a relation: how it changes when
one edge is inserted, when it survives the deletion of edges, and how a
worklist computes it on a finite acyclic graph.  The worklist of this file
keeps no record of the vertices it has expanded, so a vertex may be expanded
many times; a weight that doubles along a topological order shows that it
ends all the same.
-/

namespace Restpose.Closure

open Relation Finset

variable {Vertex : Type*}

/-! ## Inserting and deleting edges -/

/-- The relation `edge` with one more edge, from `source` to `target`. -/
def insertEdge (edge : Vertex → Vertex → Prop) (source target : Vertex) :
    Vertex → Vertex → Prop :=
  fun left right => edge left right ∨ (left = source ∧ right = target)

variable {edge : Vertex → Vertex → Prop} {source target : Vertex}

/-- A path of the enlarged relation is an old path, or runs through the new
edge once. -/
theorem transGen_insertEdge_iff {left right : Vertex} :
    TransGen (insertEdge edge source target) left right ↔ TransGen edge left right ∨
        (ReflTransGen edge left source ∧ ReflTransGen edge target right) := by
  constructor
  · intro hpath
    induction hpath with
    | single hstep =>
      rcases hstep with hold | ⟨rfl, rfl⟩
      · exact Or.inl (TransGen.single hold)
      · exact Or.inr ⟨ReflTransGen.refl, ReflTransGen.refl⟩
    | tail _ hstep ih =>
      rcases hstep with hold | ⟨rfl, rfl⟩
      · rcases ih with hshort | ⟨hleft, hright⟩
        · exact Or.inl (hshort.tail hold)
        · exact Or.inr ⟨hleft, hright.tail hold⟩
      · rcases ih with hshort | ⟨hleft, _⟩
        · exact Or.inr ⟨hshort.to_reflTransGen, ReflTransGen.refl⟩
        · exact Or.inr ⟨hleft, ReflTransGen.refl⟩
  · have hmono : ∀ {first last : Vertex}, ReflTransGen edge first last →
        ReflTransGen (insertEdge edge source target) first last := by
      intro first last hpath
      exact ReflTransGen.mono (fun _ _ hstep => Or.inl hstep) _ _ hpath
    rintro (hold | ⟨hleft, hright⟩)
    · exact TransGen.mono (fun _ _ hstep => Or.inl hstep) _ _ hold
    · have hnew : insertEdge edge source target source target := Or.inr ⟨rfl, rfl⟩
      exact (TransGen.head' hnew (hmono hright)).trans_right (hmono hleft)

/-- An edge whose target does not lead back to its source closes no cycle. -/
theorem acyclic_insertEdge (hacyclic : ∀ vertex, ¬ TransGen edge vertex vertex)
    (hforward : ¬ ReflTransGen edge target source) (vertex : Vertex) :
    ¬ TransGen (insertEdge edge source target) vertex vertex := by
  rw [transGen_insertEdge_iff]
  rintro (hcycle | ⟨hleft, hright⟩)
  · exact hacyclic vertex hcycle
  · exact hforward (hright.trans hleft)

variable {edge' : Vertex → Vertex → Prop} {start : Vertex}

/-- Two relations with the same edges at every vertex that `start` leads to
have the same paths from `start`. -/
theorem transGen_iff_of_agree
    (hagree : ∀ left right, ReflTransGen edge start left →
      (edge left right ↔ edge' left right))
    (last : Vertex) : TransGen edge start last ↔ TransGen edge' start last := by
  constructor
  · intro hpath
    induction hpath with
    | single hstep =>
      exact TransGen.single ((hagree _ _ ReflTransGen.refl).mp hstep)
    | tail hpath hstep ih =>
      exact ih.tail ((hagree _ _ hpath.to_reflTransGen).mp hstep)
  · intro hpath
    induction hpath with
    | single hstep =>
      exact TransGen.single ((hagree _ _ ReflTransGen.refl).mpr hstep)
    | tail _ hstep ih =>
      exact ih.tail ((hagree _ _ ih.to_reflTransGen).mpr hstep)

/-- Deleting edges leaves no more cycles than there were. -/
theorem acyclic_of_subrelation (hsub : ∀ left right, edge' left right → edge left right)
    (hacyclic : ∀ vertex, ¬ TransGen edge vertex vertex) (vertex : Vertex) :
    ¬ TransGen edge' vertex vertex :=
  fun hcycle => hacyclic vertex (TransGen.mono hsub _ _ hcycle)

/-- The relation `edge` without the edge from `source` to `target`. -/
def eraseEdge (edge : Vertex → Vertex → Prop) (source target : Vertex) :
    Vertex → Vertex → Prop :=
  fun left right => edge left right ∧ ¬ (left = source ∧ right = target)

/-- Erasing an edge does not matter to a vertex that does not lead to it. -/
theorem transGen_eraseEdge_iff
    (hunused : edge source target → ¬ ReflTransGen edge start source) (last : Vertex) :
    TransGen edge start last ↔ TransGen (eraseEdge edge source target) start last := by
  refine transGen_iff_of_agree ?_ last
  intro left right hreach
  refine ⟨fun hedge => ⟨hedge, ?_⟩, And.left⟩
  rintro ⟨rfl, rfl⟩
  exact hunused hedge hreach

/-- The relation `edge` without the edges into `vertex`. -/
def cutInto (edge : Vertex → Vertex → Prop) (vertex : Vertex) :
    Vertex → Vertex → Prop :=
  fun left right => edge left right ∧ right ≠ vertex

/-- Cutting the edges into a vertex does not matter where it is not reached. -/
theorem transGen_cutInto_iff {vertex : Vertex} (hunused : ¬ TransGen edge start vertex)
    (last : Vertex) :
    TransGen edge start last ↔ TransGen (cutInto edge vertex) start last := by
  refine transGen_iff_of_agree ?_ last
  intro left right hreach
  refine ⟨fun hedge => ⟨hedge, ?_⟩, And.left⟩
  rintro rfl
  exact hunused (TransGen.tail' hreach hedge)

/-- Once a vertex cannot be entered, the edges out of it matter to no other
vertex. -/
theorem transGen_cutInto_iff_of_ne {vertex : Vertex} (hstart : start ≠ vertex)
    (last : Vertex) :
    TransGen (cutInto edge vertex) start last ↔
      TransGen (fun left right => left ≠ vertex ∧ cutInto edge vertex left right)
        start last := by
  refine transGen_iff_of_agree ?_ last
  intro left right hreach
  refine ⟨fun hedge => ⟨?_, hedge⟩, And.right⟩
  rcases reflTransGen_iff_eq_or_transGen.mp hreach with rfl | hpath
  · exact hstart
  · obtain ⟨_, _, _, hne⟩ := TransGen.tail'_iff.mp hpath
    exact hne

/-! ## Computing a closure with a worklist -/

section Worklist

variable [DecidableEq Vertex] (next : Vertex → Finset Vertex)

/-- What a worklist has found and what it still holds together account for
every vertex that `start` leads to. -/
def WorklistCovers (start : Vertex) (found pending : Finset Vertex) : Prop :=
  ∀ vertex, TransGen (fun left right => right ∈ next left) start vertex ↔
    vertex ∈ found ∨ ∃ key ∈ pending,
      ReflTransGen (fun left right => right ∈ next left) key vertex

omit [DecidableEq Vertex] in
theorem worklistCovers_init (start : Vertex) :
    WorklistCovers next start ∅ (next start) := by
  intro vertex
  rw [TransGen.head'_iff]
  simp

variable {pending : Finset Vertex}

/-- One pass of the worklist: a pending vertex is found and its successors
become pending. -/
theorem worklistCovers_step {start : Vertex} {found : Finset Vertex}
    (hcovers : WorklistCovers next start found pending) {key : Vertex}
    (hkey : key ∈ pending) :
    WorklistCovers next start (insert key found) (pending.erase key ∪ next key) := by
  intro vertex
  rw [hcovers vertex]
  constructor
  · rintro (hfound | ⟨origin, horigin, hpath⟩)
    · exact Or.inl (mem_insert_of_mem hfound)
    · by_cases hsame : origin = key
      · subst origin
        rcases ReflTransGen.cases_head hpath with rfl | ⟨middle, hstep, hrest⟩
        · exact Or.inl (mem_insert_self _ _)
        · exact Or.inr ⟨middle, mem_union_right _ hstep, hrest⟩
      · exact Or.inr ⟨origin, mem_union_left _ (mem_erase.mpr ⟨hsame, horigin⟩), hpath⟩
  · rintro (hfound | ⟨origin, horigin, hpath⟩)
    · rcases mem_insert.mp hfound with rfl | hfound
      · exact Or.inr ⟨vertex, hkey, ReflTransGen.refl⟩
      · exact Or.inl hfound
    · rcases mem_union.mp horigin with hold | hnew
      · exact Or.inr ⟨origin, mem_of_mem_erase hold, hpath⟩
      · exact Or.inr ⟨key, hkey, ReflTransGen.head hnew hpath⟩

/-- A topological numbering of a finite acyclic graph: successors have the
smaller number, and distinct vertices have distinct numbers. -/
structure Ranking (vertices : Finset Vertex) where
  rank : Vertex → ℕ
  lt_card : ∀ vertex ∈ vertices, rank vertex < vertices.card
  injOn : Set.InjOn rank vertices
  decreasing : ∀ vertex ∈ vertices, ∀ successor ∈ next vertex,
    successor ∈ vertices → rank successor < rank vertex

theorem exists_ranking (vertices : Finset Vertex)
    (hacyclic : ∀ vertex,
      ¬ TransGen (fun left right => right ∈ next left) vertex vertex) :
    Nonempty (Ranking next vertices) := by
  classical
  let below : Vertex → Vertex → Prop := fun left right =>
    ReflTransGen (fun first second => second ∈ next first) right left
  have hpartial : IsPartialOrder Vertex below :=
    { refl := fun _ => ReflTransGen.refl
      trans := fun _ _ _ hleft hright => hright.trans hleft
      antisymm := by
        intro left right hleft hright
        rcases ReflTransGen.cases_head hleft with heq | ⟨middle, hstep, hrest⟩
        · exact heq.symm
        · exact absurd (TransGen.head' hstep (hrest.trans hright))
            (hacyclic right) }
  obtain ⟨order, hlinear, hextends⟩ := extend_partialOrder below
  let rank : Vertex → ℕ := fun vertex =>
    (vertices.filter fun other => order other vertex ∧ other ≠ vertex).card
  have hmono : ∀ left ∈ vertices, ∀ right, order left right → left ≠ right →
      rank left < rank right := by
    intro left hleft right horder hne
    apply card_lt_card
    refine ssubset_iff_of_subset ?_ |>.mpr ⟨left, ?_, ?_⟩
    · intro other hother
      simp only [mem_filter] at hother ⊢
      refine ⟨hother.1, hlinear.trans _ _ _ hother.2.1 horder, ?_⟩
      rintro rfl
      exact hne (hlinear.antisymm _ _ horder hother.2.1)
    · simp [hleft, horder, hne]
    · simp
  refine ⟨{ rank := rank, lt_card := ?_, injOn := ?_, decreasing := ?_ }⟩
  · intro vertex hvertex
    apply card_lt_card
    exact filter_ssubset.mpr ⟨vertex, hvertex, by simp⟩
  · intro left hleft right hright heq
    by_contra hne
    rcases hlinear.total left right with horder | horder
    · exact absurd heq (hmono left hleft right horder hne).ne
    · exact absurd heq (hmono right hright left horder (Ne.symm hne)).ne'
  · intro vertex _ successor hsuccessor hmember
    refine hmono successor hmember vertex
      (hextends _ _ (ReflTransGen.single hsuccessor)) ?_
    rintro rfl
    exact hacyclic _ (TransGen.single hsuccessor)

variable {next}

/-- The weight of a set of pending vertices. -/
def Ranking.weight {vertices : Finset Vertex} (ranking : Ranking next vertices)
    (pending : Finset Vertex) : ℕ :=
  ∑ vertex ∈ pending, 2 ^ ranking.rank vertex

omit [DecidableEq Vertex] in
theorem Ranking.weight_lt {vertices : Finset Vertex} (ranking : Ranking next vertices)
    {bound : ℕ} (hsubset : pending ⊆ vertices)
    (hbound : ∀ vertex ∈ pending, ranking.rank vertex < bound) :
    ranking.weight pending < 2 ^ bound := by
  have hinjective : Set.InjOn ranking.rank pending :=
    ranking.injOn.mono (by exact_mod_cast hsubset)
  rw [weight, ← sum_image (f := fun rank => 2 ^ rank) hinjective]
  apply Nat.geomSum_lt (le_refl 2)
  intro rank hrank
  obtain ⟨vertex, hvertex, rfl⟩ := mem_image.mp hrank
  exact hbound vertex hvertex

/-- Replacing a pending vertex by its successors lowers the weight, since the
successors together weigh less than the vertex. -/
theorem Ranking.weight_step {vertices : Finset Vertex} (ranking : Ranking next vertices)
    {key : Vertex} (hkey : key ∈ pending) (hvertex : key ∈ vertices)
    (hnext : next key ⊆ vertices) :
    ranking.weight (pending.erase key ∪ next key) < ranking.weight pending := by
  have hsuccessors : ranking.weight (next key) < 2 ^ ranking.rank key := by
    apply ranking.weight_lt hnext
    intro successor hsuccessor
    exact ranking.decreasing key hvertex successor hsuccessor (hnext hsuccessor)
  have hunion : ranking.weight (pending.erase key ∪ next key) ≤
      ranking.weight (pending.erase key) + ranking.weight (next key) := by
    unfold weight
    rw [← sum_union_inter]
    exact Nat.le_add_right _ _
  have hsplit : ranking.weight (pending.erase key) + 2 ^ ranking.rank key =
      ranking.weight pending :=
    sum_erase_add pending (fun vertex => 2 ^ ranking.rank vertex) hkey
  omega

/-! ## How long a worklist runs -/

variable (next) in
omit [DecidableEq Vertex] in
/-- The number of paths of at least one and at most `length` edges that start
at a vertex. -/
def paths : ℕ → Vertex → ℕ
  | 0, _ => 0
  | length + 1, vertex => ∑ successor ∈ next vertex, (paths length successor + 1)

section Paths

variable {vertices : Finset Vertex}
  (hclosed : ∀ vertex ∈ vertices, next vertex ⊆ vertices)
  (ranking : Ranking next vertices)

include hclosed ranking

variable {vertex : Vertex}

omit [DecidableEq Vertex] in
/-- No path is longer than the number of its first vertex. -/
theorem Ranking.paths_succ {length : ℕ} (hvertex : vertex ∈ vertices)
    (hrank : ranking.rank vertex ≤ length) :
    paths next (length + 1) vertex = paths next length vertex := by
  have hlower : ∀ successor ∈ next vertex,
      ranking.rank successor < ranking.rank vertex := fun successor hnext =>
    ranking.decreasing vertex hvertex successor hnext (hclosed vertex hvertex hnext)
  induction length generalizing vertex with
  | zero =>
    refine sum_eq_zero fun successor hnext => ?_
    exact absurd (hlower successor hnext) (by omega)
  | succ length ih =>
    refine sum_congr rfl fun successor hnext => ?_
    have hsuccessor := hclosed vertex hvertex hnext
    have hlength : ranking.rank successor ≤ length :=
      Nat.le_of_lt_succ ((hlower successor hnext).trans_le hrank)
    rw [ih hsuccessor hlength fun other hother =>
      ranking.decreasing successor hsuccessor other hother
        (hclosed successor hsuccessor hother)]

omit [DecidableEq Vertex] in
theorem Ranking.paths_card (hvertex : vertex ∈ vertices) :
    paths next vertices.card vertex =
      ∑ successor ∈ next vertex, (paths next vertices.card successor + 1) :=
  (ranking.paths_succ hclosed hvertex (ranking.lt_card vertex hvertex).le).symm

omit [DecidableEq Vertex] in
theorem Ranking.paths_lt {length : ℕ} (hvertex : vertex ∈ vertices) :
    paths next length vertex < 2 ^ ranking.rank vertex := by
  induction length generalizing vertex with
  | zero => exact Nat.two_pow_pos _
  | succ length ih =>
    have hnext := hclosed vertex hvertex
    calc paths next (length + 1) vertex ≤ ranking.weight (next vertex) :=
          sum_le_sum fun successor hsuccessor =>
            ih (hnext hsuccessor)
      _ < 2 ^ ranking.rank vertex := ranking.weight_lt hnext fun successor hsuccessor =>
            ranking.decreasing vertex hvertex successor hsuccessor (hnext hsuccessor)

/-- What pending vertices cost: each stands for the paths that start at it. -/
def pathWeight (next : Vertex → Finset Vertex) (length : ℕ)
    (pending : Finset Vertex) : ℕ :=
  ∑ vertex ∈ pending, (paths next length vertex + 1)

/-- A pass costs one.  It costs more where a successor is pending already,
since its paths are then followed only once. -/
theorem Ranking.pathWeight_step {key : Vertex} (hkey : key ∈ pending)
    (hvertex : key ∈ vertices) :
    pathWeight next vertices.card (pending.erase key ∪ next key) + 1 ≤
        pathWeight next vertices.card pending ∧
      (Disjoint (pending.erase key) (next key) →
        pathWeight next vertices.card (pending.erase key ∪ next key) + 1 =
          pathWeight next vertices.card pending) := by
  have hkeyed : pathWeight next vertices.card (next key) = paths next vertices.card key :=
    (ranking.paths_card hclosed hvertex).symm
  have hsplit : pathWeight next vertices.card (pending.erase key) +
      (paths next vertices.card key + 1) = pathWeight next vertices.card pending :=
    sum_erase_add pending _ hkey
  have hunion : pathWeight next vertices.card (pending.erase key ∪ next key) +
      pathWeight next vertices.card (pending.erase key ∩ next key) =
        pathWeight next vertices.card (pending.erase key) +
          pathWeight next vertices.card (next key) :=
    sum_union_inter
  refine ⟨by omega, fun hdisjoint => ?_⟩
  rw [disjoint_iff_inter_eq_empty.mp hdisjoint] at hunion
  have hnone : pathWeight next vertices.card ∅ = 0 := sum_empty
  omega

end Paths

omit [DecidableEq Vertex] in
/-- The number of paths does not depend on what the vertices are. -/
theorem paths_image {Vertex' : Type*} [DecidableEq Vertex']
    {next' : Vertex' → Finset Vertex'} {vertices : Finset Vertex}
    {rename : Vertex → Vertex'} (hinjective : Set.InjOn rename vertices)
    (hclosed : ∀ vertex ∈ vertices, next vertex ⊆ vertices)
    (himage : ∀ vertex ∈ vertices, next' (rename vertex) = (next vertex).image rename)
    (length : ℕ) {vertex : Vertex} (hvertex : vertex ∈ vertices) :
    paths next' length (rename vertex) = paths next length vertex := by
  induction length generalizing vertex with
  | zero => rfl
  | succ length ih =>
    have hnext := hclosed vertex hvertex
    rw [paths, himage vertex hvertex, sum_image]
    · exact sum_congr rfl fun successor hsuccessor => by
        rw [ih (hnext hsuccessor)]
    · exact hinjective.mono (by exact_mod_cast hnext)

end Worklist

end Restpose.Closure
