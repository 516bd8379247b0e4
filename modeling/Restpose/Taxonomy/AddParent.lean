import Restpose.Taxonomy.Invariant

/-!
# Adding categories and edges

`add_parent` inserts one edge and then repairs the closures with two nested
loops.  The first relates every descendant of the category to every ancestor
of it, the second every ancestor of the parent to every descendant of it; by
then the parent counts the category and its descendants among its own.
-/

namespace Restpose

open Relation Finset Category Closure

namespace Edit

/-- Two nested loops over two sets of one category run their body on every
pair of the two sets, provided that the body leaves both sets alone. -/
theorem forLinked_nested {outer inner : Link} {name : Bytes}
    {body : Bytes → Bytes → Edit → Edit} {outers inners : Categories}
    (invariant : (Bytes → Bytes → Prop) → Edit → Prop)
    (hcongr : ∀ pairs pairs' edit, (∀ left right, pairs left right ↔
      pairs' left right) → invariant pairs edit → invariant pairs' edit)
    (hread : ∀ pairs edit,
      (∀ left right, pairs left right → left ∈ outers ∧ right ∈ inners) →
      invariant pairs edit →
        edit.taxonomy.linked outer name = outers ∧
          edit.taxonomy.linked inner name = inners ∧
            outers ⊆ edit.taxonomy.names ∧ inners ⊆ edit.taxonomy.names)
    (hbody : ∀ pairs edit left right, left ∈ outers → right ∈ inners →
      invariant pairs edit →
        invariant (insertEdge pairs left right) (body left right edit))
    {edit : Edit} (hinit : invariant (fun _ _ => False) edit) :
    invariant (fun left right => left ∈ outers ∧ right ∈ inners)
      (edit.forLinked outer name fun left =>
        forLinked inner name (body left)) := by
  let outerInvariant : Categories → Edit → Prop := fun visited current =>
    visited ⊆ outers ∧ invariant (fun left right => left ∈ visited ∧ right ∈ inners)
      current
  have hinside : ∀ visited : Categories, visited ⊆ outers →
      ∀ left right, left ∈ visited ∧ right ∈ inners →
        left ∈ outers ∧ right ∈ inners :=
    fun visited hvisited left right hpair => ⟨hvisited hpair.1, hpair.2⟩
  have hrun : outerInvariant outers (edit.forLinked outer name fun left =>
      forLinked inner name (body left)) := by
    apply forLinked_invariant outerInvariant
    · rintro visited current ⟨hvisited, hinvariant⟩
      exact (hread _ _ (hinside visited hvisited) hinvariant).1
    · rintro visited current left ⟨hvisited, hinvariant⟩ hleft hfresh
      refine ⟨insert_subset hleft hvisited, ?_⟩
      let innerInvariant : Categories → Edit → Prop := fun seen state =>
        seen ⊆ inners ∧ invariant (fun first second =>
          (first ∈ visited ∧ second ∈ inners) ∨ (first = left ∧ second ∈ seen)) state
      have hinner : innerInvariant inners (current.forLinked inner name (body left)) := by
        apply forLinked_invariant innerInvariant
        · rintro seen state ⟨hseen, hstate⟩
          refine (hread _ _ ?_ hstate).2.1
          rintro first second (hpair | ⟨rfl, hsecond⟩)
          · exact hinside visited hvisited first second hpair
          · exact ⟨hleft, hseen hsecond⟩
        · rintro seen state right ⟨hseen, hstate⟩ hright _
          refine ⟨insert_subset hright hseen, ?_⟩
          refine hcongr _ _ _ ?_ (hbody _ _ left right hleft hright hstate)
          intro first second
          simp only [insertEdge, mem_insert]
          tauto
        · exact (hread _ _ (hinside visited hvisited) hinvariant).2.2.2
        · refine ⟨empty_subset _, hcongr _ _ _ ?_ hinvariant⟩
          simp
      refine hcongr _ _ _ ?_ hinner.2
      intro first second
      simp only [mem_insert]
      tauto
    · exact (hread _ _ (by simp) hinit).2.2.1
    · refine ⟨empty_subset _, hcongr _ _ _ ?_ hinit⟩
      simp
  exact hrun.2

section Spread

variable {base start : Edit} {name : Bytes}

/-- What the two nested loops rely on: no set of the category they iterate over
contains the category itself, so the loops do not change the sets they read. -/
structure Spreadable (base start : Edit) (name : Bytes) : Prop where
  grown : Grown base start
  descendants_known :
    start.taxonomy.linked .descendants name ⊆ start.taxonomy.names
  ancestors_known : start.taxonomy.linked .ancestors name ⊆ start.taxonomy.names
  notMem_descendants : name ∉ start.taxonomy.linked .descendants name
  notMem_ancestors : name ∉ start.taxonomy.linked .ancestors name

/-- The pairs of a descendant and an ancestor of one category. -/
def spreadPairs (start : Edit) (name : Bytes)
    (descendant ancestor : Bytes) : Prop :=
  descendant ∈ start.taxonomy.linked .descendants name ∧
    ancestor ∈ start.taxonomy.linked .ancestors name

variable {pairs : Bytes → Bytes → Prop}

theorem Spreadable.read (hspread : Spreadable base start name) {edit : Edit}
    (hpairs : ∀ descendant ancestor, pairs descendant ancestor →
      spreadPairs start name descendant ancestor)
    (henlarged : Enlarged base start pairs pairs edit) :
    edit.taxonomy.linked .descendants name = start.taxonomy.linked .descendants name ∧
      edit.taxonomy.linked .ancestors name = start.taxonomy.linked .ancestors name := by
  constructor
  · ext other
    rw [henlarged.descendants]
    refine or_iff_left fun hpair => ?_
    exact hspread.notMem_ancestors (hpairs _ _ hpair).2
  · ext other
    rw [henlarged.ancestors]
    refine or_iff_left fun hpair => ?_
    exact hspread.notMem_descendants (hpairs _ _ hpair).1

section Relate

variable {edit : Edit} (henlarged : Enlarged base start pairs pairs edit)
  {descendant ancestor : Bytes} (hdescendant : descendant ∈ start.taxonomy.names)
  (hancestor : ancestor ∈ start.taxonomy.names)

include henlarged hdescendant hancestor

theorem enlarged_relate : Enlarged base start (insertEdge pairs descendant ancestor)
      (insertEdge pairs descendant ancestor) (relate descendant ancestor edit) := by
  have hup := henlarged.addAncestor ancestor (henlarged.names_eq ▸ hdescendant)
  exact hup.addDescendant descendant (hup.names_eq ▸ hancestor)

theorem enlarged_relate_down : Enlarged base start (insertEdge pairs descendant ancestor)
      (insertEdge pairs descendant ancestor)
      ((edit.mutate ancestor (addDescendant descendant)).mutate
        descendant (addAncestor ancestor)) := by
  have hdown := henlarged.addDescendant descendant (henlarged.names_eq ▸ hancestor)
  exact hdown.addAncestor ancestor (hdown.names_eq ▸ hdescendant)

end Relate

theorem Spreadable.loop_up (hspread : Spreadable base start name) :
    Enlarged base start (spreadPairs start name) (spreadPairs start name)
      (start.forLinked .descendants name fun descendant =>
        forLinked .ancestors name fun ancestor =>
          relate descendant ancestor) := by
  apply forLinked_nested (fun pairs edit => Enlarged base start pairs pairs edit)
  · intro pairs pairs' edit hiff henlarged
    exact henlarged.congr hiff hiff
  · intro pairs edit hpairs henlarged
    obtain ⟨hdescendants, hancestors⟩ := hspread.read hpairs henlarged
    rw [henlarged.names_eq]
    exact ⟨hdescendants, hancestors, hspread.descendants_known, hspread.ancestors_known⟩
  · intro pairs edit descendant ancestor hdescendant hancestor henlarged
    exact enlarged_relate henlarged (hspread.descendants_known hdescendant)
      (hspread.ancestors_known hancestor)
  · exact Enlarged.refl hspread.grown

/-- The second pair of nested loops of `add_parent`, which has the two sets
the other way round. -/
theorem Spreadable.loop_down (hspread : Spreadable base start name) :
    Enlarged base start (spreadPairs start name) (spreadPairs start name)
      (start.forLinked .ancestors name fun ancestor =>
        forLinked .descendants name fun descendant current =>
          (current.mutate ancestor (addDescendant descendant)).mutate
            descendant (addAncestor ancestor)) := by
  let invariant : (Bytes → Bytes → Prop) → Edit → Prop :=
    fun pairs edit => Enlarged base start (Function.swap pairs) (Function.swap pairs) edit
  have hloop : invariant (fun ancestor descendant =>
        ancestor ∈ start.taxonomy.linked .ancestors name ∧
          descendant ∈ start.taxonomy.linked .descendants name)
      (start.forLinked .ancestors name fun ancestor =>
        forLinked .descendants name fun descendant current =>
          (current.mutate ancestor (addDescendant descendant)).mutate
            descendant (addAncestor ancestor)) := by
    apply forLinked_nested invariant
    · intro pairs pairs' edit hiff henlarged
      exact henlarged.congr (fun left right => hiff right left)
        (fun left right => hiff right left)
    · intro pairs edit hpairs henlarged
      obtain ⟨hdescendants, hancestors⟩ := hspread.read
        (fun left right hpair => (hpairs right left hpair).symm) henlarged
      rw [henlarged.names_eq]
      exact ⟨hancestors, hdescendants, hspread.ancestors_known, hspread.descendants_known⟩
    · intro pairs edit ancestor descendant hancestor hdescendant henlarged
      refine (enlarged_relate_down henlarged (hspread.descendants_known hdescendant)
        (hspread.ancestors_known hancestor)).congr ?_ ?_
      all_goals exact fun left right => or_congr_right and_comm
    · exact Enlarged.refl hspread.grown
  exact hloop.congr (fun left right => and_comm) (fun left right => and_comm)

end Spread

/-! ## The new edge -/

section Attach

variable {edit : Edit} {name parent : Bytes}

theorem grown_attach {base : Edit} (hgrown : Grown base edit) (name parent : Bytes) :
    Grown base (edit.attach name parent) :=
  hgrown
    |>.mutate (mutates_addParent parent) (subset_changeBoth _ _ _) name
    |>.mutate (mutates_addAncestor parent) (subset_changeAt_insert _ _) name
    |>.mutate (mutates_addChild name) (subset_changeBoth _ _ _) parent
    |>.mutate (mutates_addDescendant name) (subset_changeAt_insert _ _) parent

@[simp]
theorem names_attach (edit : Edit) (name parent : Bytes) :
    (edit.attach name parent).taxonomy.names = edit.taxonomy.names := by
  simp [attach]

theorem linked_attach (hne : name ≠ parent) (hname : name ∈ edit.taxonomy.names)
    (hparent : parent ∈ edit.taxonomy.names) (link : Link) (other : Bytes) :
    (edit.attach name parent).taxonomy.linked link other =
      if other = name ∧ (link = .parents ∨ link = .ancestors) then
        insert parent (edit.taxonomy.linked link name)
      else if other = parent ∧ (link = .children ∨ link = .descendants) then
        insert name (edit.taxonomy.linked link parent)
      else edit.taxonomy.linked link other := by
  unfold attach
  simp only [linked_mutate (mutates_addParent _), linked_mutate (mutates_addAncestor _),
    linked_mutate (mutates_addChild _), linked_mutate (mutates_addDescendant _),
    names_mutate, hname, hparent, and_true, if_true, hne.symm, if_false]
  by_cases hfirst : other = name
  · subst other
    cases link <;> simp [changeAt, changeBoth, hne]
  · by_cases hsecond : other = parent
    · subst other
      cases link <;> simp [changeAt, changeBoth, hfirst]
    · simp [hfirst, hsecond]

end Attach

/-! ## The whole operation -/

section Connect

variable {base edit : Edit} {name parent : Bytes}

/-- What `add_parent` has established when it starts to change edges. -/
structure Connectable (base edit : Edit) (name parent : Bytes) :
    Prop where
  wellFormed : edit.taxonomy.WellFormed
  grown : Grown base edit
  ne : name ≠ parent
  name_known : name ∈ edit.taxonomy.names
  parent_known : parent ∈ edit.taxonomy.names
  forward : parent ∉ edit.taxonomy.linked .descendants name

namespace Connectable

/-- The pairs by which `add_parent` enlarges the closures: everything at or
below the category against everything at or above the parent. -/
def NewPair (edit : Edit) (name parent descendant ancestor : Bytes) :
    Prop :=
  (descendant = name ∨ descendant ∈ edit.taxonomy.linked .descendants name) ∧
    (ancestor = parent ∨ ancestor ∈ edit.taxonomy.linked .ancestors parent)

variable (hconnect : Connectable base edit name parent)

include hconnect

theorem linked_attach_known (link : Link) (other : Bytes) :
    (edit.attach name parent).taxonomy.linked link other ⊆ edit.taxonomy.names := by
  rw [linked_attach hconnect.ne hconnect.name_known hconnect.parent_known]
  split
  · exact insert_subset hconnect.parent_known (hconnect.wellFormed.known link name)
  · split
    · exact insert_subset hconnect.name_known (hconnect.wellFormed.known link parent)
    · exact hconnect.wellFormed.known link other

theorem mem_above {link : Link} (hlink : link = .parents ∨ link = .ancestors)
    (child other : Bytes) :
    other ∈ (edit.attach name parent).taxonomy.linked link child ↔
      other ∈ edit.taxonomy.linked link child ∨ (child = name ∧ other = parent) := by
  rw [linked_attach hconnect.ne hconnect.name_known hconnect.parent_known]
  by_cases hchild : child = name
  · subst child
    simp [hlink, or_comm]
  · rcases hlink with rfl | rfl <;> simp [hchild]

theorem mem_below {link : Link} (hlink : link = .children ∨ link = .descendants)
    (above other : Bytes) :
    other ∈ (edit.attach name parent).taxonomy.linked link above ↔
      other ∈ edit.taxonomy.linked link above ∨ (other = name ∧ above = parent) := by
  rw [linked_attach hconnect.ne hconnect.name_known hconnect.parent_known]
  by_cases habove : above = parent
  · subst above
    simp [hlink, hconnect.ne.symm, or_comm]
  · rcases hlink with rfl | rfl <;> simp [habove]

theorem spreadable_name : Spreadable base (edit.attach name parent) name where
  grown := grown_attach hconnect.grown name parent
  descendants_known := by
    rw [names_attach]
    exact hconnect.linked_attach_known .descendants name
  ancestors_known := by
    rw [names_attach]
    exact hconnect.linked_attach_known .ancestors name
  notMem_descendants := by
    rw [hconnect.mem_below (Or.inr rfl)]
    rintro (hmem | ⟨_, heq⟩)
    · exact hconnect.wellFormed.notMem_descendants name hmem
    · exact hconnect.ne heq
  notMem_ancestors := by
    rw [hconnect.mem_above (Or.inr rfl)]
    rintro (hmem | ⟨_, heq⟩)
    · exact hconnect.wellFormed.notMem_ancestors name hmem
    · exact hconnect.ne heq

theorem newPair_iff (descendant ancestor : Bytes) :
    NewPair edit name parent descendant ancestor ↔
      ReflTransGen (edit.taxonomy.Edge .parents) descendant name ∧
        ReflTransGen (edit.taxonomy.Edge .parents) parent ancestor := by
  rw [NewPair, hconnect.wellFormed.mem_descendants_iff, hconnect.wellFormed.ancestors_iff,
    reflTransGen_iff_eq_or_transGen, reflTransGen_iff_eq_or_transGen, eq_comm]

/-- A descendant of the category is below every ancestor of it already. -/
theorem mem_ancestors_of_middle {middle descendant ancestor : Bytes}
    (hbelow : descendant ∈ edit.taxonomy.linked .descendants middle)
    (habove : ancestor ∈ edit.taxonomy.linked .ancestors middle) :
    ancestor ∈ edit.taxonomy.linked .ancestors descendant := by
  rw [hconnect.wellFormed.mem_descendants_iff] at hbelow
  rw [hconnect.wellFormed.ancestors_iff] at habove ⊢
  exact hbelow.trans habove

section Spread

variable {spread : Edit} (hspread : Enlarged base (edit.attach name parent)
  (spreadPairs (edit.attach name parent) name)
  (spreadPairs (edit.attach name parent) name) spread)

include hspread

/-- After the first loop the parent has its old ancestors, and the category
and its descendants among its own descendants. -/
theorem ancestors_parent (other : Bytes) :
    other ∈ spread.taxonomy.linked .ancestors parent ↔
      other ∈ edit.taxonomy.linked .ancestors parent := by
  rw [hspread.ancestors, spreadPairs, hconnect.mem_above (Or.inr rfl),
    hconnect.mem_below (Or.inr rfl)]
  have hforward := hconnect.forward
  have hne := hconnect.ne
  have hne' := hconnect.ne.symm
  tauto

theorem descendants_parent (other : Bytes) :
    other ∈ spread.taxonomy.linked .descendants parent ↔
      other ∈ edit.taxonomy.linked .descendants parent ∨ other = name ∨
        other ∈ edit.taxonomy.linked .descendants name := by
  rw [hspread.descendants, spreadPairs, hconnect.mem_below (Or.inr rfl),
    hconnect.mem_below (Or.inr rfl), hconnect.mem_above (Or.inr rfl)]
  have hne := hconnect.ne
  tauto

theorem spreadable_parent : Spreadable base spread parent where
  grown := hspread.grown
  descendants_known := by
    intro other hother
    rw [hspread.names_eq, names_attach]
    rcases (hconnect.descendants_parent hspread other).mp hother with
      hold | rfl | hbelow
    · exact hconnect.wellFormed.known _ _ hold
    · exact hconnect.name_known
    · exact hconnect.wellFormed.known _ _ hbelow
  ancestors_known := by
    intro other hother
    rw [hspread.names_eq, names_attach]
    exact hconnect.wellFormed.known _ _
      ((hconnect.ancestors_parent hspread other).mp hother)
  notMem_descendants := by
    rw [hconnect.descendants_parent hspread]
    rintro (hold | heq | hbelow)
    · exact hconnect.wellFormed.notMem_descendants parent hold
    · exact hconnect.ne heq.symm
    · exact hconnect.forward hbelow
  notMem_ancestors := by
    rw [hconnect.ancestors_parent hspread]
    exact hconnect.wellFormed.notMem_ancestors parent

/-- The nested loops enlarge each closure by the new pairs and by pairs that
were related before. -/
theorem spreadPairs_iff (descendant ancestor : Bytes) :
    (((ancestor ∈ edit.taxonomy.linked .ancestors descendant ∨
        (descendant = name ∧ ancestor = parent)) ∨
      spreadPairs (edit.attach name parent) name descendant ancestor) ∨
      spreadPairs spread parent descendant ancestor) ↔
    ancestor ∈ edit.taxonomy.linked .ancestors descendant ∨
      NewPair edit name parent descendant ancestor := by
  rw [spreadPairs, spreadPairs, hconnect.descendants_parent hspread,
    hconnect.ancestors_parent hspread, hconnect.mem_below (Or.inr rfl),
    hconnect.mem_above (Or.inr rfl), NewPair]
  constructor
  · rintro (((hold | ⟨hdown, hup⟩) | ⟨hbelow | ⟨_, heq⟩, habove⟩)
      | ⟨hbelow | hbelow, habove⟩)
    · exact Or.inl hold
    · exact Or.inr ⟨Or.inl hdown, Or.inl hup⟩
    · rcases habove with habove | ⟨_, hup⟩
      · exact Or.inl (hconnect.mem_ancestors_of_middle hbelow habove)
      · exact Or.inr ⟨Or.inr hbelow, Or.inl hup⟩
    · exact absurd heq hconnect.ne
    · exact Or.inl (hconnect.mem_ancestors_of_middle hbelow habove)
    · exact Or.inr ⟨hbelow, Or.inr habove⟩
  · rintro (hold | ⟨hbelow, habove⟩)
    · exact Or.inl (Or.inl (Or.inl hold))
    · rcases habove with hup | habove
      · rcases hbelow with hdown | hbelow
        · exact Or.inl (Or.inl (Or.inr ⟨hdown, hup⟩))
        · exact Or.inl (Or.inr ⟨Or.inl hbelow, Or.inr ⟨rfl, hup⟩⟩)
      · exact Or.inr ⟨Or.inr hbelow, habove⟩

end Spread

/-- The four relations after `add_parent`. -/
theorem connect_spec : Grown base (edit.connect name parent) ∧
      (edit.connect name parent).taxonomy.names = edit.taxonomy.names ∧
      (∀ child other, other ∈ (edit.connect name parent).taxonomy.linked .parents child ↔
          other ∈ edit.taxonomy.linked .parents child ∨ (child = name ∧ other = parent)) ∧
      (∀ above other, other ∈ (edit.connect name parent).taxonomy.linked .children above ↔
          other ∈ edit.taxonomy.linked .children above ∨
            (other = name ∧ above = parent)) ∧
      (∀ child other, other ∈ (edit.connect name parent).taxonomy.linked
        .ancestors child ↔
          other ∈ edit.taxonomy.linked .ancestors child ∨
            NewPair edit name parent child other) ∧
      ∀ above other, other ∈ (edit.connect name parent).taxonomy.linked
        .descendants above ↔
          other ∈ edit.taxonomy.linked .descendants above ∨
            NewPair edit name parent other above := by
  have hup := hconnect.spreadable_name.loop_up
  have hdown := (hconnect.spreadable_parent hup).loop_down
  have hpairs := hconnect.spreadPairs_iff hup
  refine ⟨hdown.grown, ?_, ?_, ?_, ?_, ?_⟩
  · exact hdown.names_eq.trans (hup.names_eq.trans (names_attach _ _ _))
  · intro child other
    rw [← hconnect.mem_above (Or.inl rfl), ← hup.parents, ← hdown.parents, connect]
  · intro above other
    rw [← hconnect.mem_below (Or.inl rfl), ← hup.children, ← hdown.children, connect]
  · intro child other
    rw [connect, hdown.ancestors, hup.ancestors, hconnect.mem_above (Or.inr rfl), hpairs]
  · intro above other
    rw [connect, hdown.descendants, hup.descendants, hconnect.mem_below (Or.inr rfl),
      ← hconnect.wellFormed.mem_ancestors_comm, hpairs]

theorem wellFormed_connect : (edit.connect name parent).taxonomy.WellFormed := by
  obtain ⟨_, hnames, hparents, hchildren, hancestors, hdescendants⟩ :=
    hconnect.connect_spec
  have hwell := hconnect.wellFormed
  have hedge : (edit.connect name parent).taxonomy.Edge .parents =
      insertEdge (edit.taxonomy.Edge .parents) name parent := by
    funext child other
    exact propext (hparents child other)
  have hclosure : ∀ child other, other ∈ edit.taxonomy.linked .ancestors child ∨
          NewPair edit name parent child other ↔
        TransGen ((edit.connect name parent).taxonomy.Edge .parents) child other := by
    intro child other
    rw [hedge, transGen_insertEdge_iff, hwell.ancestors_iff, hconnect.newPair_iff]
  have hknown : ∀ child other, NewPair edit name parent child other →
      child ∈ edit.taxonomy.names ∧ other ∈ edit.taxonomy.names := by
    rintro child other ⟨rfl | hchild, rfl | hother⟩
    · exact ⟨hconnect.name_known, hconnect.parent_known⟩
    · exact ⟨hconnect.name_known, hwell.known _ _ hother⟩
    · exact ⟨hwell.known _ _ hchild, hconnect.parent_known⟩
    · exact ⟨hwell.known _ _ hchild, hwell.known _ _ hother⟩
  apply Taxonomy.WellFormed.of_parents
  · intro link child other hother
    rw [hnames]
    cases link with
    | parents =>
      rcases (hparents child other).mp hother with hold | ⟨_, rfl⟩
      · exact hwell.known _ _ hold
      · exact hconnect.parent_known
    | children =>
      rcases (hchildren child other).mp hother with hold | ⟨rfl, _⟩
      · exact hwell.known _ _ hold
      · exact hconnect.name_known
    | ancestors =>
      rcases (hancestors child other).mp hother with hold | hnew
      · exact hwell.known _ _ hold
      · exact (hknown child other hnew).2
    | descendants =>
      rcases (hdescendants child other).mp hother with hold | hnew
      · exact hwell.known _ _ hold
      · exact (hknown other child hnew).1
  · intro child other
    rw [hparents, hchildren, hwell.dual]
  · rw [hedge]
    apply acyclic_insertEdge hwell.acyclic
    rw [reflTransGen_iff_eq_or_transGen, ← hwell.mem_descendants_iff]
    rintro (heq | hmem)
    · exact hconnect.ne heq
    · exact hconnect.forward hmem
  · intro child other
    rw [hancestors, hclosure]
  · intro above other
    rw [hdescendants, ← hwell.mem_ancestors_comm, hclosure]

omit hconnect

end Connectable

end Connect

theorem wellFormed_add {edit : Edit} (hwell : edit.taxonomy.WellFormed) (name : Bytes) :
    (edit.add name).taxonomy.WellFormed := by
  have hedge : ∀ link, (edit.add name).taxonomy.Edge link = edit.taxonomy.Edge link := by
    intro link
    funext child other
    simp [Taxonomy.Edge]
  constructor
  · intro link other
    rw [linked_add, names_add]
    exact (hwell.known link other).trans (subset_insert _ _)
  · intro child parent
    rw [linked_add, linked_add, hwell.dual]
  · rw [hedge]
    exact hwell.acyclic
  · intro child other
    rw [linked_add, hedge, hwell.ancestors_iff]
  · intro child other
    rw [linked_add, hedge, hwell.descendants_iff]

/-- The test of `add_parent` against loops is the test that the parent is not
below the category: the walk over its ancestors finds nothing more. -/
theorem wouldLoop_iff {edit : Edit} (hwell : edit.taxonomy.WellFormed)
    (name parent : Bytes) :
    edit.wouldLoop name parent = true ↔
      parent ∈ edit.taxonomy.linked .descendants name := by
  simp only [wouldLoop, Bool.or_eq_true, decide_eq_true_iff]
  refine or_iff_right_of_imp ?_
  rintro ⟨ancestor, hancestor, hdescendant⟩
  rw [hwell.ancestors_iff] at hancestor
  rw [hwell.mem_descendants_iff] at hdescendant ⊢
  exact hancestor.trans hdescendant

theorem add_of_mem_names {edit : Edit} {name : Bytes}
    (hknown : name ∈ edit.taxonomy.names) : edit.add name = edit := by
  obtain ⟨category, hfind⟩ := Taxonomy.mem_names_iff.mp hknown
  rw [add, hfind]

/-- `add_parent` throws if the parent is the category itself or below it. Both
are known in the second case, so nothing was added before the test. -/
theorem addParent_of_loop {edit : Edit} (hwell : edit.taxonomy.WellFormed)
    {name parent : Bytes}
    (hloop : name = parent ∨ parent ∈ edit.taxonomy.linked .descendants name) :
    ∃ error, edit.addParent name parent = ⟨edit, some error⟩ := by
  unfold addParent
  by_cases hsame : name = parent
  · rw [if_pos hsame]
    exact ⟨_, rfl⟩
  · have hbelow := hloop.resolve_left hsame
    have hname : name ∈ edit.taxonomy.names := by
      apply hwell.known .ancestors parent
      rwa [hwell.mem_ancestors_comm]
    have hparent := hwell.known _ _ hbelow
    rw [if_neg hsame, add_of_mem_names hname, add_of_mem_names hparent]
    exact ⟨_, if_pos ((wouldLoop_iff hwell name parent).mpr hbelow)⟩

theorem addParent_of_not_loop {edit : Edit} (hwell : edit.taxonomy.WellFormed)
    {name parent : Bytes}
    (hloop : ¬ (name = parent ∨ parent ∈ edit.taxonomy.linked .descendants name)) :
    edit.addParent name parent =
      ⟨((edit.add name).add parent).connect name parent, none⟩ := by
  have hadded := wellFormed_add (wellFormed_add hwell name) parent
  have htest : ¬ ((edit.add name).add parent).wouldLoop name parent = true := by
    rw [wouldLoop_iff hadded, linked_add, linked_add]
    exact fun hbelow => hloop (.inr hbelow)
  rw [addParent, if_neg fun hsame => hloop (.inl hsame)]
  exact if_neg htest

theorem connectable_of_not_loop {base edit : Edit} (hwell : edit.taxonomy.WellFormed)
    (hgrown : Grown base edit) {name parent : Bytes}
    (hloop : ¬ (name = parent ∨ parent ∈ edit.taxonomy.linked .descendants name)) :
    Connectable base ((edit.add name).add parent) name parent where
  wellFormed := wellFormed_add (wellFormed_add hwell name) parent
  grown := (hgrown.add name).add parent
  ne := fun hsame => hloop (.inl hsame)
  name_known := by simp
  parent_known := by simp
  forward := by
    rw [linked_add, linked_add]
    exact fun hbelow => hloop (.inr hbelow)

/-- `add_parent` keeps the invariant and the bookkeeping, also when it
throws. -/
theorem addParent_spec {base edit : Edit} (hwell : edit.taxonomy.WellFormed)
    (hgrown : Grown base edit) (name parent : Bytes) :
    (edit.addParent name parent).state.taxonomy.WellFormed ∧
      Grown base (edit.addParent name parent).state := by
  by_cases hloop : name = parent ∨ parent ∈ edit.taxonomy.linked .descendants name
  · obtain ⟨error, heq⟩ := addParent_of_loop hwell hloop
    rw [heq]
    exact ⟨hwell, hgrown⟩
  · rw [addParent_of_not_loop hwell hloop]
    have hconnect := connectable_of_not_loop hwell hgrown hloop
    exact ⟨hconnect.wellFormed_connect, hconnect.connect_spec.1⟩

end Edit

end Restpose
