import Restpose.Taxonomy.Model
import Restpose.Core.Closure

/-!
# What the edits of a taxonomy do

Every mutator of a category rewrites some of its four sets and notes the name
of the category when one of them changed.  This file states that once, derives
what a mutator does to a whole taxonomy, and carries the bookkeeping of
`modified` through sequences of edits that never restore an earlier value.
-/

namespace Restpose

open Relation Finset Category Taxonomy Closure

namespace Taxonomy

variable {taxonomy : Taxonomy} {name : Bytes}

theorem mem_names_iff :
    name ∈ taxonomy.names ↔ ∃ category, taxonomy.find name = some category :=
  StdMap.mem_keySet_iff

theorem card_names (taxonomy : Taxonomy) :
    taxonomy.names.card = taxonomy.categories.size :=
  StdMap.card_keySet taxonomy.categories

theorem find_eq_none_iff : taxonomy.find name = none ↔ name ∉ taxonomy.names := by
  rw [mem_names_iff, Option.eq_none_iff_forall_ne_some]
  simp

theorem linked_of_find {category : Category} (hfind : taxonomy.find name = some category)
    (link : Link) :
    taxonomy.linked link name = category.linked link := by
  simp [linked, hfind]

theorem linked_of_notMem (hname : name ∉ taxonomy.names) (link : Link) :
    taxonomy.linked link name = ∅ := by
  simp [linked, find_eq_none_iff.mpr hname]

/-- A taxonomy is determined by its names and its four relations. -/
theorem ext_linked {left right : Taxonomy} (hnames : left.names = right.names)
    (hlinked : ∀ link name, left.linked link name = right.linked link name) :
    left = right := by
  have hfind : ∀ name, left.find name = right.find name := by
    intro name
    by_cases hname : name ∈ left.names
    · obtain ⟨old, hold⟩ := mem_names_iff.mp hname
      obtain ⟨new, hnew⟩ := mem_names_iff.mp (hnames ▸ hname)
      rw [hold, hnew]
      congr 1
      apply Category.ext_linked
      · rw [left.named name old hold, right.named name new hnew]
      · intro link
        rw [← linked_of_find hold, ← linked_of_find hnew]
        exact hlinked link name
    · rw [find_eq_none_iff.mpr hname, find_eq_none_iff.mpr (hnames ▸ hname)]
  cases left
  cases right
  simp only [mk.injEq]
  exact Std.ExtTreeMap.ext_getElem? fun {name} => hfind name

end Taxonomy

/-! ## Mutators -/

/-- A mutator that applies `change` to each of the four sets and notes the
name of the category exactly when a set changed. -/
structure Mutates (mutator : Category.Mutator)
    (change : Link → Categories → Categories) : Prop where
  linked_eq : ∀ category modified link,
    (mutator.run category modified).1.linked link =
      change link (category.linked link)
  mem_noted : ∀ category modified name,
    name ∈ (mutator.run category modified).2 ↔ name ∈ modified ∨
      (name = category.name ∧
        ∃ link, change link (category.linked link) ≠ category.linked link)

/-- The change that rewrites one set only. -/
def changeAt (target : Link) (rewrite : Categories → Categories) (link : Link)
    (value : Categories) : Categories :=
  if link = target then rewrite value else value

@[simp]
theorem changeAt_same (link : Link) (rewrite : Categories → Categories)
    (value : Categories) : changeAt link rewrite link value = rewrite value := by
  simp [changeAt]

theorem changeAt_of_ne {target link : Link} (hne : link ≠ target)
    (rewrite : Categories → Categories) (value : Categories) :
    changeAt target rewrite link value = value := by
  simp [changeAt, hne]

theorem exists_changeAt_ne_iff (target : Link) (rewrite : Categories → Categories)
    (values : Link → Categories) :
    (∃ link, changeAt target rewrite link (values link) ≠ values link) ↔
      rewrite (values target) ≠ values target := by
  constructor
  · rintro ⟨link, hne⟩
    by_cases hlink : link = target
    · subst link
      simpa using hne
    · exact absurd (changeAt_of_ne hlink _ _) hne
  · intro hne
    exact ⟨target, by simpa using hne⟩

namespace Category

theorem mem_note_iff (category : Category) (changed : Bool) (modified : Categories)
    (name : Bytes) :
    name ∈ category.note changed modified ↔
      name ∈ modified ∨ (name = category.name ∧ changed = true) := by
  unfold note
  split <;> simp_all [or_comm]

variable (link : Link)

theorem mutates_insertLink (member : Bytes) :
    Mutates (insertLink link member) (changeAt link (insert member)) where
  linked_eq := by
    intro category modified other
    by_cases hother : other = link
    · subst other
      simp [insertLink]
    · simp [insertLink, hother, changeAt_of_ne hother]
  mem_noted := by
    intro category modified name
    rw [exists_changeAt_ne_iff, insertLink, mem_note_iff, decide_eq_true_iff,
      insert_ne_self]

theorem mutates_eraseLink (member : Bytes) : Mutates (eraseLink link member)
      (changeAt link fun value => value.erase member) where
  linked_eq := by
    intro category modified other
    by_cases hother : other = link
    · subst other
      simp [eraseLink]
    · simp [eraseLink, hother, changeAt_of_ne hother]
  mem_noted := by
    intro category modified name
    rw [exists_changeAt_ne_iff, eraseLink, mem_note_iff, decide_eq_true_iff,
      erase_ne_self]

theorem mutates_setLink (value : Categories) :
    Mutates (setLink link value) (changeAt link fun _ => value) where
  linked_eq := by
    intro category modified other
    by_cases hother : other = link
    · subst other
      simp [setLink]
    · simp [setLink, hother, changeAt_of_ne hother]
  mem_noted := by
    intro category modified name
    rw [exists_changeAt_ne_iff, setLink, mem_note_iff, decide_eq_true_iff, ne_comm]

/-- The change of `add_parent` and `add_child`: the name goes into the direct
set and into the closure. -/
def changeBoth (direct closure : Link) (member : Bytes) (link : Link)
    (value : Categories) : Categories :=
  if link = direct ∨ link = closure then insert member value else value

theorem mutates_insertBoth (direct closure : Link) (member : Bytes) :
    Mutates (insertBoth direct closure member) (changeBoth direct closure member) where
  linked_eq := by
    intro category modified link
    by_cases hclosure : link = closure
    · subst link
      simp [insertBoth, changeBoth]
    · by_cases hdirect : link = direct
      · subst link
        simp [insertBoth, changeBoth, hclosure]
      · simp [insertBoth, changeBoth, hclosure, hdirect]
  mem_noted := by
    intro category modified name
    rw [insertBoth, mem_note_iff, Bool.or_eq_true, decide_eq_true_iff, decide_eq_true_iff]
    refine or_congr_right (and_congr_right fun _ => ?_)
    constructor
    · rintro (hdirect | hclosure)
      · exact ⟨direct, by simpa [changeBoth] using hdirect⟩
      · exact ⟨closure, by simpa [changeBoth] using hclosure⟩
    · rintro ⟨link, hne⟩
      unfold changeBoth at hne
      split at hne
      next hlink =>
        rw [insert_ne_self] at hne
        rcases hlink with rfl | rfl
        · exact Or.inl hne
        · exact Or.inr hne
      next => exact absurd rfl hne

theorem mutates_addParent (parent : Bytes) :
    Mutates (addParent parent) (changeBoth .parents .ancestors parent) :=
  mutates_insertBoth .parents .ancestors parent

theorem mutates_addChild (child : Bytes) :
    Mutates (addChild child) (changeBoth .children .descendants child) :=
  mutates_insertBoth .children .descendants child

theorem mutates_addAncestor (ancestor : Bytes) :
    Mutates (addAncestor ancestor) (changeAt .ancestors (insert ancestor)) :=
  mutates_insertLink .ancestors ancestor

theorem mutates_addDescendant (descendant : Bytes) : Mutates (addDescendant descendant)
      (changeAt .descendants (insert descendant)) :=
  mutates_insertLink .descendants descendant

theorem mutates_removeParent (parent : Bytes) : Mutates (removeParent parent)
      (changeAt .parents fun value => value.erase parent) :=
  mutates_eraseLink .parents parent

theorem mutates_removeChild (child : Bytes) : Mutates (removeChild child)
      (changeAt .children fun value => value.erase child) :=
  mutates_eraseLink .children child

end Category

/-! ## Edits of a whole taxonomy -/

namespace Edit

/-- The names whose entry differs between two taxonomies: created, removed, or
with another value in one of the four sets. -/
def Changed (before after : Taxonomy) (name : Bytes) : Prop :=
  (name ∈ before.names ∧ name ∉ after.names) ∨
    (name ∉ before.names ∧ name ∈ after.names) ∨
    ∃ link, before.linked link name ≠ after.linked link name

/-- The bookkeeping of `modified`: an operation that started on `base` has
noted exactly the names whose entries it changed. -/
def Exact (base edit : Edit) : Prop :=
  ∀ name, name ∈ edit.modified ↔
    name ∈ base.modified ∨ Changed base.taxonomy edit.taxonomy name

section Mutate

variable {mutator : Category.Mutator} {change : Link → Categories → Categories}

theorem find_mutate (edit : Edit) (name other : Bytes) :
    (edit.mutate name mutator).taxonomy.find other =
      if name = other then
        (edit.taxonomy.find name).map fun category =>
          (mutator.run category edit.modified).1
      else edit.taxonomy.find other := by
  simp [find, mutate, Std.ExtTreeMap.getElem?_modify]

@[simp]
theorem names_mutate (edit : Edit) (name : Bytes) :
    (edit.mutate name mutator).taxonomy.names = edit.taxonomy.names := by
  ext other
  rw [mem_names_iff, mem_names_iff, find_mutate]
  by_cases hsame : name = other
  · subst other
    simp
  · simp [hsame]

theorem linked_mutate (hmutates : Mutates mutator change) (edit : Edit) (name : Bytes)
    (link : Link) (other : Bytes) :
    (edit.mutate name mutator).taxonomy.linked link other =
      if other = name ∧ name ∈ edit.taxonomy.names then
        change link (edit.taxonomy.linked link name)
      else edit.taxonomy.linked link other := by
  by_cases hsame : name = other
  · subst other
    cases hfind : edit.taxonomy.find name with
    | none =>
      have hnot := Taxonomy.find_eq_none_iff.mp hfind
      simp [Taxonomy.linked, find_mutate, hfind, hnot]
    | some category =>
      have hmem := Taxonomy.mem_names_iff.mpr ⟨category, hfind⟩
      simp [Taxonomy.linked, find_mutate, hfind, hmem, hmutates.linked_eq]
  · simp [Taxonomy.linked, find_mutate, hsame, Ne.symm hsame]

theorem linked_mutate_of_ne {target link : Link} {rewrite : Categories → Categories}
    (hmutates : Mutates mutator (changeAt target rewrite)) (hne : link ≠ target)
    (edit : Edit) (name other : Bytes) :
    (edit.mutate name mutator).taxonomy.linked link other =
      edit.taxonomy.linked link other := by
  rw [linked_mutate hmutates]
  split
  next hsame => rw [changeAt_of_ne hne, hsame.1]
  next => rfl

theorem mem_linked_mutate_insert {link : Link} {member : Bytes}
    (hmutates : Mutates mutator (changeAt link (insert member))) {edit : Edit}
    {name : Bytes} (hknown : name ∈ edit.taxonomy.names) (other key : Bytes) :
    key ∈ (edit.mutate name mutator).taxonomy.linked link other ↔
      key ∈ edit.taxonomy.linked link other ∨ (other = name ∧ key = member) := by
  rw [linked_mutate hmutates]
  by_cases hsame : other = name
  · subst other
    simp [hknown, or_comm]
  · simp [hsame]

theorem mem_modified_mutate (hmutates : Mutates mutator change) (edit : Edit)
    (name other : Bytes) :
    other ∈ (edit.mutate name mutator).modified ↔
      other ∈ edit.modified ∨ (other = name ∧ name ∈ edit.taxonomy.names ∧
        ∃ link, change link (edit.taxonomy.linked link name) ≠
          edit.taxonomy.linked link name) := by
  unfold mutate
  cases hfind : edit.taxonomy.find name with
  | none =>
    have hnot := find_eq_none_iff.mp hfind
    simp [hnot]
  | some category =>
    have hmem := mem_names_iff.mpr ⟨category, hfind⟩
    have hstored : category.name = name := edit.taxonomy.named name _ hfind
    simp only [hmutates.mem_noted, hmem, true_and, hstored, linked_of_find hfind]

/-- A mutator keeps the bookkeeping exact as long as no set it changes goes
back to the value it had at the start. -/
theorem exact_mutate (hmutates : Mutates mutator change) {base edit : Edit}
    (hexact : Exact base edit) {name : Bytes}
    (hforward : ∀ link, change link (edit.taxonomy.linked link name) ≠
        edit.taxonomy.linked link name →
      change link (edit.taxonomy.linked link name) ≠ base.taxonomy.linked link name) :
    Exact base (edit.mutate name mutator) := by
  intro other
  rw [mem_modified_mutate hmutates, hexact other, or_assoc]
  refine or_congr_right ?_
  by_cases hsame : other = name ∧ name ∈ edit.taxonomy.names
  · obtain ⟨rfl, hmem⟩ := hsame
    simp only [Changed, names_mutate, linked_mutate hmutates, hmem, and_self,
      if_true, true_and, not_true_eq_false, and_false, false_or, and_true]
    rw [or_assoc]
    refine or_congr_right ?_
    constructor
    · rintro (⟨link, hne⟩ | ⟨link, hne⟩)
      · by_cases hchange : change link (edit.taxonomy.linked link other) =
            edit.taxonomy.linked link other
        · exact ⟨link, by rwa [hchange]⟩
        · exact ⟨link, (hforward link hchange).symm⟩
      · exact ⟨link, (hforward link hne).symm⟩
    · rintro ⟨link, hne⟩
      by_cases hchange : change link (edit.taxonomy.linked link other) =
          edit.taxonomy.linked link other
      · exact Or.inl ⟨link, by rwa [hchange] at hne⟩
      · exact Or.inr ⟨link, hchange⟩
  · simp only [Changed, names_mutate, linked_mutate hmutates, hsame, if_false,
      ← and_assoc, false_and, or_false]

end Mutate

/-- A `for` loop over one of the sets of a category visits every element once,
provided that its body leaves that set alone. -/
theorem forLinked_invariant {link : Link} {name : Bytes} {body : Bytes → Edit → Edit}
    {elements : Categories} (invariant : Categories → Edit → Prop)
    (hread : ∀ visited edit, invariant visited edit →
      edit.taxonomy.linked link name = elements)
    (hstep : ∀ visited edit key, invariant visited edit → key ∈ elements →
      key ∉ visited → invariant (insert key visited) (body key edit))
    {edit : Edit} (hknown : elements ⊆ edit.taxonomy.names) (hinit : invariant ∅ edit) :
    invariant elements (edit.forLinked link name body) := by
  apply Loops.forEach_invariant invariant hread hstep _ hinit
  rw [← card_names]
  exact card_le_card hknown

/-! ## Edits that only add -/

/-- An edit of `base` in which nothing has been lost and `modified` is
exact. -/
structure Grown (base edit : Edit) : Prop where
  names_subset : base.taxonomy.names ⊆ edit.taxonomy.names
  subset : ∀ link name,
    base.taxonomy.linked link name ⊆ edit.taxonomy.linked link name
  exact : Exact base edit

/-- A mutator that only adds members keeps an edit grown. -/
theorem Grown.mutate {mutator : Category.Mutator}
    {change : Link → Categories → Categories} (hmutates : Mutates mutator change)
    (hadds : ∀ link value, value ⊆ change link value) {base edit : Edit}
    (hgrown : Grown base edit) (name : Bytes) :
    Grown base (edit.mutate name mutator) where
  names_subset := by rw [names_mutate]; exact hgrown.names_subset
  subset := by
    intro link other
    rw [linked_mutate hmutates]
    split
    next hother =>
      rw [hother.1]
      exact (hgrown.subset link name).trans (hadds link _)
    next => exact hgrown.subset link other
  exact := by
    apply exact_mutate hmutates hgrown.exact
    intro link hne heq
    apply hne
    apply Finset.Subset.antisymm _ (hadds link _)
    rw [heq]
    exact hgrown.subset link name

theorem Grown.refl (edit : Edit) : Grown edit edit where
  names_subset := Finset.Subset.refl _
  subset := fun _ _ => Finset.Subset.refl _
  exact := fun name => by simp [Changed]

theorem find_add (edit : Edit) (name other : Bytes) :
    (edit.add name).taxonomy.find other =
      if other = name then
        some ((edit.taxonomy.find name).getD (create name))
      else edit.taxonomy.find other := by
  cases hfind : edit.taxonomy.find name with
  | some category =>
    simp only [add, hfind]
    by_cases hsame : other = name
    · simp [hsame, hfind]
    · simp [hsame]
  | none =>
    simp only [add, hfind]
    by_cases hsame : other = name
    · simp [hsame, find]
    · simp [hsame, Ne.symm hsame, find, Std.ExtTreeMap.getElem?_insert]

@[simp]
theorem names_add (edit : Edit) (name : Bytes) :
    (edit.add name).taxonomy.names = insert name edit.taxonomy.names := by
  ext other
  rw [mem_insert, mem_names_iff, mem_names_iff, find_add]
  by_cases hsame : other = name <;> simp [hsame]

@[simp]
theorem linked_add (edit : Edit) (name : Bytes) (link : Link) (other : Bytes) :
    (edit.add name).taxonomy.linked link other = edit.taxonomy.linked link other := by
  unfold Taxonomy.linked
  rw [find_add]
  by_cases hsame : other = name
  · subst other
    cases hfind : edit.taxonomy.find name <;> simp
  · simp [hsame]

theorem mem_modified_add (edit : Edit) (name other : Bytes) :
    other ∈ (edit.add name).modified ↔ other ∈ edit.modified ∨
      (other = name ∧ name ∉ edit.taxonomy.names) := by
  cases hfind : edit.taxonomy.find name with
  | some category =>
    have hmem := mem_names_iff.mpr ⟨category, hfind⟩
    simp [add, hfind, hmem]
  | none =>
    have hnot := find_eq_none_iff.mp hfind
    simp [add, hfind, hnot, or_comm]

theorem Grown.add {base edit : Edit} (hgrown : Grown base edit) (name : Bytes) :
    Grown base (edit.add name) where
  names_subset := by
    rw [names_add]
    exact hgrown.names_subset.trans (subset_insert _ _)
  subset := by
    intro link other
    rw [linked_add]
    exact hgrown.subset link other
  exact := by
    intro other
    rw [mem_modified_add, hgrown.exact other, or_assoc]
    refine or_congr_right ?_
    have hold := @hgrown.names_subset other
    simp only [Changed, names_add, linked_add, mem_insert, not_or]
    by_cases hsame : other = name
    · subst other
      tauto
    · simp [hsame]

theorem subset_changeAt_insert (link : Link) (member : Bytes) (other : Link)
    (value : Categories) :
    value ⊆ changeAt link (insert member) other value := by
  unfold changeAt
  split
  · exact subset_insert _ _
  · exact Finset.Subset.refl _

theorem subset_changeBoth (direct closure : Link) (member : Bytes) (link : Link)
    (value : Categories) :
    value ⊆ changeBoth direct closure member link value := by
  unfold changeBoth
  split
  · exact subset_insert _ _
  · exact Finset.Subset.refl _

/-- The edits of the nested loops of `add_parent`: relative to `start`, the
pairs in `up` have been added to the ancestor relation and those in `down` to
the descendant relation, both as pairs of a descendant and an ancestor. -/
structure Enlarged (base start : Edit)
    (up down : Bytes → Bytes → Prop) (edit : Edit) : Prop where
  grown : Grown base edit
  names_eq : edit.taxonomy.names = start.taxonomy.names
  parents : ∀ name, edit.taxonomy.linked .parents name =
    start.taxonomy.linked .parents name
  children : ∀ name, edit.taxonomy.linked .children name =
    start.taxonomy.linked .children name
  ancestors : ∀ name other, other ∈ edit.taxonomy.linked .ancestors name ↔
    other ∈ start.taxonomy.linked .ancestors name ∨ up name other
  descendants : ∀ name other, other ∈ edit.taxonomy.linked .descendants name ↔
    other ∈ start.taxonomy.linked .descendants name ∨ down other name

namespace Enlarged

variable {base start edit : Edit}
  {up down : Bytes → Bytes → Prop}

theorem refl (hgrown : Grown base start) :
    Enlarged base start (fun _ _ => False) (fun _ _ => False) start where
  grown := hgrown
  names_eq := rfl
  parents := fun _ => rfl
  children := fun _ => rfl
  ancestors := by simp
  descendants := by simp

theorem congr (henlarged : Enlarged base start up down edit)
    {up' down' : Bytes → Bytes → Prop}
    (hup : ∀ name other, up name other ↔ up' name other)
    (hdown : ∀ name other, down name other ↔ down' name other) :
    Enlarged base start up' down' edit where
  grown := henlarged.grown
  names_eq := henlarged.names_eq
  parents := henlarged.parents
  children := henlarged.children
  ancestors := fun name other => by rw [henlarged.ancestors, hup]
  descendants := fun name other => by rw [henlarged.descendants, hdown]

theorem addAncestor (henlarged : Enlarged base start up down edit)
    {descendant : Bytes} (ancestor : Bytes) (hknown : descendant ∈ edit.taxonomy.names) :
    Enlarged base start (insertEdge up descendant ancestor) down
      (edit.mutate descendant (addAncestor ancestor)) where
  grown := henlarged.grown.mutate (mutates_addAncestor _)
    (subset_changeAt_insert _ _) descendant
  names_eq := by rw [names_mutate, henlarged.names_eq]
  parents := fun name => by
    rw [linked_mutate_of_ne (mutates_addAncestor _) (by decide), henlarged.parents]
  children := fun name => by
    rw [linked_mutate_of_ne (mutates_addAncestor _) (by decide), henlarged.children]
  ancestors := fun name other => by
    rw [mem_linked_mutate_insert (mutates_addAncestor _) hknown, henlarged.ancestors,
      or_assoc, insertEdge]
  descendants := fun name other => by
    rw [linked_mutate_of_ne (mutates_addAncestor _) (by decide), henlarged.descendants]

theorem addDescendant (henlarged : Enlarged base start up down edit)
    (descendant : Bytes) {ancestor : Bytes} (hknown : ancestor ∈ edit.taxonomy.names) :
    Enlarged base start up (insertEdge down descendant ancestor)
      (edit.mutate ancestor (addDescendant descendant)) where
  grown := henlarged.grown.mutate (mutates_addDescendant _)
    (subset_changeAt_insert _ _) ancestor
  names_eq := by rw [names_mutate, henlarged.names_eq]
  parents := fun name => by
    rw [linked_mutate_of_ne (mutates_addDescendant _) (by decide), henlarged.parents]
  children := fun name => by
    rw [linked_mutate_of_ne (mutates_addDescendant _) (by decide), henlarged.children]
  ancestors := fun name other => by
    rw [linked_mutate_of_ne (mutates_addDescendant _) (by decide), henlarged.ancestors]
  descendants := fun name other => by
    rw [mem_linked_mutate_insert (mutates_addDescendant _) hknown,
      henlarged.descendants, or_assoc, insertEdge, and_comm]

end Enlarged

/-! ## Edits that rewrite a set once -/

/-- Relative to `start`, the set `target` of every category in `visited` has
been replaced by `value`, and nothing else has changed. -/
structure Rewritten (base start : Edit) (target : Link)
    (value : Bytes → Categories) (visited : Categories) (edit : Edit) :
    Prop where
  names_eq : edit.taxonomy.names = base.taxonomy.names
  linked_eq : ∀ link name, edit.taxonomy.linked link name =
    if link = target ∧ name ∈ visited then value name
    else start.taxonomy.linked link name
  exact : Exact base edit

namespace Rewritten

variable {base start edit : Edit} {target : Link}
  {value : Bytes → Categories} {visited : Categories}

theorem refl (hnames : start.taxonomy.names = base.taxonomy.names)
    (hexact : Exact base start) : Rewritten base start target value ∅ start where
  names_eq := hnames
  linked_eq := by simp
  exact := hexact

theorem linked_of_ne (hrewritten : Rewritten base start target value visited edit)
    {link : Link} (hne : link ≠ target) (name : Bytes) :
    edit.taxonomy.linked link name = start.taxonomy.linked link name := by
  rw [hrewritten.linked_eq]
  simp [hne]

/-- One more category is rewritten, for the first time since `base`. -/
theorem mutate (hrewritten : Rewritten base start target value visited edit)
    {name : Bytes} (hfresh : name ∉ visited) (hknown : name ∈ base.taxonomy.names)
    (hbase : start.taxonomy.linked target name = base.taxonomy.linked target name)
    {mutator : Category.Mutator} {rewrite : Categories → Categories}
    (hmutates : Mutates mutator (changeAt target rewrite))
    (hvalue : rewrite (start.taxonomy.linked target name) = value name) :
    Rewritten base start target value (insert name visited)
      (edit.mutate name mutator) where
  names_eq := by rw [names_mutate, hrewritten.names_eq]
  linked_eq := by
    intro link other
    rw [linked_mutate hmutates, hrewritten.names_eq, hrewritten.linked_eq,
      hrewritten.linked_eq]
    by_cases hother : other = name
    · subst other
      by_cases hlink : link = target
      · subst link
        simp [hknown, hfresh, hvalue]
      · simp [hlink, changeAt_of_ne hlink]
    · simp [hother]
  exact := by
    apply exact_mutate hmutates hrewritten.exact
    intro link hne
    by_cases hlink : link = target
    · subst link
      rwa [hrewritten.linked_eq, if_neg (by simp [hfresh]), hbase] at hne ⊢
    · exact absurd (changeAt_of_ne hlink _ _) hne

/-- A loop that rewrites the set `target` of every element of a set it does
not itself change. -/
theorem forLinked {link : Link} {name : Bytes} {body : Bytes → Edit → Edit}
    (hnames : start.taxonomy.names = base.taxonomy.names)
    (hexact : Exact base start) (hlink : link ≠ target)
    (hknown : start.taxonomy.linked link name ⊆ base.taxonomy.names)
    (hbase : ∀ key ∈ start.taxonomy.linked link name,
      start.taxonomy.linked target key = base.taxonomy.linked target key)
    (hbody : ∀ visited edit key, Rewritten base start target value visited edit →
        ∃ mutator rewrite, body key edit = edit.mutate key mutator ∧
          Mutates mutator (changeAt target rewrite) ∧
          rewrite (start.taxonomy.linked target key) = value key) :
    Rewritten base start target value (start.taxonomy.linked link name)
      (start.forLinked link name body) := by
  apply forLinked_invariant (Rewritten base start target value)
  · intro visited edit hrewritten
    exact hrewritten.linked_of_ne hlink name
  · intro visited edit key hrewritten hkey hfresh
    obtain ⟨mutator, rewrite, heq, hmutates, hvalue⟩ := hbody visited edit key hrewritten
    rw [heq]
    exact hrewritten.mutate hfresh (hknown hkey) (hbase key hkey) hmutates hvalue
  · rwa [hnames]
  · exact refl hnames hexact

end Rewritten

end Edit

end Restpose
