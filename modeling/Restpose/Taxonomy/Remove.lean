import Restpose.Taxonomy.Invariant

/-!
# Removing categories and edges

`remove` and `remove_parent` first take the edges out and then recalculate the
closures of the categories whose closures may have used them.  All the other
categories keep closures that are still right, because no path of theirs
passed through what was removed.
-/

namespace Restpose

open Relation Finset Category Closure Taxonomy

namespace Edit

/-! ## Recalculating many closures -/

section Recalculate

variable {base start : Edit} {edge target : Link}
  {store : Categories → Category.Mutator}

variable {value : Bytes → Categories}

theorem Rewritten.edge_of_ne {visited : Categories} {edit : Edit}
    (hrewritten : Rewritten base start target value visited edit)
    (hedge : edge ≠ target) :
    edit.taxonomy.Edge edge = start.taxonomy.Edge edge := by
  funext name other
  simp [Taxonomy.Edge, hrewritten.linked_of_ne hedge]

/-- The closure depends only on the direct links. -/
theorem closure_recalcLoop_congr {left right : Taxonomy}
    (hnames : left.names = right.names)
    (hlinked : ∀ name, left.linked edge name = right.linked edge name)
    (hknown : ∀ name, right.linked edge name ⊆ right.names)
    (hacyclic : ∀ name, ¬ TransGen (right.Edge edge) name name) (name : Bytes) :
    (left.recalcLoop edge name).closure = (right.recalcLoop edge name).closure := by
  have hedge : left.Edge edge = right.Edge edge := by
    funext first second
    simp [Taxonomy.Edge, hlinked]
  ext other
  rw [mem_recalcLoop_iff hknown hacyclic, mem_recalcLoop_iff, hedge]
  · intro key
    rw [hlinked, hnames]
    exact hknown key
  · rw [hedge]
    exact hacyclic

/-- What a recalculation needs of the edit it starts from: its direct links
form an acyclic graph on the known names. -/
structure Recalculable (base start : Edit) (edge : Link) : Prop where
  names_eq : start.taxonomy.names = base.taxonomy.names
  exact : Exact base start
  known : ∀ name, start.taxonomy.linked edge name ⊆ start.taxonomy.names
  acyclic : ∀ name, ¬ TransGen (start.taxonomy.Edge edge) name name

/-- The set that a recalculation of `start` stores. -/
def closureOf (start : Edit) (edge : Link) (name : Bytes) : Categories :=
  (start.taxonomy.recalcLoop edge name).closure

variable (hrecalc : Recalculable base start edge)

include hrecalc

theorem Recalculable.mem_closureOf_iff (name other : Bytes) :
    other ∈ closureOf start edge name ↔ TransGen (start.taxonomy.Edge edge) name other :=
  mem_recalcLoop_iff hrecalc.known hrecalc.acyclic name other

theorem Recalculable.closureOf_eq (hedge : edge ≠ target) {visited : Categories}
    {edit : Edit} (hrewritten : Rewritten base start target value visited edit)
    (name : Bytes) : closureOf edit edge name = closureOf start edge name := by
  apply closure_recalcLoop_congr _ _ hrecalc.known hrecalc.acyclic
  · rw [hrewritten.names_eq, hrecalc.names_eq]
  · exact hrewritten.linked_of_ne hedge

theorem Recalculable.rewritten
    (hstore : ∀ value, Mutates (store value) (changeAt target fun _ => value))
    {name : Bytes} (hknown : name ∈ base.taxonomy.names)
    (hbase : start.taxonomy.linked target name = base.taxonomy.linked target name) :
    Rewritten base start target (closureOf start edge) {name}
      (recalc edge store name start) := by
  have hstart : Rewritten base start target (closureOf start edge) ∅ start :=
    Rewritten.refl hrecalc.names_eq hrecalc.exact
  exact hstart.mutate (notMem_empty name) hknown hbase (hstore _) rfl

theorem Recalculable.rewritten_forLinked
    (hstore : ∀ value, Mutates (store value) (changeAt target fun _ => value))
    (hedge : edge ≠ target) {link : Link} (hlink : link ≠ target)
    {name : Bytes}
    (hknown : start.taxonomy.linked link name ⊆ base.taxonomy.names)
    (hbase : ∀ key ∈ start.taxonomy.linked link name,
      start.taxonomy.linked target key = base.taxonomy.linked target key) :
    Rewritten base start target (closureOf start edge) (start.taxonomy.linked link name)
      (start.forLinked link name (recalc edge store)) := by
  apply Rewritten.forLinked hrecalc.names_eq hrecalc.exact hlink hknown hbase
  intro visited edit key hrewritten
  refine ⟨_, _, rfl, hstore _, ?_⟩
  exact hrecalc.closureOf_eq hedge hrewritten key

omit hrecalc

end Recalculate

theorem exact_refl (edit : Edit) : Exact edit edit := (Grown.refl edit).exact

/-! ## Removing a category -/

section Remove

variable {edit : Edit} {name : Bytes}

/-- What the first two loops of `remove` do. -/
structure Detached (edit : Edit) (name : Bytes) (detached : Edit) :
    Prop where
  names_eq : detached.taxonomy.names = edit.taxonomy.names
  exact : Exact edit detached
  parents : ∀ other, detached.taxonomy.linked .parents other =
    (edit.taxonomy.linked .parents other).erase name
  children : ∀ other, detached.taxonomy.linked .children other =
    (edit.taxonomy.linked .children other).erase name
  ancestors : ∀ other, detached.taxonomy.linked .ancestors other =
    edit.taxonomy.linked .ancestors other
  descendants : ∀ other, detached.taxonomy.linked .descendants other =
    edit.taxonomy.linked .descendants other

theorem detached_detach (hwell : edit.taxonomy.WellFormed) (name : Bytes) :
    Detached edit name (edit.detach name) := by
  have hself : name ∉ edit.taxonomy.linked .parents name := fun hmem =>
    hwell.acyclic name (TransGen.single hmem)
  have hfirst : Rewritten edit edit .children
      (fun key => (edit.taxonomy.linked .children key).erase name)
      (edit.taxonomy.linked .parents name)
      (edit.forLinked .parents name fun parent current =>
        current.mutate parent (removeChild name)) := by
    apply Rewritten.forLinked rfl (exact_refl edit) (by decide)
      (hwell.known .parents name) (fun _ _ => rfl)
    intro visited current key hrewritten
    exact ⟨_, _, rfl, mutates_removeChild name, rfl⟩
  set first := edit.forLinked .parents name fun parent current =>
    current.mutate parent (removeChild name) with hfirstDef
  have hparents : ∀ other, first.taxonomy.linked .parents other =
      edit.taxonomy.linked .parents other :=
    hfirst.linked_of_ne (by decide)
  have hread : first.taxonomy.linked .children name =
      edit.taxonomy.linked .children name := by
    rw [hfirst.linked_eq, if_neg (by simp [hself])]
  have hsecond : Rewritten edit first .parents
      (fun key => (edit.taxonomy.linked .parents key).erase name)
      (first.taxonomy.linked .children name)
      (first.forLinked .children name fun child current =>
        current.mutate child (Category.removeParent name)) := by
    apply Rewritten.forLinked hfirst.names_eq hfirst.exact (by decide)
    · rw [hread]
      exact hwell.known .children name
    · exact fun key _ => hparents key
    · intro visited current key hrewritten
      refine ⟨_, _, rfl, mutates_removeParent name, ?_⟩
      rw [hparents]
  rw [hread] at hsecond
  constructor
  · exact hsecond.names_eq
  · exact hsecond.exact
  · intro other
    rw [detach, ← hfirstDef, hsecond.linked_eq, hparents]
    by_cases hmem : other ∈ edit.taxonomy.linked .children name
    · rw [if_pos ⟨rfl, hmem⟩]
    · rw [if_neg (fun h => hmem h.2), Finset.erase_eq_of_notMem]
      rwa [hwell.dual]
  · intro other
    rw [detach, ← hfirstDef, hsecond.linked_of_ne (by decide), hfirst.linked_eq]
    by_cases hmem : other ∈ edit.taxonomy.linked .parents name
    · rw [if_pos ⟨rfl, hmem⟩]
    · rw [if_neg (fun h => hmem h.2), Finset.erase_eq_of_notMem]
      rwa [← hwell.dual]
  all_goals
    intro other
    rw [detach, ← hfirstDef, hsecond.linked_of_ne (by decide),
      hfirst.linked_of_ne (by decide)]

theorem Detached.edge_parents {detached : Edit}
    (hdetached : Detached edit name detached) :
    detached.taxonomy.Edge .parents = cutInto (edit.taxonomy.Edge .parents) name := by
  funext child parent
  simp [Taxonomy.Edge, cutInto, hdetached.parents, and_comm]

theorem Detached.edge_children {detached : Edit}
    (hdetached : Detached edit name detached) :
    detached.taxonomy.Edge .children = cutInto (edit.taxonomy.Edge .children) name := by
  funext parent child
  simp [Taxonomy.Edge, cutInto, hdetached.children, and_comm]

theorem linked_erase (edit : Edit) (name : Bytes) (link : Link) (other : Bytes) :
    (edit.erase name).taxonomy.linked link other =
      if other = name then ∅ else edit.taxonomy.linked link other := by
  by_cases hsame : other = name
  · simp [Taxonomy.linked, Taxonomy.find, erase, hsame]
  · simp [Taxonomy.linked, Taxonomy.find, erase, hsame, Ne.symm hsame,
      Std.ExtTreeMap.getElem?_erase]

theorem names_erase (edit : Edit) (name : Bytes) :
    (edit.erase name).taxonomy.names = edit.taxonomy.names.erase name := by
  ext other
  rw [mem_erase, mem_names_iff, mem_names_iff]
  by_cases hsame : other = name
  · simp [find, erase, hsame]
  · simp [find, erase, hsame, Ne.symm hsame, Std.ExtTreeMap.getElem?_erase]

theorem exact_erase {base edit : Edit} (hexact : Exact base edit)
    (hname : name ∈ base.taxonomy.names) : Exact base (edit.erase name) := by
  intro other
  have hmodified : other ∈ (edit.erase name).modified ↔
      other = name ∨ other ∈ edit.modified := by
    simp [erase]
  rw [hmodified, hexact other]
  simp only [Changed, names_erase, linked_erase, mem_erase]
  by_cases hsame : other = name
  · subst other
    simp [hname]
  · simp [hsame]

/-- The taxonomy after `remove`, as relations. -/
structure Removed (edit : Edit) (name : Bytes) (removed : Edit) : Prop where
  names_eq : removed.taxonomy.names = edit.taxonomy.names.erase name
  exact : Exact edit removed
  linked_self : ∀ link, removed.taxonomy.linked link name = ∅
  parents : ∀ other, other ≠ name →
    removed.taxonomy.linked .parents other =
      (edit.taxonomy.linked .parents other).erase name
  children : ∀ other, other ≠ name →
    removed.taxonomy.linked .children other =
      (edit.taxonomy.linked .children other).erase name
  ancestors : ∀ child, child ≠ name → ∀ other,
    other ∈ removed.taxonomy.linked .ancestors child ↔
      TransGen (Closure.cutInto (edit.taxonomy.Edge .parents) name) child other
  descendants : ∀ parent, parent ≠ name → ∀ other,
    other ∈ removed.taxonomy.linked .descendants parent ↔
      TransGen (Closure.cutInto (edit.taxonomy.Edge .children) name) parent
        other

theorem cutInto_acyclic {edge : Bytes → Bytes → Prop}
    (hacyclic : ∀ vertex, ¬ TransGen edge vertex vertex) (vertex : Bytes) :
    ¬ TransGen (cutInto edge name) vertex vertex :=
  acyclic_of_subrelation (fun _ _ => And.left) hacyclic vertex

namespace Detached

variable {detached narrowed : Edit} {value : Bytes → Categories}
  (hdetached : Detached edit name detached) (hwell : edit.taxonomy.WellFormed)

include hdetached hwell

theorem recalculable_children : Recalculable edit detached .children where
  names_eq := hdetached.names_eq
  exact := hdetached.exact
  known := by
    intro other
    rw [hdetached.names_eq, hdetached.children]
    exact (erase_subset _ _).trans (hwell.known .children other)
  acyclic := by
    rw [hdetached.edge_children]
    exact cutInto_acyclic hwell.acyclic_children

/-- The third loop of `remove` recalculates the descendants of the
ancestors. -/
theorem rewritten_descendants :
    Rewritten edit detached .descendants (closureOf detached .children)
      (edit.taxonomy.linked .ancestors name)
      (detached.forLinked .ancestors name recalcDescendants) := by
  rw [← hdetached.ancestors]
  apply (hdetached.recalculable_children hwell).rewritten_forLinked
    (mutates_setLink .descendants) (by decide) (by decide)
  · rw [hdetached.ancestors]
    exact hwell.known .ancestors name
  · exact fun key _ => hdetached.descendants key

theorem recalculable_parents {visited : Categories}
    (hnarrowed : Rewritten edit detached .descendants value visited narrowed) :
    Recalculable edit narrowed .parents where
  names_eq := hnarrowed.names_eq
  exact := hnarrowed.exact
  known := by
    intro other
    rw [hnarrowed.names_eq, hnarrowed.linked_of_ne (by decide), hdetached.parents]
    exact (erase_subset _ _).trans (hwell.known .parents other)
  acyclic := by
    rw [hnarrowed.edge_of_ne (by decide), hdetached.edge_parents]
    exact cutInto_acyclic hwell.acyclic

/-- The fourth loop of `remove` recalculates the ancestors of the
descendants. -/
theorem rewritten_ancestors (hnarrowed : Rewritten edit detached .descendants value
      (edit.taxonomy.linked .ancestors name) narrowed) :
    Rewritten edit narrowed .ancestors (closureOf narrowed .parents)
      (edit.taxonomy.linked .descendants name)
      (narrowed.forLinked .descendants name recalcAncestors) := by
  have hread : narrowed.taxonomy.linked .descendants name =
      edit.taxonomy.linked .descendants name := by
    rw [hnarrowed.linked_eq, hdetached.descendants, if_neg]
    exact fun hmem => hwell.notMem_ancestors name hmem.2
  rw [← hread]
  apply (hdetached.recalculable_parents hwell hnarrowed).rewritten_forLinked
    (mutates_setLink .ancestors) (by decide) (by decide)
  · rw [hread]
    exact hwell.known .descendants name
  · intro key _
    rw [hnarrowed.linked_of_ne (by decide), hdetached.ancestors]

end Detached

theorem removed_remove (hwell : edit.taxonomy.WellFormed)
    (hname : name ∈ edit.taxonomy.names) : Removed edit name (edit.remove name) := by
  obtain ⟨category, hfind⟩ := mem_names_iff.mp hname
  have hdetached := detached_detach hwell name
  have hnarrowed := hdetached.rewritten_descendants hwell
  have hfinal := hdetached.rewritten_ancestors hwell hnarrowed
  have hremove : edit.remove name = (((edit.detach name).forLinked .ancestors
      name recalcDescendants).forLinked .descendants name
      recalcAncestors).erase name := by
    simp only [remove, hfind]
  have hup := hdetached.recalculable_parents hwell hnarrowed
  have hdown := hdetached.recalculable_children hwell
  rw [hremove]
  constructor
  · rw [names_erase, hfinal.names_eq]
  · exact exact_erase hfinal.exact hname
  · intro link
    rw [linked_erase, if_pos rfl]
  · intro other hother
    rw [linked_erase, if_neg hother, hfinal.linked_of_ne (by decide),
      hnarrowed.linked_of_ne (by decide), hdetached.parents]
  · intro other hother
    rw [linked_erase, if_neg hother, hfinal.linked_of_ne (by decide),
      hnarrowed.linked_of_ne (by decide), hdetached.children]
  · intro child hchild other
    rw [linked_erase, if_neg hchild, hfinal.linked_eq]
    by_cases hbelow : child ∈ edit.taxonomy.linked .descendants name
    · rw [if_pos ⟨rfl, hbelow⟩, hup.mem_closureOf_iff,
        hnarrowed.edge_of_ne (by decide), hdetached.edge_parents]
    · rw [if_neg (fun h => hbelow h.2), hnarrowed.linked_of_ne (by decide),
        hdetached.ancestors, hwell.ancestors_iff]
      rw [hwell.mem_descendants_iff] at hbelow
      exact transGen_cutInto_iff hbelow other
  · intro parent hparent other
    rw [linked_erase, if_neg hparent, hfinal.linked_of_ne (by decide),
      hnarrowed.linked_eq]
    by_cases habove : parent ∈ edit.taxonomy.linked .ancestors name
    · rw [if_pos ⟨rfl, habove⟩, hdown.mem_closureOf_iff, hdetached.edge_children]
    · rw [if_neg (fun h => habove h.2), hdetached.descendants, hwell.descendants_iff]
      rw [hwell.mem_ancestors_comm, hwell.descendants_iff] at habove
      exact transGen_cutInto_iff habove other

variable {removed : Edit}

theorem Removed.edge_parents (hremoved : Removed edit name removed) :
    removed.taxonomy.Edge .parents = fun left right => left ≠ name ∧
      cutInto (edit.taxonomy.Edge .parents) name left right := by
  funext child parent
  by_cases hchild : child = name
  · simp [Taxonomy.Edge, hchild, hremoved.linked_self]
  · simp [Taxonomy.Edge, cutInto, hchild, hremoved.parents child hchild, and_comm]

theorem Removed.edge_children (hremoved : Removed edit name removed) :
    removed.taxonomy.Edge .children = fun left right => left ≠ name ∧
      cutInto (edit.taxonomy.Edge .children) name left right := by
  funext parent child
  by_cases hparent : parent = name
  · simp [Taxonomy.Edge, hparent, hremoved.linked_self]
  · simp [Taxonomy.Edge, cutInto, hparent, hremoved.children parent hparent, and_comm]

/-- Every member of a set of the remaining categories is a remaining
category. -/
theorem Removed.known {removed : Edit} (hremoved : Removed edit name removed)
    (hwell : edit.taxonomy.WellFormed) (link : Link) (child : Bytes) :
    removed.taxonomy.linked link child ⊆ removed.taxonomy.names := by
  have hcut : ∀ {edge : Bytes → Bytes → Prop} {last : Bytes},
      TransGen (cutInto edge name) child last → last ≠ name ∧
        TransGen edge child last := by
    intro edge last hpath
    obtain ⟨_, _, _, hne⟩ := TransGen.tail'_iff.mp hpath
    exact ⟨hne, TransGen.mono (fun _ _ => And.left) _ _ hpath⟩
  by_cases hchild : child = name
  · rw [hchild, hremoved.linked_self]
    exact empty_subset _
  · rw [hremoved.names_eq]
    cases link with
    | parents =>
      rw [hremoved.parents child hchild]
      exact erase_subset_erase name (hwell.known .parents child)
    | children =>
      rw [hremoved.children child hchild]
      exact erase_subset_erase name (hwell.known .children child)
    | ancestors =>
      intro other hother
      obtain ⟨hne, hpath⟩ := hcut ((hremoved.ancestors child hchild other).mp hother)
      rw [← hwell.ancestors_iff] at hpath
      exact mem_erase.mpr ⟨hne, hwell.known _ _ hpath⟩
    | descendants =>
      intro other hother
      obtain ⟨hne, hpath⟩ := hcut ((hremoved.descendants child hchild other).mp hother)
      rw [← hwell.descendants_iff] at hpath
      exact mem_erase.mpr ⟨hne, hwell.known _ _ hpath⟩

theorem Removed.wellFormed (hremoved : Removed edit name removed)
    (hwell : edit.taxonomy.WellFormed) : removed.taxonomy.WellFormed := by
  have hstuck : ∀ {edge : Bytes → Bytes → Prop} {last : Bytes},
      ¬ TransGen (fun left right => left ≠ name ∧ cutInto edge name left right)
        name last := by
    intro edge last hpath
    obtain ⟨_, ⟨hne, _⟩, _⟩ := TransGen.head'_iff.mp hpath
    exact hne rfl
  constructor
  · exact hremoved.known hwell
  · intro child parent
    by_cases hchild : child = name
    · subst child
      by_cases hparent : parent = name
      · simp [hparent, hremoved.linked_self]
      · simp [hremoved.linked_self, hremoved.children parent hparent]
    · rw [hremoved.parents child hchild]
      by_cases hparent : parent = name
      · simp [hparent, hremoved.linked_self]
      · simp [hremoved.children parent hparent, hchild, hparent, hwell.dual]
  · rw [hremoved.edge_parents]
    exact acyclic_of_subrelation (fun _ _ hedge => hedge.2.1) hwell.acyclic
  · intro child other
    rw [hremoved.edge_parents]
    by_cases hchild : child = name
    · rw [hchild, hremoved.linked_self]
      simp [hstuck]
    · rw [hremoved.ancestors child hchild, transGen_cutInto_iff_of_ne hchild]
  · intro parent other
    rw [hremoved.edge_children]
    by_cases hparent : parent = name
    · rw [hparent, hremoved.linked_self]
      simp [hstuck]
    · rw [hremoved.descendants parent hparent, transGen_cutInto_iff_of_ne hparent]

/-- `remove` keeps the invariant and the bookkeeping. -/
theorem remove_spec (hwell : edit.taxonomy.WellFormed) (name : Bytes) :
    (edit.remove name).taxonomy.WellFormed ∧ Exact edit (edit.remove name) := by
  by_cases hname : name ∈ edit.taxonomy.names
  · have hremoved := removed_remove hwell hname
    exact ⟨hremoved.wellFormed hwell, hremoved.exact⟩
  · rw [← find_eq_none_iff] at hname
    have hsame : edit.remove name = edit := by simp only [remove, hname]
    rw [hsame]
    exact ⟨hwell, exact_refl edit⟩

end Remove

/-! ## Removing an edge -/

section RemoveParent

variable {edit : Edit} {name parent : Bytes}

/-- An edit of `remove_parent` after its first two calls: the direct links
lack the edge. -/
structure Disconnected (edit : Edit) (name parent : Bytes)
    (current : Edit) : Prop where
  names_eq : current.taxonomy.names = edit.taxonomy.names
  exact : Exact edit current
  edge_parents : current.taxonomy.Edge .parents =
    Closure.eraseEdge (edit.taxonomy.Edge .parents) name parent
  edge_children : current.taxonomy.Edge .children =
    Closure.eraseEdge (edit.taxonomy.Edge .children) parent name

theorem disconnected_disconnect (hname : name ∈ edit.taxonomy.names)
    (hparent : parent ∈ edit.taxonomy.names) :
    Disconnected edit name parent (edit.disconnect name parent) ∧
      ∀ link, link ≠ .parents → link ≠ .children → ∀ other,
        (edit.disconnect name parent).taxonomy.linked link other =
          edit.taxonomy.linked link other := by
  have hstart : Rewritten edit edit .children
      (fun key => (edit.taxonomy.linked .children key).erase name) ∅ edit :=
    Rewritten.refl rfl (exact_refl edit)
  have hfirst := hstart.mutate (notMem_empty parent) hparent rfl
    (mutates_removeChild name) rfl
  set first := edit.mutate parent (removeChild name) with hfirstDef
  have hparents : ∀ other, first.taxonomy.linked .parents other =
      edit.taxonomy.linked .parents other :=
    hfirst.linked_of_ne (by decide)
  have hmiddle : Rewritten edit first .parents
      (fun key => (edit.taxonomy.linked .parents key).erase parent) ∅ first :=
    Rewritten.refl hfirst.names_eq hfirst.exact
  have hsecond := hmiddle.mutate (notMem_empty name) hname
    (hparents name) (mutates_removeParent parent)
    (by rw [hparents])
  refine ⟨⟨hsecond.names_eq, hsecond.exact, ?_, ?_⟩, ?_⟩
  · funext child above
    rw [Taxonomy.Edge, disconnect, ← hfirstDef, hsecond.linked_eq, hparents]
    by_cases hchild : child = name
    · simp [eraseEdge, Taxonomy.Edge, hchild, and_comm]
    · simp [eraseEdge, Taxonomy.Edge, hchild]
  · funext above child
    rw [Taxonomy.Edge, disconnect, ← hfirstDef, hsecond.linked_of_ne (by decide),
      hfirst.linked_eq]
    by_cases habove : above = parent
    · simp [eraseEdge, Taxonomy.Edge, habove, and_comm]
    · simp [eraseEdge, Taxonomy.Edge, habove]
  · intro link hup hdown other
    rw [disconnect, ← hfirstDef, hsecond.linked_of_ne hup, hfirst.linked_of_ne hdown]

namespace Disconnected

variable {current next : Edit}

variable (hcut : Disconnected edit name parent current)

include hcut

theorem rewritten {target : Link} {value : Bytes → Categories} {visited : Categories}
    (hnext : Rewritten edit current target value visited next)
    (hparents : .parents ≠ target) (hchildren : .children ≠ target) :
    Disconnected edit name parent next where
  names_eq := hnext.names_eq
  exact := hnext.exact
  edge_parents := (hnext.edge_of_ne hparents).trans hcut.edge_parents
  edge_children := (hnext.edge_of_ne hchildren).trans hcut.edge_children

variable (hwell : edit.taxonomy.WellFormed)

include hwell

theorem recalculable_parents : Recalculable edit current .parents where
  names_eq := hcut.names_eq
  exact := hcut.exact
  known := by
    intro child other hother
    change current.taxonomy.Edge .parents child other at hother
    rw [hcut.edge_parents] at hother
    rw [hcut.names_eq]
    exact hwell.known .parents child hother.1
  acyclic := by
    rw [hcut.edge_parents]
    exact acyclic_of_subrelation (fun _ _ => And.left) hwell.acyclic

theorem recalculable_children : Recalculable edit current .children where
  names_eq := hcut.names_eq
  exact := hcut.exact
  known := by
    intro above other hother
    change current.taxonomy.Edge .children above other at hother
    rw [hcut.edge_children] at hother
    rw [hcut.names_eq]
    exact hwell.known .children above hother.1
  acyclic := by
    rw [hcut.edge_children]
    exact acyclic_of_subrelation (fun _ _ => And.left) hwell.acyclic_children

theorem mem_closureOf_parents (child other : Bytes) :
    other ∈ closureOf current .parents child ↔
      TransGen (eraseEdge (edit.taxonomy.Edge .parents) name parent) child other := by
  rw [(hcut.recalculable_parents hwell).mem_closureOf_iff, hcut.edge_parents]

theorem mem_closureOf_children (above other : Bytes) :
    other ∈ closureOf current .children above ↔
      TransGen (eraseEdge (edit.taxonomy.Edge .children) parent name) above other := by
  rw [(hcut.recalculable_children hwell).mem_closureOf_iff, hcut.edge_children]

/-- Without the edge, the invariant is restored once both closures are those
of the remaining graph. -/
theorem wellFormed (hancestors : ∀ child other,
      other ∈ current.taxonomy.linked .ancestors child ↔
        TransGen (eraseEdge (edit.taxonomy.Edge .parents) name parent) child other)
    (hdescendants : ∀ above other, other ∈ current.taxonomy.linked .descendants above ↔
        TransGen (eraseEdge (edit.taxonomy.Edge .children) parent name) above other) :
    current.taxonomy.WellFormed where
  known := by
    intro link child other hother
    cases link with
    | parents => exact (hcut.recalculable_parents hwell).known child hother
    | children => exact (hcut.recalculable_children hwell).known child hother
    | ancestors =>
      rw [hcut.names_eq]
      apply hwell.known .ancestors child
      rw [hwell.ancestors_iff]
      exact TransGen.mono (fun _ _ => And.left) _ _ ((hancestors child other).mp hother)
    | descendants =>
      rw [hcut.names_eq]
      apply hwell.known .descendants child
      rw [hwell.descendants_iff]
      exact TransGen.mono (fun _ _ => And.left) _ _ ((hdescendants child other).mp hother)
  dual := by
    intro child above
    change current.taxonomy.Edge .parents child above ↔
      current.taxonomy.Edge .children above child
    rw [hcut.edge_parents, hcut.edge_children]
    simp only [eraseEdge, Taxonomy.Edge, hwell.dual, and_comm]
  acyclic := (hcut.recalculable_parents hwell).acyclic
  ancestors_iff := by
    rw [hcut.edge_parents]
    exact hancestors
  descendants_iff := by
    rw [hcut.edge_children]
    exact hdescendants

omit hcut hwell

/-- The first three recalculations of `remove_parent`: all ancestors are right
again, and so are the descendants of the parent. -/
structure Halfway (edit : Edit) (name parent : Bytes) (current : Edit) :
    Prop extends Disconnected edit name parent current where
  ancestors : ∀ child other,
    other ∈ current.taxonomy.linked .ancestors child ↔
      TransGen (Closure.eraseEdge (edit.taxonomy.Edge .parents) name parent)
        child other
  descendants_parent : ∀ other,
    other ∈ current.taxonomy.linked .descendants parent ↔
      TransGen (Closure.eraseEdge (edit.taxonomy.Edge .children) parent name)
        parent other
  descendants_of_ne : ∀ above, above ≠ parent →
    current.taxonomy.linked .descendants above =
      edit.taxonomy.linked .descendants above

theorem halfway (hcut : Disconnected edit name parent current)
    (hclosures : ∀ link, link ≠ .parents → link ≠ .children → ∀ other,
      current.taxonomy.linked link other = edit.taxonomy.linked link other)
    (hwell : edit.taxonomy.WellFormed) (hne : name ≠ parent)
    (hname : name ∈ edit.taxonomy.names)
    (hparent : parent ∈ edit.taxonomy.names) :
    Halfway edit name parent ((recalcDescendants parent
      (recalcAncestors name current)).forLinked
        .descendants name recalcAncestors) := by
  have hfirst : Rewritten edit current .ancestors (closureOf current .parents)
      {name} (recalcAncestors name current) :=
    (hcut.recalculable_parents hwell).rewritten (mutates_setLink .ancestors) hname
      (hclosures .ancestors (by decide) (by decide) name)
  set raised := recalcAncestors name current
  have hcut₁ := hcut.rewritten hfirst (by decide) (by decide)
  have hsecond : Rewritten edit raised .descendants (closureOf raised .children)
      {parent} (recalcDescendants parent raised) := by
    apply (hcut₁.recalculable_children hwell).rewritten
      (mutates_setLink .descendants) hparent
    rw [hfirst.linked_of_ne (by decide), hclosures .descendants (by decide) (by decide)]
  set lowered := recalcDescendants parent raised
  have hcut₂ := hcut₁.rewritten hsecond (by decide) (by decide)
  have hread : lowered.taxonomy.linked .descendants name =
      edit.taxonomy.linked .descendants name := by
    rw [hsecond.linked_eq, if_neg (by simp [hne]), hfirst.linked_of_ne (by decide),
      hclosures .descendants (by decide) (by decide)]
  have hold : ∀ child, child ≠ name → lowered.taxonomy.linked .ancestors child =
        edit.taxonomy.linked .ancestors child := by
    intro child hchild
    rw [hsecond.linked_of_ne (by decide), hfirst.linked_eq,
      if_neg (by simp [hchild]), hclosures .ancestors (by decide) (by decide)]
  have hthird : Rewritten edit lowered .ancestors (closureOf lowered .parents)
      (edit.taxonomy.linked .descendants name)
      (lowered.forLinked .descendants name recalcAncestors) := by
    rw [← hread]
    apply (hcut₂.recalculable_parents hwell).rewritten_forLinked
      (mutates_setLink .ancestors) (by decide) (by decide)
    · rw [hread]
      exact hwell.known .descendants name
    · intro key hkey
      apply hold
      rintro rfl
      rw [hread] at hkey
      exact hwell.notMem_descendants key hkey
  refine ⟨hcut₂.rewritten hthird (by decide) (by decide), ?_, ?_, ?_⟩
  · intro child other
    rw [hthird.linked_eq]
    by_cases hbelow : child ∈ edit.taxonomy.linked .descendants name
    · rw [if_pos ⟨rfl, hbelow⟩, hcut₂.mem_closureOf_parents hwell]
    · rw [if_neg (fun h => hbelow h.2)]
      by_cases hchild : child = name
      · rw [hchild, hsecond.linked_of_ne (by decide), hfirst.linked_eq,
          if_pos (by simp), hcut.mem_closureOf_parents hwell]
      · rw [hold child hchild, hwell.ancestors_iff]
        apply transGen_eraseEdge_iff
        intro _ hreach
        rw [hwell.mem_descendants_iff] at hbelow
        rcases reflTransGen_iff_eq_or_transGen.mp hreach with heq | hpath
        · exact hchild heq.symm
        · exact hbelow hpath
  · intro other
    rw [hthird.linked_of_ne (by decide), hsecond.linked_eq, if_pos (by simp),
      hcut₁.mem_closureOf_children hwell]
  · intro above habove
    rw [hthird.linked_of_ne (by decide), hsecond.linked_eq, if_neg (by simp [habove]),
      hfirst.linked_of_ne (by decide), hclosures .descendants (by decide) (by decide)]

/-- The last loop of `remove_parent` recalculates the descendants of the
remaining ancestors of the parent. -/
theorem Halfway.spec (hhalf : Halfway edit name parent current)
    (hwell : edit.taxonomy.WellFormed) :
    (current.forLinked .ancestors parent recalcDescendants).taxonomy.WellFormed ∧
      Exact edit (current.forLinked .ancestors parent recalcDescendants) := by
  have hcut := hhalf.toDisconnected
  have hself : parent ∉ current.taxonomy.linked .ancestors parent := by
    rw [hhalf.ancestors]
    exact acyclic_of_subrelation (fun _ _ => And.left) hwell.acyclic parent
  have hlast : Rewritten edit current .descendants (closureOf current .children)
      (current.taxonomy.linked .ancestors parent)
      (current.forLinked .ancestors parent recalcDescendants) := by
    apply (hcut.recalculable_children hwell).rewritten_forLinked
      (mutates_setLink .descendants) (by decide) (by decide)
    · intro key hkey
      rw [hhalf.ancestors] at hkey
      apply hwell.known .ancestors parent
      rw [hwell.ancestors_iff]
      exact TransGen.mono (fun _ _ => And.left) _ _ hkey
    · intro key hkey
      apply hhalf.descendants_of_ne
      rintro rfl
      exact hself hkey
  refine ⟨(hcut.rewritten hlast (by decide) (by decide)).wellFormed hwell ?_ ?_,
    hlast.exact⟩
  · intro child other
    rw [hlast.linked_of_ne (by decide), hhalf.ancestors]
  · intro above other
    rw [hlast.linked_eq]
    by_cases habove : above ∈ current.taxonomy.linked .ancestors parent
    · rw [if_pos ⟨rfl, habove⟩, hcut.mem_closureOf_children hwell]
    · rw [if_neg (fun h => habove h.2)]
      by_cases hparent : above = parent
      · rw [hparent, hhalf.descendants_parent]
      · rw [hhalf.descendants_of_ne above hparent, hwell.descendants_iff]
        apply transGen_eraseEdge_iff
        intro hedge hreach
        apply habove
        rw [hhalf.ancestors, ← transGen_eraseEdge_iff, ← hwell.ancestors_iff,
          hwell.mem_ancestors_comm, hwell.descendants_iff]
        · rcases reflTransGen_iff_eq_or_transGen.mp hreach with heq | hpath
          · exact absurd heq.symm hparent
          · exact hpath
        · intro hup hloop
          exact hwell.acyclic parent (TransGen.tail' hloop hup)

end Disconnected

/-- `remove_parent` keeps the invariant and the bookkeeping. -/
theorem removeParent_spec (hwell : edit.taxonomy.WellFormed) (name parent : Bytes) :
    (edit.removeParent name parent).taxonomy.WellFormed ∧
      Exact edit (edit.removeParent name parent) := by
  unfold removeParent
  split
  next => exact ⟨hwell, exact_refl edit⟩
  next hne =>
    split
    next category above hname hparent =>
      have hname' := mem_names_iff.mpr ⟨category, hname⟩
      have hparent' := mem_names_iff.mpr ⟨above, hparent⟩
      obtain ⟨hcut, hclosures⟩ := disconnected_disconnect hname' hparent'
      exact (hcut.halfway hclosures hwell hne hname' hparent').spec hwell
    next => exact ⟨hwell, exact_refl edit⟩

end RemoveParent

end Edit

end Restpose
