import Restpose.Collection.Categories

/-!
# Refreshing the documents of a group

What the update of one group does.  For one document, the loops over its terms
leave exactly the terms of the wanted ancestors, and nothing else changes.  For
the database, the merge of the posting lists refreshes every document with a
modified category, each of them once, and leaves the others alone.
-/

namespace Restpose

open Xapian List Finset

/-! ## The terms of a group -/

/-- What `CategoryFieldConfig` checks of a group. -/
structure GroupName (group : Bytes) : Prop where
  ne_nil : group ≠ []
  tab_notMem : 9 ∉ group

/-- A tab ends the group in a term. -/
theorem eq_of_tab {left right leftRest rightRest : Bytes} (hleft : 9 ∉ left)
    (hright : 9 ∉ right) (heq : left ++ 9 :: leftRest = right ++ 9 :: rightRest) :
    left = right ∧ leftRest = rightRest := by
  induction left generalizing right with
  | nil =>
    cases right with
    | nil => exact ⟨rfl, tail_eq_of_cons_eq heq⟩
    | cons byte right =>
      have hbyte : (9 : Byte) = byte := head_eq_of_cons_eq heq
      exact absurd (by simp [hbyte]) hright
  | cons first left ih =>
    cases right with
    | nil =>
      have hfirst : first = (9 : Byte) := head_eq_of_cons_eq heq
      exact absurd (by simp [hfirst]) hleft
    | cons byte right =>
      obtain ⟨rfl, hrest⟩ := cons_eq_cons.mp heq
      obtain ⟨rfl, htail⟩ := ih (fun hmem => hleft (by simp [hmem]))
        (fun hmem => hright (by simp [hmem])) hrest
      exact ⟨rfl, htail⟩

theorem categoryStart_append (group name : Bytes) :
    categoryStart group ++ name = group ++ 9 :: 67 :: name := by
  simp [categoryStart, show ascii "\t" = [9] by decide, show ascii "C" = [67] by decide]

theorem ancestorStart_append (group name : Bytes) :
    ancestorStart group ++ name = group ++ 9 :: 65 :: name := by
  simp [ancestorStart, show ascii "\t" = [9] by decide, show ascii "A" = [65] by decide]

namespace GroupName

variable {group other : Bytes}

theorem eq_of_ancestorStart (hgroup : GroupName group) (hother : GroupName other)
    {name : Bytes} (hstarts : ancestorStart group <+: ancestorStart other ++ name) :
    group = other := by
  obtain ⟨rest, heq⟩ := hstarts
  rw [ancestorStart_append, ancestorStart_append] at heq
  exact (eq_of_tab hgroup.tab_notMem hother.tab_notMem heq).1

theorem not_ancestorStart (hgroup : GroupName group) (hother : GroupName other)
    (name : Bytes) : ¬ ancestorStart group <+: categoryStart other ++ name := by
  rintro ⟨rest, heq⟩
  rw [ancestorStart_append, categoryStart_append] at heq
  have htail := (eq_of_tab hgroup.tab_notMem hother.tab_notMem heq).2
  exact absurd (head_eq_of_cons_eq htail) (by decide)

theorem not_ancestorStart_of_tab (hgroup : GroupName group) {term : Bytes}
    (hterm : term.head? = some 9) : ¬ ancestorStart group <+: term := by
  rintro ⟨rest, rfl⟩
  rw [ancestorStart_append] at hterm
  match group, hgroup with
  | [], hgroup => exact hgroup.ne_nil rfl
  | first :: group, hgroup =>
    have hfirst : first = 9 := Option.some.inj hterm
    exact hgroup.tab_notMem (by simp [hfirst])

end GroupName

/-! ## One document -/

namespace Taxonomy

variable (taxonomy : Taxonomy) (start : Bytes)

theorem mem_collectPass (found : Categories) (term ancestor : Bytes) :
    ancestor ∈ taxonomy.collectPass start found term ↔ ancestor ∈ found ∨
      ancestor ∈ taxonomy.linked .ancestors (term.drop start.length) := by
  rw [collectPass]
  cases hfind : taxonomy.find (term.drop start.length) with
  | none => simp [linked_of_notMem (find_eq_none_iff.mp hfind)]
  | some category =>
    rw [linked_of_find hfind]
    exact mem_union

theorem mem_foldl_collectPass (terms : List Bytes) (found : Categories)
    (ancestor : Bytes) :
    ancestor ∈ terms.foldl (taxonomy.collectPass start) found ↔ ancestor ∈ found ∨
      ∃ term ∈ terms,
        ancestor ∈ taxonomy.linked .ancestors (term.drop start.length) := by
  induction terms generalizing found with
  | nil => simp
  | cons term terms ih =>
    rw [List.foldl_cons, ih, mem_collectPass]
    simp only [List.mem_cons, exists_eq_or_imp, or_assoc]

theorem mem_ancestorsOf (document : Document) (ancestor : Bytes) :
    ancestor ∈ taxonomy.ancestorsOf start document.termlist ↔
      ∃ category, start ++ category ∈ document.terms ∧
        ancestor ∈ taxonomy.linked .ancestors category := by
  rw [ancestorsOf, mem_foldl_collectPass]
  simp only [notMem_empty, false_or, mem_scan document.pairwise_termlist,
    Document.mem_termlist]
  constructor
  · rintro ⟨_, ⟨hterm, category, rfl⟩, hancestor⟩
    rw [drop_left] at hancestor
    exact ⟨category, hterm, hancestor⟩
  · rintro ⟨category, hterm, hancestor⟩
    refine ⟨start ++ category, ⟨hterm, prefix_append ..⟩, ?_⟩
    rwa [drop_left]

end Taxonomy

namespace Xapian.Document

/-- A document that differs from another one only in terms with a given
start, of which it has those of a given set. -/
structure Updated (start : Bytes) (names : Categories)
    (before after : Document) : Prop where
  mem_iff : ∀ name, start ++ name ∈ after.terms ↔ name ∈ names
  other : ∀ term, ¬ start <+: term →
    after.terms[term]? = before.terms[term]?
  values : after.values = before.values
  data : after.data = before.data

/-- The state of the second loop over the terms when `terms` are left. -/
structure Retaining (start : Bytes) (names : Categories)
    (before : Document) (terms : List Bytes)
    (state : Document × Categories) : Prop where
  mem_iff : ∀ name, start ++ name ∈ state.1.terms ↔
    name ∈ names ∧ name ∉ state.2 ∨ start ++ name ∈ terms
  wanted : state.2 ⊆ names
  pending : ∀ name, name ∈ names → start ++ name ∈ terms → name ∈ state.2
  other : ∀ term, ¬ start <+: term →
    state.1.terms[term]? = before.terms[term]?
  values : state.1.values = before.values
  data : state.1.data = before.data

variable {start : Bytes} {names : Categories}
  {state : Document × Categories}

theorem Retaining.step {term : Bytes} {before : Document} {terms : List Bytes}
    (hretaining : Retaining start names before (term :: terms) state)
    (hstarts : start <+: term) (hfresh : term ∉ terms) :
    Retaining start names before terms (retainPass start state term) := by
  obtain ⟨first, rfl⟩ := hstarts
  have hcons : ∀ name, start ++ name ∈ (start ++ first) :: terms ↔
      name = first ∨ start ++ name ∈ terms := by
    simp
  have hne : ∀ name, start ++ name ∈ terms → name ≠ first := by
    rintro name hname rfl
    exact hfresh hname
  have hmem := hretaining.mem_iff
  simp only [hcons] at hmem
  rw [retainPass, drop_left]
  by_cases hfirst : first ∈ state.2
  · rw [if_pos hfirst]
    refine ⟨fun name => ?_, (erase_subset _ _).trans hretaining.wanted,
      fun name hname hleft => ?_, hretaining.other, hretaining.values,
      hretaining.data⟩
    · have hwanted : first ∈ names := hretaining.wanted hfirst
      rw [hmem, mem_erase]
      by_cases heq : name = first
      · simp [heq, hwanted]
      · simp [heq]
    · have hpending := hretaining.pending name hname ((hcons name).mpr (Or.inr hleft))
      exact mem_erase.mpr ⟨hne name hleft, hpending⟩
  · rw [if_neg hfirst]
    have hunwanted : first ∉ names := fun hname =>
      hfirst (hretaining.pending first hname ((hcons first).mpr (Or.inl rfl)))
    refine ⟨fun name => ?_, hretaining.wanted, fun name hname hleft =>
      hretaining.pending name hname ((hcons name).mpr (Or.inr hleft)),
      fun term hterm => ?_, hretaining.values, hretaining.data⟩
    · rw [mem_removeTerm, hmem, ne_eq, append_cancel_left_eq]
      by_cases heq : name = first
      · simp [heq, hunwanted, hfresh]
      · simp [heq]
    · rw [terms_removeTerm _ _ _ (fun heq => hterm ⟨first, heq⟩)]
      exact hretaining.other term hterm

theorem Retaining.run {before : Document} {terms : List Bytes}
    (hretaining : Retaining start names before terms state)
    (hstarts : ∀ term ∈ terms, start <+: term) (hnodup : terms.Nodup) :
    Retaining start names before [] (terms.foldl (retainPass start) state) := by
  induction terms generalizing state with
  | nil => exact hretaining
  | cons term terms ih =>
    obtain ⟨hfresh, hrest⟩ := nodup_cons.mp hnodup
    refine ih ?_ (fun other hother => hstarts other (by simp [hother])) hrest
    exact hretaining.step (hstarts term (by simp)) hfresh

theorem Updated.addTerm {start : Bytes} {names : Categories} {before after : Document}
    (hupdated : Updated start names before after) (name : Bytes) (wdfinc : ℕ) :
    Updated start (insert name names) before (after.addTerm (start ++ name) wdfinc) where
  mem_iff := by
    intro other
    rw [mem_addTerm, append_cancel_left_eq, hupdated.mem_iff, mem_insert]
  other := by
    intro term hterm
    rw [terms_addTerm _ _ _ _ (fun heq => hterm ⟨name, heq⟩)]
    exact hupdated.other term hterm
  values := hupdated.values
  data := hupdated.data

/-- Adding the ancestors that are left over completes the update. -/
theorem Retaining.updated {before : Document}
    (hretaining : Retaining start names before [] state) :
    Updated start names before (Loops.forSet state.2
      (fun name current => current.addTerm (start ++ name) 0) state.1) := by
  have hinitial : Updated start (names \ state.2 ∪ ∅) before state.1 := by
    refine ⟨fun name => ?_, hretaining.other, hretaining.values, hretaining.data⟩
    rw [hretaining.mem_iff]
    simp
  have hstep : ∀ (visited : Finset Bytes) (current : Document) (name : Bytes),
      Updated start (names \ state.2 ∪ visited) before current → name ∈ state.2 →
        name ∉ visited →
          Updated start (names \ state.2 ∪ insert name visited) before
            (current.addTerm (start ++ name) 0) := by
    intro visited current name hcurrent _ _
    rw [union_insert]
    exact hcurrent.addTerm name 0
  have hrun := Loops.forSet_invariant
    (fun visited => Updated start (names \ state.2 ∪ visited) before)
    hstep hinitial
  rwa [sdiff_union_of_subset hretaining.wanted] at hrun

theorem updated_setAncestors (document : Document) (start : Bytes)
    (ancestors : Categories) :
    Updated start ancestors document (document.setAncestors start ancestors) := by
  have hscan : ∀ term, term ∈ scan start document.termlist ↔
      term ∈ document.termlist ∧ start <+: term :=
    fun _ => mem_scan document.pairwise_termlist
  have hinitial : Retaining start ancestors document
      (scan start document.termlist) (document, ancestors) := by
    refine ⟨fun name => ?_, Finset.Subset.refl _, fun _ hname _ => hname, fun _ _ =>
      rfl, rfl, rfl⟩
    rw [hscan, mem_termlist]
    simp
  have hnodup : (scan start document.termlist).Nodup := by
    refine (pairwise_scan document.pairwise_termlist).imp ?_
    rintro left _ hlt rfl
    have hself : compare left left = .eq := Std.ReflCmp.compare_self
    rw [hself] at hlt
    cases hlt
  exact (hinitial.run (fun term hterm => ((hscan term).mp hterm).2) hnodup).updated

end Xapian.Document

/-- The ancestor terms of a document for a group are those that indexing its
categories with the taxonomy gives. -/
def Reflects (taxonomy : Taxonomy) (group : Bytes)
    (document : Document) : Prop :=
  ∀ ancestor, ancestorStart group ++ ancestor ∈ document.terms ↔
    ∃ category, categoryStart group ++ category ∈ document.terms ∧
      ancestor ∈ taxonomy.linked .ancestors category

theorem reflects_iff_scan (taxonomy : Taxonomy) (group : Bytes) (document : Document) :
    Reflects taxonomy group document ↔ ((scan (ancestorStart group) document.termlist).map
        (List.drop (ancestorStart group).length)).toFinset =
          taxonomy.ancestorsOf (categoryStart group) document.termlist := by
  have hscan : ∀ name, name ∈ ((scan (ancestorStart group)
      document.termlist).map (drop (ancestorStart group).length)).toFinset ↔
        ancestorStart group ++ name ∈ document.terms := by
    intro name
    simp only [List.mem_toFinset, List.mem_map,
      mem_scan document.pairwise_termlist, Document.mem_termlist]
    constructor
    · rintro ⟨_, ⟨hterm, rest, rfl⟩, rfl⟩
      rwa [List.drop_left]
    · exact fun hterm => ⟨_, ⟨hterm, name, rfl⟩, List.drop_left⟩
  rw [Finset.ext_iff]
  simp only [hscan, Taxonomy.mem_ancestorsOf]
  rfl

instance (taxonomy : Taxonomy) (group : Bytes) (document : Document) :
    Decidable (Reflects taxonomy group document) :=
  decidable_of_iff _ (reflects_iff_scan taxonomy group document).symm

/-- Documents that are the same but for the ancestor terms of some groups. -/
structure Kept (groups : Finset Bytes) (before after : Document) :
    Prop where
  terms : ∀ term, (∀ group ∈ groups, ¬ ancestorStart group <+: term) →
    after.terms[term]? = before.terms[term]?
  values : after.values = before.values
  data : after.data = before.data

namespace Kept

variable {groups : Finset Bytes} {before after : Document}

theorem refl (groups : Finset Bytes) (document : Document) :
    Kept groups document document :=
  ⟨fun _ _ => rfl, rfl, rfl⟩

theorem mem_iff (hkept : Kept groups before after) {term : Bytes}
    (hterm : ∀ group ∈ groups, ¬ ancestorStart group <+: term) :
    term ∈ after.terms ↔ term ∈ before.terms := by
  rw [Std.ExtTreeMap.mem_iff_isSome_getElem?,
    Std.ExtTreeMap.mem_iff_isSome_getElem?, hkept.terms term hterm]

theorem insert {group : Bytes} {last : Document} (hkept : Kept groups before after)
    (hlast : Kept {group} after last) :
    Kept (insert group groups) before last where
  terms := by
    intro term hterm
    rw [hlast.terms term (by simpa using hterm group (by simp))]
    exact hkept.terms term fun other hother => hterm other (by simp [hother])
  values := hlast.values.trans hkept.values
  data := hlast.data.trans hkept.data

/-- The terms of a group depend only on the changes for this group. -/
theorem reflects (hkept : Kept groups before after)
    (hgroups : ∀ other ∈ groups, GroupName other) {group : Bytes}
    (hgroup : GroupName group) (hother : group ∉ groups) (taxonomy : Taxonomy) :
    Reflects taxonomy group after ↔ Reflects taxonomy group before := by
  have hancestor : ∀ name, ancestorStart group ++ name ∈ after.terms ↔
      ancestorStart group ++ name ∈ before.terms := by
    intro name
    refine hkept.mem_iff fun other hmem hstarts => hother ?_
    rwa [← (hgroups other hmem).eq_of_ancestorStart hgroup hstarts]
  have hcategory : ∀ name, categoryStart group ++ name ∈ after.terms ↔
      categoryStart group ++ name ∈ before.terms := fun name =>
    hkept.mem_iff fun other hmem =>
      (hgroups other hmem).not_ancestorStart hgroup name
  simp only [Reflects, hancestor, hcategory]

end Kept

theorem kept_refresh (document : Document) (taxonomy : Taxonomy) (group : Bytes) :
    Kept {group} document (document.refresh taxonomy group) := by
  have hupdated := document.updated_setAncestors (ancestorStart group)
    (taxonomy.ancestorsOf (categoryStart group) document.termlist)
  refine ⟨fun term hterm => hupdated.other term ?_, hupdated.values, hupdated.data⟩
  exact hterm group (Finset.mem_singleton_self group)

/-- Refreshing a document is indexing it again. -/
theorem reflects_refresh (document : Document) (taxonomy : Taxonomy) {group : Bytes}
    (hgroup : GroupName group) :
    Reflects taxonomy group (document.refresh taxonomy group) := by
  intro ancestor
  have hupdated := document.updated_setAncestors (ancestorStart group)
    (taxonomy.ancestorsOf (categoryStart group) document.termlist)
  have hcategory : ∀ name, categoryStart group ++
    name ∈ (document.refresh taxonomy group).terms ↔
        categoryStart group ++ name ∈ document.terms := by
    intro name
    refine (kept_refresh document taxonomy group).mem_iff fun other hother => ?_
    rw [Finset.mem_singleton.mp hother]
    exact hgroup.not_ancestorStart hgroup name
  rw [Document.refresh, hupdated.mem_iff, Taxonomy.mem_ancestorsOf]
  exact exists_congr fun category => and_congr_left' (hcategory category).symm

end Restpose
