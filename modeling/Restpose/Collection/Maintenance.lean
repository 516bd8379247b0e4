import Restpose.Collection.GroupUpdate

/-!
# Maintenance of category terms

A call that edits a taxonomy leaves every document with the ancestor terms that
indexing it again would give.  The taxonomy reports the categories it changed,
and a document without any of these has the same ancestors as before; the
others are refreshed, group by group.
-/

namespace Restpose

open Xapian Finset Database Loops

/-! ## The groups of a taxonomy -/

theorem Collection.FieldConfig.groupName_addGroupIfTaxonomy
    (config : Collection.FieldConfig) (taxonomyName : Bytes) {groups : Finset Bytes}
    (hgroups : ∀ group ∈ groups, GroupName group) :
    ∀ group ∈ config.addGroupIfTaxonomy taxonomyName groups, GroupName group := by
  cases config with
  | other => exact hgroups
  | category field =>
    rw [addGroupIfTaxonomy]
    split
    · intro group hgroup
      rcases mem_insert.mp hgroup with rfl | hgroup
      · exact ⟨field.group_ne_nil, field.tab_notMem_group⟩
      · exact hgroups group hgroup
    · exact hgroups

theorem Collection.Schema.groupName_getTaxonomyGroups (schema : Collection.Schema)
    (taxonomyName : Bytes) {groups : Finset Bytes}
    (hgroups : ∀ group ∈ groups, GroupName group) :
    ∀ group ∈ schema.getTaxonomyGroups taxonomyName groups, GroupName group := by
  rw [getTaxonomyGroups]
  induction schema.fields.toList generalizing groups with
  | nil => exact hgroups
  | cons entry entries ih =>
    exact ih (entry.2.groupName_addGroupIfTaxonomy taxonomyName hgroups)

theorem Collection.groupName_getTaxonomyGroups (collection : Collection)
    (taxonomyName : Bytes) :
    ∀ group ∈ collection.getTaxonomyGroups taxonomyName, GroupName group := by
  have hfold : ∀ (entries : List (Bytes × Option Collection.Schema))
      (groups : Finset Bytes), (∀ group ∈ groups, GroupName group) →
      ∀ group ∈ entries.foldl (addSchemaGroups taxonomyName) groups, GroupName group := by
    intro entries
    induction entries with
    | nil => exact fun _ hgroups => hgroups
    | cons entry entries ih =>
      intro groups hgroups
      refine ih _ ?_
      rw [addSchemaGroups]
      split
      · exact hgroups
      · exact Collection.Schema.groupName_getTaxonomyGroups _ taxonomyName hgroups
  exact hfold _ ∅ (by simp)

/-! ## One group after the other -/

/-- What the edit of a taxonomy promises about a group: only categories that it
reported have other ancestors than before. -/
def Reported (old new : Taxonomy) (modified : Categories) : Prop :=
  ∀ category ∉ modified,
    new.linked .ancestors category = old.linked .ancestors category

/-- A document that has none of the modified categories needs no update. -/
theorem Reported.reflects_of_not_touched {old new : Taxonomy} {modified : Categories}
    (hreported : Reported old new modified) {group : Bytes} {document : Document}
    (huntouched : ¬ Touched group modified document)
    (hreflects : Reflects old group document) : Reflects new group document := by
  intro ancestor
  rw [hreflects ancestor]
  refine exists_congr fun category => and_congr_right fun hcategory => ?_
  have hunmodified : category ∉ modified := fun hmodified =>
    huntouched ⟨category, hmodified, hcategory⟩
  rw [hreported category hunmodified]

/-- A document before and after the update of some groups. -/
structure Maintained (old new : Taxonomy) (groups : Finset Bytes)
    (before after : Document) : Prop where
  kept : Kept groups before after
  reflects : ∀ group ∈ groups, Reflects old group before →
    Reflects new group after

theorem Maintained.refl (old new : Taxonomy) (document : Document) :
    Maintained old new ∅ document document :=
  ⟨Kept.refl ∅ document, by simp⟩

theorem Maintained.insert {old new : Taxonomy} {modified : Categories}
    (hreported : Reported old new modified) {visited : Finset Bytes}
    (hvisited : ∀ other ∈ visited, GroupName other) {group : Bytes}
    (hgroup : GroupName group) (hfresh : group ∉ visited) {before after : Document}
    (hmaintained : Maintained old new visited before after) :
    Maintained old new (insert group visited) before
      (if Touched group modified after then after.refresh new group
        else after) := by
  have hlast : Kept {group} after
    (if Touched group modified after then after.refresh new group
        else after) := by
    split
    · exact kept_refresh after new group
    · exact Kept.refl _ after
  refine ⟨hmaintained.kept.insert hlast, fun other hother hbefore => ?_⟩
  rcases mem_insert.mp hother with rfl | hearlier
  · have hafter : Reflects old other after :=
      (hmaintained.kept.reflects hvisited hgroup hfresh old).mpr hbefore
    split
    next => exact reflects_refresh after new hgroup
    next huntouched => exact hreported.reflects_of_not_touched huntouched hafter
  · have hne : other ∉ ({group} : Finset Bytes) := by
      rw [mem_singleton]
      rintro rfl
      exact hfresh hearlier
    rw [hlast.reflects (by simpa using hgroup) (hvisited other hearlier) hne]
    exact hmaintained.reflects other hearlier hbefore

namespace Collection

theorem forSet_updateGroup {base : Database} (hidentified : base.Identified)
    {old new : Taxonomy} {modified : Categories} (hreported : Reported old new modified)
    {groups : Finset Bytes} (hgroups : ∀ group ∈ groups, GroupName group) :
    groups ⊆ groups ∧ (forSet groups (updateGroup new modified) (base, none)).2 = none ∧
      base.Corresponds (Maintained old new groups)
        (forSet groups (updateGroup new modified) (base, none)).1 := by
  refine forSet_invariant (fun visited (state : Database × Option CollectionError) =>
      visited ⊆ groups ∧ state.2 = none ∧
        base.Corresponds (Maintained old new visited) state.1) ?_ ?_
  · rintro visited state group ⟨hsubset, hthrown, hdocs⟩ hgroup hfresh
    have hvisited : ∀ other ∈ visited, GroupName other :=
      fun other hother => hgroups other (hsubset hother)
    have hcurrent : state.1.Identified :=
      hidentified.of_kept hvisited (hdocs.imp fun _ _ => Maintained.kept)
    obtain ⟨hnone, hupdated⟩ := updateModifiedCategoriesGroup_spec hcurrent
      (hgroups group hgroup) new modified
    simp only [updateGroup, hthrown]
    refine ⟨insert_subset hgroup hsubset, hnone,
      hdocs.map hupdated fun _ _ _ hmaintained => ?_⟩
    exact hmaintained.insert hreported hvisited (hgroups group hgroup) hfresh
  · exact ⟨empty_subset _, rfl,
      Database.Corresponds.of_refl (Maintained.refl old new) base⟩

variable (collection : Collection) (taxonomyName : Bytes)

/-- The taxonomy reports every category whose ancestors a call changes. -/
theorem reported_run (call : Taxonomy.Call) :
    Reported (collection.getOrAddTaxonomy taxonomyName)
      (collection.runOnTaxonomy taxonomyName call).state.taxonomy
      (collection.runOnTaxonomy taxonomyName call).state.modified := by
  intro category hcategory
  have hwell : (⟨collection.getOrAddTaxonomy taxonomyName, ∅⟩ :
      Edit).taxonomy.WellFormed :=
    collection.wellFormed_getOrAddTaxonomy taxonomyName
  have hexact := (call.run_spec hwell).2 category
  by_contra hchanged
  exact hcategory (hexact.mpr (Or.inr (Or.inr (Or.inr ⟨_, Ne.symm hchanged⟩))))

theorem getOrAddTaxonomy_storeTaxonomy (call : Taxonomy.Call) :
    (collection.storeTaxonomy taxonomyName call).getOrAddTaxonomy taxonomyName =
      (collection.runOnTaxonomy taxonomyName call).state.taxonomy := by
  simp [getOrAddTaxonomy, storeTaxonomy]

/-- Adding a category changes no ancestors, and none of the documents. -/
theorem maintained_categoryAdd (name : Bytes) (groups : Finset Bytes) :
    collection.database.Corresponds (Maintained (collection.getOrAddTaxonomy taxonomyName)
        ((collection.categoryAdd taxonomyName name).collection.getOrAddTaxonomy
          taxonomyName) groups)
      (collection.categoryAdd taxonomyName name).collection.database := by
  have hreported : Reported (collection.getOrAddTaxonomy taxonomyName)
      ((collection.categoryAdd taxonomyName name).collection.getOrAddTaxonomy
        taxonomyName) ∅ := by
    intro category _
    rw [categoryAdd, getOrAddTaxonomy_storeTaxonomy]
    exact Edit.linked_add _ name .ancestors category
  refine Database.Corresponds.of_refl (fun document => ?_) collection.database
  refine ⟨Kept.refl groups document, fun group _ hreflects => ?_⟩
  refine hreported.reflects_of_not_touched ?_ hreflects
  rintro ⟨category, hcategory, _⟩
  exact absurd hcategory (notMem_empty category)

theorem maintained_editTaxonomy {collection : Collection}
    (hidentified : collection.database.Identified) (taxonomyName : Bytes)
    (call : Taxonomy.Call)
    (hreturns : (collection.editTaxonomy taxonomyName call).thrown = none) :
    collection.database.Corresponds (Maintained (collection.getOrAddTaxonomy taxonomyName)
        ((collection.editTaxonomy taxonomyName call).collection.getOrAddTaxonomy
          taxonomyName) (collection.getTaxonomyGroups taxonomyName))
      (collection.editTaxonomy taxonomyName call).collection.database := by
  have hloop := forSet_updateGroup hidentified (collection.reported_run taxonomyName call)
    (collection.groupName_getTaxonomyGroups taxonomyName)
  cases hthrown : (collection.runOnTaxonomy taxonomyName call).thrown with
  | some error => simp [editTaxonomy, hthrown] at hreturns
  | none =>
    have hedit : collection.editTaxonomy taxonomyName call =
        (collection.storeTaxonomy taxonomyName call).updateModifiedCategories taxonomyName
          (collection.runOnTaxonomy taxonomyName call).state.taxonomy
          (collection.runOnTaxonomy taxonomyName call).state.modified := by
      simp only [editTaxonomy, hthrown]
    have hstored : (collection.editTaxonomy taxonomyName call).collection.getOrAddTaxonomy
          taxonomyName =
        (collection.runOnTaxonomy taxonomyName call).state.taxonomy := by
      rw [hedit]
      exact collection.getOrAddTaxonomy_storeTaxonomy taxonomyName call
    rw [hstored, hedit]
    exact hloop.2.2

/-- A call that returns maintains every document. -/
theorem maintained_categoryCall {collection : Collection}
    (hidentified : collection.database.Identified) (taxonomyName : Bytes)
    (call : Taxonomy.Call)
    (hreturns : (collection.categoryCall taxonomyName call).thrown = none) :
    collection.database.Corresponds (Maintained (collection.getOrAddTaxonomy taxonomyName)
        ((collection.categoryCall taxonomyName call).collection.getOrAddTaxonomy
          taxonomyName) (collection.getTaxonomyGroups taxonomyName))
      (collection.categoryCall taxonomyName call).collection.database := by
  cases call with
  | add name => exact collection.maintained_categoryAdd taxonomyName name _
  | remove name | addParent child parent | removeParent child parent =>
    exact maintained_editTaxonomy hidentified taxonomyName _ hreturns

/-- If the ancestor terms of a group are those that indexing gives, they still
are after a call on the taxonomy that returns.  The documents keep their
numbers, values and data, and all terms that are not the ancestor terms of a
group of the taxonomy. -/
theorem category_terms_maintained {collection : Collection}
    (hidentified : collection.database.Identified)
    {taxonomyName group : Bytes}
    (hgroup : group ∈ collection.getTaxonomyGroups taxonomyName)
    (hbefore : ∀ (docid : ℕ) (document : Document),
      collection.database.docs[docid]? = some document →
        Reflects (collection.getOrAddTaxonomy taxonomyName) group document)
    (call : Taxonomy.Call)
    (hreturns : (collection.categoryCall taxonomyName call).thrown = none) :
    (∀ (docid : ℕ) (document : Document),
      (collection.categoryCall taxonomyName
        call).collection.database.docs[docid]? = some document →
          Reflects ((collection.categoryCall taxonomyName
            call).collection.getOrAddTaxonomy taxonomyName) group document) ∧
      collection.database.Corresponds
        (Kept (collection.getTaxonomyGroups taxonomyName))
        (collection.categoryCall taxonomyName call).collection.database := by
  have hdocs := maintained_categoryCall hidentified taxonomyName call hreturns
  refine ⟨fun docid document hdocument => ?_,
    hdocs.imp fun _ _ => Maintained.kept⟩
  obtain ⟨old, hold, hmaintained⟩ := hdocs.exists_before hdocument
  exact hmaintained.reflects group hgroup (hbefore docid old hold)

/-- A document of the category `b` in the group `h`. -/
def sharedDocument : Document :=
  ((Document.mk ∅ ∅ []).addTerm (ascii "\tdefault\t1") 0).addTerm
    (ascii "h\tCb") 0

/-- A collection with two groups, `g` and `h`, for one taxonomy. -/
def shared : Collection where
  types := Std.ExtTreeMap.empty.insert (ascii "default") (some
    ⟨(Std.ExtTreeMap.empty.insert (ascii "x") (.category ⟨ascii "g", ascii "t",
        by decide, by decide, by decide, by decide⟩)).insert (ascii "y")
      (.category ⟨ascii "h", ascii "t", by decide, by decide, by decide,
        by decide⟩)⟩)
  taxonomies := ∅
  wellFormed := by simp
  database := Database.empty.replaceDocument (ascii "\tdefault\t1")
    sharedDocument

theorem identified_shared : shared.database.Identified := by
  have honly : ∀ term ∈ sharedDocument.termlist,
      term.head? = some 9 → term = ascii "\tdefault\t1" := by
    decide
  have hterm : ascii "\tdefault\t1" ∈ sharedDocument.terms := by decide
  exact identified_empty.replaceDocument hterm (by decide)
    fun term hmem => honly term (Document.mem_termlist.mpr hmem)

theorem docs_shared {docid : ℕ} {document : Document}
    (hdocument : shared.database.docs[docid]? = some document) :
    document = sharedDocument := by
  change (empty.addDocument sharedDocument).docs[docid]? = _ at hdocument
  rw [addDocument, Std.ExtTreeMap.getElem?_insert] at hdocument
  split at hdocument
  · exact (Option.some.inj hdocument).symm
  · simp [empty] at hdocument

theorem category_terms_maintained_shared :
    ((shared.categoryAddParent (ascii "t") (ascii "b")
        (ascii "a")).collection.database.docs[1]?.map Document.termlist) =
      some [ascii "\tdefault\t1", ascii "h\tAa", ascii "h\tCb"] ∧
    ∀ (docid : ℕ) (document : Document),
      (shared.categoryAddParent (ascii "t") (ascii "b")
        (ascii "a")).collection.database.docs[docid]? = some document →
          Reflects ((shared.categoryAddParent (ascii "t") (ascii "b")
            (ascii "a")).collection.getOrAddTaxonomy (ascii "t")) (ascii "h")
            document := by
  have hbefore : Reflects (shared.getOrAddTaxonomy (ascii "t")) (ascii "h")
      sharedDocument := by
    decide
  refine ⟨by decide, (category_terms_maintained identified_shared (by decide)
    (fun _ _ hdocument => docs_shared hdocument ▸ hbefore)
    (.addParent (ascii "b") (ascii "a")) (by decide)).1⟩

/-- A call changes terms of the other groups of its taxonomy: the terms of the
group `g` are those that indexing gives, but the document gets a term of the
group `h`. -/
theorem other_group_changed_shared :
    shared.database.Identified ∧
      shared.getTaxonomyGroups (ascii "t") = {ascii "g", ascii "h"} ∧
      (∀ (docid : ℕ) (document : Document),
        shared.database.docs[docid]? = some document →
          Reflects (shared.getOrAddTaxonomy (ascii "t")) (ascii "g")
            document) ∧
      (shared.categoryAddParent (ascii "t") (ascii "b") (ascii "a")).thrown =
        none ∧
      ¬ ancestorStart (ascii "g") <+: ascii "h\tAa" ∧
      (shared.database.docs[1]?.map fun document =>
        document.terms[ascii "h\tAa"]?) = some none ∧
      ((shared.categoryAddParent (ascii "t") (ascii "b")
        (ascii "a")).collection.database.docs[1]?.map fun document =>
          document.terms[ascii "h\tAa"]?) = some (some ⟨0, []⟩) := by
  have hbefore : Reflects (shared.getOrAddTaxonomy (ascii "t")) (ascii "g")
      sharedDocument := by
    decide
  exact ⟨identified_shared, by decide,
    fun _ _ hdocument => docs_shared hdocument ▸ hbefore, by decide, by decide,
    by decide, by decide⟩

end Collection

end Restpose
