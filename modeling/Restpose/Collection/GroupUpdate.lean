import Restpose.Collection.Refresh

/-!
# Updating one group

The merge of the posting lists visits every document that has a modified
category exactly once, so the update of a group is the refresh of these
documents.  Documents are written back under their id terms: a database in
which every document has an id term, and shares it with no other, keeps every
document under its number.
-/

namespace Restpose

open Xapian Database List

namespace Xapian

/-- Every document has an id term, and no two documents share one. -/
structure Database.Identified (database : Database) : Prop where
  exists_id : ∀ (docid : ℕ) (document : Document),
    database.docs[docid]? = some document →
      ∃ term ∈ document.terms, term.head? = some 9
  unique : ∀ (left right : ℕ) (leftDocument rightDocument : Document)
    (term : Bytes), database.docs[left]? = some leftDocument →
      database.docs[right]? = some rightDocument →
        term ∈ leftDocument.terms → term ∈ rightDocument.terms →
          term.head? = some 9 → left = right

theorem Database.identified_empty : empty.Identified := by
  constructor <;> simp [empty]

/-- Writing a document under its only id term keeps the id terms apart. -/
theorem Database.Identified.replaceDocument {database : Database}
    (hidentified : database.Identified) {idterm : Bytes} {document : Document}
    (hterm : idterm ∈ document.terms) (htab : idterm.head? = some 9)
    (honly : ∀ term ∈ document.terms, term.head? = some 9 → term = idterm) :
    (database.replaceDocument idterm document).Identified := by
  obtain ⟨docid, hdocs⟩ := database.exists_docid_replaceDocument idterm document
  constructor
  · intro other found hfound
    rcases (hdocs other found).mp hfound with ⟨_, rfl⟩ | ⟨hold, _⟩
    · exact ⟨idterm, hterm, htab⟩
    · exact hidentified.exists_id other found hold
  · intro left right leftDocument rightDocument term hleft hright hinLeft hinRight hhead
    rcases (hdocs left leftDocument).mp hleft with ⟨rfl, rfl⟩ | ⟨holdLeft, hfreeLeft⟩
    · rcases (hdocs right rightDocument).mp hright with ⟨rfl, rfl⟩ | ⟨_, hfree⟩
      · rfl
      · exact absurd (honly term hinLeft hhead ▸ hinRight) hfree
    · rcases (hdocs right rightDocument).mp hright with ⟨rfl, rfl⟩ | ⟨holdRight, _⟩
      · exact absurd (honly term hinRight hhead ▸ hinLeft) hfreeLeft
      · exact hidentified.unique left right leftDocument rightDocument term
          holdLeft holdRight hinLeft hinRight hhead

theorem tab_isPrefix_iff {term : Bytes} : ascii "\t" <+: term ↔ term.head? = some 9 := by
  rw [show ascii "\t" = [9] by decide]
  cases term with
  | nil => simp
  | cons first rest => simp [eq_comm]

/-- A document with an id term is found to have one. -/
theorem Document.idTerm_spec {document : Document}
    (hid : ∃ term ∈ document.terms, term.head? = some 9) :
    ∃ term ∈ document.terms, term.head? = some 9 ∧ document.idTerm = some term := by
  obtain ⟨term, hterm, htab⟩ := hid
  have hsorted := document.pairwise_termlist
  have hskip : term ∈ skipTo (ascii "\t") document.termlist :=
    (mem_skipTo hsorted).mpr ⟨mem_termlist.mpr hterm,
      compare_ne_lt_of_isPrefix (tab_isPrefix_iff.mpr htab)⟩
  have hsorted : (skipTo (ascii "\t") document.termlist).Pairwise
      fun left right => compare left right = .lt := pairwise_skipTo hsorted
  rw [idTerm]
  cases hfound : skipTo (ascii "\t") document.termlist with
  | nil => simp [hfound] at hskip
  | cons first rest =>
    have hfirst : first ∈ skipTo (ascii "\t") document.termlist := by
      simp [hfound]
    obtain ⟨hmem, hfrom⟩ := (mem_skipTo document.pairwise_termlist).mp hfirst
    have htabs : first.head? = some 9 := by
      rw [hfound] at hskip hsorted
      rcases mem_cons.mp hskip with rfl | hrest
      · exact htab
      · have hlt := (pairwise_cons.mp hsorted).1 term hrest
        exact tab_isPrefix_iff.mp
          (isPrefix_of_between hfrom hlt (tab_isPrefix_iff.mpr htab))
    exact ⟨first, mem_termlist.mp hmem, htabs, by simp [htabs]⟩

theorem Database.Identified.of_kept {before after : Database}
    (hidentified : before.Identified) {groups : Finset Bytes}
    (hgroups : ∀ group ∈ groups, GroupName group)
    (hkept : before.Corresponds (Kept groups) after) : after.Identified := by
  have hback : ∀ (docid : ℕ) (document : Document), after.docs[docid]? = some document →
        ∃ old, before.docs[docid]? = some old ∧ ∀ term : Bytes,
          term.head? = some 9 → (term ∈ document.terms ↔ term ∈ old.terms) := by
    intro docid document hdocument
    obtain ⟨old, hold, hsame⟩ := hkept.exists_before hdocument
    refine ⟨old, hold, fun term htab => hsame.mem_iff fun group hgroup => ?_⟩
    exact (hgroups group hgroup).not_ancestorStart_of_tab htab
  constructor
  · intro docid document hdocument
    obtain ⟨old, hold, hterms⟩ := hback docid document hdocument
    obtain ⟨term, hterm, htab⟩ := hidentified.exists_id docid old hold
    exact ⟨term, (hterms term htab).mpr hterm, htab⟩
  · intro left right leftDocument rightDocument term hleft hright hinLeft hinRight htab
    obtain ⟨leftOld, hleftOld, hleftTerms⟩ := hback left leftDocument hleft
    obtain ⟨rightOld, hrightOld, hrightTerms⟩ := hback right rightDocument hright
    exact hidentified.unique left right leftOld rightOld term hleftOld hrightOld
      ((hleftTerms term htab).mp hinLeft) ((hrightTerms term htab).mp hinRight)
      htab

end Xapian

/-- A document with a category that was modified. -/
def Touched (group : Bytes) (modified : Categories)
    (document : Document) : Prop :=
  ∃ category ∈ modified, categoryStart group ++ category ∈ document.terms

instance (group : Bytes) (modified : Categories) (document : Document) :
    Decidable (Touched group modified document) :=
  inferInstanceAs (Decidable (∃ category ∈ modified,
    categoryStart group ++ category ∈ document.terms))

namespace Merge

variable {group : Bytes} {taxonomy : Taxonomy} {modified : Categories}
  {base : Database}

/-- Reading a document and writing it back refreshes it under its number. -/
theorem updateDocument_spec {database : Database} (hidentified : database.Identified)
    {docid : ℕ} {document : Document} (hdocument : database.docs[docid]? = some document)
    (group : Bytes) (taxonomy : Taxonomy) :
    ∃ updated, updateDocument database group taxonomy docid = .ok updated ∧
      ∀ other : ℕ, updated.docs[other]? =
        if other = docid then some (document.refresh taxonomy group)
        else database.docs[other]? := by
  obtain ⟨term, hterm, htab, hid⟩ := Document.idTerm_spec
    (hidentified.exists_id docid document hdocument)
  have hpostlist : database.postlist term = [docid] := by
    refine postlist_eq_singleton hdocument hterm ?_
    intro other otherDocument hother hshared
    exact hidentified.unique other docid otherDocument document term hother
      hdocument hshared hterm htab
  refine ⟨_, ?_, docs_replaceDocument hpostlist _⟩
  simp only [updateDocument, hdocument, hid]

/-- The state between two passes: the documents that no iterator is in front of
any more have been refreshed. -/
structure Merging (base : Database) (group : Bytes) (taxonomy : Taxonomy)
    (modified : Categories) (merge : Merge) : Prop where
  increasing : Cursors.Increasing merge.iters
  pending : ∀ docid ∈ merge.iters.flatten, ∃ document,
    base.docs[docid]? = some document ∧ Touched group modified document
  docs : ∀ docid : ℕ, merge.database.docs[docid]? =
    base.docs[docid]?.map fun document =>
      if Touched group modified document ∧ docid ∉ merge.iters.flatten then
        document.refresh taxonomy group
      else document
  thrown : merge.thrown = none

/-- Between two passes the documents have kept their id terms. -/
theorem Merging.identified {merge : Merge}
    (hmerging : Merging base group taxonomy modified merge) (hgroup : GroupName group)
    (hidentified : base.Identified) : merge.database.Identified := by
  have hgroups : ∀ other ∈ ({group} : Finset Bytes), GroupName other := by
    simpa using hgroup
  refine hidentified.of_kept hgroups
    ((Database.Corresponds.of_refl Eq.refl base).map hmerging.docs ?_)
  rintro docid _ document rfl
  split
  · exact kept_refresh _ taxonomy group
  · exact Kept.refl _ _

/-- What is left for the loop to do. -/
def remaining (merge : Merge) : ℕ :=
  merge.iters.flatten.length + if merge.iters.isEmpty then 0 else 1

theorem Merging.pass {merge : Merge}
    (hmerging : Merging base group taxonomy modified merge) (hgroup : GroupName group)
    (hidentified : base.Identified) (hiters : merge.iters.isEmpty = false) :
    Merging base group taxonomy modified (pass group taxonomy merge) ∧
      remaining (pass group taxonomy merge) < remaining merge := by
  have hflatten : (merge.iters.filter fun iter => !iter.isEmpty).flatten =
      merge.iters.flatten := flatten_filter_not_isEmpty
  have hincreasing := hmerging.increasing.filter
  have hpositive : 0 < remaining merge := by simp [remaining, hiters]
  rw [Merge.pass]
  split
  next hleast =>
    -- All iterators are at the end, and the loop breaks.
    have hnone : ∀ docid, docid ∉ merge.iters.flatten := by
      intro docid
      rw [← hflatten]
      exact hincreasing.notMem_of_least hleast docid
    refine ⟨⟨⟨by simp, by simp⟩, by simp, fun docid => ?_, hmerging.thrown⟩, ?_⟩
    · rw [hmerging.docs docid]
      simp [hnone docid]
    · simpa [remaining] using hpositive
  next hleast =>
    generalize hnext : Cursors.least
      (merge.iters.filter fun iter => !iter.isEmpty) = nextid at hleast ⊢
    have hmem : nextid ∈ merge.iters.flatten := by
      rw [← hflatten, ← hnext]
      exact Cursors.least_mem (hnext ▸ hleast)
    obtain ⟨document, hdocument, htouched⟩ := hmerging.pending nextid hmem
    have hcurrent : merge.database.docs[nextid]? = some document := by
      rw [hmerging.docs nextid, hdocument]
      simp [hmem]
    obtain ⟨updated, hupdate, hdocs⟩ := updateDocument_spec
      (hmerging.identified hgroup hidentified) hcurrent group taxonomy
    have hadvance : ∀ docid, docid ∈ ((merge.iters.filter
        fun iter => !iter.isEmpty).map (Cursors.advance nextid)).flatten ↔
          docid ∈ merge.iters.flatten ∧ docid ≠ nextid := by
      intro docid
      rw [← hnext, hincreasing.mem_advance, hflatten]
    rw [hupdate]
    refine ⟨⟨hnext ▸ hincreasing.advance, fun docid hdocid => ?_,
      fun docid => ?_, hmerging.thrown⟩, ?_⟩
    · exact hmerging.pending docid ((hadvance docid).mp hdocid).1
    · change updated.docs[docid]? = _
      rw [hdocs docid]
      simp only [hadvance]
      by_cases heq : docid = nextid
      · subst heq
        simp [hdocument, htouched]
      · rw [if_neg heq, hmerging.docs docid]
        simp [heq]
    · have hshorter := hincreasing.length_advance_lt (hnext ▸ hleast)
      rw [hnext, hflatten] at hshorter
      have hone : (if (merge.iters.filter fun iter => !iter.isEmpty).map
          (Cursors.advance nextid) = [] then 0 else 1) ≤ 1 := by
        split <;> omega
      simp only [remaining, hiters, List.isEmpty_iff]
      simp only [Bool.false_eq_true, if_false]
      omega

theorem mem_startIters (group : Bytes) (modified : Categories) (database : Database)
    (iter : List ℕ) :
    iter ∈ startIters group modified database ↔ ∃ category ∈ modified,
      iter = database.postlist (categoryStart group ++ category) := by
  have hrun : ∀ iter, iter ∈ startIters group modified database ↔ ∃ category ∈ modified,
        iter = database.postlist (categoryStart group ++ category) := by
    refine Loops.forSet_invariant (fun visited iters => ∀ iter, iter ∈ iters ↔
      ∃ category ∈ visited,
        iter = database.postlist (categoryStart group ++ category)) ?_ (by simp)
    intro visited iters category hiters _ _ other
    rw [List.mem_append, hiters, List.mem_singleton, or_comm]
    simp
  exact hrun iter

/-- At the start the iterators are in front of all documents that have a
modified category. -/
theorem mem_flatten_startIters {docid : ℕ} :
    docid ∈ (startIters group modified base).flatten ↔ ∃ document,
      base.docs[docid]? = some document ∧ Touched group modified document := by
  simp only [mem_flatten, mem_startIters]
  constructor
  · rintro ⟨_, ⟨category, hcategory, rfl⟩, hdocid⟩
    obtain ⟨document, hdocument, hterm⟩ := mem_postlist.mp hdocid
    exact ⟨document, hdocument, category, hcategory, hterm⟩
  · rintro ⟨document, hdocument, category, hcategory, hterm⟩
    exact ⟨_, ⟨category, hcategory, rfl⟩, mem_postlist.mpr ⟨document, hdocument, hterm⟩⟩

theorem merging_start (base : Database) (group : Bytes) (taxonomy : Taxonomy)
    (modified : Categories) :
    Merging base group taxonomy modified ⟨startIters group modified base, base, none⟩
      where
  increasing := by
    constructor
    · intro iter hiter
      obtain ⟨category, _, rfl⟩ := (mem_startIters ..).mp hiter
      exact base.pairwise_postlist _
    · intro docid hdocid
      obtain ⟨document, hdocument, _⟩ := mem_flatten_startIters.mp hdocid
      refine base.positive docid ?_
      rw [Std.ExtTreeMap.mem_iff_isSome_getElem?, hdocument]
      rfl
  pending := fun docid hdocid => mem_flatten_startIters.mp hdocid
  docs := by
    intro docid
    cases hdocument : base.docs[docid]? with
    | none => rfl
    | some document =>
      have hpending : Touched group modified document →
          docid ∈ (startIters group modified base).flatten := fun htouched =>
      mem_flatten_startIters.mpr ⟨document, hdocument, htouched⟩
      rw [Option.map_some, if_neg fun hdone => hdone.2 (hpending hdone.1)]
  thrown := rfl

end Merge

/-- The update of a group refreshes the documents with a modified category and
leaves the others alone.  It does not throw. -/
theorem updateModifiedCategoriesGroup_spec {database : Database}
    (hidentified : database.Identified) {group : Bytes} (hgroup : GroupName group)
    (taxonomy : Taxonomy) (modified : Categories) :
    (updateModifiedCategoriesGroup group taxonomy modified database).thrown = none ∧
      ∀ docid : ℕ, (updateModifiedCategoriesGroup group taxonomy modified
        database).database.docs[docid]? = database.docs[docid]?.map fun document =>
            if Touched group modified document then
              document.refresh taxonomy group
            else document := by
  have hrun : Merge.Merging database group taxonomy modified
        (updateModifiedCategoriesGroup group taxonomy modified database) ∧
      (!(updateModifiedCategoriesGroup group taxonomy modified database).iters.isEmpty &&
        (updateModifiedCategoriesGroup group taxonomy modified
          database).thrown.isNone) = false := by
    refine Loops.whileLoop_of_measure
      (Merge.Merging database group taxonomy modified) Merge.remaining ?_
      (Merge.merging_start database group taxonomy modified) ?_
    · intro merge hmerging hguard
      rw [Bool.and_eq_true, Bool.not_eq_true'] at hguard
      exact hmerging.pass hgroup hidentified hguard.1
    · simp only [Merge.remaining]
      split <;> omega
  obtain ⟨hmerging, hguard⟩ := hrun
  generalize updateModifiedCategoriesGroup group taxonomy modified database =
    merge at hmerging hguard ⊢
  have hempty : merge.iters = [] := by
    simpa [hmerging.thrown] using hguard
  refine ⟨hmerging.thrown, fun docid => ?_⟩
  rw [hmerging.docs docid]
  simp [hempty]

end Restpose
