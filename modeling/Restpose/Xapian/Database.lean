import Restpose.Core.Bytes

/-!
# Documents and databases

The part of the search library that the collections use.  A document has terms,
values and data; a database keeps documents under positive numbers and finds
the documents that have a term.  The operations are those that the library
documents.
-/

namespace Restpose.Xapian

open Std.ExtTreeMap Option

/-- What a document stores for one of its terms. -/
structure TermEntry where
  wdf : ℕ
  positions : List ℕ
  deriving DecidableEq

structure Document where
  terms : StdMap TermEntry
  values : Std.ExtTreeMap ℕ Bytes
  data : Bytes

namespace Document

/-- `termlist_begin()` to `termlist_end()`. -/
def termlist (document : Document) : List Bytes :=
  document.terms.keys

def addTerm (document : Document) (term : Bytes) (wdfinc : ℕ) :
    Document :=
  { document with
    terms := document.terms.insert term
      (match document.terms[term]? with
      | none => ⟨wdfinc, []⟩
      | some entry => { entry with wdf := entry.wdf + wdfinc }) }

def removeTerm (document : Document) (term : Bytes) : Document :=
  { document with terms := document.terms.erase term }

/-- `add_posting(term, position)`, which also counts the term once. -/
def addPosting (document : Document) (term : Bytes) (position : ℕ) :
    Document :=
  let entry := document.terms.getD term ⟨0, []⟩
  { document with
    terms := document.terms.insert term
      { wdf := entry.wdf + 1
        positions :=
          if position ∈ entry.positions then entry.positions
          else entry.positions.orderedInsert (· ≤ ·) position } }

/-- `add_value`.  An empty value is the same as none. -/
def addValue (document : Document) (slot : ℕ) (value : Bytes) :
    Document :=
  { document with
    values :=
      if value = [] then document.values.erase slot
      else document.values.insert slot value }

/-- `get_value`, the empty string if the slot has no value. -/
def getValue (document : Document) (slot : ℕ) : Bytes :=
  document.values.getD slot []

def setData (document : Document) (data : Bytes) : Document :=
  { document with data }

variable (document : Document)

theorem getValue_addValue (slot other : ℕ) (value : Bytes) :
    (document.addValue slot value).getValue other =
      if other = slot then value else document.getValue other := by
  rw [getValue, getValue, addValue, getD_eq_getD_getElem?, getD_eq_getD_getElem?]
  by_cases hslot : other = slot
  · subst hslot
    by_cases hvalue : value = [] <;> simp [hvalue]
  · have hne : compare slot other ≠ .eq := by
      rw [ne_eq, Std.LawfulEqCmp.compare_eq_iff_eq]
      exact fun heq => hslot heq.symm
    by_cases hvalue : value = []
    · simp [hvalue, hslot, Std.ExtTreeMap.getElem?_erase, hne]
    · simp [hvalue, hslot, Std.ExtTreeMap.getElem?_insert, hne]

theorem mem_termlist {document : Document} {term : Bytes} :
    term ∈ document.termlist ↔ term ∈ document.terms :=
  mem_keys

theorem pairwise_termlist :
    document.termlist.Pairwise fun left right => compare left right = .lt :=
  ordered_keys

variable (term other : Bytes)

theorem terms_addTerm (wdfinc : ℕ) (hne : term ≠ other) :
    (document.addTerm term wdfinc).terms[other]? = document.terms[other]? := by
  rw [addTerm, Std.ExtTreeMap.getElem?_insert, if_neg]
  simpa using hne

theorem mem_addTerm (wdfinc : ℕ) : other ∈ (document.addTerm term wdfinc).terms ↔
      other = term ∨ other ∈ document.terms := by
  rw [addTerm, mem_insert, Std.LawfulEqCmp.compare_eq_iff_eq, eq_comm]

theorem terms_removeTerm (hne : term ≠ other) :
    (document.removeTerm term).terms[other]? = document.terms[other]? := by
  rw [removeTerm, getElem?_erase, if_neg]
  simpa using hne

theorem mem_removeTerm : other ∈ (document.removeTerm term).terms ↔
      other ≠ term ∧ other ∈ document.terms := by
  rw [removeTerm, mem_erase, ne_eq, Std.LawfulEqCmp.compare_eq_iff_eq, eq_comm]

end Document

/-- A `Xapian::WritableDatabase`.  Documents have positive numbers, and new
numbers are above all that have been used. -/
structure Database where
  docs : Std.ExtTreeMap ℕ Document
  lastDocid : ℕ
  positive : ∀ docid ∈ docs, 0 < docid
  bounded : ∀ docid ∈ docs, docid ≤ lastDocid

namespace Database

def empty : Database where
  docs := ∅
  lastDocid := 0
  positive := by simp
  bounded := by simp

/-- The documents that have a term, in the order of their numbers. -/
def postlist (database : Database) (term : Bytes) : List ℕ :=
  database.docs.keys.filter fun docid =>
    match database.docs[docid]? with
    | none => false
    | some document => document.terms.contains term

def addDocument (database : Database) (document : Document) : Database where
  docs := database.docs.insert (database.lastDocid + 1) document
  lastDocid := database.lastDocid + 1
  positive := by
    intro docid hdocid
    rw [Std.ExtTreeMap.mem_insert, Std.LawfulEqCmp.compare_eq_iff_eq] at hdocid
    rcases hdocid with rfl | hdocid
    · omega
    · exact database.positive docid hdocid
  bounded := by
    intro docid hdocid
    rw [Std.ExtTreeMap.mem_insert, Std.LawfulEqCmp.compare_eq_iff_eq] at hdocid
    rcases hdocid with rfl | hdocid
    · exact le_refl _
    · exact (database.bounded docid hdocid).trans (Nat.le_succ _)

/-- Put a document in the place of one that is there. -/
def replaceAt (database : Database) (docid : ℕ) (document : Document) :
    Database where
  docs := database.docs.modify docid fun _ => document
  lastDocid := database.lastDocid
  positive := by
    intro other hother
    rw [Std.ExtTreeMap.mem_modify] at hother
    exact database.positive other hother
  bounded := by
    intro other hother
    rw [Std.ExtTreeMap.mem_modify] at hother
    exact database.bounded other hother

def deleteDocument (database : Database) (docid : ℕ) : Database where
  docs := database.docs.erase docid
  lastDocid := database.lastDocid
  positive := fun other hother =>
    database.positive other (Std.ExtTreeMap.mem_of_mem_erase hother)
  bounded := fun other hother =>
    database.bounded other (Std.ExtTreeMap.mem_of_mem_erase hother)

/-- `replace_document(term, document)`: the first document with the term is
replaced and keeps its number, and the others are deleted; without one the
document is added. -/
def replaceDocument (database : Database) (term : Bytes)
    (document : Document) : Database :=
  match database.postlist term with
  | [] => database.addDocument document
  | first :: others =>
      others.foldl deleteDocument (database.replaceAt first document)

/-- `delete_document(term)`. -/
def deleteByTerm (database : Database) (term : Bytes) : Database :=
  (database.postlist term).foldl deleteDocument database

/-- `postlist_begin(term)` to `postlist_end(term)`; the empty term stands for
all documents. -/
def postings (database : Database) (term : Bytes) : List ℕ :=
  if term = [] then database.docs.keys else database.postlist term

def termExists (database : Database) (term : Bytes) : Bool :=
  !(database.postings term).isEmpty

def doccount (database : Database) : ℕ :=
  database.docs.size

variable {database : Database} {term : Bytes} {docid : ℕ}

theorem mem_postlist : docid ∈ database.postlist term ↔
      ∃ document, database.docs[docid]? = some document ∧ term ∈ document.terms := by
  rw [postlist, List.mem_filter, Std.ExtTreeMap.mem_keys,
    Std.ExtTreeMap.mem_iff_isSome_getElem?]
  cases database.docs[docid]? <;> simp [contains_iff_mem]

theorem pairwise_postlist (database : Database) (term : Bytes) :
    (database.postlist term).Pairwise (· < ·) := by
  have hkeys : database.docs.keys.Pairwise
      fun left right => compare left right = .lt := ordered_keys
  refine (hkeys.filter _).imp ?_
  intro left right hlt
  exact Nat.compare_eq_lt.mp hlt

/-- A term that one document has identifies it. -/
theorem postlist_eq_singleton {document : Document}
    (hdocument : database.docs[docid]? = some document)
    (hterm : term ∈ document.terms)
    (hunique : ∀ other otherDocument, database.docs[other]? = some otherDocument →
        term ∈ otherDocument.terms → other = docid) :
    database.postlist term = [docid] := by
  have hmem : docid ∈ database.postlist term :=
    mem_postlist.mpr ⟨document, hdocument, hterm⟩
  have hall : ∀ other ∈ database.postlist term, other = docid := by
    intro other hother
    obtain ⟨otherDocument, hfound, hhas⟩ := mem_postlist.mp hother
    exact hunique other otherDocument hfound hhas
  have hsorted := database.pairwise_postlist term
  generalize database.postlist term = docids at hmem hall hsorted
  match docids, hmem with
  | first :: rest, _ =>
    obtain rfl := hall first (by simp)
    cases rest with
    | nil => rfl
    | cons second rest =>
      have hsecond := hall second (by simp)
      have hlt := (List.pairwise_cons.mp hsorted).1 second (by simp)
      omega

/-- Replacing the only document with a term keeps its number and all other
documents. -/
theorem docs_replaceDocument (hpostlist : database.postlist term = [docid])
    (document : Document) (other : ℕ) :
    (database.replaceDocument term document).docs[other]? =
      if other = docid then some document else database.docs[other]? := by
  have hmem : docid ∈ database.postlist term := by simp [hpostlist]
  obtain ⟨old, hold, _⟩ := mem_postlist.mp hmem
  rw [replaceDocument, hpostlist]
  change (database.docs.modify docid fun _ => document)[other]? = _
  rw [Std.ExtTreeMap.getElem?_modify]
  by_cases hother : other = docid
  · subst other
    simp [hold]
  · rw [if_neg (by simpa using Ne.symm hother), if_neg hother]

theorem docs_foldl_deleteDocument (docids : List ℕ) (database : Database) (other : ℕ) :
    (docids.foldl deleteDocument database).docs[other]? =
      if other ∈ docids then none else database.docs[other]? := by
  induction docids generalizing database with
  | nil => simp
  | cons docid docids ih =>
    rw [List.foldl_cons, ih]
    by_cases hlater : other ∈ docids
    · simp [hlater]
    · rw [if_neg hlater, deleteDocument, getElem?_erase]
      by_cases heq : other = docid
      · simp [heq]
      · simp [heq, hlater, Ne.symm heq]

/-- After a replacement the only document with the term is the new one, and the
documents without the term are as before. -/
theorem exists_docid_replaceDocument (database : Database) (term : Bytes)
    (document : Document) :
    ∃ docid : ℕ, ∀ (other : ℕ) (found : Document),
      (database.replaceDocument term document).docs[other]? = some found ↔
        (other = docid ∧ found = document) ∨
          (database.docs[other]? = some found ∧ term ∉ found.terms) := by
  rw [replaceDocument]
  cases hpostlist : database.postlist term with
  | nil =>
    refine ⟨database.lastDocid + 1, fun other found => ?_⟩
    have hfree : database.docs[other]? = some found → term ∉ found.terms := by
      intro hfound hterm
      have hmem := mem_postlist.mpr ⟨found, hfound, hterm⟩
      simp [hpostlist] at hmem
    change (database.docs.insert (database.lastDocid + 1) document)[other]? = some found ↔
      _
    rw [Std.ExtTreeMap.getElem?_insert]
    by_cases heq : other = database.lastDocid + 1
    · have hnone : database.docs[other]? ≠ some found := by
        intro hfound
        have hmem : other ∈ database.docs := by
          rw [mem_iff_isSome_getElem?, hfound]
          rfl
        have hbound := database.bounded other hmem
        omega
      simp [heq, heq ▸ hnone, eq_comm]
    · have hne : database.lastDocid + 1 ≠ other := Ne.symm heq
      simp only [Std.LawfulEqCmp.compare_eq_iff_eq, if_neg hne, heq, false_and, false_or]
      exact ⟨fun hfound => ⟨hfound, hfree hfound⟩, And.left⟩
  | cons first others =>
    refine ⟨first, fun other found => ?_⟩
    have hhas : ∀ docid : ℕ, docid ∈ first :: others ↔ ∃ holder,
        database.docs[docid]? = some holder ∧ term ∈ holder.terms := by
      intro docid
      rw [← hpostlist]
      exact mem_postlist
    have hfirst : first ∉ others := by
      have hsorted := database.pairwise_postlist term
      rw [hpostlist] at hsorted
      exact fun hmem => lt_irrefl _ ((List.pairwise_cons.mp hsorted).1 _ hmem)
    change (others.foldl deleteDocument (database.replaceAt first
      document)).docs[other]? = some found ↔ _
    rw [docs_foldl_deleteDocument, replaceAt, Std.ExtTreeMap.getElem?_modify]
    by_cases heq : other = first
    · subst heq
      obtain ⟨old, hold, hterm⟩ := (hhas other).mp (List.mem_cons_self ..)
      have hgone : ¬ (database.docs[other]? = some found ∧ term ∉ found.terms) := by
        rintro ⟨hfound, hfree⟩
        rw [hold, some.injEq] at hfound
        exact hfree (hfound ▸ hterm)
      rw [if_neg hfirst, or_iff_left hgone]
      simp [hold, eq_comm]
    · have hne : first ≠ other := Ne.symm heq
      simp only [Std.LawfulEqCmp.compare_eq_iff_eq, if_neg hne, heq, false_and, false_or]
      by_cases hother : other ∈ others
      · obtain ⟨old, hold, hterm⟩ := (hhas other).mp (List.mem_cons_of_mem _ hother)
        rw [if_pos hother, hold]
        refine ⟨fun hnone => by simp at hnone, ?_⟩
        rintro ⟨hfound, hfree⟩
        exact absurd (some.inj hfound ▸ hterm) hfree
      · rw [if_neg hother]
        refine ⟨fun hfound => ⟨hfound, fun hterm => ?_⟩, And.left⟩
        rcases List.mem_cons.mp ((hhas other).mpr ⟨found, hfound, hterm⟩) with
          hmem | hmem
        · exact heq hmem
        · exact hother hmem

theorem docs_deleteByTerm (database : Database) (term : Bytes) (other : ℕ)
    (found : Document) :
    (database.deleteByTerm term).docs[other]? = some found ↔
      database.docs[other]? = some found ∧ term ∉ found.terms := by
  rw [deleteByTerm, docs_foldl_deleteDocument]
  by_cases hother : other ∈ database.postlist term
  · obtain ⟨old, hold, hterm⟩ := mem_postlist.mp hother
    rw [if_pos hother, hold]
    refine ⟨fun hnone => by simp at hnone, ?_⟩
    rintro ⟨hfound, hfree⟩
    exact absurd (some.inj hfound ▸ hterm) hfree
  · rw [if_neg hother]
    refine ⟨fun hfound => ⟨hfound, fun hterm => ?_⟩, And.left⟩
    exact hother (mem_postlist.mpr ⟨found, hfound, hterm⟩)

theorem termExists_iff (hterm : term ≠ []) : database.termExists term = true ↔
      ∃ (docid : ℕ) (document : Document),
        database.docs[docid]? = some document ∧ term ∈ document.terms := by
  rw [termExists, postings, if_neg hterm, Bool.not_eq_true',
    List.isEmpty_eq_false_iff_exists_mem]
  exact exists_congr fun docid => mem_postlist

/-- Two databases have documents under the same numbers, and these are related
one by one. -/
def Corresponds (relation : Document → Document → Prop)
    (before after : Database) : Prop :=
  ∀ docid : ℕ, Option.Rel relation before.docs[docid]? after.docs[docid]?

namespace Corresponds

variable {relation : Document → Document → Prop} {before after : Database}

theorem of_refl (hrefl : ∀ document, relation document document) (database : Database) :
    Corresponds relation database database := by
  intro docid
  cases database.docs[docid]? with
  | none => exact .none
  | some document => exact .some (hrefl document)

theorem exists_before (hdocs : Corresponds relation before after) {docid : ℕ}
    {document : Document} (hdocument : after.docs[docid]? = some document) :
    ∃ old, before.docs[docid]? = some old ∧ relation old document := by
  have hrel := hdocs docid
  rw [hdocument] at hrel
  generalize before.docs[docid]? = found at hrel
  cases hrel with
  | some hrelation => exact ⟨_, rfl, hrelation⟩

variable {relation' : Document → Document → Prop}

theorem map (hdocs : Corresponds relation before after) {last : Database}
    {rewrite : ℕ → Document → Document}
    (hlast : ∀ docid : ℕ, last.docs[docid]? = after.docs[docid]?.map (rewrite docid))
    (hrewrite : ∀ docid old document, relation old document →
      relation' old (rewrite docid document)) :
    Corresponds relation' before last := by
  intro docid
  have hrel := hdocs docid
  rw [hlast docid]
  generalize before.docs[docid]? = found, after.docs[docid]? = current at hrel
  cases hrel with
  | none => exact .none
  | some hrelation => exact .some (hrewrite docid _ _ hrelation)

theorem imp (hdocs : Corresponds relation before after)
    (himp : ∀ old document, relation old document → relation' old document) :
    Corresponds relation' before after := by
  have hsame : ∀ docid : ℕ, after.docs[docid]? = after.docs[docid]?.map id :=
    fun _ => by simp
  exact hdocs.map hsame fun _ => himp

end Corresponds

end Database

end Restpose.Xapian
