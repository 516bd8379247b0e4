import Restpose.Core.Cursors
import Restpose.Taxonomy.Reachable
import Restpose.Xapian.Database

/-!
# Categories of a collection

A category field puts two kinds of terms into a document: one for each category
of the document, and one for each ancestor of these categories.  When a
taxonomy is edited, the collection brings the ancestor terms of the documents
up to date: for every group of terms that uses the taxonomy it goes through the
documents in the modified categories, in the order of their numbers, as
`collection.cc` does.
-/

namespace Restpose

open Xapian

/-- `CategoryFieldConfig`, as its constructor accepts it. -/
structure CategoryField where
  group : Bytes
  taxonomyName : Bytes
  group_ne_nil : group ≠ []
  tab_notMem_group : 9 ∉ group
  taxonomyName_ne_nil : taxonomyName ≠ []
  tab_notMem_taxonomyName : 9 ∉ taxonomyName

/-- `FieldConfig`, of which only category fields use taxonomies. -/
inductive Collection.FieldConfig where
  | category (field : CategoryField)
  | other

/-- The field types of a `Schema`. -/
structure Collection.Schema where
  fields : StdMap Collection.FieldConfig

namespace Collection.FieldConfig

def addGroupIfTaxonomy (config : Collection.FieldConfig)
    (taxonomyName : Bytes) (groups : Finset Bytes) :
    Finset Bytes :=
  match config with
  | .category field =>
      if field.taxonomyName = taxonomyName then insert field.group groups
      else groups
  | .other => groups

end Collection.FieldConfig

def Collection.Schema.getTaxonomyGroups (schema : Collection.Schema)
    (taxonomyName : Bytes) (groups : Finset Bytes) :
    Finset Bytes :=
  schema.fields.toList.foldl
    (fun found entry => entry.2.addGroupIfTaxonomy taxonomyName found) groups

/-- The errors that end an update. -/
inductive CollectionError where
  | invalidValue (error : InvalidValueError)
  /-- `Xapian::DocNotFoundError`. -/
  | docNotFound (docid : ℕ)
  deriving DecidableEq

/-- A collection that is open for writing: the schemas and taxonomies of its
configuration, and its documents. -/
structure Collection where
  types : StdMap (Option Collection.Schema)
  taxonomies : StdMap Taxonomy
  wellFormed : ∀ (name : Bytes) (taxonomy : Taxonomy),
    taxonomies[name]? = some taxonomy → taxonomy.WellFormed
  database : Database

/-- A collection with the exception that a call on it ended with. -/
structure CollectionOutcome where
  collection : Collection
  thrown : Option CollectionError

/-- `cat_prefix`: what the terms for the categories of a group start with. -/
def categoryStart (group : Bytes) : Bytes :=
  group ++ ascii "\t" ++ ascii "C"

/-- `ancestor_prefix`: what the terms for the ancestors of a group start
with. -/
def ancestorStart (group : Bytes) : Bytes :=
  group ++ ascii "\t" ++ ascii "A"

namespace Taxonomy

/-- One pass of the first loop over the terms: the ancestors of a category that
the taxonomy knows. -/
def collectPass (taxonomy : Taxonomy) (start : Bytes)
    (ancestors : Categories) (term : Bytes) : Categories :=
  match taxonomy.find (term.drop start.length) with
  | none => ancestors
  | some category => ancestors ∪ category.ancestors

/-- The first loop over the terms of a document: the ancestors of all its
categories. -/
def ancestorsOf (taxonomy : Taxonomy) (start : Bytes)
    (termlist : List Bytes) : Categories :=
  (scan start termlist).foldl (taxonomy.collectPass start) ∅

end Taxonomy

namespace Xapian.Document

/-- The id term of a document: its first term from a tab on, if that starts
with a tab. -/
def idTerm (document : Document) : Option Bytes :=
  match skipTo (ascii "\t") document.termlist with
  | [] => none
  | term :: _ => if term.head? = some 9 then some term else none

/-- One pass of the second loop over the terms: an ancestor term is kept if the
ancestor is wanted, which then needs no new term, and is removed otherwise. -/
def retainPass (start : Bytes) (state : Document × Categories)
    (term : Bytes) : Document × Categories :=
  if term.drop start.length ∈ state.2 then
    (state.1, state.2.erase (term.drop start.length))
  else (state.1.removeTerm term, state.2)

/-- Set the ancestor terms of a document.  The loop goes over the terms that
the document had when it was read. -/
def setAncestors (document : Document) (start : Bytes)
    (ancestors : Categories) : Document :=
  let retained := (scan start document.termlist).foldl (retainPass start)
    (document, ancestors)
  Loops.forSet retained.2
    (fun ancestor current => current.addTerm (start ++ ancestor) 0) retained.1

/-- Bring the ancestor terms of a document for a group up to date. -/
def refresh (document : Document) (taxonomy : Taxonomy) (group : Bytes) :
    Document :=
  document.setAncestors (ancestorStart group)
    (taxonomy.ancestorsOf (categoryStart group) document.termlist)

end Xapian.Document

/-- The error for a document without an id term. -/
def noIdError : InvalidValueError :=
  ⟨ascii "Document has no ID - cannot update category terms"⟩

/-- The local variables of the loop over the documents: what is left of each
posting list, and the database. -/
structure Merge where
  iters : List (List ℕ)
  database : Database
  thrown : Option CollectionError

namespace Merge

/-- The iterators over the documents in the modified categories. -/
def startIters (group : Bytes) (modified : Categories)
    (database : Database) : List (List ℕ) :=
  Loops.forSet modified
    (fun category iters =>
      iters ++ [database.postlist (categoryStart group ++ category)]) []

/-- The part of a pass that reads a document and writes it back. -/
def updateDocument (database : Database) (group : Bytes)
    (taxonomy : Taxonomy) (docid : ℕ) : Except CollectionError Database :=
  match database.docs[docid]? with
  | none => .error (.docNotFound docid)
  | some document =>
      match document.idTerm with
      | none => .error (.invalidValue noIdError)
      | some idterm =>
          .ok (database.replaceDocument idterm (document.refresh taxonomy group))

/-- One pass of the loop over the documents. -/
def pass (group : Bytes) (taxonomy : Taxonomy) (merge : Merge) : Merge :=
  let iters := merge.iters.filter fun iter => !iter.isEmpty
  let nextid := Cursors.least iters
  if nextid = 0 then { merge with iters := [] }
  else
    match updateDocument merge.database group taxonomy nextid with
    | .error error => { merge with thrown := some error }
    | .ok database =>
        { merge with iters := iters.map (Cursors.advance nextid), database }

end Merge

/-- `Collection::update_modified_categories_group`, for a group without its
trailing tab. -/
def updateModifiedCategoriesGroup (group : Bytes) (taxonomy : Taxonomy)
    (modified : Categories) (database : Database) : Merge :=
  let iters := Merge.startIters group modified database
  Loops.whileLoop (fun merge => !merge.iters.isEmpty && merge.thrown.isNone)
    (Merge.pass group taxonomy) (iters.flatten.length + 1)
    ⟨iters, database, none⟩

namespace Collection

/-- One turn of the loop over the types; a type may have no schema. -/
def addSchemaGroups (taxonomyName : Bytes) (groups : Finset Bytes)
    (entry : Bytes × Option Collection.Schema) : Finset Bytes :=
  match entry.2 with
  | none => groups
  | some schema => schema.getTaxonomyGroups taxonomyName groups

def getTaxonomyGroups (collection : Collection) (taxonomyName : Bytes) :
    Finset Bytes :=
  collection.types.toList.foldl (addSchemaGroups taxonomyName) ∅

def getOrAddTaxonomy (collection : Collection) (taxonomyName : Bytes) :
    Taxonomy :=
  collection.taxonomies[taxonomyName]?.getD Taxonomy.empty

/-- One turn of the loop over the groups; an exception ends the loop. -/
def updateGroup (taxonomy : Taxonomy) (modified : Categories)
    (group : Bytes) (state : Database × Option CollectionError) :
    Database × Option CollectionError :=
  match state.2 with
  | some error => (state.1, some error)
  | none =>
      let merge := updateModifiedCategoriesGroup group taxonomy modified state.1
      (merge.database, merge.thrown)

def updateModifiedCategories (collection : Collection)
    (taxonomyName : Bytes) (taxonomy : Taxonomy) (modified : Categories) :
    CollectionOutcome :=
  let state := Loops.forSet (collection.getTaxonomyGroups taxonomyName)
    (updateGroup taxonomy modified) (collection.database, none)
  ⟨{ collection with database := state.1 }, state.2⟩

theorem wellFormed_getOrAddTaxonomy (collection : Collection) (taxonomyName : Bytes) :
    (collection.getOrAddTaxonomy taxonomyName).WellFormed := by
  rw [getOrAddTaxonomy]
  cases hfind : collection.taxonomies[taxonomyName]? with
  | none => exact Taxonomy.wellFormed_empty
  | some taxonomy => exact collection.wellFormed taxonomyName taxonomy hfind

/-- The call on the taxonomy that a function of the configuration makes, with
the state it leaves behind when it throws. -/
def runOnTaxonomy (collection : Collection) (taxonomyName : Bytes)
    (call : Taxonomy.Call) : Outcome Edit :=
  call.run ⟨collection.getOrAddTaxonomy taxonomyName, ∅⟩

/-- The collection with the taxonomy that a call left behind. -/
def storeTaxonomy (collection : Collection) (taxonomyName : Bytes)
    (call : Taxonomy.Call) : Collection :=
  { collection with
    taxonomies := collection.taxonomies.insert taxonomyName
      (collection.runOnTaxonomy taxonomyName call).state.taxonomy
    wellFormed := by
      intro name taxonomy hfind
      rw [Std.ExtTreeMap.getElem?_insert] at hfind
      split at hfind
      · obtain rfl := Option.some.inj hfind
        exact (call.run_spec
          (collection.wellFormed_getOrAddTaxonomy taxonomyName)).1
      · exact collection.wellFormed name taxonomy hfind }

/-- A function that edits a taxonomy and then updates the documents. -/
def editTaxonomy (collection : Collection) (taxonomyName : Bytes)
    (call : Taxonomy.Call) : CollectionOutcome :=
  let outcome := collection.runOnTaxonomy taxonomyName call
  let stored := collection.storeTaxonomy taxonomyName call
  match outcome.thrown with
  | some error => ⟨stored, some (.invalidValue error)⟩
  | none =>
      stored.updateModifiedCategories taxonomyName outcome.state.taxonomy
        outcome.state.modified

/-- `Collection::category_add`.  It leaves the documents alone. -/
def categoryAdd (collection : Collection) (taxonomyName name : Bytes) :
    CollectionOutcome :=
  ⟨collection.storeTaxonomy taxonomyName (.add name), none⟩

def categoryRemove (collection : Collection) (taxonomyName name : Bytes) :
    CollectionOutcome :=
  collection.editTaxonomy taxonomyName (.remove name)

def categoryAddParent (collection : Collection)
    (taxonomyName child parent : Bytes) : CollectionOutcome :=
  collection.editTaxonomy taxonomyName (.addParent child parent)

def categoryRemoveParent (collection : Collection)
    (taxonomyName child parent : Bytes) : CollectionOutcome :=
  collection.editTaxonomy taxonomyName (.removeParent child parent)

/-- The four functions. -/
def categoryCall (collection : Collection) (taxonomyName : Bytes) :
    Taxonomy.Call → CollectionOutcome
  | .add name => collection.categoryAdd taxonomyName name
  | .remove name => collection.categoryRemove taxonomyName name
  | .addParent child parent =>
      collection.categoryAddParent taxonomyName child parent
  | .removeParent child parent =>
      collection.categoryRemoveParent taxonomyName child parent

end Collection

end Restpose
