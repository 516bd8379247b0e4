import Restpose.Collection.Refresh
import Restpose.Config.Clone
import Restpose.Config.Rejected

/-!
# Removing a taxonomy

When a taxonomy is removed, the ancestor terms of its groups are to be taken out
of all documents.  The loop over the terms of a document does not move its
iterator: once it has found an ancestor term it removes the same term again,
which throws.  So nothing is ever removed from a document that is written back.
-/

namespace Restpose

open Xapian Std.ExtTreeMap Attempt Database

/-! ## Terms of a database -/

namespace Xapian

/-- `allterms_begin(start)` to `allterms_end(start)`. -/
def Database.allterms (database : Database) (start : Bytes) :
    List Bytes :=
  ((database.docs.toList.flatMap fun entry => entry.2.termlist).filter
    fun term => start.isPrefixOf term).toFinset.sort (· ≤ ·)

theorem Database.mem_allterms {database : Database} {start term : Bytes} :
    term ∈ database.allterms start ↔ start <+: term ∧ ∃ (docid : ℕ) (document : Document),
        database.docs[docid]? = some document ∧ term ∈ document.terms := by
  simp only [allterms, Finset.mem_sort, List.mem_toFinset, List.mem_filter,
    List.mem_flatMap, Prod.exists, Document.mem_termlist, mem_toList_iff_getElem?_eq_some,
    List.isPrefixOf_iff_prefix]
  exact and_comm

/-- `remove_term`, which throws if the term is not there. -/
def Document.tryRemoveTerm (document : Document) (term : Bytes) :
    Except Thrown Document :=
  if term ∈ document.terms then .ok (document.removeTerm term)
  else .error (.xapian ⟨ascii "Term '" ++ term ++ ascii
    "' is not present in document, in Xapian::Document::Internal::remove_term()"⟩)

end Xapian

/-! ## The loops -/

/-- The condition of the innermost loop, with the terms that its iterator has
not passed. -/
def removeGuard (start : Bytes) (iterator : List Bytes)
    (attempt : Attempt Thrown Document) : Bool :=
  attempt.thrown.isNone &&
    iterator.head?.any fun term => start.isPrefixOf term

/-- One pass of the innermost loop. -/
def removePass (iterator : List Bytes)
    (attempt : Attempt Thrown Document) : Attempt Thrown Document :=
  .withValue attempt.state
    (attempt.state.tryRemoveTerm (iterator.headD [])) .done

/-- The innermost loop.  Its iterator stays where it is, and every pass that does
not throw takes a term out of the document. -/
def removeLoop (start : Bytes) (iterator : List Bytes)
    (document : Document) : Attempt Thrown Document :=
  Loops.whileLoop (removeGuard start iterator) (removePass iterator)
    (document.terms.size + 1) (.done document)

/-- The body of the loop over the documents with a term. -/
def removeFrom (group : Bytes) (docid : ℕ) (database : Database) :
    Attempt Thrown Database :=
  match database.docs[docid]? with
  | none => .fail database
      (.xapian ⟨ascii "Document " ++ decimal docid ++ ascii " not found"⟩)
  | some document =>
      match document.idTerm with
      | none => .fail database (.invalidValue noIdError)
      | some idterm =>
          let iterator := skipTo (ancestorStart group)
            (skipTo (ascii "\t") document.termlist)
          let removed := removeLoop (ancestorStart group) iterator document
          match removed.thrown with
          | some error => .fail database error
          | none => .done (database.replaceDocument idterm removed.state)

/-- The loop over the ancestor terms of a group. -/
def removeTerms (group : Bytes) (database : Database) :
    Attempt Thrown Database :=
  .forEach
    (fun term current =>
      .forEach (removeFrom group) (current.postlist term) current)
    (database.allterms (ancestorStart group)) database

/-- What bounds the number of passes. -/
def removeMeasure (attempt : Attempt Thrown Document) : ℕ :=
  if attempt.thrown.isNone then attempt.state.terms.size + 1 else 0

theorem removeMeasure_removePass (iterator : List Bytes)
    {attempt : Attempt Thrown Document} (hnone : attempt.thrown = none) :
    removeMeasure (removePass iterator attempt) < removeMeasure attempt := by
  rw [removePass, Document.tryRemoveTerm]
  by_cases hterm : iterator.headD [] ∈ attempt.state.terms
  · have hsize : 0 < attempt.state.terms.size := by
      rw [← length_keys]
      exact List.length_pos_of_mem (mem_keys.mpr hterm)
    simp only [if_pos hterm, withValue, done, removeMeasure, hnone, Option.isNone_none,
      if_true, Document.removeTerm, size_erase, contains_iff_mem]
    omega
  · simp only [if_neg hterm, withValue, fail, removeMeasure,
      hnone, Option.isNone_none, Option.isNone_some, if_true]
    simp

section Loops

variable {start : Bytes} {iterator : List Bytes}

theorem removeLoop_thrown
    (hstarts : (iterator.head?.any fun term => start.isPrefixOf term) = true)
    (document : Document) : (removeLoop start iterator document).thrown ≠ none := by
  have hends : removeGuard start iterator (removeLoop start iterator document) =
      false := by
    have hmeasure : removeMeasure (.done document) ≤ document.terms.size + 1 := le_rfl
    apply (Loops.whileLoop_of_measure (fun _ => True) removeMeasure ?_ trivial hmeasure).2
    intro attempt _ hguard
    have hnone : attempt.thrown = none :=
      Option.isNone_iff_eq_none.mp (Bool.and_eq_true_iff.mp hguard).1
    exact ⟨trivial, removeMeasure_removePass iterator hnone⟩
  rw [removeGuard, hstarts, Bool.and_true] at hends
  intro hnone
  rw [hnone] at hends
  cases hends

theorem removeLoop_done
    (hstarts : (iterator.head?.any fun term => start.isPrefixOf term) = false)
    (document : Document) : removeLoop start iterator document = .done document := by
  rw [removeLoop, Loops.whileLoop, removeGuard, hstarts, Bool.and_false]
  rfl

theorem ends_removeLoop (start : Bytes) (iterator : List Bytes) (document : Document) :
    (removeLoop start iterator document).Ends (· = document) := by
  cases hstarts : iterator.head?.any fun term => start.isPrefixOf term with
  | true => exact fun hnone => absurd hnone (removeLoop_thrown hstarts document)
  | false =>
    rw [removeLoop_done hstarts]
    exact ends_done rfl

end Loops

/-! ## What is left in the database -/

/-- Some document has an ancestor term of one of the groups. -/
def HasAncestors (groups : Finset Bytes) (database : Database) : Prop :=
  ∃ (docid : ℕ) (document : Document),
    database.docs[docid]? = some document ∧
      ∃ term ∈ document.terms, ∃ group ∈ groups, ancestorStart group <+: term

/-- The documents with these numbers, if they are still there, have a term. -/
def HaveTerm (term : Bytes) (docids : List ℕ) (database : Database) :
    Prop :=
  ∀ docid ∈ docids, ∀ document, database.docs[docid]? = some document →
    term ∈ document.terms

section Database

variable {groups : Finset Bytes} {group term : Bytes}

variable {database : Database}

theorem hasAncestors_replaceDocument (hgroup : group ∈ groups)
    (hterm : ancestorStart group <+: term) {document : Document}
    (hmem : term ∈ document.terms) (idterm : Bytes) :
    HasAncestors groups (database.replaceDocument idterm document) := by
  obtain ⟨place, hplace⟩ := database.exists_docid_replaceDocument idterm document
  exact ⟨place, document, (hplace place document).mpr (Or.inl ⟨rfl, rfl⟩), term,
    hmem, group, hgroup, hterm⟩

theorem HaveTerm.replaceDocument {docids : List ℕ} {database : Database}
    (hhave : HaveTerm term docids database) {document : Document}
    (hmem : term ∈ document.terms) (idterm : Bytes) :
    HaveTerm term docids (database.replaceDocument idterm document) := by
  obtain ⟨place, hplace⟩ := database.exists_docid_replaceDocument idterm document
  intro docid hdocid found hfound
  rcases (hplace docid found).mp hfound with ⟨-, rfl⟩ | ⟨hold, -⟩
  · exact hmem
  · exact hhave docid hdocid found hold

variable (hgroup : group ∈ groups)

include hgroup

theorem ends_removeFrom (hterm : ancestorStart group <+: term) {docids : List ℕ}
    {docid : ℕ} (hdocid : docid ∈ docids) (hhave : HaveTerm term docids database) :
    (removeFrom group docid database).Ends fun after =>
      HasAncestors groups after ∧ HaveTerm term docids after := by
  cases hdocument : database.docs[docid]? with
  | none =>
    simp only [removeFrom, hdocument]
    exact ends_fail _ _
  | some document =>
    have hmem : term ∈ document.terms := hhave docid hdocid document hdocument
    have hends := ends_removeLoop (ancestorStart group) (skipTo (ancestorStart group)
        (skipTo (ascii "\t") document.termlist)) document
    simp only [removeFrom, hdocument]
    cases hid : document.idTerm with
    | none => exact ends_fail _ _
    | some idterm =>
      dsimp only
      generalize removeLoop _ _ document = removed at hends
      cases hthrown : removed.thrown with
      | some error => exact ends_fail _ _
      | none =>
        rw [hends hthrown]
        apply ends_done
        exact ⟨hasAncestors_replaceDocument hgroup hterm hmem idterm,
          hhave.replaceDocument hmem idterm⟩

theorem ends_removePostings (hterm : ancestorStart group <+: term)
    (hhas : HasAncestors groups database) :
    (forEach (removeFrom group) (database.postlist term) database).Ends
      (HasAncestors groups) := by
  have hboth : (forEach (removeFrom group) (database.postlist term)
      database).Ends fun after => HasAncestors groups after ∧
        HaveTerm term (database.postlist term) after := by
    apply ends_forEach_of_mem
    · intro docid hdocid current hcurrent
      exact ends_removeFrom hgroup hterm hdocid hcurrent.2
    · refine ⟨hhas, fun docid hdocid document hdocument => ?_⟩
      obtain ⟨found, hfound, hmem⟩ := mem_postlist.mp hdocid
      rwa [Option.some.inj (hdocument.symm.trans hfound)]
  exact fun hnone => (hboth hnone).1

theorem ends_removeTerms (hhas : HasAncestors groups database) :
    (removeTerms group database).Ends (HasAncestors groups) := by
  apply ends_forEach_of_mem
  · intro term hterm current hcurrent
    exact ends_removePostings hgroup (mem_allterms.mp hterm).1 hcurrent
  · exact hhas

theorem removeTerms_done (hhas : ¬HasAncestors groups database) :
    removeTerms group database = .done database := by
  have hempty : database.allterms (ancestorStart group) = [] := by
    apply List.eq_nil_iff_forall_not_mem.mpr
    intro term hterm
    obtain ⟨hstarts, docid, document, hdocument, hmem⟩ := mem_allterms.mp hterm
    exact hhas ⟨docid, document, hdocument, term, hmem, group, hgroup, hstarts⟩
  rw [removeTerms, hempty]
  rfl

omit hgroup

end Database

namespace Config

/-! ## The configuration -/

def FieldConfig.addGroupIfTaxonomy (config : FieldConfig)
    (name : Bytes) (groups : Finset Bytes) : Finset Bytes :=
  match config with
  | .category _ termPrefix taxonomyName _ =>
      if taxonomyName = name then insert termPrefix.dropLast groups else groups
  | _ => groups

def Schema.getTaxonomyGroups (schema : Schema) (name : Bytes)
    (groups : Finset Bytes) : Finset Bytes :=
  schema.fields.toList.foldl
    (fun found entry => entry.2.addGroupIfTaxonomy name found) groups

namespace CollectionConfig

variable {Pipe Categoriser : Type}

def getTaxonomyGroups (config : CollectionConfig Pipe Categoriser)
    (name : Bytes) : Finset Bytes :=
  config.types.toList.foldl
    (fun found entry => entry.2.getTaxonomyGroups name found) ∅

def removeTaxonomy (config : CollectionConfig Pipe Categoriser)
    (name : Bytes) : CollectionConfig Pipe Categoriser :=
  if name ∈ config.taxonomies then
    { config with taxonomies := config.taxonomies.erase name, changed := true }
  else config

end CollectionConfig

/-! ## The fields that category updates see -/

/-- The field of a `Collection` for a configuration.  A category field that was
read has a group and a taxonomy as its constructor accepts them. -/
def FieldConfig.forCategories : FieldConfig → Collection.FieldConfig
  | .category _ termPrefix taxonomyName _ =>
      if haccepted : (termPrefix.dropLast ≠ [] ∧ 9 ∉ termPrefix.dropLast) ∧
          taxonomyName ≠ [] ∧ 9 ∉ taxonomyName then
        .category ⟨termPrefix.dropLast, taxonomyName, haccepted.1.1,
          haccepted.1.2, haccepted.2.1, haccepted.2.2⟩
      else .other
  | _ => .other

def Schema.forCategories (schema : Schema) : Collection.Schema where
  fields := schema.fields.map fun _ config => config.forCategories

/-- The types of a `Collection` for a configuration. -/
def CollectionConfig.forCategories {Pipe Categoriser : Type}
    (config : CollectionConfig Pipe Categoriser) :
    StdMap (Option Collection.Schema) :=
  config.types.map fun _ schema => some schema.forCategories

theorem FieldConfig.addGroupIfTaxonomy_forCategories {config : FieldConfig}
    (hgiven : config.Given) (name : Bytes) (groups : Finset Bytes) :
    config.forCategories.addGroupIfTaxonomy name groups =
      config.addGroupIfTaxonomy name groups := by
  cases config with
  | category limits termPrefix taxonomyName storeField =>
    obtain ⟨-, ⟨group, rfl, hne, htab, -⟩, ⟨hname, hnameTab, -⟩, -⟩ := hgiven
    have hgroup : (group ++ ascii "\t").dropLast = group := List.dropLast_concat
    rw [forCategories, dif_pos]
    · rfl
    · rw [hgroup]
      simp_all
  | _ => rfl

theorem Schema.getTaxonomyGroups_forCategories {schema : Schema} (hgiven : schema.Given)
    (name : Bytes) (groups : Finset Bytes) :
    schema.forCategories.getTaxonomyGroups name groups =
      schema.getTaxonomyGroups name groups := by
  rw [Collection.Schema.getTaxonomyGroups, getTaxonomyGroups, forCategories, toList_map,
    List.foldl_map]
  refine List.foldl_ext _ _ _ fun found entry hentry => ?_
  exact FieldConfig.addGroupIfTaxonomy_forCategories
    (hgiven.fields entry hentry) name found

/-- A collection with the types of a configuration has its taxonomy groups. -/
theorem CollectionConfig.getTaxonomyGroups_forCategories {Pipe Categoriser : Type}
    {config : CollectionConfig Pipe Categoriser} {pipe : Pipe → Prop}
    {categoriser : Categoriser → Prop}
    (hgiven : config.Consists Schema.Given pipe categoriser) {collection : Collection}
    (htypes : collection.types = config.forCategories) (name : Bytes) :
    collection.getTaxonomyGroups name = config.getTaxonomyGroups name := by
  rw [Collection.getTaxonomyGroups, htypes, forCategories, toList_map, List.foldl_map,
    getTaxonomyGroups]
  refine List.foldl_ext _ _ _ fun found entry hentry => ?_
  exact Schema.getTaxonomyGroups_forCategories (hgiven.types entry hentry).2 name found

/-! ## The groups of a taxonomy -/

/-- A category field of a taxonomy, with its group. -/
def FieldConfig.TaxonomyGroup (config : FieldConfig)
    (name group : Bytes) : Prop :=
  ∃ (limits : MaxLenFieldConfig) (termPrefix storeField : Bytes),
    config = .category limits termPrefix name storeField ∧
      group = termPrefix.dropLast

/-- A group of a category field of a taxonomy. -/
def Schema.TaxonomyGroup (schema : Schema) (name group : Bytes) : Prop :=
  ∃ (fieldname : Bytes) (config : FieldConfig),
    schema.fields[fieldname]? = some config ∧ config.TaxonomyGroup name group

/-- A group of a category field of a taxonomy, in a schema of any type. -/
def CollectionConfig.TaxonomyGroup {Pipe Categoriser : Type}
    (config : CollectionConfig Pipe Categoriser)
    (name group : Bytes) : Prop :=
  ∃ (type : Bytes) (schema : Schema),
    config.types[type]? = some schema ∧ schema.TaxonomyGroup name group

theorem FieldConfig.mem_addGroupIfTaxonomy (config : FieldConfig) {name group : Bytes}
    {groups : Finset Bytes} :
    group ∈ config.addGroupIfTaxonomy name groups ↔
      group ∈ groups ∨ config.TaxonomyGroup name group := by
  rw [TaxonomyGroup]
  cases config with
  | category limits termPrefix taxonomyName storeField =>
    rw [addGroupIfTaxonomy]
    by_cases hname : taxonomyName = name
    · simp [hname, or_comm]
    · simp [hname]
  | _ => simp [addGroupIfTaxonomy]

theorem mem_foldl_add {Item Element : Type} {given : Item → Element → Prop}
    {add : Finset Element → Item → Finset Element}
    (hadd : ∀ item found element, element ∈ add found item ↔ element ∈ found ∨
      given item element)
    (items : List Item) {found : Finset Element} {element : Element} :
    element ∈ items.foldl add found ↔ element ∈ found ∨ ∃ item ∈ items,
      given item element := by
  induction items generalizing found with
  | nil => simp
  | cons item items ih =>
    rw [List.foldl_cons, ih, hadd]
    simp [or_assoc]

theorem Schema.mem_getTaxonomyGroups (schema : Schema) {name group : Bytes}
    {groups : Finset Bytes} :
    group ∈ schema.getTaxonomyGroups name groups ↔
      group ∈ groups ∨ schema.TaxonomyGroup name group := by
  rw [getTaxonomyGroups, mem_foldl_add fun entry _ _ => entry.2.mem_addGroupIfTaxonomy]
  simp only [Prod.exists, mem_toList_iff_getElem?_eq_some]
  rfl

namespace CollectionConfig

variable {Pipe Categoriser : Type} {config : CollectionConfig Pipe Categoriser}
  {name : Bytes}

theorem mem_getTaxonomyGroups {group : Bytes} :
    group ∈ config.getTaxonomyGroups name ↔ config.TaxonomyGroup name group := by
  rw [getTaxonomyGroups, mem_foldl_add fun entry _ _ => entry.2.mem_getTaxonomyGroups]
  simp only [Prod.exists, mem_toList_iff_getElem?_eq_some, Finset.notMem_empty, false_or]
  rfl

theorem getTaxonomyGroups_removeTaxonomy :
    (config.removeTaxonomy name).getTaxonomyGroups name =
      config.getTaxonomyGroups name := by
  rw [removeTaxonomy]
  split <;> rfl

theorem toJson_removeTaxonomy [Part Pipe] [Part Categoriser] :
    (config.removeTaxonomy name).toJson =
      { config with taxonomies := config.taxonomies.erase name }.toJson := by
  rw [removeTaxonomy]
  split
  next => rfl
  next hname =>
    have hsame : config.taxonomies.erase name = config.taxonomies := by
      apply ext_getElem?
      intro other
      rw [StdMap.find_erase]
      split
      next heq =>
        subst heq
        exact (getElem?_eq_none hname).symm
      next => rfl
    rw [hsame]

/-- A taxonomy that is not in the configuration is not written, if all names of
taxonomies are C strings. -/
theorem member_taxonomies_of_erased [Part Pipe] [Part Categoriser]
    (hnames : ∀ entry ∈ config.taxonomies.toList, cString entry.1 = entry.1) :
    (({ config with taxonomies := config.taxonomies.erase name }.toJson).member
      (ascii "taxonomies")).member name = .null := by
  rw [(member_sections_toJson _).2.2, sectionMember]
  split
  next => rfl
  next =>
    apply member_mapToJson_of_ne
    intro entry hentry heq
    have hfind := mem_toList_iff_getElem?_eq_some.mp hentry
    rw [StdMap.find_erase] at hfind
    split at hfind
    next => cases hfind
    next hne =>
      rw [hnames entry (mem_toList_iff_getElem?_eq_some.mpr hfind)] at heq
      exact hne heq

end CollectionConfig

/-! ## The collection -/

/-- A `Collection` that is open for writing: its configuration, the one that is
saved, and its documents. -/
structure WritableCollection (Pipe Categoriser : Type) where
  stored : StoredConfig Pipe Categoriser
  database : Database

namespace WritableCollection

variable {Pipe Categoriser : Type} [Part Pipe] [Part Categoriser]

def removeTaxonomy (collection : WritableCollection Pipe Categoriser)
    (name : Bytes) :
    Attempt Thrown (WritableCollection Pipe Categoriser) :=
  let config := collection.stored.config.removeTaxonomy name
  let removed := Attempt.forEach removeTerms
    ((config.getTaxonomyGroups name).sort (· ≤ ·)) collection.database
  let changed : WritableCollection Pipe Categoriser :=
    ⟨{ collection.stored with config }, removed.state⟩
  match removed.thrown with
  | some error => .fail changed error
  | none => .done { changed with stored := changed.stored.writeConfig }

/-- What removing a taxonomy is to do: it returns, no document is left with an
ancestor term of a group of the taxonomy, everything else in the documents is as
before, and the saved configuration is the one without the taxonomy. -/
structure Removed (collection : WritableCollection Pipe Categoriser)
    (name : Bytes)
    (outcome : Attempt Thrown (WritableCollection Pipe Categoriser)) : Prop where
  returns : outcome.thrown = none
  terms : ∀ (docid : ℕ) (document : Document),
    outcome.state.database.docs[docid]? = some document →
      ∀ term ∈ document.terms, ∀ group,
        collection.stored.config.TaxonomyGroup name group →
          ¬ancestorStart group <+: term
  kept : collection.database.Corresponds
    (Kept (collection.stored.config.getTaxonomyGroups name))
    outcome.state.database
  saved : outcome.state.stored.written =
    { collection.stored.config with
      taxonomies := collection.stored.config.taxonomies.erase name }.toJson
  absent : (∀ entry ∈ collection.stored.config.taxonomies.toList,
      cString entry.1 = entry.1) →
    (outcome.state.stored.written.member (ascii "taxonomies")).member name =
      .null

variable {collection : WritableCollection Pipe Categoriser} {name : Bytes}

omit [Part Pipe] [Part Categoriser] in
theorem not_hasAncestors_iff :
    ¬HasAncestors (collection.stored.config.getTaxonomyGroups name)
        collection.database ↔
      ∀ (docid : ℕ) (document : Document),
        collection.database.docs[docid]? = some document →
          ∀ term ∈ document.terms, ∀ group,
            collection.stored.config.TaxonomyGroup name group →
              ¬ancestorStart group <+: term := by
  simp only [HasAncestors, CollectionConfig.mem_getTaxonomyGroups, not_exists, not_and]

theorem removeTaxonomy_done
    (hhas : ¬HasAncestors (collection.stored.config.getTaxonomyGroups name)
      collection.database) :
    collection.removeTaxonomy name = .done ⟨⟨collection.stored.config.removeTaxonomy name,
        (collection.stored.config.removeTaxonomy name).toJson⟩,
        collection.database⟩ := by
  have hloop : forEach removeTerms
    ((collection.stored.config.getTaxonomyGroups name).sort (· ≤ ·))
      collection.database = .done collection.database := by
    apply forEach_fixed
    intro group hgroup
    exact removeTerms_done ((Finset.mem_sort _).mp hgroup) hhas
  simp only [removeTaxonomy, CollectionConfig.getTaxonomyGroups_removeTaxonomy, hloop]
  rfl

/-- If the call returns, an ancestor term that was there is still there. -/
theorem hasAncestors_removeTaxonomy
    (hhas : HasAncestors (collection.stored.config.getTaxonomyGroups name)
      collection.database) :
    (collection.removeTaxonomy name).Ends fun after =>
      HasAncestors (collection.stored.config.getTaxonomyGroups name) after.database := by
  have hends : (forEach removeTerms
    ((collection.stored.config.getTaxonomyGroups name).sort (· ≤ ·))
      collection.database).Ends
        (HasAncestors (collection.stored.config.getTaxonomyGroups name)) := by
    apply ends_forEach_of_mem
    · intro group hgroup database hdatabase
      exact ends_removeTerms ((Finset.mem_sort _).mp hgroup) hdatabase
    · exact hhas
  simp only [removeTaxonomy, CollectionConfig.getTaxonomyGroups_removeTaxonomy]
  generalize forEach removeTerms _ _ = removed at hends
  cases hthrown : removed.thrown with
  | some error => exact ends_fail _ _
  | none => exact ends_done (hends hthrown)

/-- A taxonomy is removed as it should be if and only if no document has an
ancestor term of one of its groups. -/
theorem removeTaxonomy_removed_iff
    (collection : WritableCollection Pipe Categoriser) (name : Bytes) :
    collection.Removed name (collection.removeTaxonomy name) ↔
      ∀ (docid : ℕ) (document : Document),
        collection.database.docs[docid]? = some document →
          ∀ term ∈ document.terms, ∀ group,
            collection.stored.config.TaxonomyGroup name group →
              ¬ancestorStart group <+: term := by
  rw [← not_hasAncestors_iff]
  constructor
  · intro hremoved hhas
    obtain ⟨docid, document, hdocument, term, hterm, group, hgroup, hstarts⟩ :=
      hasAncestors_removeTaxonomy hhas hremoved.returns
    exact hremoved.terms docid document hdocument term hterm group
      (CollectionConfig.mem_getTaxonomyGroups.mp hgroup) hstarts
  · intro hhas
    have hsaved : (collection.stored.config.removeTaxonomy name).toJson = _ :=
      CollectionConfig.toJson_removeTaxonomy
    rw [removeTaxonomy_done hhas]
    exact
      { returns := rfl
        terms := not_hasAncestors_iff.mp hhas
        kept := Database.Corresponds.of_refl (Kept.refl _) collection.database
        saved := hsaved
        absent := fun hnames => by
          rw [← CollectionConfig.member_taxonomies_of_erased hnames, ← hsaved]
          rfl }

/-- A configuration with the taxonomy `t` and a category field of the group
`g`. -/
def taxonomyConfig : CollectionConfig Empty Empty :=
  { CollectionConfig.blank (ascii "books") with
    types := (∅ : StdMap Schema).insert (ascii "book")
      { Schema.new (ascii "book") with
        fields := (∅ : StdMap FieldConfig).insert (ascii "cat")
          (.category ⟨⟨[], badValueno⟩, 32, .hash⟩ (ascii "g\t") (ascii "t") []) }
    taxonomies := (∅ : StdMap Taxonomy).insert (ascii "t") Taxonomy.empty }

/-- A collection with one document, which has the term of its id and one other
term. -/
def taxonomyCollection (term : Bytes) : WritableCollection Empty Empty :=
  ⟨⟨taxonomyConfig, taxonomyConfig.toJson⟩,
    Database.empty.addDocument
      (((Document.mk ∅ ∅ []).addTerm (ascii "\tbook\t1") 0).addTerm term 0)⟩

/-- A document in a category without ancestors. -/
theorem removeTaxonomy_removed_category :
    (taxonomyCollection (ascii "g\tCb")).Removed (ascii "t")
      ((taxonomyCollection (ascii "g\tCb")).removeTaxonomy (ascii "t")) := by
  apply (removeTaxonomy_removed_iff _ _).mpr
  apply not_hasAncestors_iff.mp
  rintro ⟨docid, document, hdocument, term, hterm, group, hgroup, hstarts⟩
  have hempty : (taxonomyCollection (ascii "g\tCb")).database.allterms
      (ancestorStart (ascii "g")) = [] := by
    decide +kernel
  have hgroups : (taxonomyCollection
      (ascii "g\tCb")).stored.config.getTaxonomyGroups (ascii "t") =
        {ascii "g"} := by
    decide +kernel
  rw [hgroups, Finset.mem_singleton] at hgroup
  subst hgroup
  have hmem := Database.mem_allterms.mpr
    ⟨hstarts, docid, document, hdocument, hterm⟩
  rw [hempty] at hmem
  cases hmem

/-- A document with an ancestor term: the call throws, the term is still there,
and so is the taxonomy in the saved configuration. -/
theorem removeTaxonomy_throws_ancestor :
    ((taxonomyCollection (ascii "g\tAa")).database.docs[1]?.bind
        fun document => document.idTerm) = some (ascii "\tbook\t1") ∧
      ascii "g" ∈ (taxonomyCollection
        (ascii "g\tAa")).stored.config.getTaxonomyGroups (ascii "t") ∧
      ((taxonomyCollection (ascii "g\tAa")).removeTaxonomy (ascii "t")).thrown =
        some (.xapian ⟨ascii "Term 'g\tAa' is not present in document, in " ++
          ascii "Xapian::Document::Internal::remove_term()"⟩) ∧
      (((taxonomyCollection (ascii "g\tAa")).removeTaxonomy
        (ascii "t")).state.database.docs[1]?.map fun document =>
          document.termlist) = some [ascii "\tbook\t1", ascii "g\tAa"] ∧
      ((((taxonomyCollection (ascii "g\tAa")).removeTaxonomy
        (ascii "t")).state.stored.written.member (ascii "taxonomies")).member
          (ascii "t")).isNull = false := by
  decide +kernel

end WritableCollection

end Config

end Restpose
