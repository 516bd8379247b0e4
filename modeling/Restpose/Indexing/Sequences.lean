import Restpose.Indexing.Visits
import Restpose.Config.SetConfig

/-!
# Sequences of documents

A schema is extended by the documents that are processed with it.  The order of
the documents does not matter.  Fields without an indexer go through the
patterns every time, so that a configuration that makes no indexer is replaced
by what the patterns say.
-/

namespace Restpose.Indexing

open Config

/-! ## The fields of a walk -/

section Visited

variable [Libraries] {Pipe Categoriser : Type}
  (collconfig : CollectionConfig Pipe Categoriser)
  (indexers : Bytes → Except Thrown (Option FieldIndexer))

variable {members : List (Bytes × Json)} {name : Bytes}

theorem visited_forEach_of_mem {walk : Walk}
    (hthrown : (Attempt.forEach (Walk.processField collconfig indexers) members
      walk).thrown = none)
    (hname : name ∈ walk.visited ∨ name ∈ members.map Prod.fst ∧
      name ≠ collconfig.metaField) :
    name ∈ (Attempt.forEach (Walk.processField collconfig indexers) members
      walk).state.visited := by
  induction members generalizing walk with
  | nil =>
    rcases hname with hname | ⟨hname, -⟩
    · exact hname
    · cases hname
  | cons entry members ih =>
    rw [Attempt.forEach_cons, Attempt.andThen] at hthrown ⊢
    split at hthrown
    next hnone =>
      refine ih hthrown ?_
      rw [mem_visited_processField]
      rcases hname with hname | ⟨hname, hne⟩
      · exact .inl (.inl hname)
      · rcases List.mem_cons.mp hname with heq | hname
        · exact .inl (.inr ⟨heq, hne⟩)
        · exact .inr ⟨hname, hne⟩
    next error hsome =>
      rw [hsome] at hthrown
      cases hthrown

variable {value : Json}

theorem mem_of_visited {errors : IndexingErrors}
    (hname : name ∈ (walkDocument collconfig indexers value errors).state.visited) :
    name ∈ processedNames collconfig value := by
  unfold walkDocument at hname
  cases hcheck : liftInvalid (value.checkObject "input document") with
  | error error =>
    rw [hcheck] at hname
    cases hname
  | ok _ =>
    rw [hcheck] at hname
    exact mem_of_visited_fields collconfig indexers hname

theorem visited_of_mem {errors : IndexingErrors}
    (hthrown : (walkDocument collconfig indexers value errors).thrown = none)
    (hname : name ∈ processedNames collconfig value) :
    name ∈ (walkDocument collconfig indexers value errors).state.visited := by
  rw [mem_processedNames] at hname
  unfold walkDocument at hthrown ⊢
  cases hcheck : liftInvalid (value.checkObject "input document") with
  | error error =>
    rw [hcheck] at hthrown
    cases hthrown
  | ok _ =>
    simp only [hcheck, Attempt.withValue, Attempt.andThen] at hthrown ⊢
    split at hthrown
    next hnone =>
      rw [mem_visited_processMetadata]
      exact hname.imp_left fun hname =>
        visited_forEach_of_mem collconfig indexers hnone (.inr hname)
    next error hsome =>
      rw [hsome] at hthrown
      cases hthrown

end Visited

/-! ## Sequences of documents -/

section Sequences

variable [Libraries] {Pipe Categoriser : Type}
  (collconfig : CollectionConfig Pipe Categoriser) (errors : IndexingErrors)

/-- Process documents one after the other, also after one of them could not be
processed. -/
def processAll (schema : Schema) (documents : List Json) : Schema :=
  documents.foldl (fun schema value =>
    (process collconfig schema value errors false).state.schema) schema

/-- The fields that are visited when a sequence of documents is processed. -/
def visitedAll (schema : Schema) (documents : List Json) : List Bytes :=
  documents.flatMap fun value =>
    (documentWalk collconfig schema value errors).state.visited

theorem After.visitedAll_eq {start schema : Schema} {visited : List Bytes}
    (hafter : After start visited schema) (documents : List Json) :
    visitedAll collconfig errors schema documents =
      visitedAll collconfig errors start documents := by
  simp only [visitedAll, hafter.documentWalk_eq]

theorem after_processAll (schema : Schema) (documents : List Json) :
    After schema (visitedAll collconfig errors schema documents)
      (processAll collconfig errors schema documents) := by
  induction documents generalizing schema with
  | nil => exact After.refl schema
  | cons value documents ih =>
    obtain ⟨-, hfirst, -⟩ := process_spec collconfig schema value errors false
    have hrest := hfirst.append (ih _)
    rwa [hfirst.visitedAll_eq] at hrest

/-- The configurations in the end do not depend on the order of the
documents. -/
theorem fields_processAll_perm (schema : Schema)
    {documents reordered : List Json} (hperm : documents.Perm reordered) :
    (processAll collconfig errors schema documents).fields =
      (processAll collconfig errors schema reordered).fields := by
  have hfirst := after_processAll collconfig errors schema documents
  have hsecond := after_processAll collconfig errors schema reordered
  refine Std.ExtTreeMap.ext_getElem? fun name => ?_
  have hvisited : name ∈ visitedAll collconfig errors schema documents ↔
      name ∈ visitedAll collconfig errors schema reordered :=
    (hperm.flatMap_right _).mem_iff
  have hentry : (processAll collconfig errors schema documents).entry name =
      (processAll collconfig errors schema reordered).entry name := by
    by_cases hname : name ∈ visitedAll collconfig errors schema documents
    · rw [hfirst.asked name hname, hsecond.asked name (hvisited.mp hname)]
    · rw [hfirst.others name hname,
        hsecond.others name (mt hvisited.mpr hname)]
  exact congrArg FieldEntry.config hentry

/-- A field is ready for documents. -/
def Ready (schema : Schema) (name : Bytes) : Prop :=
  (schema.entry name).Ready (schema.pattern name)

/-- No call changes a configuration that the schema had before, and a document
that was processed changes no fields when it is processed again, nor are there
new fields then. -/
structure KeepsFields (schema : Schema) (documents : List Json) : Prop where
  kept : ∀ before value rest, documents = before ++ value :: rest →
    ∀ (name : Bytes) (config : FieldConfig),
      (processAll collconfig errors schema before).fields[name]? =
        some config →
      (process collconfig (processAll collconfig errors schema before) value
        errors false).state.schema.fields[name]? = some config
  again : ∀ value ∈ documents,
    (process collconfig (processAll collconfig errors schema documents) value
        errors false).state.schema.fields =
      (processAll collconfig errors schema documents).fields ∧
    (process collconfig (processAll collconfig errors schema documents) value
      errors false).state.newFields = false

section Keeps

variable {collconfig errors} {schema : Schema} {documents : List Json}

variable {value : Json}

/-- Fields that are ready keep the configurations that they have. -/
theorem fields_process {visited : List Bytes} {current : Schema}
    (hafter : After schema visited current)
    (hready : ∀ name ∈ (documentWalk collconfig schema value errors).state.visited,
      Ready schema name)
    {name : Bytes} {config : FieldConfig}
    (hconfig : current.fields[name]? = some config) :
    (process collconfig current value errors false).state.schema.fields[name]? =
      some config := by
  obtain ⟨-, hprocessed, -⟩ := process_spec collconfig current value errors false
  rw [hafter.documentWalk_eq] at hprocessed
  by_cases hname : name ∈ (documentWalk collconfig schema value errors).state.visited
  · have hresult : (current.visit name).result ≠ .ok none := by
      rw [(hafter.visit_eq name).2]
      exact (FieldEntry.ready_iff _ _).mp (hready name hname)
    have hentry := hprocessed.asked name hname
    exact (congrArg FieldEntry.config hentry).trans
      (FieldEntry.config_visit _ _ hresult hconfig)
  · exact (congrArg FieldEntry.config (hprocessed.others name hname)).trans hconfig

theorem visitedAll_of_mem (hvalue : value ∈ documents) {name : Bytes}
    (hname : name ∈ (documentWalk collconfig
      (processAll collconfig errors schema documents) value errors).state.visited) :
    name ∈ visitedAll collconfig errors schema documents := by
  rw [(after_processAll collconfig errors schema documents).documentWalk_eq] at hname
  exact List.mem_flatMap.mpr ⟨value, hvalue, hname⟩

/-- A document that was processed changes no fields when it is processed
again. -/
theorem fields_process_again (hvalue : value ∈ documents) :
    (process collconfig (processAll collconfig errors schema documents) value
        errors false).state.schema.fields =
      (processAll collconfig errors schema documents).fields := by
  have hafter := after_processAll collconfig errors schema documents
  obtain ⟨-, hprocessed, -⟩ := process_spec collconfig
    (processAll collconfig errors schema documents) value errors false
  refine Std.ExtTreeMap.ext_getElem? fun name => ?_
  refine congrArg FieldEntry.config (?_ : Schema.entry _ name = Schema.entry _ name)
  by_cases hname : name ∈ (documentWalk collconfig
      (processAll collconfig errors schema documents) value
      errors).state.visited
  · rw [hprocessed.asked name hname, (hafter.visit_eq name).1,
      hafter.asked name (visitedAll_of_mem hvalue hname)]
  · exact hprocessed.others name hname

/-- Processing a document again counts new fields if and only if one of its
fields has no indexer. -/
theorem newFields_process_again (hvalue : value ∈ documents) :
    (process collconfig (processAll collconfig errors schema documents) value
        errors false).state.newFields = false ↔
      ∀ name ∈ (documentWalk collconfig schema value errors).state.visited,
        Ready schema name := by
  have hafter := after_processAll collconfig errors schema documents
  obtain ⟨-, -, hnew⟩ := process_spec collconfig
    (processAll collconfig errors schema documents) value errors false
  rw [hnew, Bool.false_or, List.any_eq_false]
  have hwalk := hafter.documentWalk_eq collconfig value errors
  rw [hwalk]
  refine forall₂_congr fun name hname => ?_
  have hvisited : name ∈ visitedAll collconfig errors schema documents :=
    visitedAll_of_mem hvalue (hwalk ▸ hname)
  obtain ⟨-, -, hagain⟩ := hafter.visit_of_mem hvisited
  rw [hagain, Ready, FieldEntry.ready_iff]
  rfl

end Keeps

/-- Known fields are kept, and documents can be processed again without new
fields, if and only if all fields that are asked for are ready.  These are among
the fields of the documents, and are all of them where no document causes an
exception. -/
theorem keepsFields_iff (schema : Schema) (documents : List Json) :
    (KeepsFields collconfig errors schema documents ↔
      ∀ value ∈ documents,
        ∀ name ∈ (documentWalk collconfig schema value errors).state.visited,
          Ready schema name) ∧
    ((∀ value ∈ documents, ∀ name ∈ processedNames collconfig value,
        Ready schema name) →
      KeepsFields collconfig errors schema documents) ∧
    ((∀ value ∈ documents,
        (process collconfig schema value errors false).thrown = none) →
      (KeepsFields collconfig errors schema documents ↔
        ∀ value ∈ documents, ∀ name ∈ processedNames collconfig value,
          Ready schema name)) := by
  have hexact : KeepsFields collconfig errors schema documents ↔
      ∀ value ∈ documents,
        ∀ name ∈ (documentWalk collconfig schema value errors).state.visited,
          Ready schema name := by
    constructor
    · intro hkeeps value hvalue
      exact (newFields_process_again hvalue).mp (hkeeps.again value hvalue).2
    · intro hready
      refine ⟨fun before value rest hsplit name config => ?_, ?_⟩
      · exact fields_process (after_processAll collconfig errors schema before)
          (hready value (by simp [hsplit]))
      · intro value hvalue
        exact ⟨fields_process_again hvalue,
          (newFields_process_again hvalue).mpr (hready value hvalue)⟩
  refine ⟨hexact, fun hready => hexact.mpr fun value hvalue name hname => ?_,
    fun hthrown => hexact.trans (forall₂_congr fun value hvalue => ?_)⟩
  · exact hready value hvalue name (mem_of_visited collconfig _ hname)
  · -- Without an exception the fields asked for are those of the document.
    obtain ⟨hends, -, -⟩ := process_spec collconfig schema value errors false
    exact forall_congr' fun name => imp_congr_left
      ⟨mem_of_visited collconfig _,
        visited_of_mem collconfig _ (hends (hthrown value hvalue))⟩

end Sequences

/-! ## Fields with and without an indexer -/

/-- A schema in which one field is ignored. -/
def ignoringSchema : Schema :=
  (Schema.new (ascii "book")).set (ascii "secret") (some .ignored)

/-- A schema in which one field is stored. -/
def storingSchema : Schema :=
  (Schema.new (ascii "book")).set (ascii "title")
    (some (.stored (ascii "title")))

def secretDocument : Json :=
  .object [(ascii "secret", .string (ascii "x"))]

def titledDocument : Json :=
  .object [(ascii "title", .string (ascii "x"))]

theorem fields_processAll_perm_pair : ∃ _ : Libraries,
    [secretDocument, titledDocument].Perm [titledDocument, secretDocument] ∧
      (processAll blankConfig .none ignoringSchema
          [secretDocument, titledDocument]).fields =
        (processAll blankConfig .none ignoringSchema
          [titledDocument, secretDocument]).fields :=
  ⟨Libraries.plain, List.Perm.swap _ _ _,
    @fields_processAll_perm Libraries.plain Empty Empty blankConfig .none
      ignoringSchema _ _ (List.Perm.swap _ _ _)⟩

theorem ready_storingSchema :
    ∀ value ∈ [titledDocument], ∀ name ∈ processedNames blankConfig value,
      Ready storingSchema name := by
  intro value hvalue name hname
  obtain rfl := List.mem_singleton.mp hvalue
  have htitle : processedNames blankConfig titledDocument = [ascii "title"] := by decide
  rw [htitle, List.mem_singleton] at hname
  subst hname
  have hentry : storingSchema.entry (ascii "title") =
      ⟨none, some (.stored (ascii "title"))⟩ := by
    simp [storingSchema, Schema.entry, Schema.set, Schema.new]
  rw [Ready, hentry]
  refine .inl ?_
  rintro ⟨⟩

theorem keepsFields_iff_stored : ∃ _ : Libraries,
    (∀ value ∈ [titledDocument], ∀ name ∈ processedNames blankConfig value,
        Ready storingSchema name) ∧
      KeepsFields blankConfig .none storingSchema [titledDocument] :=
  ⟨Libraries.plain, ready_storingSchema,
    (@keepsFields_iff Libraries.plain Empty Empty blankConfig .none
      storingSchema [titledDocument]).2.1 ready_storingSchema⟩

/-- The configuration of an ignored field is removed when a document has the
field and no pattern matches it, and the field counts as new every time. -/
theorem process_forgets_ignored : ∃ _ : Libraries,
    ignoringSchema.fields[ascii "secret"]? = some .ignored ∧
      (process blankConfig ignoringSchema secretDocument .none
        false).thrown = none ∧
      (process blankConfig ignoringSchema secretDocument .none
        false).state.schema.fields[ascii "secret"]? = none ∧
      (process blankConfig (processAll blankConfig .none ignoringSchema
        [secretDocument]) secretDocument .none false).state.newFields =
          true := by
  refine ⟨Libraries.plain, ?_⟩
  let _ := Libraries.plain
  decide +kernel

end Restpose.Indexing
