import Restpose.Config.SetConfig
import Restpose.Indexing.IdTerm

/-!
# Documents are stored under their id

A document is fetched and deleted by the term for its type and its id.  Whether
`CollectionConfig::process_doc` stores it under this term depends on what the
id fields of the document give.
-/

namespace Restpose.Indexing

open Config List FieldConfig Option Json Attempt Libraries Schema ExactString

/-- The term that `get_document` and the delete task look for. -/
def fetchTerm (docType docId : Bytes) : Bytes :=
  FieldConfig.idPrefix docType ++ docId

section Names

variable [Libraries]

/-- The text of a value that has exactly one. -/
def singleText (value : Json) : Option Bytes :=
  match value with
  | .null => none
  | .array [item] => item.getIdstyleValue.toOption
  | .array _ => none
  | value => value.getIdstyleValue.toOption

/-- A type or an id: the one given from outside, and otherwise the single value
in the document. -/
def nameOf (given : Bytes) (value : Json) : Option Bytes :=
  if given = [] then singleText value else some given

theorem items_of_singleText {value : Json} {text : Bytes}
    (htext : singleText value = some text) :
    value.isNull = false ∧ ∃ item, (FieldRun.toArray value).items = [item] ∧
      item.getIdstyleValue = .ok text := by
  have hok : ∀ item : Json, item.getIdstyleValue.toOption = some text →
      item.getIdstyleValue = .ok text := by
    intro item hitem
    cases hvalue : item.getIdstyleValue with
    | ok other => rw [hvalue] at hitem; cases hitem; rfl
    | error error => rw [hvalue] at hitem; cases hitem
  cases value with
  | null => cases htext
  | array items =>
    match items, htext with
    | [item], htext => exact ⟨rfl, item, rfl, hok item htext⟩
    | [], htext => cases htext
    | _ :: _ :: _, htext => cases htext
  | int value | uint value | real bits | string text | bool value
  | object members =>
    exact ⟨rfl, _, rfl, hok _ htext⟩

/-- A text that was stored is the single one, unless it stands for none. -/
theorem singleText_of_storedText {value : Json} {text : Bytes}
    {missing : Except Bytes Bytes} {multiple : String} (hnull : value.isNull = false)
    (hstored : storedText value missing multiple = .ok text) :
    singleText value = some text ∨ value = .array [] ∧ missing = .ok text := by
  have hsome : ∀ item : Json, item.getIdstyleValue = .ok text →
      item.getIdstyleValue.toOption = some text := by
    intro item hitem
    rw [hitem]
    rfl
  cases value with
  | null => cases hnull
  | array items =>
    match items, hstored with
    | [], hstored => exact Or.inr ⟨rfl, hstored⟩
    | [item], hstored => exact Or.inl (hsome item hstored)
    | _ :: _ :: _, hstored => cases hstored
  | int value => exact Or.inl (hsome (.int value) hstored)
  | uint value => exact Or.inl (hsome (.uint value) hstored)
  | real bits => exact Or.inl (hsome (.real bits) hstored)
  | string stored => exact Or.inl (hsome (.string stored) hstored)
  | bool value => exact Or.inl (hsome (.bool value) hstored)
  | object members => exact Or.inl (hsome (.object members) hstored)

/-- A document with a type or an id put into it, unless it has one. -/
def fill (docObj : Json) (field given : Bytes) : Json :=
  if given ≠ [] ∧ (docObj.member field).isNull = true then
    insertText docObj field given
  else docObj

omit [Libraries] in
theorem fill_of_ne_null {docObj : Json} {field given : Bytes}
    (hnull : (docObj.member field).isNull = false) :
    fill docObj field given = docObj := by
  rw [fill, if_neg]
  rintro ⟨-, htrue⟩
  rw [hnull] at htrue
  cases htrue

omit [Libraries] in
theorem Ordered.fill {docObj : Json} (hordered : docObj.Ordered) (field given : Bytes) :
    (Indexing.fill docObj field given).Ordered := by
  unfold Indexing.fill
  split
  · exact hordered.setMember field _
  · exact hordered

theorem resolveType_ok {docObj filled : Json} {typeField docType type : Bytes}
    (hresolved : resolveType docObj typeField docType = .ok (type, filled)) :
    nameOf docType (docObj.member typeField) = some type ∧
      filled = fill docObj typeField docType := by
  unfold resolveType at hresolved
  by_cases hgiven : docType = []
  · rw [nameOf, if_pos hgiven, fill, if_neg (fun hboth => hboth.1 hgiven)]
    simp only [hgiven, if_true] at hresolved
    cases hnull : (docObj.member typeField).isNull with
    | true => simp only [hnull, if_true] at hresolved; cases hresolved
    | false =>
      simp only [hnull, Bool.false_eq_true, if_false] at hresolved
      cases hstored : storedText (docObj.member typeField)
          (.error (ascii "No document type stored in document."))
          "Multiple document types stored in document." with
      | error error => rw [hstored] at hresolved; cases hresolved
      | ok stored =>
        rw [hstored] at hresolved
        cases hresolved
        refine ⟨?_, rfl⟩
        rcases singleText_of_storedText hnull hstored with
          hsingle | ⟨-, hmissing⟩
        · exact hsingle
        · cases hmissing
  · rw [nameOf, if_neg hgiven]
    simp only [hgiven, if_false] at hresolved
    cases hnull : (docObj.member typeField).isNull with
    | true =>
      simp only [hnull, if_true] at hresolved
      cases hresolved
      exact ⟨rfl, by rw [fill, if_pos ⟨hgiven, hnull⟩]⟩
    | false =>
      simp only [hnull, Bool.false_eq_true, if_false] at hresolved
      rw [fill_of_ne_null hnull]
      cases hstored : storedText (docObj.member typeField) (.ok [])
          "Multiple document types stored in document." with
      | error error => rw [hstored] at hresolved; cases hresolved
      | ok stored =>
        rw [hstored] at hresolved
        simp only [bind, Except.bind] at hresolved
        split at hresolved
        · cases hresolved
        · cases hresolved
          exact ⟨rfl, rfl⟩

omit [Libraries] in
theorem checkValid_ok {error : Option Bytes} {result : Unit}
    (hvalid : checkValid error = .ok result) : error = none := by
  cases error with
  | none => rfl
  | some error => cases hvalid

/-- The id in a document that was accepted: it is in the document, or was put
into it. -/
theorem resolveId_ok {docObj filled : Json} {idField docId : Bytes}
    (hresolved : resolveId docObj idField docId = .ok filled) :
    filled = fill docObj idField docId ∧
      if docId = [] then
        ∃ text, singleText (docObj.member idField) = some text ∧ validateDocId text = none
      else validateDocId docId = none ∧ ((docObj.member idField).isNull = true ∨
          singleText (docObj.member idField) = some docId ∨
          singleText (docObj.member idField) = some [] ∨
          docObj.member idField = .array []) := by
  unfold resolveId at hresolved
  by_cases hgiven : docId = []
  · rw [fill, if_neg (fun hboth => hboth.1 hgiven), if_pos hgiven]
    simp only [hgiven, if_true] at hresolved
    cases hnull : (docObj.member idField).isNull with
    | true => simp only [hnull, if_true] at hresolved; cases hresolved
    | false =>
      simp only [hnull, Bool.false_eq_true, if_false] at hresolved
      cases hstored : storedText (docObj.member idField)
          (.error (ascii "No document ID stored in document."))
          "Multiple ID values provided - must have only one" with
      | error error => rw [hstored] at hresolved; cases hresolved
      | ok stored =>
        rw [hstored] at hresolved
        simp only [bind, Except.bind] at hresolved
        cases hvalid : checkValid (validateDocId stored) with
        | error error => rw [hvalid] at hresolved; cases hresolved
        | ok result =>
          rw [hvalid] at hresolved
          cases hresolved
          refine ⟨rfl, stored, ?_, checkValid_ok hvalid⟩
          rcases singleText_of_storedText hnull hstored with
            hsingle | ⟨-, hmissing⟩
          · exact hsingle
          · cases hmissing
  · rw [if_neg hgiven]
    simp only [hgiven, if_false] at hresolved
    cases hnull : (docObj.member idField).isNull with
    | true =>
      simp only [hnull, if_true, bind, Except.bind, pure, Except.pure] at hresolved
      cases hvalid : checkValid (validateDocId docId) with
      | error error => rw [hvalid] at hresolved; cases hresolved
      | ok result =>
        rw [hvalid] at hresolved
        cases hresolved
        refine ⟨by rw [fill, if_pos ⟨hgiven, hnull⟩], checkValid_ok hvalid, Or.inl rfl⟩
    | false =>
      simp only [hnull, Bool.false_eq_true, if_false] at hresolved
      rw [fill_of_ne_null hnull]
      cases hstored : storedText (docObj.member idField) (.ok [])
          "Multiple ID values provided - must have only one" with
      | error error => rw [hstored] at hresolved; cases hresolved
      | ok stored =>
        rw [hstored] at hresolved
        simp only [bind, Except.bind, pure, Except.pure] at hresolved
        split at hresolved
        next => cases hresolved
        next hagree =>
        have htext : stored = docId ∨ stored = [] := by
          by_contra hneither
          rw [not_or] at hneither
          exact hagree ⟨hneither.2, fun heq => hneither.1 heq.symm⟩
        cases hvalid : checkValid (validateDocId docId) with
        | error error => rw [hvalid] at hresolved; cases hresolved
        | ok result =>
          rw [hvalid] at hresolved
          cases hresolved
          refine ⟨rfl, checkValid_ok hvalid, Or.inr ?_⟩
          rcases singleText_of_storedText hnull hstored with
            hsingle | ⟨harray, -⟩
          · rcases htext with rfl | rfl
            · exact Or.inl hsingle
            · exact Or.inr (Or.inl hsingle)
          · exact Or.inr (Or.inr harray)

end Names

/-! ## The id terms of a type -/

theorem termPrefix_of_indexer {config : FieldConfig} {docType : Bytes}
    (hbegin : config.HasIdPrefix docType) {indexer : ExactStringIndexer}
    (hindexer : config.indexer = some (.exactString indexer))
    (hid : indexer.isid = true) :
    indexer.termPrefix = idPrefix docType := by
  cases config with
  | id limits storeField termPrefix =>
    cases hindexer
    exact hbegin
  | exact limits termPrefix storeField wdfinc lowercase =>
    cases hindexer
    cases hid
  | text termPrefix storeField processor slot =>
    simp only [FieldConfig.indexer] at hindexer
    split at hindexer
    · cases hindexer
    · split at hindexer
      all_goals cases hindexer
  | _ => cases hindexer

theorem termPrefix_of_indexerFor {schema : Schema} {docType name : Bytes}
    (hschema : Schema.ForType docType schema) {indexer : ExactStringIndexer}
    (hindexer : schema.indexerFor name = some (.exactString indexer))
    (hid : indexer.isid = true) : indexer.termPrefix = idPrefix docType := by
  obtain ⟨hcoherent, rfl⟩ := hschema
  unfold indexerFor at hindexer
  split at hindexer
  next cached hcached =>
    rw [hindexer] at hcached
    obtain ⟨config, hconfig, hmade⟩ := hcoherent.cached _ _ hcached
    exact termPrefix_of_indexer (hcoherent.hasIdPrefix _ _ hconfig) hmade hid
  next =>
    split at hindexer
    next config hconfig =>
      exact termPrefix_of_indexer (hcoherent.hasIdPrefix _ _ hconfig) hindexer hid
    next =>
      split at hindexer
      next config hconfig =>
        exact termPrefix_of_indexer (yields_get schema.patterns name
          schema.docType _ hconfig config rfl) hindexer hid
      next => cases hindexer

section Documents

variable [Libraries] {Pipe Categoriser : Type}

theorem ne_nil_of_mem_memberIds {schema : Schema} {docType metaField term : Bytes}
    (hschema : Schema.ForType docType schema) {entry : Bytes × Json}
    (hterm : term ∈ memberIds metaField schema entry) : term ≠ [] := by
  unfold memberIds at hterm
  split at hterm
  · cases hterm
  · unfold idsGiven at hterm
    split at hterm
    next indexer hindexer =>
      split at hterm
      next hid =>
        obtain ⟨item, -, hitem⟩ := mem_filterMap.mp hterm
        unfold idOf at hitem
        split at hitem
        · cases hitem
        · split at hitem
          · cases hitem
          · obtain ⟨text, -, rfl⟩ := map_eq_some_iff.mp hitem
            rw [termPrefix_of_indexerFor hschema hindexer hid]
            exact cons_ne_nil _ _
      next => cases hterm
    next => cases hterm

/-- The schema that the documents of a type are processed with. -/
def schemaFor (config : CollectionConfig Pipe Categoriser)
    (docType : Bytes) : Schema :=
  (ensureSchema config docType).state.types.getD docType (Schema.new docType)

/-- A document as it is processed, with its type and its id in it. -/
def completed (config : CollectionConfig Pipe Categoriser) (docObj : Json)
    (docType docId : Bytes) : Json :=
  fill (fill docObj config.typeField docType) config.idField docId

/-- The id terms that the fields of a document give, in the order of the names
of the fields. -/
def givenIds (config : CollectionConfig Pipe Categoriser) (docObj : Json)
    (docType docId type : Bytes) : List Bytes :=
  (completed config docObj docType docId).members.flatMap
    (memberIds config.metaField (schemaFor config type))

theorem settings_ensureSchema (config : CollectionConfig Pipe Categoriser)
    (docType : Bytes) :
    (ensureSchema config docType).Ends fun after =>
      after.settings = config.settings := by
  unfold ensureSchema
  split
  · exact ends_done rfl
  · exact ends_withValue fun newschema _ =>
      (CollectionConfig.onContents_setSchema docType newschema).ends config

/-- Documents that get past the checks are stored under the first id term that
they give. -/
theorem processTyped_idterm {run : DocRun Pipe Categoriser}
    (hcoherent : run.config.Coherent) {type : Bytes}
    (hreturns : (processTyped run type).thrown = none)
    (htotal : (processTyped run type).state.errors.totalFailure = false) :
    (processTyped run type).state.idterm = (run.docObj.members.flatMap
      (memberIds run.config.metaField (schemaFor run.config type))).headD [] := by
  have hschema := (coherent_ensureSchema hcoherent type).forType_getD type
  have hfold : (ensureSchema run.config type).state.types.getD type
      (new type) = schemaFor run.config type := rfl
  cases hensured : (ensureSchema run.config type).thrown with
  | some error =>
    simp only [processTyped, hensured] at hreturns
    cases hreturns
  | none =>
    have hsettings := settings_ensureSchema run.config type hensured
    have hmeta : (ensureSchema run.config type).state.metaField =
        run.config.metaField := congrArg Settings.metaField hsettings
    have hprocess := processSchema_ids (ensureSchema run.config type).state
      (schemaFor run.config type) run.docObj run.errors run.newFields
    cases hprocessed : (processSchema (ensureSchema run.config type).state
        (schemaFor run.config type) run.docObj run.errors
        run.newFields).thrown with
    | some error =>
      simp only [processTyped, hensured, hfold, hprocessed] at hreturns
      cases hreturns
    | none =>
      simp only [processTyped, hensured, hfold, hprocessed] at htotal ⊢
      rw [← hmeta, ← foldl_keepFirst]
      · exact hprocess hprocessed htotal
      · intro term hterm
        obtain ⟨entry, -, hentry⟩ := mem_flatMap.mp hterm
        exact ne_nil_of_mem_memberIds hschema hentry

/-- A document that `process_doc` returns for has a type and an id, and is
stored under the first id term that it gives. -/
theorem processDoc_idterm {run : DocRun Pipe Categoriser}
    (hcoherent : run.config.Coherent) {docType docId : Bytes}
    (hreturns : (processDoc run docType docId).thrown = none)
    (htotal : (processDoc run docType docId).state.errors.totalFailure = false) :
    ∃ type, nameOf docType (run.docObj.member run.config.typeField) = some type ∧
      validateDocType type = none ∧
      resolveId (fill run.docObj run.config.typeField docType) run.config.idField docId =
          .ok (completed run.config run.docObj docType docId) ∧
      (processDoc run docType docId).state.idterm =
        (givenIds run.config run.docObj docType docId type).headD [] := by
  unfold processDoc at hreturns htotal ⊢
  cases hobject : liftInvalid (run.docObj.checkObject "input document") with
  | error error =>
    simp only [hobject, withValue] at hreturns
    cases hreturns
  | ok result =>
    simp only [hobject, withValue] at hreturns htotal ⊢
    cases htype : resolveType run.docObj run.config.typeField docType with
    | error error =>
      simp only [htype] at htotal
      cases htotal
    | ok resolved =>
      obtain ⟨type, filled⟩ := resolved
      obtain ⟨hname, rfl⟩ := resolveType_ok htype
      simp only [htype] at hreturns htotal ⊢
      cases hid : resolveId (fill run.docObj run.config.typeField docType)
          run.config.idField docId with
      | error error =>
        simp only [hid] at htotal
        cases htotal
      | ok filled =>
        obtain ⟨rfl, -⟩ := resolveId_ok hid
        simp only [hid] at hreturns htotal ⊢
        cases hvalid : validateDocType type with
        | some error =>
          simp only [hvalid] at htotal
          cases htotal
        | none =>
          simp only [hvalid] at hreturns htotal ⊢
          refine ⟨type, hname, hvalid, rfl, ?_⟩
          refine processTyped_idterm ?_ hreturns htotal
          exact hcoherent

/-! ## Ids with the default limits -/

/-- The configuration of an id field with the default limits. -/
def DefaultId (config : FieldConfig) : Prop :=
  ∃ slot storeField termPrefix,
    config = .id ⟨slot, 64, .error⟩ storeField termPrefix

/-- A field has such a configuration in the schema, or gets it from a
pattern. -/
def IdConfigured (schema : Schema) (idField : Bytes) : Prop :=
  ∃ config, DefaultId config ∧
    (schema.fields[idField]? = some config ∨
      schema.fields[idField]? = none ∧
        schema.patterns.get idField schema.docType = .ok (some config))

omit [Libraries] in
theorem indexerFor_of_idConfigured {schema : Schema} {docType idField : Bytes}
    (hschema : Schema.ForType docType schema) (hconfigured : IdConfigured schema idField)
    (hindexed : schema.indexers[idField]? ≠ some none) :
    ∃ indexer : ExactStringIndexer,
      schema.indexerFor idField = some (.exactString indexer) ∧
      indexer.isid = true ∧ indexer.lowercase = false ∧
      indexer.maxLength = 64 ∧ indexer.tooLongAction = .error ∧
      indexer.termPrefix = idPrefix docType := by
  obtain ⟨config, ⟨slot, storeField, termPrefix, rfl⟩, hplace⟩ := hconfigured
  have hindexer : schema.indexerFor idField =
      (id ⟨slot, 64, .error⟩ storeField termPrefix).indexer := by
    unfold indexerFor
    cases hcache : schema.indexers[idField]? with
    | some cached =>
      cases cached with
      | none => exact absurd hcache hindexed
      | some indexer =>
        obtain ⟨known, hknown, hmade⟩ := hschema.1.cached _ _ hcache
        rcases hplace with hfield | ⟨hfield, -⟩
        · rw [hfield] at hknown
          cases hknown
          exact hmade.symm
        · rw [hfield] at hknown
          cases hknown
    | none =>
      rcases hplace with hfield | ⟨hfield, hpattern⟩
      · rw [hfield]
      · rw [hfield, hpattern]
  refine ⟨_, hindexer, rfl, rfl, rfl, rfl, ?_⟩
  exact termPrefix_of_indexerFor hschema hindexer rfl

theorem filterMap_idOf_single {indexer : ExactStringIndexer}
    (hlower : indexer.lowercase = false) (hlength : indexer.maxLength = 64)
    (haction : indexer.tooLongAction = .error) {item : Json} {text : Bytes}
    (htext : item.getIdstyleValue = .ok text) :
    [item].filterMap (idOf indexer) =
      if text ≠ [] ∧ text.length ≤ 64 then [indexer.termPrefix ++ text]
      else [] := by
  have hid : idOf indexer item =
      if text ≠ [] ∧ text.length ≤ 64 then some (indexer.termPrefix ++ text)
      else none := by
    rw [idOf, htext]
    by_cases hempty : text = []
    · simp [hempty]
    · by_cases hlong : 64 < text.length
      · simp [hempty, limitLength, termText, hlower, hlength, haction, hlong]
      · simp [hempty, limitLength, termText, hlower, hlength, hlong, Nat.not_lt.mp hlong]
  rw [filterMap_cons, hid, filterMap_nil]
  split
  next hnone =>
    split at hnone
    · cases hnone
    · next hcond => rw [if_neg hcond]
  next term hsome =>
    split at hsome
    · next hcond =>
      cases hsome
      rw [if_pos hcond]
    · cases hsome

omit [Libraries] in
theorem flatMap_of_only {give : Bytes × Json → List Bytes} {key : Bytes}
    (hnull : give (key, .null) = []) {entries : List (Bytes × Json)}
    (hnames : (entries.map Prod.fst).Nodup)
    (honly : ∀ entry ∈ entries, entry.1 ≠ key → give entry = []) :
    entries.flatMap give = give (key, (entries.lookup key).getD .null) := by
  induction entries with
  | nil => exact hnull.symm
  | cons entry entries ih =>
    obtain ⟨name, value⟩ := entry
    obtain ⟨hname, hrest⟩ := nodup_cons.mp hnames
    rw [flatMap_cons]
    by_cases heq : name = key
    · subst heq
      have hothers : entries.flatMap give = [] := by
        refine flatMap_eq_nil_iff.mpr fun other hother => ?_
        refine honly other (mem_cons_of_mem _ hother) ?_
        intro heq
        exact hname (mem_map.mpr ⟨other, hother, heq⟩)
      rw [hothers, append_nil, lookup_cons_self]
      rfl
    · have hlookup : ((name, value) :: entries).lookup key = entries.lookup key := by
        rw [lookup_cons, beq_false_of_ne (Ne.symm heq)]
      rw [honly _ mem_cons_self heq, nil_append, hlookup]
      exact ih hrest fun other hother =>
        honly other (mem_cons_of_mem _ hother)

section Explicit

variable (config : CollectionConfig Pipe Categoriser) (docObj : Json)
  (docType docId type : Bytes)

/-- The first id that the fields of the document give is the one it is fetched
by. -/
def FirstId : Prop :=
  ∃ id, nameOf docId (docObj.member config.idField) = some id ∧
    (givenIds config docObj docType docId type).head? =
      some (fetchTerm type id)

/-- No field but the id field gives an id. -/
def OnlyId : Prop :=
  ∀ entry ∈ (completed config docObj docType docId).members,
    entry.1 ≠ config.idField →
      memberIds config.metaField (schemaFor config type) entry = []

/-- The id field is not the metadata field, and the cache does not have it as
a field without an indexer; an id is given that is not too long; and if the
document has an id of its own, then this is not an empty one. -/
structure KeepsId : Prop where
  notMeta : config.idField ≠ config.metaField
  indexed : (schemaFor config type).indexers[config.idField]? ≠ some none
  short : ∃ id, nameOf docId (docObj.member config.idField) = some id ∧
    id.length ≤ 64
  named : (docObj.member config.idField).isNull = true ∨
    ∃ text, text ≠ [] ∧
      singleText (docObj.member config.idField) = some text

end Explicit

omit [Libraries] in
theorem member_fill_self (docObj : Json) (field given : Bytes) :
    (fill docObj field given).member field =
      if given ≠ [] ∧ (docObj.member field).isNull = true then
        .array [.ofString given]
      else docObj.member field := by
  unfold fill
  split
  · exact member_setMember_self _ _ _
  · rfl

omit [Libraries] in
theorem member_fill_of_ne_null {docObj : Json} {field : Bytes}
    (hnull : (docObj.member field).isNull = false) (other given : Bytes) :
    (fill docObj other given).member field = docObj.member field := by
  by_cases heq : field = other
  · subst heq
    rw [fill_of_ne_null hnull]
  · unfold fill
    split
    · exact member_setMember_of_ne _ _ heq
    · rfl

theorem singleText_inserted {emptyError kind : String} {text : Bytes}
    (hvalid : validateName emptyError kind text = none) :
    singleText (.array [.ofString text]) = some text := by
  have hread : singleText (.array [.ofString text]) = some (cString text) :=
    rfl
  rw [hread, cString_of_validateName hvalid]

/-- A document in which the id field is missing or has a text still is one after
its type was put into it. -/
theorem exists_text_filled {docObj : Json} {typeField idField docType type : Bytes}
    (htype : nameOf docType (docObj.member typeField) = some type)
    (hvalid : validateDocType type = none)
    (hnamed : (docObj.member idField).isNull = true ∨
      ∃ text, text ≠ [] ∧ singleText (docObj.member idField) = some text)
    (hnull : ((fill docObj typeField docType).member idField).isNull = false) :
    ∃ text, text ≠ [] ∧ singleText ((fill docObj typeField docType).member idField) =
        some text := by
  rcases hnamed with hmissing | ⟨text, hne, htext⟩
  · by_cases hfill : docType ≠ [] ∧ (docObj.member typeField).isNull = true
    · rw [nameOf, if_neg hfill.1, some.injEq] at htype
      subst htype
      by_cases heq : idField = typeField
      · subst heq
        rw [member_fill_self, if_pos hfill]
        exact ⟨docType, hfill.1, singleText_inserted hvalid⟩
      · rw [fill, if_pos hfill, insertText, member_setMember_of_ne _ _ heq,
          hmissing] at hnull
        cases hnull
    · rw [fill, if_neg hfill, hmissing] at hnull
      cases hnull
  · rw [member_fill_of_ne_null (items_of_singleText htext).1]
    exact ⟨text, hne, htext⟩

/-- An id that was put into a document only where there was none is read back
from it. -/
theorem singleText_completed {config : CollectionConfig Pipe Categoriser}
    {docObj : Json} {docType docId type id : Bytes}
    (htype : nameOf docType (docObj.member config.typeField) = some type)
    (hvalid : validateDocType type = none)
    (hresolved : resolveId (fill docObj config.typeField docType)
      config.idField docId = .ok (completed config docObj docType docId))
    (hid : nameOf docId (docObj.member config.idField) = some id)
    (hnamed : (docObj.member config.idField).isNull = true ∨ ∃ text, text ≠ [] ∧
        singleText (docObj.member config.idField) = some text) :
    id ≠ [] ∧ singleText ((completed config docObj docType docId).member
      config.idField) = some id := by
  obtain ⟨-, haccepted⟩ := resolveId_ok hresolved
  rw [completed, member_fill_self]
  by_cases hgiven : docId = []
  · rw [nameOf, if_pos hgiven] at hid
    rw [if_pos hgiven] at haccepted
    have hnull := (items_of_singleText hid).1
    rw [member_fill_of_ne_null hnull] at haccepted ⊢
    obtain ⟨text, htext, hvalidText⟩ := haccepted
    rw [hid, some.injEq] at htext
    rw [if_neg (fun hboth => hboth.1 hgiven)]
    exact ⟨htext ▸ ne_nil_of_validateName hvalidText, hid⟩
  · rw [nameOf, if_neg hgiven, some.injEq] at hid
    subst hid
    rw [if_neg hgiven] at haccepted
    obtain ⟨hvalidId, hplace⟩ := haccepted
    refine ⟨hgiven, ?_⟩
    cases hnull : ((fill docObj config.typeField docType).member
      config.idField).isNull with
    | true =>
      rw [if_pos ⟨hgiven, rfl⟩]
      exact singleText_inserted hvalidId
    | false =>
      rw [if_neg (fun hboth => Bool.false_ne_true hboth.2)]
      obtain ⟨text, hne, htext⟩ := exists_text_filled htype hvalid hnamed hnull
      rcases hplace with hmissing | hsame | hempty | hempty
      · rw [hnull] at hmissing
        cases hmissing
      · exact hsame
      · rw [htext, some.injEq] at hempty
        exact absurd hempty hne
      · rw [hempty] at htext
        cases htext

/-- An empty id in a document hides the one that was given. -/
theorem idsGiven_of_not_named {config : CollectionConfig Pipe Categoriser}
    {docObj : Json} {docType docId : Bytes}
    (hresolved : resolveId (fill docObj config.typeField docType)
      config.idField docId = .ok (completed config docObj docType docId))
    (hnamed : ¬ ((docObj.member config.idField).isNull = true ∨ ∃ text, text ≠ [] ∧
        singleText (docObj.member config.idField) = some text))
    (indexer : ExactStringIndexer) :
    (FieldRun.toArray ((completed config docObj docType docId).member
      config.idField)).items.filterMap (idOf indexer) = [] := by
  obtain ⟨hmissing, htexts⟩ := not_or.mp hnamed
  have hnull : (docObj.member config.idField).isNull = false := by
    simpa using hmissing
  obtain ⟨-, haccepted⟩ := resolveId_ok hresolved
  rw [completed, member_fill_of_ne_null (by
    rwa [member_fill_of_ne_null hnull]), member_fill_of_ne_null hnull]
  rw [member_fill_of_ne_null hnull] at haccepted
  by_cases hgiven : docId = []
  · rw [if_pos hgiven] at haccepted
    obtain ⟨text, htext, hvalid⟩ := haccepted
    exact absurd ⟨text, ne_nil_of_validateName hvalid, htext⟩ htexts
  · rw [if_neg hgiven, hnull] at haccepted
    rcases haccepted.2 with hmissing | hsame | hempty | hempty
    · cases hmissing
    · exact absurd ⟨docId, hgiven, hsame⟩ htexts
    · obtain ⟨-, item, hitems, hitem⟩ := items_of_singleText hempty
      have hid : idOf indexer item = none := by
        rw [idOf, hitem]
        rfl
      rw [hitems, filterMap_cons, hid]
      rfl
    · rw [hempty]
      rfl

/-- Where only the id field gives an id, the first id is the right one under
the conditions that can be read off the document. -/
theorem firstId_iff_keepsId {config : CollectionConfig Pipe Categoriser}
    (hcoherent : config.Coherent) {docObj : Json}
    {docType docId type : Bytes} (hordered : docObj.Ordered)
    (htype : nameOf docType (docObj.member config.typeField) = some type)
    (hvalid : validateDocType type = none)
    (hresolved : resolveId (fill docObj config.typeField docType)
      config.idField docId = .ok (completed config docObj docType docId))
    (hconfigured : IdConfigured (schemaFor config type) config.idField)
    (honly : OnlyId config docObj docType docId type) :
    FirstId config docObj docType docId type ↔ KeepsId config docObj docId type := by
  have hschema : Schema.ForType type (schemaFor config type) :=
    (coherent_ensureSchema hcoherent type).forType_getD type
  have hids : givenIds config docObj docType docId type =
      memberIds config.metaField (schemaFor config type) (config.idField,
        (completed config docObj docType docId).member config.idField) := by
    refine flatMap_of_only ?_ (Ordered.fill (Ordered.fill hordered _ _) _ _).nodup honly
    unfold memberIds idsGiven
    split
    · rfl
    · split
      · split
        all_goals rfl
      · rfl
  unfold FirstId
  rw [hids]
  by_cases hmeta : config.idField = config.metaField
  · have hnone : memberIds config.metaField (schemaFor config type)
        (config.idField, (completed config docObj docType docId).member
          config.idField) = [] := if_pos hmeta
    rw [hnone]
    exact ⟨fun ⟨_, _, hhead⟩ => (nomatch hhead), fun hkeeps =>
      absurd hmeta hkeeps.notMeta⟩
  by_cases hindexed : (schemaFor config type).indexers[config.idField]? = some none
  · have hnone : memberIds config.metaField (schemaFor config type)
        (config.idField, (completed config docObj docType docId).member config.idField) =
          [] := by
      rw [memberIds, if_neg hmeta, indexerFor, hindexed]
      rfl
    rw [hnone]
    exact ⟨fun ⟨_, _, hhead⟩ => (nomatch hhead), fun hkeeps =>
      absurd hindexed hkeeps.indexed⟩
  obtain ⟨indexer, hindexer, hisid, hlower, hlength, haction, hbegin⟩ :=
    indexerFor_of_idConfigured hschema hconfigured hindexed
  have hgiven : memberIds config.metaField (schemaFor config type)
      (config.idField, (completed config docObj docType docId).member config.idField) =
      (FieldRun.toArray ((completed config docObj docType docId).member
        config.idField)).items.filterMap (idOf indexer) := by
    rw [memberIds, if_neg hmeta, hindexer]
    exact if_pos hisid
  rw [hgiven]
  by_cases hnamed : (docObj.member config.idField).isNull = true ∨ ∃ text, text ≠ [] ∧
        singleText (docObj.member config.idField) = some text
  · have hhead : ∀ id, nameOf docId (docObj.member config.idField) = some id →
        (((FieldRun.toArray ((completed config docObj docType docId).member
          config.idField)).items.filterMap (idOf indexer)).head? =
            some (fetchTerm type id) ↔ id.length ≤ 64) := by
      intro id hid
      obtain ⟨hne, htext⟩ := singleText_completed htype hvalid hresolved hid hnamed
      obtain ⟨-, item, hitems, hitem⟩ := items_of_singleText htext
      rw [hitems, filterMap_idOf_single hlower hlength haction hitem, hbegin]
      by_cases hshort : id.length ≤ 64
      · simp [hne, hshort, fetchTerm]
      · simp [hshort]
    constructor
    · rintro ⟨id, hid, hfirst⟩
      exact ⟨hmeta, hindexed, ⟨id, hid, (hhead id hid).mp hfirst⟩, hnamed⟩
    · rintro ⟨-, -, ⟨id, hid, hshort⟩, -⟩
      exact ⟨id, hid, (hhead id hid).mpr hshort⟩
  · rw [idsGiven_of_not_named hresolved hnamed indexer]
    exact ⟨fun ⟨_, _, hhead⟩ => (nomatch hhead), fun hkeeps => absurd hkeeps.named hnamed⟩

/-- A document that was processed is stored under the id that it is fetched by
if and only if this is the first id that its fields give. Where only the id
field gives one, the document shows whether it is. -/
theorem processDoc_fetchTerm_iff [Config.Part Pipe] [Config.Part Categoriser]
    (run : DocRun Pipe Categoriser) (docType docId : Bytes)
    (hreachable : Reachable run.config) (hordered : run.docObj.Ordered)
    (hreturns : (processDoc run docType docId).thrown = none)
    (htotal : (processDoc run docType docId).state.errors.totalFailure =
      false) :
    ∃ type, nameOf docType (run.docObj.member run.config.typeField) =
        some type ∧
      (IdConfigured (schemaFor run.config type) run.config.idField →
        ((∃ id, nameOf docId (run.docObj.member run.config.idField) =
            some id ∧
          (processDoc run docType docId).state.idterm = fetchTerm type id) ↔
          FirstId run.config run.docObj docType docId type) ∧
        (OnlyId run.config run.docObj docType docId type →
          (FirstId run.config run.docObj docType docId type ↔
            KeepsId run.config run.docObj docId type))) := by
  obtain ⟨type, hname, hvalid, hresolved, hidterm⟩ :=
    processDoc_idterm hreachable.coherent hreturns htotal
  refine ⟨type, hname, fun hconfigured => ⟨?_, ?_⟩⟩
  · have hhead : ∀ id, (processDoc run docType docId).state.idterm =
          fetchTerm type id ↔
        (givenIds run.config run.docObj docType docId type).head? =
          some (fetchTerm type id) := by
      intro id
      rw [hidterm]
      cases givenIds run.config run.docObj docType docId type with
      | nil => exact ⟨nofun, nofun⟩
      | cons first rest => exact Option.some.injEq .. ▸ Iff.rfl
    exact exists_congr fun id => and_congr_right fun _ => hhead id
  · exact firstId_iff_keepsId hreachable.coherent hordered hname hvalid
      hresolved hconfigured

end Documents

/-! ## Two documents of a new collection -/

/-- A document without members, for a collection with the default
configuration. -/
def newDocument : DocRun Empty Empty where
  config := defaultConfig
  docObj := .object []
  doc := ⟨∅, ∅, []⟩
  idterm := []
  errors := ⟨[], false⟩
  newFields := false

/-- An id of one byte more than the limit. -/
def longId : Bytes :=
  List.replicate 65 97

theorem reachable_newDocument [Libraries] : Reachable newDocument.config :=
  .setDefault (.created (ascii "books"))

theorem idConfigured_newDocument [Libraries] :
    IdConfigured (schemaFor newDocument.config (ascii "book"))
      newDocument.config.idField :=
  ⟨_, ⟨_, _, _, rfl⟩, .inr ⟨rfl, rfl⟩⟩

theorem processDoc_newDocument_accepted :
    let _ := plain
    ∀ docId ∈ [ascii "emma", longId],
      (processDoc newDocument (ascii "book") docId).thrown = none ∧
      (processDoc newDocument (ascii "book") docId).state.errors.totalFailure =
        false := by
  decide +kernel

theorem processDoc_longId_idterm :
    let _ := plain
    (processDoc newDocument (ascii "book") longId).state.idterm = [] := by
  decide +kernel

/-- The new document, with a type and an id that it can be fetched by. -/
theorem processDoc_fetchTerm_iff_short : ∃ _ : Libraries,
    ((processDoc newDocument (ascii "book") (ascii "emma")).thrown = none ∧
      (processDoc newDocument (ascii "book")
        (ascii "emma")).state.errors.totalFailure = false) ∧
    ∃ type, nameOf (ascii "book") (newDocument.docObj.member
        newDocument.config.typeField) = some type ∧
      (IdConfigured (schemaFor newDocument.config type)
          newDocument.config.idField →
        ((∃ id, nameOf (ascii "emma") (newDocument.docObj.member
            newDocument.config.idField) = some id ∧
          (processDoc newDocument (ascii "book")
            (ascii "emma")).state.idterm = fetchTerm type id) ↔
          FirstId newDocument.config newDocument.docObj (ascii "book")
            (ascii "emma") type) ∧
        (OnlyId newDocument.config newDocument.docObj (ascii "book")
            (ascii "emma") type →
          (FirstId newDocument.config newDocument.docObj (ascii "book")
            (ascii "emma") type ↔
            KeepsId newDocument.config newDocument.docObj (ascii "emma")
              type))) := by
  have haccepted := processDoc_newDocument_accepted (ascii "emma")
    List.mem_cons_self
  have hordered : newDocument.docObj.Ordered := List.Pairwise.nil
  refine ⟨Libraries.plain, haccepted, ?_⟩
  exact @processDoc_fetchTerm_iff Libraries.plain Empty Empty _ _ newDocument
    (ascii "book") (ascii "emma") (@reachable_newDocument Libraries.plain)
    hordered haccepted.1 haccepted.2

/-- A document with an id that is too long is stored without any id. -/
theorem processDoc_loses_longId : ∃ _ : Libraries,
    Reachable newDocument.config ∧
    IdConfigured (schemaFor newDocument.config (ascii "book"))
      newDocument.config.idField ∧
    (processDoc newDocument (ascii "book") longId).thrown = none ∧
    (processDoc newDocument (ascii "book")
      longId).state.errors.totalFailure = false ∧
    (processDoc newDocument (ascii "book") longId).state.idterm = [] := by
  let _ := Libraries.plain
  obtain ⟨hreturns, htotal⟩ := processDoc_newDocument_accepted longId
    (List.mem_cons_of_mem _ List.mem_cons_self)
  exact ⟨Libraries.plain, reachable_newDocument, idConfigured_newDocument,
    hreturns, htotal, processDoc_longId_idterm⟩

end Restpose.Indexing
