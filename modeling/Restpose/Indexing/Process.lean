import Restpose.Indexing.Indexers

/-!
# Processing documents

`Schema::process` goes through the fields of a document in the order of their
names and has each of them indexed.  A field without an indexer gets its
configuration from the patterns of the schema.  `CollectionConfig::process_doc`
finds the type and the id of the document first, and puts them into the
document if they were only given from outside.
-/

namespace Restpose.Indexing

open Config

variable {Pipe Categoriser : Type}

/-! ## Schemas -/

/-- What `Schema::process` works on. -/
structure FieldRun where
  schema : Schema
  state : IndexingState
  newFields : Bool

namespace FieldRun

/-- Ask for the indexer of a field.  If there is none, the configuration of the
field is set from the patterns, or removed if no pattern matches. -/
def withIndexer (run : FieldRun) (fieldname : Bytes)
    (next : Option FieldIndexer → FieldRun → Attempt Thrown FieldRun) :
    Attempt Thrown FieldRun :=
  let found := run.schema.getIndexer fieldname
  match found.1 with
  | some indexer => next (some indexer) { run with schema := found.2 }
  | none =>
      .withValue { run with schema := found.2 }
        (found.2.patterns.get fieldname found.2.docType) fun config =>
      let made := (found.2.set fieldname config).getIndexer fieldname
      next made.1 { run with schema := made.2, newFields := true }

variable [Libraries] (collconfig : CollectionConfig Pipe Categoriser)

/-- Have the values of a field indexed. -/
def indexWith (indexer : FieldIndexer) (fieldname : Bytes)
    (values : Json) (run : FieldRun) : Attempt Thrown FieldRun :=
  let indexed := index collconfig indexer fieldname values run.state
  ⟨{ run with state := indexed.state }, indexed.thrown⟩

/-- The array that is indexed for a value that is not null. -/
def toArray (value : Json) : Json :=
  if value.isArray then value else .array [value]

/-- What is done with a field once its indexer is known. -/
def indexValue (fieldname : Bytes) (value : Json)
    (indexer : Option FieldIndexer) (run : FieldRun) :
    Attempt Thrown FieldRun :=
  match indexer with
  | none => .done run
  | some indexer =>
      if value.isNull then
        .done { run with state := run.state.fieldEmpty fieldname }
      else run.indexWith collconfig indexer fieldname (toArray value)

/-- A pass of the loop over the fields. -/
def processField (entry : Bytes × Json) (run : FieldRun) :
    Attempt Thrown FieldRun :=
  if entry.1 = collconfig.metaField then
    .done { run with
      state := run.state.appendError entry.1 (ascii
        "Value provided in metadata field - should be empty") }
  else run.withIndexer entry.1 (indexValue collconfig entry.1 entry.2)

/-- The metadata field, which is indexed last. -/
def processMetadata (run : FieldRun) : Attempt Thrown FieldRun :=
  if collconfig.metaField = [] then .done run
  else
    run.withIndexer collconfig.metaField fun indexer run =>
      match indexer with
      | none => .done run
      | some indexer =>
          run.indexWith collconfig indexer collconfig.metaField .null

/-- Put the data and the collected values into the document. -/
def store (run : FieldRun) (data : Bytes) : FieldRun :=
  { run with
    state := { run.state with
      doc := run.state.docvals.apply (run.state.doc.setData data) } }

/-- Write the collected data, and put everything into the document. -/
def finish (run : FieldRun) : Attempt Thrown FieldRun :=
  .withValue run run.state.docdata.serialise fun data => .done (run.store data)

end FieldRun

/-- `Schema::process`, after the check that the value is an object. -/
def processSchema [Libraries] (collconfig : CollectionConfig Pipe Categoriser)
    (schema : Schema) (value : Json) (errors : IndexingErrors)
    (newFields : Bool) : Attempt Thrown FieldRun :=
  ((Attempt.forEach (FieldRun.processField collconfig) value.members
    ⟨schema, .new errors, newFields⟩).andThen
      (FieldRun.processMetadata collconfig)).andThen FieldRun.finish

/-! ## Collections -/

/-- What `CollectionConfig::process_doc` works on. -/
structure DocRun (Pipe Categoriser : Type) where
  config : CollectionConfig Pipe Categoriser
  docObj : Json
  doc : Xapian.Document
  idterm : Bytes
  errors : IndexingErrors
  newFields : Bool

/-- The text that a value of a document has where there may only be one. -/
def storedText [Libraries] (value : Json) (missing : Except Bytes Bytes)
    (multiple : String) : Except Bytes Bytes :=
  match value with
  | .array [] => missing
  | .array [item] => item.getIdstyleValue
  | .array _ => .error (ascii multiple)
  | _ => value.getIdstyleValue

/-- A text given from outside, put into a document. -/
def insertText (docObj : Json) (field text : Bytes) : Json :=
  docObj.setMember field (.array [.ofString text])

variable [Libraries]

/-- The type of a document, and the document with the type in it; or the error
that the document cannot be processed with. -/
def resolveType (docObj : Json) (typeField docType : Bytes) :
    Except Bytes (Bytes × Json) :=
  let value := docObj.member typeField
  let multiple := "Multiple document types stored in document."
  if docType = [] then
    if value.isNull then
      .error (ascii "No document type supplied or stored in document.")
    else do
      let stored ← storedText value
        (.error (ascii "No document type stored in document.")) multiple
      return (stored, docObj)
  else if value.isNull then
    .ok (docType, insertText docObj typeField docType)
  else do
    let stored ← storedText value (.ok []) multiple
    if stored ≠ [] ∧ docType ≠ stored then
      throw (ascii
        "Document type supplied differs from that inside document.")
    else return (docType, docObj)

/-- A check of `validation.cc`, as an error. -/
def checkValid (error : Option Bytes) : Except Bytes Unit :=
  match error with
  | some error => .error error
  | none => .ok ()

/-- The document with its id in it, or the error. -/
def resolveId (docObj : Json) (idField docId : Bytes) :
    Except Bytes Json :=
  let value := docObj.member idField
  let multiple := "Multiple ID values provided - must have only one"
  if docId = [] then
    if value.isNull then
      .error (ascii "No document ID supplied or stored in document.")
    else do
      let stored ← storedText value
        (.error (ascii "No document ID stored in document.")) multiple
      checkValid (validateDocId stored)
      return docObj
  else do
    let docObj ←
      if value.isNull then pure (insertText docObj idField docId)
      else do
        let stored ← storedText value (.ok []) multiple
        if stored ≠ [] ∧ docId ≠ stored then
          throw (ascii "Document id supplied ('" ++ docId ++
            ascii "') differs from that inside document ('" ++ stored ++
            ascii "').")
        else pure docObj
    checkValid (validateDocId docId)
    return docObj

/-- The schema for a type, which is made from the default type if there is
none. -/
def ensureSchema (config : CollectionConfig Pipe Categoriser)
    (docType : Bytes) :
    Attempt Thrown (CollectionConfig Pipe Categoriser) :=
  match config.types[docType]? with
  | some _ => .done config
  | none =>
      .withValue config
        ((Schema.new docType).fromJson config.defaultTypeConfig).toExcept
        fun newschema => config.setSchema docType newschema

/-- The errors that a document cannot be processed with name the field. -/
def failDocument (run : DocRun Pipe Categoriser)
    (field error : Bytes) : Attempt Thrown (DocRun Pipe Categoriser) :=
  .done { run with
    errors := { run.errors.append field error with totalFailure := true } }

/-- The last part of `process_doc`: the document is processed by its schema. -/
def processTyped (run : DocRun Pipe Categoriser) (docType : Bytes) :
    Attempt Thrown (DocRun Pipe Categoriser) :=
  let ensured := ensureSchema run.config docType
  let run := { run with config := ensured.state }
  match ensured.thrown with
  | some error => .fail run error
  | none =>
      let processed := processSchema run.config
        (run.config.types.getD docType (Schema.new docType)) run.docObj
        run.errors run.newFields
      let run := { run with
        config := { run.config with
          types := run.config.types.insert docType processed.state.schema }
        idterm := processed.state.state.idterm
        errors := processed.state.state.errors
        newFields := processed.state.newFields }
      match processed.thrown with
      | some error => .fail run error
      | none => .done { run with doc := processed.state.state.doc }

def processDoc (run : DocRun Pipe Categoriser) (docType docId : Bytes) :
    Attempt Thrown (DocRun Pipe Categoriser) :=
  .withValue run (liftInvalid (run.docObj.checkObject "input document"))
    fun _ =>
  match resolveType run.docObj run.config.typeField docType with
  | .error error => failDocument run run.config.typeField error
  | .ok (docType, docObj) =>
      let run := { run with docObj }
      match resolveId docObj run.config.idField docId with
      | .error error => failDocument run run.config.idField error
      | .ok docObj =>
          let run := { run with docObj }
          match validateDocType docType with
          | some error => failDocument run run.config.typeField error
          | none => processTyped run docType

end Restpose.Indexing
