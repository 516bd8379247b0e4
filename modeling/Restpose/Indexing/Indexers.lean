import Restpose.Config.CollectionConfig
import Restpose.Indexing.DocumentValues

/-!
# Field indexers

An indexer goes through the values that a document has in a field, and adds
terms, values and data to the document that is being made.
-/

namespace Restpose.Indexing

open Config

/-! ## The state of indexing -/

structure FieldPresence where
  nonempty : Bool
  empty : Bool
  errors : Bool
  deriving DecidableEq

structure IndexingErrors where
  errors : List (Bytes × Bytes)
  totalFailure : Bool
  deriving DecidableEq

namespace IndexingErrors

def none : IndexingErrors :=
  ⟨[], false⟩

def append (errors : IndexingErrors) (fieldname error : Bytes) :
    IndexingErrors :=
  { errors with errors := errors.errors ++ [(fieldname, error)] }

end IndexingErrors

/-- `IndexingState`, apart from the configuration of the collection. -/
structure IndexingState where
  doc : Xapian.Document
  docdata : DocumentData
  docvals : DocumentValues
  presence : StdMap FieldPresence
  idterm : Bytes
  errors : IndexingErrors

namespace IndexingState

/-- The constructor of `IndexingState`, which empties the id term. -/
def new (errors : IndexingErrors) : IndexingState :=
  ⟨⟨∅, ∅, []⟩, .empty, .empty, ∅, [], errors⟩

/-- The flags of a field, which are created when they are first asked for. -/
def setPresence (state : IndexingState) (fieldname : Bytes)
    (set : FieldPresence → FieldPresence) : IndexingState :=
  { state with
    presence := state.presence.insert fieldname
      (set (state.presence.getD fieldname ⟨false, false, false⟩)) }

def fieldEmpty (state : IndexingState) (fieldname : Bytes) :
    IndexingState :=
  state.setPresence fieldname fun flags => { flags with empty := true }

def fieldNonempty (state : IndexingState) (fieldname : Bytes) :
    IndexingState :=
  state.setPresence fieldname fun flags => { flags with nonempty := true }

def appendError (state : IndexingState) (fieldname error : Bytes) :
    IndexingState :=
  { state.setPresence fieldname fun flags => { flags with errors := true } with
    errors := state.errors.append fieldname error }

def failTotally (state : IndexingState) : IndexingState :=
  { state with errors := { state.errors with totalFailure := true } }

def setIdterm (state : IndexingState) (fieldname idterm : Bytes) :
    IndexingState :=
  if state.idterm = [] then { state with idterm }
  else if idterm = [] then state
  else state.appendError fieldname
    (ascii "Multiple ID values provided - must have only one")

def addTerm (state : IndexingState) (term : Bytes) (wdfinc : ℕ) :
    IndexingState :=
  { state with doc := state.doc.addTerm term wdfinc }

def addValue (state : IndexingState) (slot : ℕ) (value : Bytes) :
    IndexingState :=
  { state with docvals := state.docvals.add slot value }

/-- A value goes into a slot if the field has one. -/
def addSlotValue (state : IndexingState) (slot : ℕ) (value : Bytes) :
    IndexingState :=
  if slot = badValueno then state else state.addValue slot value

def setData (state : IndexingState) (field value : Bytes) :
    IndexingState :=
  { state with docdata := state.docdata.set field value }

/-- The values are stored if the field has a name to store them under. -/
def store [Libraries] (state : IndexingState) (storeField : Bytes)
    (values : Json) : IndexingState :=
  if storeField = [] then state
  else state.setData storeField values.serialise

section Fields

variable (state : IndexingState) (slot : ℕ) (value : Bytes)

@[simp]
theorem doc_addSlotValue : (state.addSlotValue slot value).doc = state.doc := by
  rw [addSlotValue]
  split_ifs <;> rfl

@[simp]
theorem errors_addSlotValue : (state.addSlotValue slot value).errors = state.errors := by
  rw [addSlotValue]
  split_ifs <;> rfl

@[simp]
theorem presence_addSlotValue :
    (state.addSlotValue slot value).presence = state.presence := by
  rw [addSlotValue]
  split_ifs <;> rfl

@[simp]
theorem doc_setIdterm (fieldname idterm : Bytes) :
    (state.setIdterm fieldname idterm).doc = state.doc := by
  rw [setIdterm]
  split_ifs <;> rfl

variable [Libraries] (storeField : Bytes) (values : Json)

@[simp]
theorem doc_store : (state.store storeField values).doc = state.doc := by
  rw [store]
  split_ifs <;> rfl

@[simp]
theorem errors_store : (state.store storeField values).errors = state.errors := by
  rw [store]
  split_ifs <;> rfl

@[simp]
theorem presence_store : (state.store storeField values).presence = state.presence := by
  rw [store]
  split_ifs <;> rfl

end Fields

end IndexingState

/-! ## Limits on the length of terms -/

/-- The term text for a value: none if it is an error that it is too long. -/
def limitLength (maxLength : ℕ) (action : TooLongAction)
    (value : Bytes) : Option Bytes :=
  if maxLength < value.length then
    match action with
    | .error => none
    | .hash => some (hashLongTerm value maxLength)
    | .truncate => some (value.take maxLength)
  else some value

def tooLongError (maxLength : ℕ) (value : Bytes) : Bytes :=
  ascii "Field value of length " ++ decimal value.length ++
    ascii " exceeds maximum permissible length for this field of " ++
    decimal maxLength

/-! ## Exact fields and id fields -/

namespace ExactString

variable [Libraries]

/-- The text whose length is limited. -/
def termText (indexer : ExactStringIndexer) (value : Bytes) :
    Bytes :=
  if indexer.lowercase then Libraries.toLower value else value

/-- What a pass of the loop does with a value that is not empty and, in an id
field, is valid. -/
def addValue (indexer : ExactStringIndexer) (fieldname value : Bytes)
    (state : IndexingState) : IndexingState :=
  let state := state.addSlotValue indexer.slot value
  let text := termText indexer value
  match limitLength indexer.maxLength indexer.tooLongAction text with
  | none => state.appendError fieldname (tooLongError indexer.maxLength text)
  | some text =>
      let state := state.addTerm (indexer.termPrefix ++ text) indexer.wdfinc
      if indexer.isid then
        state.setIdterm fieldname (indexer.termPrefix ++ text)
      else state

/-- The loop of `ExactStringIndexer::index`, with whether it ran to its end.  An
invalid id ends it. -/
def indexItems (indexer : ExactStringIndexer) (fieldname : Bytes) :
    List Json → IndexingState → IndexingState × Bool
  | [], state => (state, true)
  | item :: rest, state =>
      match item.getIdstyleValue with
      | .error error =>
          indexItems indexer fieldname rest (state.appendError fieldname error)
      | .ok value =>
          if value = [] then
            indexItems indexer fieldname rest (state.fieldEmpty fieldname)
          else
            let state := state.fieldNonempty fieldname
            match if indexer.isid then validateDocId value else none with
            | some error =>
                ((state.appendError fieldname error).failTotally, false)
            | none =>
                indexItems indexer fieldname rest
                  (addValue indexer fieldname value state)

def index (indexer : ExactStringIndexer) (fieldname : Bytes)
    (values : Json) (state : IndexingState) : IndexingState :=
  let indexed := indexItems indexer fieldname values.items state
  if indexed.2 then indexed.1.store indexer.storeField values
  else indexed.1

end ExactString

/-! ## Other fields -/

section Others

variable [Libraries]

/-- A loop over the values, after which they are stored. -/
def indexEach (body : Json → IndexingState → IndexingState)
    (storeField : Bytes) (values : Json) (state : IndexingState) :
    IndexingState :=
  (values.items.foldl (fun state item => body item state) state).store
    storeField values

/-- `StoredIndexer::index`. -/
def indexStored (storeField fieldname : Bytes) (values : Json)
    (state : IndexingState) : IndexingState :=
  (values.items.foldl (fun state item =>
      if item.isEmpty || (match item with
          | .string text => text.isEmpty
          | _ => false) then
        state.fieldEmpty fieldname
      else state.fieldNonempty fieldname) state).setData storeField
    values.serialise

/-- `DoubleIndexer::index` and `TimeStampIndexer::index`, which differ in the
name of the field in the error. -/
def indexNumber (kind : String) (slot : ℕ) (storeField fieldname : Bytes) :
    Json → IndexingState → IndexingState :=
  indexEach (fun item state =>
    if item.isNull then state.fieldEmpty fieldname
    else if item.isConvertibleToReal then
      (state.fieldNonempty fieldname).addValue slot
        (Libraries.sortableSerialise item.asDouble)
    else (state.fieldNonempty fieldname).appendError fieldname
      (ascii kind ++ ascii " field must be numeric; was " ++ item.serialise))
    storeField

/-- A `-` that is skipped if it is there. -/
def skipDash (text : Bytes) : Bytes :=
  if text.head? = some 45 then text.tail else text

private def rangeError (value : Json) (part : String) (number : ℤ) :
    Bytes :=
  ascii "Unable to parse date value '" ++ value.serialise ++ ascii "'; got " ++
    ascii part ++ ascii " value (" ++ ascii (toString number) ++
    ascii ") out of range"

/-- `DateIndexer::parse_date`, with the empty text for no date. -/
def parseDate (value : Json) : Except Bytes Bytes :=
  match value with
  | .null => .ok []
  | .string text =>
      if text = [] then .ok []
      else
        let year := Libraries.strtod (cString text)
        let monthRead := Libraries.strtod (skipDash year.2)
        let month := Libraries.floorInt monthRead.1
        if month ≤ 0 ∨ 12 < month then
          .error (rangeError value "month" month)
        else
          let day := Libraries.floorInt
            (Libraries.strtod (skipDash monthRead.2)).1
          if day ≤ 0 ∨ 31 < day then .error (rangeError value "day" day)
          else .ok (Libraries.sortableSerialise year.1 ++
            [Fin.ofNat 256 (32 + month).toNat, Fin.ofNat 256 (32 + day).toNat])
  | _ => .error (ascii "Non-string value supplied to date field.")

/-- `DateIndexer::index`. -/
def indexDate (slot : ℕ) (storeField fieldname : Bytes) :
    Json → IndexingState → IndexingState :=
  indexEach (fun item state =>
    match parseDate item with
    | .error error =>
        (state.fieldNonempty fieldname).appendError fieldname error
    | .ok parsed =>
        if parsed = [] then state.fieldEmpty fieldname
        else (state.fieldNonempty fieldname).addValue slot parsed)
    storeField

/-- The terms for the ancestors of a category. -/
def addAncestors (taxonomy : Option Taxonomy) (termPrefix value : Bytes)
    (state : IndexingState) : IndexingState :=
  match taxonomy.bind fun taxonomy => taxonomy.find value with
  | none => state
  | some category =>
      (category.ancestors.sort (· ≤ ·)).foldl
        (fun state ancestor =>
          state.addTerm (termPrefix ++ ascii "A" ++ ancestor) 0) state

/-- `CategoryIndexer::index`. -/
def indexCategory (taxonomies : StdMap Taxonomy) (indexer : CategoryIndexer)
    (fieldname : Bytes) : Json → IndexingState → IndexingState :=
  indexEach (fun item state =>
    match item.getIdstyleValue with
    | .error error =>
        (state.fieldNonempty fieldname).appendError fieldname error
    | .ok value =>
        if value = [] then state.fieldEmpty fieldname
        else
          let state :=
            (state.addSlotValue indexer.slot value).fieldNonempty fieldname
          match limitLength indexer.maxLength indexer.tooLongAction value with
          | none =>
              state.appendError fieldname
                (tooLongError indexer.maxLength value)
          | some text =>
              addAncestors taxonomies[indexer.taxonomyName]?
                indexer.termPrefix text
                (state.addTerm (indexer.termPrefix ++ ascii "C" ++ text) 0))
    indexer.storeField

/-- A loop over the values that may throw, after which they are stored. -/
def attemptEach (body : Json → IndexingState → Attempt Thrown IndexingState)
    (storeField : Bytes) (values : Json) (state : IndexingState) :
    Attempt Thrown IndexingState :=
  (Attempt.forEach body values.items state).andThen fun state =>
    .done (state.store storeField values)

/-- `LonLatIndexer::index`. -/
def indexLonLat (slot : ℕ) (storeField fieldname : Bytes) (values : Json)
    (state : IndexingState) : Attempt Thrown IndexingState :=
  attemptEach (fun item state =>
    let state := state.fieldNonempty fieldname
    match item.getLonlat with
    | .error error =>
        .done (state.appendError fieldname
          (error ++ ascii " value was " ++ item.serialise))
    | .ok (longitude, latitude) =>
        match Libraries.latLongSerialise latitude longitude with
        | .error error => .fail state (.xapian error)
        | .ok serialised => .done (state.addValue slot serialised))
    storeField values
    { state with docvals := state.docvals.setSlotFormat slot .geoencode }

/-- The loop that both indexers for text share, up to what they do with the
text. -/
def indexText (slot : ℕ) (storeField fieldname : Bytes)
    (body : Bytes → Xapian.Document →
      Except XapianError Xapian.Document) :
    Json → IndexingState → Attempt Thrown IndexingState :=
  attemptEach (fun item state =>
    match item with
    | .null => .done (state.fieldEmpty fieldname)
    | .string text =>
        if text = [] then .done (state.fieldEmpty fieldname)
        else
          let slotted :=
            if state.docvals.isEmpty slot then state.addSlotValue slot text
            else state
          let state := slotted.fieldNonempty fieldname
          match body text state.doc with
          | .error error => .fail state (.xapian error)
          | .ok doc => .done { state with doc }
    | _ =>
        .done ((state.fieldNonempty fieldname).appendError fieldname
          (ascii "Field value for text field must be a string; was " ++
            item.serialise)))
    storeField

/-- What `CJKIndexer` does with a text. -/
def addCjkPostings (termPrefix text : Bytes) (doc : Xapian.Document) :
    Xapian.Document :=
  (Libraries.cjkTokenize text).foldl (fun doc token =>
    let term := Libraries.toLower token.1
    if term.length < 32 then doc.addPosting (termPrefix ++ term) token.2
    else doc) doc

end Others

/-! ## The metadata field -/

def addEntry (termPrefix : Bytes) (slot : ℕ) (entry : Bytes)
    (state : IndexingState) : IndexingState :=
  let state := state.addTerm (termPrefix ++ entry) 0
  if 1 < entry.length then state.addSlotValue slot entry else state

/-- The codes that a field has an entry for. -/
def presenceCodes (flags : FieldPresence) : List String :=
  ["F"] ++ (if flags.nonempty then ["N"] else []) ++
    (if flags.empty then ["M"] else []) ++ if flags.errors then ["E"] else []

/-- `MetaIndexer::index`. -/
def indexMetadata (idField typeField termPrefix : Bytes) (slot : ℕ)
    (state : IndexingState) : IndexingState :=
  let fields := state.presence.toList.filter fun entry =>
    !(entry.1 == idField || entry.1 == typeField)
  let entries := fields.flatMap fun entry =>
    (presenceCodes entry.2).map fun code => ascii code ++ entry.1
  let overall :=
    (if fields.any (·.2.nonempty) then [ascii "N"] else []) ++
    (if fields.any (·.2.empty) then [ascii "M"] else []) ++
    if fields.any (·.2.errors) then [ascii "E"] else []
  (entries ++ overall).foldl
    (fun state entry => addEntry termPrefix slot entry state) state

/-! ## Dispatch -/

def index [Libraries] {Pipe Categoriser : Type}
    (collconfig : CollectionConfig Pipe Categoriser) (indexer : FieldIndexer)
    (fieldname : Bytes) (values : Json) (state : IndexingState) :
    Attempt Thrown IndexingState :=
  match indexer with
  | .metadata termPrefix slot =>
      .done (indexMetadata collconfig.idField collconfig.typeField termPrefix
        slot state)
  | .exactString indexer =>
      .done (ExactString.index indexer fieldname values state)
  | .stored storeField =>
      .done (indexStored storeField fieldname values state)
  | .double slot storeField =>
      .done (indexNumber "Double" slot storeField fieldname values state)
  | .timeStamp slot storeField =>
      .done (indexNumber "Timestamp" slot storeField fieldname values state)
  | .date slot storeField =>
      .done (indexDate slot storeField fieldname values state)
  | .category indexer =>
      .done (indexCategory collconfig.taxonomies indexer fieldname values
        state)
  | .lonLat slot storeField =>
      indexLonLat slot storeField fieldname values state
  | .termGenerator termPrefix storeField stemLang slot =>
      indexText slot storeField fieldname
        (fun text => Libraries.indexText stemLang text termPrefix) values state
  | .cjk termPrefix storeField slot =>
      indexText slot storeField fieldname
        (fun text doc => .ok (addCjkPostings termPrefix text doc)) values state

end Restpose.Indexing
