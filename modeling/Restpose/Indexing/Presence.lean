import Restpose.Indexing.Visits

/-!
# Which fields exist

While a document is indexed, it is recorded which fields it has.  A field that
has been recorded is marked as empty or as not empty, unless all its values
were errors that came before the mark.
-/

namespace Restpose.Indexing

open Config Attempt IndexingState ExactString Loops Prod

namespace IndexingState

/-- A field is in the record. -/
def Recorded (state : IndexingState) (name : Bytes) : Prop :=
  ∃ flags, state.presence[name]? = some flags

/-- A field is in the record as empty or as not empty. -/
def Marked (state : IndexingState) (name : Bytes) : Prop :=
  ∃ flags, state.presence[name]? = some flags ∧
    (flags.nonempty = true ∨ flags.empty = true)

theorem find_setPresence (state : IndexingState) (name other : Bytes)
    (set : FieldPresence → FieldPresence) :
    (state.setPresence name set).presence[other]? =
      if other = name then
        some (set (state.presence.getD name ⟨false, false, false⟩))
      else state.presence[other]? :=
  StdMap.find_insert _ _ _ _

/-- The id term, and whether the document cannot be processed. -/
def verdict (state : IndexingState) : Bytes × Bool :=
  (state.idterm, state.errors.totalFailure)

/-- What a state says about fields and ids. -/
def record (state : IndexingState) :
    StdMap FieldPresence × Bytes × Bool :=
  (state.presence, state.verdict)

variable (state : IndexingState)

theorem record_addSlotValue (slot : ℕ) (value : Bytes) :
    (state.addSlotValue slot value).record = state.record := by
  unfold addSlotValue
  split <;> rfl

theorem record_store [Libraries] (storeField : Bytes) (values : Json) :
    (state.store storeField values).record = state.record := by
  unfold store
  split <;> rfl

end IndexingState

/-! ## What steps add to the record -/

/-- The fields that a step records and the fields that it marks. -/
structure Notes (recorded marked : Bytes → Prop)
    (before after : IndexingState) : Prop where
  records : ∀ name, after.Recorded name ↔
    before.Recorded name ∨ recorded name
  marks : ∀ name, after.Marked name ↔ before.Marked name ∨ marked name

/-- A step for one field: whether it records the field, and whether it marks
it. -/
def FieldNotes (fieldname : Bytes) (recorded marked : Prop) :
    IndexingState → IndexingState → Prop :=
  Notes (fun name => name = fieldname ∧ recorded)
    fun name => name = fieldname ∧ marked

section Notes

variable {recorded marked : Bytes → Prop}
  {before middle after : IndexingState}

theorem notes_of_presence_eq (hsame : after.presence = before.presence) :
    Notes (fun _ => False) (fun _ => False) before after := by
  constructor
  · intro name
    simp [IndexingState.Recorded, hsame]
  · intro name
    simp [IndexingState.Marked, hsame]

theorem Notes.trans {thenRecorded thenMarked : Bytes → Prop}
    (hfirst : Notes recorded marked before middle)
    (hsecond : Notes thenRecorded thenMarked middle after) :
    Notes (fun name => recorded name ∨ thenRecorded name)
      (fun name => marked name ∨ thenMarked name) before after := by
  constructor
  · intro name
    rw [hsecond.records, hfirst.records, or_assoc]
  · intro name
    rw [hsecond.marks, hfirst.marks, or_assoc]

theorem Notes.congr {otherRecorded otherMarked : Bytes → Prop}
    (hnotes : Notes recorded marked before after)
    (hrecorded : ∀ name, recorded name ↔ otherRecorded name)
    (hmarked : ∀ name, marked name ↔ otherMarked name) :
    Notes otherRecorded otherMarked before after := by
  constructor
  · intro name
    rw [hnotes.records, hrecorded]
  · intro name
    rw [hnotes.marks, hmarked]

theorem Notes.of_presence_eq (hnotes : Notes recorded marked before middle)
    (hsame : after.presence = middle.presence) :
    Notes recorded marked before after :=
  (hnotes.trans (notes_of_presence_eq hsame)).congr (by simp) (by simp)

theorem ends_forEach_notes {Item State : Type} (read : State → IndexingState)
    {body : Item → State → Attempt Thrown State}
    {recorded marked : Item → Bytes → Prop}
    (hbody : ∀ item state, (body item state).Ends fun after =>
      Notes (recorded item) (marked item) (read state) (read after))
    (items : List Item) (state : State) :
    (forEach body items state).Ends fun after =>
      Notes (fun name => ∃ item ∈ items, recorded item name)
        (fun name => ∃ item ∈ items, marked item name) (read state)
        (read after) := by
  induction items generalizing state with
  | nil =>
    refine ends_done ((notes_of_presence_eq rfl).congr ?_ ?_) <;> simp
  | cons item items ih =>
    refine (hbody item state).andThen fun middle hfirst => ?_
    intro hthrown
    refine (hfirst.trans (ih middle hthrown)).congr ?_ ?_ <;> simp

end Notes

section FieldNotes

variable {fieldname : Bytes} {recorded marked : Prop}
  {before middle after : IndexingState}

theorem fieldNotes_of_presence_eq (hsame : after.presence = before.presence) :
    FieldNotes fieldname False False before after :=
  (notes_of_presence_eq hsame).congr (by simp) (by simp)

theorem FieldNotes.trans {thenRecorded thenMarked : Prop}
    (hfirst : FieldNotes fieldname recorded marked before middle)
    (hsecond : FieldNotes fieldname thenRecorded thenMarked middle after) :
    FieldNotes fieldname (recorded ∨ thenRecorded) (marked ∨ thenMarked) before after :=
  (Notes.trans hfirst hsecond).congr (fun _ => and_or_left.symm) fun _ => and_or_left.symm

theorem FieldNotes.of_presence_eq
    (hnotes : FieldNotes fieldname recorded marked before middle)
    (hsame : after.presence = middle.presence) :
    FieldNotes fieldname recorded marked before after :=
  Notes.of_presence_eq hnotes hsame

theorem FieldNotes.after_presence_eq
    (hnotes : FieldNotes fieldname recorded marked middle after)
    (hsame : middle.presence = before.presence) :
    FieldNotes fieldname recorded marked before after := by
  simpa only [false_or] using (fieldNotes_of_presence_eq hsame).trans hnotes

theorem FieldNotes.no_fail (hnotes : FieldNotes fieldname marked marked before after) :
    FieldNotes fieldname (False ∨ marked) marked before after := by
  rwa [false_or]

theorem FieldNotes.andMore {thenRecorded thenMarked : Prop}
    (hfirst : FieldNotes fieldname True True before middle)
    (hsecond : FieldNotes fieldname thenRecorded thenMarked middle after) :
    FieldNotes fieldname True True before after := by
  simpa only [true_or] using hfirst.trans hsecond

variable (state : IndexingState)

theorem fieldNotes_setPresence {set : FieldPresence → FieldPresence}
    (hset : ∀ flags, ((set flags).nonempty = true ∨ (set flags).empty = true) ↔
      (flags.nonempty = true ∨ flags.empty = true) ∨ marked) :
    FieldNotes fieldname True marked state (state.setPresence fieldname set) := by
  constructor
  · intro name
    rw [IndexingState.Recorded, IndexingState.Recorded, find_setPresence]
    by_cases hname : name = fieldname <;> simp [hname]
  · intro name
    rw [IndexingState.Marked, IndexingState.Marked, find_setPresence]
    by_cases hname : name = fieldname
    · subst hname
      simp only [if_true, Option.some.injEq, exists_eq_left', hset, true_and]
      cases hflags : state.presence[name]? with
      | none | some flags => simp [Std.ExtTreeMap.getD_eq_getD_getElem?, hflags]
    · simp [hname]

theorem fieldNotes_fieldEmpty :
    FieldNotes fieldname True True state (state.fieldEmpty fieldname) :=
  fieldNotes_setPresence state (by simp)

theorem fieldNotes_fieldNonempty :
    FieldNotes fieldname True True state (state.fieldNonempty fieldname) :=
  fieldNotes_setPresence state (by simp)

theorem fieldNotes_appendError (error : Bytes) : FieldNotes fieldname True False state
      (state.appendError fieldname error) := by
  have hset : FieldNotes fieldname True False state
    (state.setPresence fieldname fun flags =>
        { flags with errors := true }) :=
    fieldNotes_setPresence state (by simp)
  exact hset.of_presence_eq rfl

end FieldNotes

/-! ## Indexers -/

/-- What values do in a field that is not for ids: they mark the field if there
are any, and leave the id term alone. -/
structure Handled (fieldname : Bytes) (marked : Prop)
    (before after : IndexingState) : Prop where
  notes : FieldNotes fieldname marked marked before after
  verdict : after.verdict = before.verdict

section Handled

variable {fieldname : Bytes} {marked : Prop}
  {before middle after : IndexingState}

theorem Handled.keeps (hhandled : Handled fieldname marked before middle)
    (hrecord : after.record = middle.record) :
    Handled fieldname marked before after := by
  obtain ⟨hpresence, hverdict⟩ := mk.inj hrecord
  exact ⟨hhandled.notes.of_presence_eq hpresence, hverdict.trans hhandled.verdict⟩

theorem Handled.after_keeps (hhandled : Handled fieldname marked middle after)
    (hrecord : middle.record = before.record) :
    Handled fieldname marked before after := by
  obtain ⟨hpresence, hverdict⟩ := mk.inj hrecord
  exact ⟨hhandled.notes.after_presence_eq hpresence, hhandled.verdict.trans hverdict⟩

theorem handled_fieldEmpty (state : IndexingState) :
    Handled fieldname True state (state.fieldEmpty fieldname) :=
  ⟨fieldNotes_fieldEmpty state, rfl⟩

theorem handled_fieldNonempty (state : IndexingState) :
    Handled fieldname True state (state.fieldNonempty fieldname) :=
  ⟨fieldNotes_fieldNonempty state, rfl⟩

theorem Handled.appendError (hhandled : Handled fieldname True before after)
    (error : Bytes) : Handled fieldname True before (after.appendError fieldname error) :=
  ⟨hhandled.notes.andMore (fieldNotes_appendError _ _), hhandled.verdict⟩

theorem ends_forEach_handled {body : Json → IndexingState → Attempt Thrown IndexingState}
    (hbody : ∀ item state, (body item state).Ends (Handled fieldname True state))
    (items : List Json) (state : IndexingState) :
    (forEach body items state).Ends (Handled fieldname (items ≠ []) state) := by
  have hsome : ∀ name, (∃ item ∈ items, name = fieldname ∧ True) ↔
      name = fieldname ∧ items ≠ [] := by
    intro name
    cases items <;> simp
  have hnotes := ends_forEach_notes id
    (fun item state hdone => (hbody item state hdone).notes) items state
  have hverdict : (forEach body items state).Ends fun after =>
      after.verdict = state.verdict :=
    ends_forEach (fun item middle hmiddle hdone =>
      (hbody item middle hdone).verdict.trans hmiddle) items rfl
  intro hthrown
  exact ⟨(hnotes hthrown).congr hsome hsome, hverdict hthrown⟩

theorem handled_foldl {body : IndexingState → Json → IndexingState}
    (hbody : ∀ state item, Handled fieldname True state (body state item))
    (items : List Json) (state : IndexingState) :
    Handled fieldname (items ≠ []) state (items.foldl body state) := by
  have hloop : forEach (fun item state => (.done (body state item) :
        Attempt Thrown IndexingState)) items state =
        .done (items.foldl body state) :=
    forEach_done (fun _ _ _ => rfl) state
  have hends := ends_forEach_handled (fun item state => ends_done (hbody state item))
    items state
  rw [hloop] at hends
  exact hends rfl

end Handled

section Indexers

variable [Libraries] {fieldname : Bytes}

theorem ends_attemptEach_handled
    {body : Json → IndexingState → Attempt Thrown IndexingState}
    (hbody : ∀ item state, (body item state).Ends (Handled fieldname True state))
    (storeField : Bytes) (values : Json) (state : IndexingState) :
    (attemptEach body storeField values state).Ends
      (Handled fieldname (values.items ≠ []) state) := by
  refine (ends_forEach_handled hbody values.items state).andThen ?_
  intro after hhandled
  exact ends_done (hhandled.keeps (after.record_store storeField values))

theorem handled_indexEach {body : Json → IndexingState → IndexingState}
    (hbody : ∀ state item, Handled fieldname True state (body item state))
    (storeField : Bytes) (values : Json) (state : IndexingState) :
    Handled fieldname (values.items ≠ []) state
      (indexEach body storeField values state) :=
  (handled_foldl hbody values.items state).keeps (record_store _ storeField values)

variable (storeField : Bytes) (values : Json) (state : IndexingState)

theorem handled_indexStored : Handled fieldname (values.items ≠ []) state
      (indexStored storeField fieldname values state) := by
  refine Handled.keeps (handled_foldl (fun state item => ?_) values.items state) rfl
  split_ifs
  · exact handled_fieldEmpty state
  · exact handled_fieldNonempty state

theorem handled_indexNumber (kind : String) (slot : ℕ) :
    Handled fieldname (values.items ≠ []) state
      (indexNumber kind slot storeField fieldname values state) := by
  refine handled_indexEach (fun state item => ?_) storeField values state
  split_ifs
  · exact handled_fieldEmpty state
  · exact (handled_fieldNonempty state).keeps rfl
  · exact (handled_fieldNonempty state).appendError _

theorem handled_indexDate (slot : ℕ) : Handled fieldname (values.items ≠ []) state
      (indexDate slot storeField fieldname values state) := by
  refine handled_indexEach (fun state item => ?_) storeField values state
  cases parseDate item with
  | error error => exact (handled_fieldNonempty state).appendError _
  | ok parsed =>
    dsimp only
    split_ifs
    · exact handled_fieldEmpty state
    · exact (handled_fieldNonempty state).keeps rfl

omit [Libraries] in
theorem record_addAncestors (taxonomy : Option Taxonomy) (termPrefix value : Bytes)
    (state : IndexingState) :
    (addAncestors taxonomy termPrefix value state).record = state.record := by
  unfold addAncestors
  split
  · rfl
  · refine foldl_keeps record (fun state ancestor => ?_) _ state
    rfl

theorem handled_indexCategory (taxonomies : StdMap Taxonomy) (indexer : CategoryIndexer) :
    Handled fieldname (values.items ≠ []) state
      (indexCategory taxonomies indexer fieldname values state) := by
  refine handled_indexEach (fun state item => ?_) indexer.storeField values state
  cases item.getIdstyleValue with
  | error error => exact (handled_fieldNonempty state).appendError _
  | ok value =>
    dsimp only
    split_ifs
    · exact handled_fieldEmpty state
    · have hmarks : Handled fieldname True state
          ((state.addSlotValue indexer.slot value).fieldNonempty fieldname) :=
        (handled_fieldNonempty _).after_keeps
          (state.record_addSlotValue indexer.slot value)
      cases limitLength indexer.maxLength indexer.tooLongAction value with
      | none => exact hmarks.appendError _
      | some text => exact hmarks.keeps (record_addAncestors _ _ _ _)

theorem ends_indexLonLat (slot : ℕ) :
    (indexLonLat slot storeField fieldname values state).Ends
      (Handled fieldname (values.items ≠ []) state) := by
  intro hthrown
  refine Handled.after_keeps (ends_attemptEach_handled
    (fun item state => ?_) storeField values _ hthrown) rfl
  cases item.getLonlat with
  | error error =>
    exact ends_done ((handled_fieldNonempty state).appendError _)
  | ok coordinates =>
    dsimp only
    cases Libraries.latLongSerialise coordinates.2 coordinates.1 with
    | error error => exact ends_fail _ _
    | ok serialised =>
      exact ends_done ((handled_fieldNonempty state).keeps rfl)

theorem ends_indexText (slot : ℕ)
    (body : Bytes → Xapian.Document → Except XapianError Xapian.Document) :
    (indexText slot storeField fieldname body values state).Ends
      (Handled fieldname (values.items ≠ []) state) := by
  refine ends_attemptEach_handled (fun item state => ?_) storeField values state
  cases item with
  | null => exact ends_done (handled_fieldEmpty state)
  | string text =>
    dsimp only
    split_ifs with hempty hslot
    · exact ends_done (handled_fieldEmpty state)
    · cases body text _ with
      | error error => exact ends_fail _ _
      | ok doc =>
        exact ends_done (Handled.keeps (Handled.after_keeps (handled_fieldNonempty _)
          (state.record_addSlotValue slot text)) rfl)
    · cases body text _ with
      | error error => exact ends_fail _ _
      | ok doc =>
        exact ends_done ((handled_fieldNonempty state).keeps rfl)
  | _ => exact ends_done ((handled_fieldNonempty state).appendError _)

omit [Libraries] in
theorem record_indexMetadata (idField typeField termPrefix : Bytes) (slot : ℕ) :
    (indexMetadata idField typeField termPrefix slot state).record = state.record := by
  refine foldl_keeps record (fun state entry => ?_) _ state
  unfold addEntry
  dsimp only
  split_ifs
  · exact record_addSlotValue _ slot entry
  · rfl

/-- The values of a field with this indexer all mark the field, and none of them
is an id. -/
def Plain : FieldIndexer → Prop
  | .metadata _ _ => False
  | .exactString _ => False
  | _ => True

theorem ends_index_handled {Pipe Categoriser : Type}
    (collconfig : CollectionConfig Pipe Categoriser) {indexer : FieldIndexer}
    (hplain : Plain indexer) :
    (index collconfig indexer fieldname values state).Ends
      (Handled fieldname (values.items ≠ []) state) := by
  cases indexer with
  | metadata termPrefix slot | exactString indexer => exact hplain.elim
  | stored storeField =>
    exact ends_done (handled_indexStored storeField values state)
  | double slot storeField =>
    exact ends_done (handled_indexNumber storeField values state "Double" slot)
  | timeStamp slot storeField =>
    exact ends_done (handled_indexNumber storeField values state "Timestamp" slot)
  | date slot storeField =>
    exact ends_done (handled_indexDate storeField values state slot)
  | category indexer =>
    exact ends_done (handled_indexCategory values state _ indexer)
  | lonLat slot storeField =>
    exact ends_indexLonLat storeField values state slot
  | termGenerator termPrefix storeField stemLang slot
  | cjk termPrefix storeField slot =>
    exact ends_indexText storeField values state slot _

/-! ## Exact fields and id fields -/

/-- A value whose text can be taken. -/
def HasText (item : Json) : Prop :=
  ∃ text, item.getIdstyleValue = .ok text

variable (indexer : ExactStringIndexer)

/-- What comes after the mark for a value may be an error. -/
theorem exists_fieldNotes_addValue (fieldname value : Bytes) (state : IndexingState) :
    ∃ recorded, FieldNotes fieldname recorded False state
      (addValue indexer fieldname value state) := by
  have hslot := state.presence_addSlotValue indexer.slot value
  unfold ExactString.addValue
  dsimp only
  cases limitLength indexer.maxLength indexer.tooLongAction (termText indexer value) with
  | none =>
    exact ⟨True, (fieldNotes_appendError _ _).after_presence_eq hslot⟩
  | some text =>
    dsimp only
    split_ifs
    · unfold setIdterm
      split_ifs
      · exact ⟨False, fieldNotes_of_presence_eq hslot⟩
      · exact ⟨False, fieldNotes_of_presence_eq hslot⟩
      · exact ⟨True, (fieldNotes_appendError _ _).after_presence_eq hslot⟩
    · exact ⟨False, fieldNotes_of_presence_eq hslot⟩

/-- An item is recorded in any case, and marked if it has a text. -/
theorem fieldNotes_indexItems (items : List Json) (state : IndexingState) :
    FieldNotes fieldname (items ≠ []) (∃ item ∈ items, HasText item) state
      (indexItems indexer fieldname items state).1 := by
  induction items generalizing state with
  | nil =>
    have hnone : FieldNotes fieldname False False state
        (indexItems indexer fieldname [] state).1 :=
      fieldNotes_of_presence_eq rfl
    simpa using hnone
  | cons item items ih =>
    simp only [indexItems]
    cases hvalue : item.getIdstyleValue with
    | error error =>
      have hfirst : FieldNotes fieldname True False state
          (state.appendError fieldname error) :=
        fieldNotes_appendError state error
      have hnotes := hfirst.trans (ih _)
      have htext : ¬HasText item := by
        rintro ⟨text, htext⟩
        rw [hvalue] at htext
        cases htext
      simpa [htext] using hnotes
    | ok value =>
      have htext : HasText item := ⟨value, hvalue⟩
      have hmarks : FieldNotes fieldname True True state
          (indexItems indexer fieldname (item :: items) state).1 := by
        simp only [indexItems, hvalue]
        by_cases hempty : value = []
        · rw [if_pos hempty]
          exact (fieldNotes_fieldEmpty state).andMore (ih _)
        · rw [if_neg hempty]
          cases if indexer.isid then validateDocId value else none with
          | some error =>
            exact ((fieldNotes_fieldNonempty state).andMore
              (fieldNotes_appendError _ error)).of_presence_eq rfl
          | none =>
            obtain ⟨recorded, hadd⟩ := exists_fieldNotes_addValue
              indexer fieldname value (state.fieldNonempty fieldname)
            exact ((fieldNotes_fieldNonempty state).andMore hadd).andMore (ih _)
      simpa [indexItems, hvalue, htext] using hmarks

/-! ## Any field -/

/-- The values of an array mark their field. -/
def ItemsMark (indexer : FieldIndexer) (items : List Json) : Prop :=
  match indexer with
  | .metadata _ _ => False
  | .exactString _ => ∃ item ∈ items, HasText item
  | _ => items ≠ []

/-- The values of an array are errors that come before the mark. -/
def ItemsFail (indexer : FieldIndexer) (items : List Json) : Prop :=
  match indexer with
  | .exactString _ => items ≠ [] ∧ ∀ item ∈ items, ¬HasText item
  | _ => False

theorem itemsFail_or_itemsMark (items : List Json) :
    ItemsFail (.exactString indexer) items ∨
        ItemsMark (.exactString indexer) items ↔ items ≠ [] := by
  simp only [ItemsFail, ItemsMark]
  constructor
  · rintro (⟨hne, -⟩ | ⟨item, hitem, -⟩)
    · exact hne
    · exact List.ne_nil_of_mem hitem
  · intro hne
    by_cases htext : ∃ item ∈ items, HasText item
    · exact .inr htext
    · exact .inl ⟨hne, fun item hitem hhas => htext ⟨item, hitem, hhas⟩⟩

theorem fieldNotes_index_exactString (fieldname : Bytes) (values : Json)
    (state : IndexingState) :
    FieldNotes fieldname (values.items ≠ [])
      (ItemsMark (.exactString indexer) values.items) state
      (ExactString.index indexer fieldname values state) := by
  refine (fieldNotes_indexItems indexer values.items state).of_presence_eq ?_
  simp only [ExactString.index]
  split_ifs
  · exact presence_store _ _ values
  · rfl

variable {Pipe Categoriser : Type}
  (collconfig : CollectionConfig Pipe Categoriser)

theorem ends_index_notes (indexer : FieldIndexer) (values : Json)
    (state : IndexingState) :
    (index collconfig indexer fieldname values state).Ends (FieldNotes fieldname
        (ItemsFail indexer values.items ∨ ItemsMark indexer values.items)
        (ItemsMark indexer values.items) state) := by
  cases indexer with
  | metadata termPrefix slot =>
    exact Attempt.ends_done (fieldNotes_of_presence_eq (Prod.mk.inj
      (record_indexMetadata state _ _ termPrefix slot)).1).no_fail
  | exactString indexer =>
    have hnotes := fieldNotes_index_exactString indexer fieldname values state
    rw [← itemsFail_or_itemsMark] at hnotes
    exact Attempt.ends_done hnotes
  | _ =>
    refine fun hthrown => (ends_index_handled values state collconfig ?_
      hthrown).notes.no_fail
    trivial

/-! ## Members of documents -/

section Members

variable (schema : Schema) (entry : Bytes × Json)

/-- A member of a document marks its field: there is an indexer, and the value
is null or an array that marks the field. -/
def MemberMarks : Prop :=
  entry.1 ≠ collconfig.metaField ∧
    ∃ indexer, (schema.visit entry.1).result = .ok (some indexer) ∧
      (entry.2.isNull = true ∨
        ItemsMark indexer (FieldRun.toArray entry.2).items)

/-- A member of a document only gives errors: it is in the metadata field, or
its values are errors that come before the mark. -/
def MemberFails : Prop :=
  entry.1 = collconfig.metaField ∨
    ∃ indexer, (schema.visit entry.1).result = .ok (some indexer) ∧
      entry.2.isNull = false ∧
        ItemsFail indexer (FieldRun.toArray entry.2).items

theorem ends_indexState_notes {indexer : Option FieldIndexer}
    (hindexer : (schema.visit entry.1).result = .ok indexer)
    (hmeta : entry.1 ≠ collconfig.metaField) (state : IndexingState) :
    (indexState collconfig entry.1 entry.2 indexer state).Ends (FieldNotes entry.1
        (MemberFails collconfig schema entry ∨ MemberMarks collconfig schema entry)
        (MemberMarks collconfig schema entry) state) := by
  simp only [MemberFails, MemberMarks, hindexer, hmeta, ne_eq,
    not_false_eq_true, true_and, false_or, Except.ok.injEq]
  cases indexer with
  | none =>
    have hnone : FieldNotes entry.1 False False state state :=
      fieldNotes_of_presence_eq rfl
    exact ends_done (by simpa using hnone)
  | some indexer =>
    simp only [Option.some.injEq, exists_eq_left', indexState]
    cases hnull : entry.2.isNull with
    | true =>
      rw [if_pos rfl]
      exact ends_done (by simpa using fieldNotes_fieldEmpty state)
    | false =>
      rw [if_neg (by simp)]
      simpa using ends_index_notes collconfig indexer (FieldRun.toArray entry.2) state

theorem ends_processField_notes (walk : Walk) :
    (walk.processField collconfig (fun name => (schema.visit name).result) entry).Ends
      fun after =>
        FieldNotes entry.1 (MemberFails collconfig schema entry ∨
            MemberMarks collconfig schema entry)
          (MemberMarks collconfig schema entry) walk.state after.state := by
  unfold Walk.processField
  split_ifs with hmeta
  · have hnotes : FieldNotes entry.1 True False walk.state _ :=
      fieldNotes_appendError walk.state
        (ascii "Value provided in metadata field - should be empty")
    refine ends_done ?_
    simpa [MemberFails, MemberMarks, hmeta] using hnotes
  · refine ends_withValue fun indexer hindexer => ?_
    exact ends_indexState_notes collconfig schema entry hindexer hmeta walk.state

end Members

theorem presence_processMetadata {schema : Schema} {termPrefix : Bytes} {slot : ℕ}
    (hmeta : (schema.visit collconfig.metaField).result =
      .ok (some (.metadata termPrefix slot)))
    (walk : Walk) :
    (walk.processMetadata collconfig fun name =>
      (schema.visit name).result).state.state.presence = walk.state.presence := by
  unfold Walk.processMetadata
  split_ifs with hname
  · rfl
  · simp only [Walk.withIndexer, hmeta, withValue]
    exact (mk.inj (record_indexMetadata walk.state _ _ termPrefix slot)).1

omit [Libraries] in
theorem terms_apply (docvals : DocumentValues) (document : Xapian.Document) :
    (docvals.apply document).terms = document.terms := by
  unfold DocumentValues.apply
  refine foldl_keeps Xapian.Document.terms (fun document entry => ?_) _ document
  rfl

/-- The record and the terms of a document are those of its walk. -/
theorem state_process {schema : Schema} {value : Json} {errors : IndexingErrors}
    {newFields : Bool}
    (hdone : (process collconfig schema value errors newFields).thrown = none) :
    (documentWalk collconfig schema value errors).thrown = none ∧
      (process collconfig schema value errors newFields).state.state.presence =
        (documentWalk collconfig schema value errors).state.state.presence ∧
      (process collconfig schema value errors newFields).state.state.doc.terms =
        (documentWalk collconfig schema value errors).state.state.doc.terms := by
  unfold process at hdone ⊢
  unfold documentWalk walkDocument
  cases hobject : liftInvalid (value.checkObject "input document") with
  | error error =>
    rw [hobject] at hdone
    cases hdone
  | ok _ =>
    simp only [hobject, withValue] at hdone ⊢
    obtain ⟨hwalk, run, hkeeps, hstate | ⟨data, hstate⟩⟩ := processSchema_spec
      collconfig schema value errors newFields
    · rw [hstate, hkeeps.state]
      exact ⟨hwalk hdone, rfl, rfl⟩
    · rw [hstate, FieldRun.store, hkeeps.state]
      exact ⟨hwalk hdone, rfl, terms_apply _ _⟩

/-- A document has a member that is recorded under a name. -/
def Records (schema : Schema) (value : Json) (name : Bytes) : Prop :=
  ∃ entry ∈ value.members, name = entry.1 ∧
    (MemberFails collconfig schema entry ∨
      MemberMarks collconfig schema entry)

/-- A document has a member that is marked under a name. -/
def Marks (schema : Schema) (value : Json) (name : Bytes) : Prop :=
  ∃ entry ∈ value.members, name = entry.1 ∧
    MemberMarks collconfig schema entry

section Documents

variable {schema : Schema} {termPrefix : Bytes} {slot : ℕ}
  (hmeta : (schema.visit collconfig.metaField).result =
    .ok (some (.metadata termPrefix slot)))

include hmeta

theorem ends_documentWalk_notes (value : Json) (errors : IndexingErrors) :
    (documentWalk collconfig schema value errors).Ends fun walk =>
      Notes (Records collconfig schema value) (Marks collconfig schema value)
        (.new errors) walk.state := by
  have hloop := ends_forEach_notes Walk.state
    (ends_processField_notes collconfig schema) value.members
    ⟨[], .new errors⟩
  refine ends_withValue fun _ _ => hloop.andThen ?_
  intro walk hnotes _
  exact hnotes.of_presence_eq (presence_processMetadata collconfig hmeta walk)

/-- The fields that are recorded and marked once a document has been
processed by a schema with a metadata field. -/
theorem notes_process {value : Json} {errors : IndexingErrors} {newFields : Bool}
    (hdone : (process collconfig schema value errors newFields).thrown = none) :
    Notes (Records collconfig schema value) (Marks collconfig schema value) (.new errors)
      (process collconfig schema value errors newFields).state.state := by
  obtain ⟨hwalk, hpresence, -⟩ := state_process collconfig hdone
  exact (ends_documentWalk_notes collconfig hmeta value errors hwalk).of_presence_eq
    hpresence

end Documents

end Indexers

end Restpose.Indexing
