import Restpose.Indexing.Coherent
import Restpose.Indexing.Presence

/-!
# The id term of a document

The id term that a document is stored under is the first one that an id field
of the document gives, with the fields in the order of their names.
-/

namespace Restpose.Indexing

open Config Attempt List IndexingState ExactString Prod

/-! ## What an id field gives -/

/-- The id term that stands is the first one. -/
def keepFirst (current new : Bytes) : Bytes :=
  if current = [] then new else current

theorem foldl_keepFirst_of_ne {current : Bytes} (hne : current ≠ [])
    (terms : List Bytes) : terms.foldl keepFirst current = current := by
  induction terms with
  | nil => rfl
  | cons term terms ih => rw [foldl_cons, keepFirst, if_neg hne, ih]

/-- The first of several terms stands if none of them is empty. -/
theorem foldl_keepFirst {terms : List Bytes} (hterms : ∀ term ∈ terms, term ≠ []) :
    terms.foldl keepFirst [] = terms.headD [] := by
  cases terms with
  | nil => rfl
  | cons term terms =>
    rw [foldl_cons, keepFirst, if_pos rfl]
    exact foldl_keepFirst_of_ne (hterms term mem_cons_self) terms

section Ids

variable [Libraries]

/-- The term that an item gives in an id field. -/
def idOf (indexer : ExactStringIndexer) (item : Json) : Option Bytes :=
  match item.getIdstyleValue with
  | .error _ => none
  | .ok value =>
      if value = [] then none
      else (limitLength indexer.maxLength indexer.tooLongAction
        (ExactString.termText indexer value)).map (indexer.termPrefix ++ ·)

/-- The id terms that an indexer makes of an array. -/
def idsGiven (indexer : Option FieldIndexer) (values : Json) :
    List Bytes :=
  match indexer with
  | some (.exactString indexer) =>
      if indexer.isid then values.items.filterMap (idOf indexer) else []
  | _ => []

omit [Libraries] in
theorem setIdterm_verdict (state : IndexingState) (fieldname idterm : Bytes) :
    (state.setIdterm fieldname idterm).verdict =
      (keepFirst state.idterm idterm, state.errors.totalFailure) := by
  unfold setIdterm keepFirst
  split
  · rfl
  · split
    all_goals rfl

namespace ExactString

variable {indexer : ExactStringIndexer}

theorem verdict_addValue_of_isid (hid : indexer.isid = true) (fieldname value : Bytes)
    (state : IndexingState) :
    (addValue indexer fieldname value state).verdict =
      (((limitLength indexer.maxLength indexer.tooLongAction (termText indexer value)).map
            (indexer.termPrefix ++ ·)).toList.foldl keepFirst state.idterm,
        state.errors.totalFailure) := by
  have hslot := (mk.inj (state.record_addSlotValue indexer.slot value)).2
  obtain ⟨hidterm, htotal⟩ := mk.inj hslot
  cases hlimit : limitLength indexer.maxLength indexer.tooLongAction
    (termText indexer value) with
  | none =>
    simp only [addValue, hlimit]
    exact hslot
  | some text =>
    simp only [addValue, hlimit, hid, if_true, setIdterm_verdict]
    exact Prod.ext (congrArg (keepFirst · _) hidterm) htotal

theorem verdict_addValue_of_not_isid (hid : indexer.isid = false)
    (fieldname value : Bytes) (state : IndexingState) :
    (addValue indexer fieldname value state).verdict = state.verdict := by
  have hslot := (mk.inj (state.record_addSlotValue indexer.slot value)).2
  cases hlimit : limitLength indexer.maxLength indexer.tooLongAction
    (termText indexer value) with
  | none =>
    simp only [addValue, hlimit]
    exact hslot
  | some text =>
    simp only [addValue, hlimit, hid]
    exact hslot

theorem verdict_indexItems_of_not_isid (hid : indexer.isid = false) (fieldname : Bytes)
    (items : List Json) (state : IndexingState) :
    (indexItems indexer fieldname items state).1.verdict = state.verdict := by
  induction items generalizing state with
  | nil => rfl
  | cons item items ih =>
    unfold indexItems
    split
    · exact (ih _).trans rfl
    · split
      · exact (ih _).trans rfl
      · simp only [hid, Bool.false_eq_true, if_false]
        rw [ih, verdict_addValue_of_not_isid hid]
        rfl

/-- A loop over the items of an id field that finds no invalid id keeps the
first id term. -/
theorem indexItems_ids (hid : indexer.isid = true) (fieldname : Bytes) (items : List Json)
    (state : IndexingState)
    (htotal : (indexItems indexer fieldname items state).1.errors.totalFailure = false) :
    state.errors.totalFailure = false ∧
      (indexItems indexer fieldname items state).1.idterm =
        (items.filterMap (idOf indexer)).foldl keepFirst state.idterm := by
  induction items generalizing state with
  | nil => exact ⟨htotal, rfl⟩
  | cons item items ih =>
    rw [filterMap_cons, idOf]
    unfold indexItems at htotal ⊢
    cases hvalue : item.getIdstyleValue with
    | error error =>
      simp only [hvalue] at htotal ⊢
      exact ih _ htotal
    | ok value =>
      simp only [hvalue] at htotal ⊢
      by_cases hempty : value = []
      · simp only [hempty, if_true] at htotal ⊢
        exact ih _ htotal
      · simp only [hempty, if_false, hid, if_true] at htotal ⊢
        cases hvalid : validateDocId value with
        | some error =>
          rw [hvalid] at htotal
          cases htotal
        | none =>
          simp only [hvalid] at htotal ⊢
          obtain ⟨hstate, hidterm⟩ := ih _ htotal
          obtain ⟨hadded, hkept⟩ := mk.inj (verdict_addValue_of_isid hid fieldname value
              (state.fieldNonempty fieldname))
          refine ⟨hkept.symm.trans hstate, ?_⟩
          rw [hidterm, hadded]
          cases limitLength indexer.maxLength indexer.tooLongAction
            (termText indexer value) with
          | none | some text => rfl

end ExactString

/-- What a step does to the id term, unless it finds that the document cannot be
processed. -/
def Gives (before after : IndexingState) (terms : List Bytes) : Prop :=
  after.errors.totalFailure = false →
    before.errors.totalFailure = false ∧
      after.idterm = terms.foldl keepFirst before.idterm

omit [Libraries] in
theorem gives_nil {before after : IndexingState}
    (hverdict : after.verdict = before.verdict) : Gives before after [] := by
  obtain ⟨hidterm, htotal⟩ := mk.inj hverdict
  exact fun hafter => ⟨htotal.symm.trans hafter, hidterm⟩

omit [Libraries] in
theorem Gives.append {before middle after : IndexingState} {first second : List Bytes}
    (hfirst : Gives before middle first) (hsecond : Gives middle after second) :
    Gives before after (first ++ second) := by
  intro hafter
  obtain ⟨hmiddle, hidterm⟩ := hsecond hafter
  obtain ⟨hbefore, hmidterm⟩ := hfirst hmiddle
  refine ⟨hbefore, ?_⟩
  rw [hidterm, hmidterm, foldl_append]

theorem gives_exactString (indexer : ExactStringIndexer) (fieldname : Bytes)
    (values : Json) (state : IndexingState) :
    Gives state (ExactString.index indexer fieldname values state)
      (idsGiven (some (.exactString indexer)) values) := by
  have hstore : (ExactString.index indexer fieldname values state).verdict =
      (ExactString.indexItems indexer fieldname values.items state).1.verdict := by
    simp only [ExactString.index]
    split
    · exact (mk.inj (record_store _ _ _)).2
    · rfl
  cases hid : indexer.isid with
  | false =>
    simp only [idsGiven, hid, Bool.false_eq_true, if_false]
    exact gives_nil (hstore.trans (verdict_indexItems_of_not_isid hid fieldname _ state))
  | true =>
    simp only [idsGiven, hid, if_true]
    obtain ⟨hidterm, htotal⟩ := mk.inj hstore
    intro hafter
    rw [hidterm]
    exact indexItems_ids hid fieldname values.items state (htotal.symm.trans hafter)

variable {Pipe Categoriser : Type}
  (collconfig : CollectionConfig Pipe Categoriser)

theorem ends_index_ids (indexer : FieldIndexer) (fieldname : Bytes) (values : Json)
    (state : IndexingState) :
    (index collconfig indexer fieldname values state).Ends fun after =>
      Gives state after (idsGiven (some indexer) values) := by
  cases indexer with
  | metadata termPrefix slot =>
    exact Attempt.ends_done (gives_nil (Prod.mk.inj
      (record_indexMetadata state _ _ termPrefix slot)).2)
  | exactString indexer =>
    exact Attempt.ends_done (gives_exactString indexer fieldname values state)
  | _ =>
    refine fun hthrown => gives_nil
      (ends_index_handled values state collconfig ?_ hthrown).verdict
    trivial

theorem idsGiven_null (indexer : Option FieldIndexer) : idsGiven indexer .null = [] := by
  unfold idsGiven
  split
  · exact ite_self _
  · rfl

theorem ends_indexState_ids (fieldname : Bytes) (value : Json)
    (indexer : Option FieldIndexer) (state : IndexingState) :
    (indexState collconfig fieldname value indexer state).Ends fun after =>
      Gives state after (idsGiven indexer (FieldRun.toArray value)) := by
  cases indexer with
  | none => exact ends_done (gives_nil rfl)
  | some indexer =>
    rw [indexState]
    split
    next hnull =>
      cases value with
      | null =>
        change Attempt.Ends _ fun after =>
          Gives state after (idsGiven (some indexer) .null)
        rw [idsGiven_null]
        exact ends_done (gives_nil rfl)
      | _ => cases hnull
    next => exact ends_index_ids collconfig indexer fieldname _ state

/-- The id terms that a member of a document gives. -/
def memberIds (metaField : Bytes) (schema : Schema)
    (entry : Bytes × Json) : List Bytes :=
  if entry.1 = metaField then []
  else idsGiven (schema.indexerFor entry.1) (FieldRun.toArray entry.2)

variable (schema : Schema)

theorem ends_processField_ids (entry : Bytes × Json) (walk : Walk) :
    (walk.processField collconfig (fun name => (schema.visit name).result)
      entry).Ends fun after => Gives walk.state after.state
        (memberIds collconfig.metaField schema entry) := by
  unfold Walk.processField memberIds
  split
  · exact ends_done (gives_nil rfl)
  · refine ends_withValue fun indexer hindexer => ?_
    rw [Schema.indexerFor_of_visit hindexer]
    exact ends_indexState_ids collconfig entry.1 entry.2 indexer walk.state

theorem ends_forEach_ids (entries : List (Bytes × Json)) (walk : Walk) :
    (forEach (Walk.processField collconfig
      fun name => (schema.visit name).result) entries walk).Ends fun after =>
        Gives walk.state after.state
          (entries.flatMap (memberIds collconfig.metaField schema)) := by
  induction entries generalizing walk with
  | nil => exact ends_done (gives_nil rfl)
  | cons entry entries ih =>
    refine (ends_processField_ids collconfig schema entry walk).andThen ?_
    intro middle hfirst hthrown
    rw [flatMap_cons]
    exact hfirst.append (ih middle hthrown)

theorem ends_processMetadata_ids (walk : Walk) : (walk.processMetadata collconfig
      fun name => (schema.visit name).result).Ends fun after =>
        Gives walk.state after.state [] := by
  unfold Walk.processMetadata
  split
  · exact ends_done (gives_nil rfl)
  · refine ends_withValue fun indexer _ => ?_
    cases indexer with
    | none => exact fun _ => gives_nil rfl
    | some indexer =>
      have hindex := ends_index_ids collconfig indexer collconfig.metaField
        .null walk.state
      rw [idsGiven_null] at hindex
      exact hindex

/-- `Schema::process` keeps the first id term that the document gives. -/
theorem processSchema_ids (value : Json) (errors : IndexingErrors) (newFields : Bool) :
    (processSchema collconfig schema value errors newFields).Ends fun after =>
      after.state.errors.totalFailure = false →
        after.state.idterm = (value.members.flatMap
          (memberIds collconfig.metaField schema)).foldl keepFirst [] := by
  have hwalk : (schemaWalk collconfig schema value errors).Ends fun after =>
      Gives (.new errors) after.state (value.members.flatMap
        (memberIds collconfig.metaField schema)) := by
    refine (ends_forEach_ids collconfig schema value.members
      ⟨[], .new errors⟩).andThen fun middle hmiddle hmeta => ?_
    have hboth := hmiddle.append (ends_processMetadata_ids collconfig schema middle hmeta)
    rwa [append_nil] at hboth
  intro hthrown htotal
  obtain ⟨hends, run, hkeeps, hstate⟩ :=
    processSchema_spec collconfig schema value errors newFields
  have hgives : Gives (.new errors) run.state (value.members.flatMap
      (memberIds collconfig.metaField schema)) := by
    rw [hkeeps.state]
    exact hwalk (hends hthrown)
  rcases hstate with hstate | ⟨data, hstate⟩
  all_goals
    rw [hstate] at htotal ⊢
    exact (hgives htotal).2

end Ids

end Restpose.Indexing
