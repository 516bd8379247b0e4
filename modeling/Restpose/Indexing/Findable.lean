import Restpose.Schema.Queries
import Restpose.Indexing.Indexers

/-!
# Finding what was indexed

The query for a value looks for the term that the value was indexed with, where
both make the same text of it.
-/

namespace Restpose.Indexing

open Config List IndexingState

theorem IndexingState.errors_appendError_ne (state : IndexingState)
    (fieldname error : Bytes) :
    (state.appendError fieldname error).errors ≠ state.errors := by
  intro hsame
  have hlength := congrArg (fun errors => errors.errors.length) hsame
  simp [appendError, IndexingErrors.append] at hlength

/-- A text that passes the limit at indexing is limited in the same way in a
query. -/
theorem queryLimit_of_limitLength {limits : MaxLenFieldConfig} {value text : Bytes}
    (htext : limitLength limits.maxLength limits.tooLongAction value = some text) :
    queryLimit limits value = text := by
  simp only [limitLength] at htext
  rw [queryLimit]
  split_ifs at htext ⊢
  · cases haction : limits.tooLongAction with
    | error => simp [haction] at htext
    | _ => simpa [haction] using htext
  · exact Option.some.inj htext

variable [Libraries]

/-! ## Exact fields and id fields -/

namespace ExactString

variable {indexer : ExactStringIndexer} {fieldname : Bytes}

theorem doc_index (values : Json) (state : IndexingState) :
    (index indexer fieldname values state).doc =
      (indexItems indexer fieldname values.items state).1.doc := by
  simp only [index]
  split_ifs
  · exact doc_store _ _ _
  · rfl

theorem indexItems_append (front rest : List Json) (state : IndexingState) :
    indexItems indexer fieldname (front ++ rest) state =
      if (indexItems indexer fieldname front state).2 then
        indexItems indexer fieldname rest (indexItems indexer fieldname front state).1
      else indexItems indexer fieldname front state := by
  induction front generalizing state with
  | nil => rfl
  | cons item front ih =>
    simp only [cons_append, indexItems]
    cases item.getIdstyleValue with
    | error error => exact ih _
    | ok value =>
      by_cases hempty : value = []
      · simpa only [hempty, if_true] using ih _
      · simp only [hempty, if_false]
        cases if indexer.isid then validateDocId value else none with
        | some error => rfl
        | none => exact ih _

/-- The term that is added for a value, if one is. -/
inductive TermOf (indexer : ExactStringIndexer) (item : Json) :
    Bytes → Prop where
  | intro {value text : Bytes} (hvalue : item.getIdstyleValue = .ok value)
      (hne : value ≠ [])
      (htext : limitLength indexer.maxLength indexer.tooLongAction
        (termText indexer value) = some text) :
      TermOf indexer item (indexer.termPrefix ++ text)

theorem doc_indexItems_single (item : Json) (state : IndexingState) :
    (indexItems indexer fieldname [item] state).1.doc = state.doc ∨
      ∃ term, TermOf indexer item term ∧
        (indexItems indexer fieldname [item] state).1.doc =
          state.doc.addTerm term indexer.wdfinc := by
  simp only [indexItems]
  cases hvalue : item.getIdstyleValue with
  | error error => exact .inl rfl
  | ok value =>
    by_cases hempty : value = []
    · simp only [hempty, if_true]
      exact .inl rfl
    · simp only [hempty, if_false]
      cases if indexer.isid then validateDocId value else none with
      | some error => exact .inl rfl
      | none =>
        simp only [addValue]
        cases htext : limitLength indexer.maxLength indexer.tooLongAction
            (termText indexer value) with
        | none => exact .inl (doc_addSlotValue _ _ _)
        | some text =>
          refine .inr ⟨_, .intro hvalue hempty htext, ?_⟩
          have hadded : ((((state.fieldNonempty fieldname).addSlotValue
              indexer.slot value).addTerm (indexer.termPrefix ++ text)
                indexer.wdfinc)).doc =
              state.doc.addTerm (indexer.termPrefix ++ text) indexer.wdfinc :=
            congrArg (·.addTerm (indexer.termPrefix ++ text)
              indexer.wdfinc) (doc_addSlotValue _ _ _)
          split_ifs
          · rw [doc_setIdterm, hadded]
          · exact hadded

/-- The term that a value is indexed with is the one that the query for the
value looks for. -/
theorem query_of_termOf {config : FieldConfig} {item : Json} {term : Bytes}
    (hconfig : config.indexer = some (.exactString indexer))
    (hterm : TermOf indexer item term) :
    config.query (ascii "is") item = some (.ok ⟨[term]⟩) := by
  obtain ⟨hvalue, hne, htext⟩ := hterm
  have hnull := isNull_of_idstyle hvalue hne
  have harray := isArray_of_idstyle hvalue hnull
  have hquery := queryText_of_idstyle hvalue hnull
  cases config with
  | id limits storeField termPrefix
  | exact limits termPrefix storeField wdfinc lowercase =>
    obtain rfl := FieldIndexer.exactString.inj (Option.some.inj hconfig)
    refine congrArg some (queryTerms_single harray ?_)
    rw [hquery]
    exact congrArg (fun text => Except.ok [termPrefix ++ text])
      (queryLimit_of_limitLength htext)
  | text termPrefix storeField processor slot =>
    simp only [FieldConfig.indexer] at hconfig
    split_ifs at hconfig <;> cases hconfig
  | _ => cases hconfig

/-- Exact fields and id fields are findable by what was indexed: where a value
after others makes a difference to the document, this is a term, and the query
for the value looks for this term and no other. -/
theorem query_of_indexed {config : FieldConfig}
    (hconfig : config.indexer = some (.exactString indexer))
    (front : List Json) (value : Json) (state : IndexingState)
    (hadded : (index indexer fieldname (.array (front ++ [value])) state).doc ≠
      (index indexer fieldname (.array front) state).doc) :
    ∃ term,
      (index indexer fieldname (.array (front ++ [value])) state).doc =
        (index indexer fieldname (.array front) state).doc.addTerm term
          indexer.wdfinc ∧
      config.query (ascii "is") value = some (.ok ⟨[term]⟩) := by
  simp only [doc_index, Json.items, indexItems_append] at hadded ⊢
  by_cases hrun : (indexItems indexer fieldname front state).2
  · simp only [hrun, if_true] at hadded ⊢
    rcases doc_indexItems_single value
        (indexItems indexer fieldname front state).1 with hsame | hterm
    · exact absurd hsame hadded
    · obtain ⟨term, hterm, hdoc⟩ := hterm
      exact ⟨term, hdoc, query_of_termOf hconfig hterm⟩
  · simp [hrun] at hadded

/-- An exact field that is made lower case. -/
def wordField : FieldConfig :=
  .exact ⟨⟨[], badValueno⟩, 8, .truncate⟩ (ascii "w\t") [] 1 true

omit [Libraries] in
theorem query_of_indexed_word : ∃ _ : Libraries,
    ∃ indexer : ExactStringIndexer,
      wordField.indexer = some (.exactString indexer) ∧
      ∃ term,
        (index indexer (ascii "word")
            (.array [.string (ascii "red"), .string (ascii "blue")])
            (.new .none)).doc =
          (index indexer (ascii "word") (.array [.string (ascii "red")])
            (.new .none)).doc.addTerm term indexer.wdfinc ∧
        wordField.query (ascii "is") (.string (ascii "blue")) =
          some (.ok ⟨[term]⟩) := by
  refine ⟨Libraries.plain, _, rfl, ?_⟩
  refine @query_of_indexed Libraries.plain _ (ascii "word") wordField rfl
    [.string (ascii "red")] (.string (ascii "blue")) (.new .none) ?_
  intro hsame
  have hterms := congrArg (fun document => document.terms.contains
    (ascii "w\tblue")) hsame
  revert hterms
  let _ := Libraries.plain
  decide +kernel

end ExactString

/-! ## Category fields -/

section Category

variable {taxonomies : StdMap Taxonomy} {indexer : CategoryIndexer}
  {fieldname : Bytes} {value : Json} {text : Bytes}

omit [Libraries] in
/-- A text keeps within a limit by its length, or by being its own hash. -/
theorem limitLength_eq_self_iff (maxLength : ℕ) (action : TooLongAction) (text : Bytes) :
    limitLength maxLength action text = some text ↔ text.length ≤ maxLength ∨
        (action = .hash ∧ hashLongTerm text maxLength = text) := by
  by_cases hlong : maxLength < text.length
  · have hlength : ¬text.length ≤ maxLength := by omega
    cases action with
    | error => simp [limitLength, hlong]
    | hash => simp [limitLength, hlong, hlength]
    | truncate => simp [limitLength, hlong, take_eq_self_iff, hlength]
  · simp [limitLength, hlong, Nat.not_lt.mp hlong]

/-- The category of a text in the taxonomy of a field. -/
def categoryOf (taxonomies : StdMap Taxonomy) (indexer : CategoryIndexer)
    (text : Bytes) : Option Category :=
  taxonomies[indexer.taxonomyName]?.bind fun taxonomy => taxonomy.find text

omit [Libraries] in
theorem mem_foldl_addTerm (termPrefix : Bytes) (names : List Bytes)
    (state : IndexingState) (term : Bytes) :
    term ∈ (names.foldl (fun state name => state.addTerm (termPrefix ++ name) 0)
      state).doc.terms ↔
      term ∈ state.doc.terms ∨ ∃ name ∈ names, term = termPrefix ++ name := by
  induction names generalizing state with
  | nil => simp
  | cons name names ih =>
    rw [foldl_cons, ih]
    simp only [addTerm, Xapian.Document.mem_addTerm, exists_mem_cons_iff]
    tauto

omit [Libraries] in
theorem mem_addAncestors (state : IndexingState) (term : Bytes) :
    term ∈ (addAncestors taxonomies[indexer.taxonomyName]? indexer.termPrefix
        text state).doc.terms ↔
      term ∈ state.doc.terms ∨ ∃ category,
        categoryOf taxonomies indexer text = some category ∧
          ∃ ancestor ∈ category.ancestors, term = indexer.termPrefix ++ ascii "A" ++
            ancestor := by
  rw [addAncestors, ← categoryOf]
  cases categoryOf taxonomies indexer text with
  | none => simp
  | some category =>
    simp only [mem_foldl_addTerm, Finset.mem_sort, Option.some.injEq, exists_eq_left']

theorem mem_indexCategory {kept : Bytes} (hvalue : value.getIdstyleValue = .ok text)
    (hne : text ≠ [])
    (hkept : limitLength indexer.maxLength indexer.tooLongAction text = some kept)
    (state : IndexingState) (term : Bytes) :
    term ∈ (indexCategory taxonomies indexer fieldname (.array [value]) state).doc.terms ↔
      term ∈ state.doc.terms ∨ term = indexer.termPrefix ++ ascii "C" ++ kept ∨
        ∃ category, categoryOf taxonomies indexer kept = some category ∧
          ∃ ancestor ∈ category.ancestors, term = indexer.termPrefix ++ ascii "A" ++
            ancestor := by
  simp only [indexCategory, indexEach, Json.items, foldl_cons,
    foldl_nil, doc_store, hvalue, hne, if_false, hkept]
  rw [mem_addAncestors, addTerm, Xapian.Document.mem_addTerm, or_comm (a := term = _),
    or_assoc]
  simp only [fieldNonempty, setPresence, doc_addSlotValue]

/-- Without an error the value has a text, and the text passes the limit. -/
theorem accepted_indexCategory {state : IndexingState}
    (haccepted : (indexCategory taxonomies indexer fieldname (.array [value])
      state).errors = state.errors) :
    ∃ text, value.getIdstyleValue = .ok text ∧ (text = [] ∨
      ∃ kept, limitLength indexer.maxLength indexer.tooLongAction text = some kept) := by
  simp only [indexCategory, indexEach, Json.items, foldl_cons, foldl_nil,
    errors_store] at haccepted
  cases hvalue : value.getIdstyleValue with
  | error error =>
    simp only [hvalue] at haccepted
    exact absurd haccepted (errors_appendError_ne (state.fieldNonempty fieldname) _ _)
  | ok text =>
    refine ⟨text, rfl, ?_⟩
    by_cases hempty : text = []
    · exact .inl hempty
    · simp only [hvalue, hempty, if_false] at haccepted
      cases hkept : limitLength indexer.maxLength indexer.tooLongAction text with
      | none =>
        simp only [hkept] at haccepted
        refine absurd (haccepted.trans ?_) (errors_appendError_ne _ _ _)
        exact (errors_addSlotValue _ _ _).symm
      | some kept => exact .inr ⟨kept, rfl⟩

/-- A document is found by a value of a category field: the query for the value
looks for the term of its category, and the document gets the terms that the
queries for the descendants of its ancestors look for. -/
structure Findable (taxonomies : StdMap Taxonomy) (config : FieldConfig)
    (indexer : CategoryIndexer) (value : Json) : Prop where
  category : ∃ terms,
    config.query (ascii "is") value = some (.ok ⟨terms⟩) ∧
    ∀ fieldname state term, term ∉ state.doc.terms →
      term ∈ (indexCategory taxonomies indexer fieldname (.array [value])
        state).doc.terms →
      indexer.termPrefix ++ ascii "C" <+: term → term ∈ terms
  ancestors : ∀ text category, value.getIdstyleValue = .ok text →
    categoryOf taxonomies indexer text = some category →
    ∀ ancestor ∈ category.ancestors, ∃ term,
      config.query (ascii "is_descendant") (.string ancestor) =
        some (.ok ⟨[term]⟩) ∧
      ∀ fieldname state,
        term ∈ (indexCategory taxonomies indexer fieldname (.array [value])
          state).doc.terms

/-- The text of a value is the text of its term.  The empty text has no term,
and must not be a category with ancestors. -/
def KeepsText (taxonomies : StdMap Taxonomy) (indexer : CategoryIndexer)
    (text : Bytes) : Prop :=
  if text = [] then
    ∀ category, categoryOf taxonomies indexer text = some category →
      category.ancestors = ∅
  else
    text.length ≤ indexer.maxLength ∨
      (indexer.tooLongAction = .hash ∧
        hashLongTerm text indexer.maxLength = text)

variable {config : FieldConfig}

theorem query_of_category (hconfig : config.indexer = some (.category indexer))
    (qtype : Bytes) (value : Json) :
    config.query qtype value = some (categoryQuery indexer.termPrefix qtype value) := by
  cases config with
  | category limits termPrefix taxonomyName storeField =>
    obtain rfl := FieldIndexer.category.inj (Option.some.inj hconfig)
    rfl
  | text termPrefix storeField processor slot =>
    simp only [FieldConfig.indexer] at hconfig
    split_ifs at hconfig <;> cases hconfig
  | _ => cases hconfig

theorem categoryQuery_single {termPrefix qtype : Bytes} (code : String)
    (hcode : categoryCodes qtype = some [code])
    (hvalue : value.getIdstyleValue = .ok text) (hnull : value.isNull = false) :
    categoryQuery termPrefix qtype value = .ok ⟨[termPrefix ++ ascii code ++ text]⟩ := by
  simp only [categoryQuery, hcode]
  refine queryTerms_single (isArray_of_idstyle hvalue hnull) ?_
  rw [queryText_of_idstyle hvalue hnull]
  rfl

/-- The document gets the terms for the ancestors of the category that the text
of a term names. -/
theorem ancestors_findable (hconfig : config.indexer = some (.category indexer))
    (hvalue : value.getIdstyleValue = .ok text) (hne : text ≠ [])
    (hkept : limitLength indexer.maxLength indexer.tooLongAction text = some text)
    {category : Category} (hcategory : categoryOf taxonomies indexer text = some category)
    {ancestor : Bytes} (hancestor : ancestor ∈ category.ancestors) :
    ∃ term, config.query (ascii "is_descendant") (.string ancestor) =
      some (.ok ⟨[term]⟩) ∧
      ∀ fieldname state, term ∈
        (indexCategory taxonomies indexer fieldname (.array [value])
          state).doc.terms := by
  refine ⟨indexer.termPrefix ++ ascii "A" ++ ancestor, ?_, ?_⟩
  · rw [query_of_category hconfig, categoryQuery_single "A" (by decide) rfl rfl]
  · intro fieldname state
    rw [mem_indexCategory hvalue hne hkept]
    exact .inr (.inr ⟨category, hcategory, ancestor, hancestor, rfl⟩)

/-- The query for a value with a text looks for the term of the text. -/
theorem category_findable (hconfig : config.indexer = some (.category indexer))
    (hvalue : value.getIdstyleValue = .ok text) (hne : text ≠ [])
    (hkept : limitLength indexer.maxLength indexer.tooLongAction text = some text) :
    ∃ terms, config.query (ascii "is") value = some (.ok ⟨terms⟩) ∧
      ∀ fieldname state term, term ∉ state.doc.terms →
        term ∈ (indexCategory taxonomies indexer fieldname (.array [value])
          state).doc.terms →
        indexer.termPrefix ++ ascii "C" <+: term → term ∈ terms := by
  refine ⟨[indexer.termPrefix ++ ascii "C" ++ text], ?_, ?_⟩
  · rw [query_of_category hconfig, categoryQuery_single "C" (by decide) hvalue
      (isNull_of_idstyle hvalue hne)]
  · intro fieldname state term hbefore hafter hbegins
    rw [mem_indexCategory hvalue hne hkept] at hafter
    rcases hafter with hold | rfl | hancestor
    · exact absurd hold hbefore
    · exact mem_singleton_self _
    · -- A term for an ancestor has another code.
      obtain ⟨category, -, ancestor, -, rfl⟩ := hancestor
      rw [append_assoc, prefix_append_right_inj] at hbegins
      exact absurd hbegins (by simp [ascii])

/-- Where the query finds the term of a value, the value is not changed by the
limit. -/
theorem Findable.kept_eq {kept : Bytes}
    (hfindable : Findable taxonomies config indexer value)
    (hconfig : config.indexer = some (.category indexer))
    (hvalue : value.getIdstyleValue = .ok text) (hne : text ≠ [])
    (hkept : limitLength indexer.maxLength indexer.tooLongAction text = some kept) :
    kept = text := by
  obtain ⟨terms, hquery, hfound⟩ := hfindable.category
  rw [query_of_category hconfig, categoryQuery_single "C" (by decide) hvalue
    (isNull_of_idstyle hvalue hne)] at hquery
  have hterm := hfound [] (.new .none)
    (indexer.termPrefix ++ ascii "C" ++ kept) (by simp [IndexingState.new])
    ((mem_indexCategory hvalue hne hkept _ _).mpr (.inr (.inl rfl)))
    (prefix_append _ _)
  obtain rfl := congrArg Query.terms (Except.ok.inj (Option.some.inj hquery))
  exact append_cancel_left (mem_singleton.mp hterm)

theorem doc_indexCategory_empty (hvalue : value.getIdstyleValue = .ok [])
    (state : IndexingState) :
    (indexCategory taxonomies indexer fieldname (.array [value]) state).doc =
      state.doc := by
  simp only [indexCategory, indexEach, Json.items, foldl_cons,
    foldl_nil, doc_store, hvalue, if_true]
  rfl

theorem findable_empty_iff (hconfig : config.indexer = some (.category indexer))
    (hvalue : value.getIdstyleValue = .ok []) :
    Findable taxonomies config indexer value ↔
      ∀ category, categoryOf taxonomies indexer [] = some category →
        category.ancestors = ∅ := by
  constructor
  · intro hfindable category hcategory
    by_contra hne
    obtain ⟨ancestor, hancestor⟩ := Finset.nonempty_iff_ne_empty.mpr hne
    obtain ⟨term, -, hterm⟩ :=
      hfindable.ancestors [] category hvalue hcategory ancestor hancestor
    have hnew := hterm [] (.new .none)
    rw [doc_indexCategory_empty hvalue] at hnew
    simp [new] at hnew
  · intro hnone
    refine ⟨?_, ?_⟩
    · have hquery : ∃ terms, categoryQuery indexer.termPrefix (ascii "is") value =
          .ok ⟨terms⟩ := by
        by_cases hnull : value.isNull
        · cases value with
          | null => exact ⟨[], rfl⟩
          | _ => cases hnull
        · exact ⟨_, categoryQuery_single "C" (by decide) hvalue (by simpa using hnull)⟩
      obtain ⟨terms, hquery⟩ := hquery
      refine ⟨terms, by rw [query_of_category hconfig, hquery], ?_⟩
      intro fieldname state term hbefore hafter
      rw [doc_indexCategory_empty hvalue] at hafter
      exact absurd hafter hbefore
    · intro text category htext hcategory ancestor hancestor
      obtain rfl := Except.ok.inj (hvalue.symm.trans htext)
      rw [hnone category hcategory] at hancestor
      exact absurd hancestor (Finset.notMem_empty _)

/-- A value that is indexed without an error can be found if and only if the
text of its term is its own text. -/
theorem findable_iff (hconfig : config.indexer = some (.category indexer))
    {state : IndexingState}
    (haccepted : (indexCategory taxonomies indexer fieldname (.array [value])
      state).errors = state.errors) :
    Findable taxonomies config indexer value ↔
      ∀ text, value.getIdstyleValue = .ok text →
        KeepsText taxonomies indexer text := by
  obtain ⟨text, hvalue, hlimit⟩ := accepted_indexCategory haccepted
  have hform : (∀ text, value.getIdstyleValue = .ok text →
      KeepsText taxonomies indexer text) ↔
        KeepsText taxonomies indexer text := by
    simp [hvalue]
  rw [hform, KeepsText]
  by_cases hempty : text = []
  · subst hempty
    rw [if_pos rfl, findable_empty_iff hconfig hvalue]
  · obtain ⟨kept, hkept⟩ := hlimit.resolve_left hempty
    rw [if_neg hempty, ← limitLength_eq_self_iff]
    constructor
    · intro hfindable
      have heq := hfindable.kept_eq hconfig hvalue hempty hkept
      rw [hkept, heq]
    · intro hself
      refine ⟨category_findable hconfig hvalue hempty hself, ?_⟩
      intro other category hother hcategory ancestor hancestor
      obtain rfl := Except.ok.inj (hvalue.symm.trans hother)
      exact ancestors_findable hconfig hvalue hempty hself hcategory hancestor

/-- The category field of the default configuration. -/
def categoryField : FieldConfig :=
  .category ⟨⟨ascii "c", SlotName.hashSlot (ascii "c")⟩, 32, .hash⟩
    (ascii "c\t") (ascii "cat") (ascii "cat")

def categoryFieldIndexer : CategoryIndexer :=
  ⟨ascii "c\t", ascii "cat", ascii "cat", 32, .hash,
    SlotName.hashSlot (ascii "c")⟩

/-- Taxonomies in which the category `short` is below another. -/
def shortTaxonomies : StdMap Taxonomy :=
  (∅ : StdMap Taxonomy).insert (ascii "cat")
    (Edit.addParent ⟨.empty, ∅⟩ (ascii "short")
      (ascii "top")).state.taxonomy

omit [Libraries] in
theorem findable_iff_short : ∃ _ : Libraries,
    (categoryOf shortTaxonomies categoryFieldIndexer (ascii "short")).map
        Category.ancestors = some {ascii "top"} ∧
      Findable shortTaxonomies categoryField categoryFieldIndexer
        (.string (ascii "short")) := by
  refine ⟨Libraries.plain, ?_⟩
  let _ := Libraries.plain
  obtain ⟨hancestors, haccepted⟩ :
      (categoryOf shortTaxonomies categoryFieldIndexer (ascii "short")).map
          Category.ancestors = some {ascii "top"} ∧
        (indexCategory shortTaxonomies categoryFieldIndexer (ascii "cat")
          (.array [.string (ascii "short")]) (.new .none)).errors = .none := by
    decide +kernel
  refine ⟨hancestors, (findable_iff rfl haccepted).mpr ?_⟩
  intro text htext
  cases htext
  exact .inl (by decide)

omit [Libraries] in
/-- A category with a name of 33 bytes is indexed by its hash, and the query
looks for the name. -/
theorem findable_fails_long : ∃ _ : Libraries,
    categoryField.indexer = some (.category categoryFieldIndexer) ∧
    (indexCategory ∅ categoryFieldIndexer (ascii "cat")
      (.array [.string (List.replicate 33 97)]) (.new .none)).errors = .none ∧
    ¬Findable ∅ categoryField categoryFieldIndexer
      (.string (List.replicate 33 97)) := by
  refine ⟨Libraries.plain, rfl, rfl, ?_⟩
  intro hfindable
  let _ := Libraries.plain
  have hkept := hfindable.kept_eq rfl rfl (by decide) rfl
  exact absurd hkept (by decide +kernel)

end Category

end Restpose.Indexing
