import Restpose.Schema.Queries
import Restpose.Indexing.Presence

/-!
# Searching for existing fields

The metadata field makes terms of the record of the fields of a document.  The
query for any field looks for the marks of the fields, so it does not find a
document all of whose fields were recorded without one.
-/

namespace Restpose.Indexing

open Config List IndexingState Attempt

section Queries

variable [Libraries] {Pipe Categoriser : Type}
  (collconfig : CollectionConfig Pipe Categoriser)

/-! ## The terms of the metadata field -/

/-- The terms that `MetaIndexer` makes for a record. -/
def metaTerms (termPrefix : Bytes) (slot : ℕ)
    (presence : StdMap FieldPresence) : StdMap Xapian.TermEntry :=
  (indexMetadata collconfig.idField collconfig.typeField termPrefix slot
    { IndexingState.new .none with presence }).doc.terms

/-- The id field and the type field are left out. -/
def Special (name : Bytes) : Prop :=
  name = collconfig.idField ∨ name = collconfig.typeField

omit [Libraries] in
theorem mem_foldl_addEntry (termPrefix : Bytes) (slot : ℕ) (entries : List Bytes)
    (state : IndexingState) (term : Bytes) :
    term ∈ (entries.foldl (fun state entry => addEntry termPrefix slot entry state)
        state).doc.terms ↔
      term ∈ state.doc.terms ∨ ∃ entry ∈ entries, term = termPrefix ++ entry := by
  induction entries generalizing state with
  | nil => simp
  | cons entry entries ih =>
    have hfirst : (addEntry termPrefix slot entry state).doc =
        state.doc.addTerm (termPrefix ++ entry) 0 := by
      unfold addEntry
      dsimp only
      split_ifs
      · exact doc_addSlotValue _ slot entry
      · rfl
    rw [foldl_cons, ih, hfirst, Xapian.Document.mem_addTerm]
    simp only [exists_mem_cons_iff]
    tauto

omit [Libraries] in
theorem mem_presenceCodes {flags : FieldPresence} {code : String} :
    code ∈ presenceCodes flags ↔ code = "F" ∨ (code = "N" ∧ flags.nonempty = true) ∨
      (code = "M" ∧ flags.empty = true) ∨
      (code = "E" ∧ flags.errors = true) := by
  obtain ⟨nonempty, empty, errors⟩ := flags
  cases nonempty <;> cases empty <;> cases errors <;>
    simp [presenceCodes]

omit [Libraries] in
theorem mem_indexMetadata (termPrefix : Bytes) (slot : ℕ) (state : IndexingState)
    (term : Bytes) :
    term ∈ (indexMetadata collconfig.idField collconfig.typeField termPrefix slot
      state).doc.terms ↔
      term ∈ state.doc.terms ∨ term ∈ metaTerms collconfig termPrefix slot
        state.presence := by
  rw [metaTerms, indexMetadata, indexMetadata, mem_foldl_addEntry, mem_foldl_addEntry]
  simp [new]

section Terms

variable {termPrefix : Bytes} {slot : ℕ}
  {presence : StdMap FieldPresence}

omit [Libraries]

/-- The terms for a field, and those for any field. -/
theorem mem_metaTerms {entry : Bytes} :
    termPrefix ++ entry ∈ metaTerms collconfig termPrefix slot presence ↔
      (∃ name flags, presence[name]? = some flags ∧ ¬Special collconfig name ∧
        ∃ code ∈ presenceCodes flags, entry = ascii code ++ name) ∨
      ∃ name flags, presence[name]? = some flags ∧ ¬Special collconfig name ∧
        ((entry = ascii "N" ∧ flags.nonempty = true) ∨
          (entry = ascii "M" ∧ flags.empty = true) ∨
          (entry = ascii "E" ∧ flags.errors = true)) := by
  -- The fields that are not left out, as a list.
  have hfields : ∀ field : Bytes × FieldPresence,
    field ∈ presence.toList.filter (fun field =>
          !(field.1 == collconfig.idField || field.1 == collconfig.typeField)) ↔
        presence[field.1]? = some field.2 ∧ ¬Special collconfig field.1 := by
    intro field
    rw [mem_filter, Std.ExtTreeMap.mem_toList_iff_getElem?_eq_some]
    simp [Special]
  rw [metaTerms, indexMetadata, mem_foldl_addEntry]
  generalize presence.toList.filter (fun field =>
    !(field.1 == collconfig.idField || field.1 == collconfig.typeField)) =
      fields at hfields
  have hany : ∀ (flag : FieldPresence → Bool) (code : Bytes),
      entry ∈ (if fields.any (fun field => flag field.2) then [code] else []) ↔
        entry = code ∧ ∃ field ∈ fields, flag field.2 = true := by
    intro flag code
    by_cases hflag : ∃ field ∈ fields, flag field.2 = true
    · rw [if_pos (any_eq_true.mpr hflag), mem_singleton, and_iff_left hflag]
    · rw [if_neg (mt any_eq_true.mp hflag)]
      simp only [not_mem_nil, hflag, and_false]
  have hnew : termPrefix ++
      entry ∉ ({ new .none with presence } : IndexingState).doc.terms := by
    simp [new]
  simp only [hnew, false_or, append_cancel_left_eq, exists_eq_right', mem_append, hany,
    or_assoc]
  refine or_congr ?_ ?_
  · simp only [mem_flatMap, mem_map, Prod.exists, hfields, and_assoc,
      eq_comm (a := entry)]
  · simp only [Prod.exists, hfields]
    constructor
    · rintro (⟨heq, name, flags, ⟨hflags, hname⟩, hset⟩ |
        ⟨heq, name, flags, ⟨hflags, hname⟩, hset⟩ |
        ⟨heq, name, flags, ⟨hflags, hname⟩, hset⟩)
      · exact ⟨name, flags, hflags, hname, .inl ⟨heq, hset⟩⟩
      · exact ⟨name, flags, hflags, hname, .inr (.inl ⟨heq, hset⟩)⟩
      · exact ⟨name, flags, hflags, hname, .inr (.inr ⟨heq, hset⟩)⟩
    · rintro ⟨name, flags, hflags, hname, ⟨heq, hset⟩ | ⟨heq, hset⟩ | ⟨heq, hset⟩⟩
      · exact .inl ⟨heq, name, flags, ⟨hflags, hname⟩, hset⟩
      · exact .inr (.inl ⟨heq, name, flags, ⟨hflags, hname⟩, hset⟩)
      · exact .inr (.inr ⟨heq, name, flags, ⟨hflags, hname⟩, hset⟩)

theorem mem_metaTerms_exists {name : Bytes} : termPrefix ++ ascii "F" ++ name ∈
        metaTerms collconfig termPrefix slot presence ↔
      ¬Special collconfig name ∧ ∃ flags, presence[name]? = some flags := by
  rw [append_assoc, mem_metaTerms]
  constructor
  · rintro (⟨other, flags, hflags, hother, code, hcode, heq⟩ |
      ⟨other, flags, hflags, hother, hentry⟩)
    · rcases mem_presenceCodes.mp hcode with rfl | ⟨rfl, -⟩ | ⟨rfl, -⟩ | ⟨rfl, -⟩
      · obtain rfl := append_cancel_left heq
        exact ⟨hother, flags, hflags⟩
      all_goals simp [ascii] at heq
    · simp [ascii] at hentry
  · rintro ⟨hname, flags, hflags⟩
    exact .inl ⟨name, flags, hflags, hname, "F", mem_presenceCodes.mpr (.inl rfl), rfl⟩

/-- The terms for any field that is empty or not empty. -/
theorem mem_metaTerms_marked :
    termPrefix ++ ascii "N" ∈ metaTerms collconfig termPrefix slot presence ∨
        termPrefix ++ ascii "M" ∈ metaTerms collconfig termPrefix slot presence ↔
      ∃ name flags, presence[name]? = some flags ∧ ¬Special collconfig name ∧
        (flags.nonempty = true ∨ flags.empty = true) := by
  rw [mem_metaTerms, mem_metaTerms]
  constructor
  · rintro ((⟨name, flags, hflags, hname, code, hcode, heq⟩ |
        ⟨name, flags, hflags, hname, hentry⟩) |
      (⟨name, flags, hflags, hname, code, hcode, heq⟩
        | ⟨name, flags, hflags, hname, hentry⟩))
    all_goals refine ⟨name, flags, hflags, hname, ?_⟩
    -- A field with the empty name has the term for any field.
    · rcases mem_presenceCodes.mp hcode with rfl | ⟨rfl, hset⟩ | ⟨rfl, hset⟩ | ⟨rfl, -⟩
      · simp [ascii] at heq
      · exact .inl hset
      · exact .inr hset
      · simp [ascii] at heq
    · simp [ascii] at hentry
      exact .inl hentry
    · rcases mem_presenceCodes.mp hcode with rfl | ⟨rfl, hset⟩ | ⟨rfl, hset⟩ | ⟨rfl, -⟩
      · simp [ascii] at heq
      · exact .inl hset
      · exact .inr hset
      · simp [ascii] at heq
    · simp [ascii] at hentry
      exact .inr hentry
  · rintro ⟨name, flags, hflags, hname, hset | hset⟩
    · exact .inl (.inr ⟨name, flags, hflags, hname, .inl ⟨rfl, hset⟩⟩)
    · exact .inr (.inr ⟨name, flags, hflags, hname, .inr (.inl ⟨rfl, hset⟩)⟩)

end Terms

/-! ## The query for any field -/

/-- A query for existing fields finds one of the terms. -/
def Finds (termPrefix : Bytes) (terms : StdMap Xapian.TermEntry)
    (value : Json) : Prop :=
  ∃ query, metaQuery termPrefix (ascii "exists") value = .ok query ∧
    ∃ term ∈ query.terms, term ∈ terms

theorem finds_field_iff {termPrefix name : Bytes} {slot : ℕ}
    {presence : StdMap FieldPresence} :
    Finds termPrefix (metaTerms collconfig termPrefix slot presence) (.string name) ↔
      ¬Special collconfig name ∧ ∃ flags, presence[name]? = some flags := by
  have hquery : metaQuery termPrefix (ascii "exists") (.string name) =
      .ok ⟨[termPrefix ++ ascii "F" ++ name]⟩ :=
    rfl
  simp only [Finds, hquery, Except.ok.injEq, exists_eq_left', mem_singleton,
    exists_eq_left]
  exact mem_metaTerms_exists collconfig

theorem finds_null_item_iff {termPrefix : Bytes} {slot : ℕ}
    {presence : StdMap FieldPresence} :
    Finds termPrefix (metaTerms collconfig termPrefix slot presence) (.array [.null]) ↔
      ∃ name flags, presence[name]? = some flags ∧ ¬Special collconfig name ∧
        (flags.nonempty = true ∨ flags.empty = true) := by
  have hquery : metaQuery termPrefix (ascii "exists") (.array [.null]) =
      .ok ⟨[termPrefix ++ ascii "N", termPrefix ++ ascii "M"]⟩ :=
    rfl
  simp only [Finds, hquery, Except.ok.injEq, exists_eq_left', exists_mem_cons_iff,
    not_mem_nil, false_and, exists_false, or_false]
  exact mem_metaTerms_marked collconfig

theorem not_finds_null {termPrefix : Bytes} {terms : StdMap Xapian.TermEntry} :
    ¬Finds termPrefix terms .null := by
  have hquery : metaQuery termPrefix (ascii "exists") .null = .ok ⟨[]⟩ :=
    rfl
  simp [Finds, hquery]

section Documents

variable {schema : Schema} {termPrefix : Bytes} {slot : ℕ}
  {value : Json} {errors : IndexingErrors} {newFields : Bool}
  (hmeta : (schema.visit collconfig.metaField).result =
    .ok (some (.metadata termPrefix slot)))
  (hdone : (process collconfig schema value errors newFields).thrown = none)

include hmeta hdone

/-- The query for any field finds a document in which a field is marked. -/
theorem finds_null_item_process_iff :
    Finds termPrefix (metaTerms collconfig termPrefix slot
        (process collconfig schema value errors newFields).state.state.presence)
          (.array [.null]) ↔
      ∃ entry ∈ value.members, ¬Special collconfig entry.1 ∧
        MemberMarks collconfig schema entry := by
  have hnotes := (notes_process collconfig hmeta hdone).marks
  have hnew : ∀ name, ¬(new errors).Marked name := by
    simp [IndexingState.Marked, new]
  simp only [hnew, false_or] at hnotes
  rw [finds_null_item_iff]
  constructor
  · rintro ⟨name, flags, hflags, hname, hset⟩
    obtain ⟨entry, hentry, rfl, hmarks⟩ := (hnotes name).mp ⟨flags, hflags, hset⟩
    exact ⟨entry, hentry, hname, hmarks⟩
  · rintro ⟨entry, hentry, hname, hmarks⟩
    obtain ⟨flags, hflags, hset⟩ := (hnotes entry.1).mpr ⟨entry, hentry, rfl, hmarks⟩
    exact ⟨entry.1, flags, hflags, hname, hset⟩

/-- The query for some field finds a document in which a field is recorded. -/
theorem exists_finds_field_iff :
    (∃ name, Finds termPrefix (metaTerms collconfig termPrefix slot
        (process collconfig schema value errors newFields).state.state.presence)
          (.string name)) ↔
      ∃ entry ∈ value.members, ¬Special collconfig entry.1 ∧
        (MemberFails collconfig schema entry ∨
          MemberMarks collconfig schema entry) := by
  have hnotes := (notes_process collconfig hmeta hdone).records
  have hnew : ∀ name, ¬(new errors).Recorded name := by
    simp [IndexingState.Recorded, new]
  simp only [hnew, false_or] at hnotes
  simp only [finds_field_iff]
  constructor
  · rintro ⟨name, hname, hflags⟩
    obtain ⟨entry, hentry, rfl, hrecords⟩ := (hnotes name).mp hflags
    exact ⟨entry, hentry, hname, hrecords⟩
  · rintro ⟨entry, hentry, hname, hrecords⟩
    exact ⟨entry.1, hname, (hnotes entry.1).mpr ⟨entry, hentry, rfl, hrecords⟩⟩

/-- The document has the terms that `MetaIndexer` makes for its record. -/
theorem metaTerms_subset (hname : collconfig.metaField ≠ []) {term : Bytes}
    (hterm : term ∈ metaTerms collconfig termPrefix slot
      (process collconfig schema value errors newFields).state.state.presence) :
    term ∈ (process collconfig schema value errors newFields).state.state.doc.terms := by
  obtain ⟨hwalk, hpresence, hterms⟩ := state_process collconfig hdone
  have hends : (documentWalk collconfig schema value errors).Ends fun walk =>
      ∀ term ∈ metaTerms collconfig termPrefix slot walk.state.presence,
        term ∈ walk.state.doc.terms := by
    have hloop : (forEach (Walk.processField collconfig
        fun name => (schema.visit name).result) value.members
          ⟨[], .new errors⟩).Ends fun _ => True := fun _ => trivial
    refine ends_withValue fun _ _ => hloop.andThen fun walk _ _ => ?_
    intro term hterm
    rw [presence_processMetadata collconfig hmeta] at hterm
    simp only [Walk.processMetadata, hname, if_false, Walk.withIndexer, hmeta, withValue]
    exact (mem_indexMetadata collconfig termPrefix slot walk.state term).mpr (.inr hterm)
  rw [hterms]
  exact hends hwalk term (hpresence ▸ hterm)

/-- The metadata terms of a document are such that the query for any field
finds it where the query for some field does, if and only if a document with a
field of errors only has a field that is marked as well.  With `null` in place
of an array, the query finds nothing. -/
theorem finds_any_iff (hname : (collconfig.metaField : Bytes) ≠ []) :
    let terms := metaTerms collconfig termPrefix slot
      (process collconfig schema value errors newFields).state.state.presence
    (∀ term ∈ terms, term ∈ (process collconfig schema value errors
      newFields).state.state.doc.terms) ∧
    ((Finds termPrefix terms (.array [.null]) ↔
        ∃ name, Finds termPrefix terms (.string name)) ↔
      ((∃ entry ∈ value.members, ¬Special collconfig entry.1 ∧
          MemberFails collconfig schema entry) →
        ∃ entry ∈ value.members, ¬Special collconfig entry.1 ∧
          MemberMarks collconfig schema entry)) ∧
    ((Finds termPrefix terms .null ↔
        ∃ name, Finds termPrefix terms (.string name)) ↔
      ∀ entry ∈ value.members, ¬Special collconfig entry.1 →
        ¬MemberFails collconfig schema entry ∧
          ¬MemberMarks collconfig schema entry) := by
  intro terms
  refine ⟨fun term hterm => metaTerms_subset collconfig hmeta hdone hname
    hterm, ?_, ?_⟩
  · rw [finds_null_item_process_iff collconfig hmeta hdone,
      exists_finds_field_iff collconfig hmeta hdone]
    constructor
    · rintro hiff ⟨entry, hentry, hspecial, hfails⟩
      exact hiff.mpr ⟨entry, hentry, hspecial, .inl hfails⟩
    · intro hmarked
      constructor
      · rintro ⟨entry, hentry, hspecial, hmarks⟩
        exact ⟨entry, hentry, hspecial, .inr hmarks⟩
      · rintro ⟨entry, hentry, hspecial, hfails | hmarks⟩
        · exact hmarked ⟨entry, hentry, hspecial, hfails⟩
        · exact ⟨entry, hentry, hspecial, hmarks⟩
  · rw [iff_false_left not_finds_null,
      exists_finds_field_iff collconfig hmeta hdone]
    constructor
    · intro hnone entry hentry hspecial
      exact ⟨fun hfails => hnone ⟨entry, hentry, hspecial, .inl hfails⟩,
        fun hmarks => hnone ⟨entry, hentry, hspecial, .inr hmarks⟩⟩
    · rintro hnone ⟨entry, hentry, hspecial, hfails | hmarks⟩
      · exact (hnone entry hentry hspecial).1 hfails
      · exact (hnone entry hentry hspecial).2 hmarks

end Documents

end Queries

def taggedConfig : CollectionConfig Empty Empty :=
  { CollectionConfig.blank (ascii "books") with
    idField := ascii "id", typeField := ascii "type",
    metaField := ascii "_meta" }

/-- The metadata field and the tag field of the default schema. -/
def taggedSchema : Schema :=
  ((Schema.new (ascii "book")).set (ascii "_meta")
      (some (.metadata (ascii "#\t") ⟨[], 0⟩))).set (ascii "tag")
    (some (.exact ⟨⟨ascii "g", SlotName.hashSlot (ascii "g")⟩, 100, .hash⟩
      (ascii "g\t") (ascii "tag") 0 false))

def redDocument : Json :=
  .object [(ascii "tag", .string (ascii "red"))]

theorem visit_taggedSchema : (taggedSchema.visit taggedConfig.metaField).result =
      .ok (some (.metadata (ascii "#\t") 0)) := by
  decide +kernel

theorem finds_any_iff_red : ∃ _ : Libraries,
    let terms := metaTerms taggedConfig (ascii "#\t") 0
      (process taggedConfig taggedSchema redDocument .none
        false).state.state.presence
    (Finds (ascii "#\t") terms (.array [.null]) ↔
        ∃ name, Finds (ascii "#\t") terms (.string name)) ↔
      ((∃ entry ∈ redDocument.members, ¬Special taggedConfig entry.1 ∧
          MemberFails taggedConfig taggedSchema entry) →
        ∃ entry ∈ redDocument.members, ¬Special taggedConfig entry.1 ∧
          MemberMarks taggedConfig taggedSchema entry) := by
  have hdone : let _ := Libraries.plain
      (process taggedConfig taggedSchema redDocument .none false).thrown =
        none := by
    decide +kernel
  exact ⟨Libraries.plain, (@finds_any_iff Libraries.plain Empty Empty
    taggedConfig taggedSchema (ascii "#\t") 0 redDocument .none false
    visit_taggedSchema hdone (by decide)).2.1⟩

/-- A document whose tag is a boolean has the field `tag`, and is not found by
the query for any field. -/
theorem finds_field_not_any : ∃ _ : Libraries,
    let processed := process taggedConfig taggedSchema
      (.object [(ascii "tag", .bool true)]) .none false
    let terms := metaTerms taggedConfig (ascii "#\t") 0
      processed.state.state.presence
    processed.thrown = none ∧
      Finds (ascii "#\t") terms (.string (ascii "tag")) ∧
      ¬Finds (ascii "#\t") terms (.array [.null]) := by
  refine ⟨Libraries.plain, ?_⟩
  let _ := Libraries.plain
  have hterms :
      let terms := metaTerms taggedConfig (ascii "#\t") 0
        (process taggedConfig taggedSchema
          (.object [(ascii "tag", .bool true)]) .none
          false).state.state.presence
      ascii "#\tFtag" ∈ terms ∧ ascii "#\tN" ∉ terms ∧
        ascii "#\tM" ∉ terms := by
    decide +kernel
  refine ⟨by decide +kernel, ?_, ?_⟩
  · exact ⟨⟨[ascii "#\tFtag"]⟩, rfl, _, List.mem_singleton_self _, hterms.1⟩
  · rintro ⟨query, hquery, term, hterm, hmem⟩
    obtain rfl : ⟨[ascii "#\tN", ascii "#\tM"]⟩ = query :=
      Except.ok.inj hquery
    rcases List.mem_pair.mp hterm with rfl | rfl
    · exact hterms.2.1 hmem
    · exact hterms.2.2 hmem

end Restpose.Indexing
