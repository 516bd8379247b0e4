import Restpose.Schema.FieldRoundTrip

/-!
# Schemas that are read back

A schema is read back from its JSON, and is merged into an empty schema, if all
its fields are.
-/

namespace Restpose.Config

open List Std.ExtTreeMap Attempt FieldConfig StdMap Json Prod

/-! ## Maps -/

theorem mapToJson_map {Value : Type} (write : Value → Json) {map : StdMap Value}
    {convert : Bytes → Value → Value}
    (hwrite : ∀ entry ∈ map.toList, write (convert entry.1 entry.2) = write entry.2) :
    mapToJson write (map.map convert) = mapToJson write map := by
  unfold mapToJson
  rw [toList_map, foldl_map]
  refine foldl_ext _ _ _ fun value entry hentry => ?_
  rw [hwrite entry hentry]

theorem isEmpty_map {Value Other : Type} (map : StdMap Value)
    (convert : Bytes → Value → Other) :
    (map.map convert).isEmpty = map.isEmpty := by
  rw [← Std.ExtTreeMap.isEmpty_toList, ← Std.ExtTreeMap.isEmpty_toList,
    Std.ExtTreeMap.toList_map, List.isEmpty_map]

/-! ## Patterns -/

namespace FieldConfigPattern

/-- A pattern that was read from a JSON text. -/
def Accepted (pattern : FieldConfigPattern) : Prop :=
  ∃ value : Json, value.Parsed ∧ blank.fromJson value = .done pattern

/-- A pattern as a JSON text can give it. -/
structure Given (pattern : FieldConfigPattern) : Prop where
  ending : pattern.ending.contains 42 = false
  text : cString pattern.ending = pattern.ending
  config : pattern.config.isObject = true

theorem ends_fromJson {value : Json} (hparsed : value.Parsed) :
    (blank.fromJson value).Ends Given := by
  refine ends_withValue fun _ _ => ?_
  split
  · exact ends_fail _ _
  refine ends_withValue fun text htext => ?_
  refine ends_withValue fun _ hobject => ?_
  have hplain : cString text = text := by
    have hitem := hparsed.item 0
    cases hvalue : value.item 0 with
    | string other =>
      rw [hvalue] at htext hitem
      cases htext
      exact hitem.text
    | _ =>
      rw [hvalue] at htext
      cases htext
  have hconfig : (value.item 1).isObject = true := by
    by_contra hnot
    rw [checkObject, if_neg hnot] at hobject
    cases hobject
  have hending : cString (if text.head? == some 42 then text.tail else text) =
      if text.head? == some 42 then text.tail else text := by
    split
    · exact cString_tail hplain
    · exact hplain
  dsimp only
  generalize (if text.head? == some 42 then text.tail else text) = ending at hending ⊢
  split
  · exact ends_fail _ _
  next hstar =>
    exact ends_done ⟨Bool.eq_false_of_not_eq_true hstar, hending, hconfig⟩

variable {pattern : FieldConfigPattern}

theorem Accepted.given (haccepted : pattern.Accepted) : pattern.Given := by
  obtain ⟨value, hparsed, hread⟩ := haccepted
  have hends := ends_fromJson hparsed
  rw [hread] at hends
  exact hends rfl

/-- The text of a pattern starts with the wildcard if it has one. -/
theorem Given.head_text (hgiven : pattern.Given) :
    ((if pattern.leadingWildcard then ascii "*" ++ pattern.ending
      else pattern.ending).head? == some 42) = pattern.leadingWildcard := by
  cases hwildcard : pattern.leadingWildcard with
  | true => rfl
  | false =>
    have hending := hgiven.ending
    cases hhead : pattern.ending with
    | nil => rfl
    | cons first rest =>
      rw [hhead, contains_cons, Bool.or_eq_false_iff] at hending
      simpa using (beq_eq_false_iff_ne.mp hending.1).symm

theorem Given.fromJson_toJson (hgiven : pattern.Given) :
    blank.fromJson pattern.toJson = .done pattern := by
  have hhead := hgiven.head_text
  obtain ⟨wildcard, ending, config⟩ := pattern
  obtain ⟨hending, htext, hconfig⟩ := hgiven
  dsimp only at hhead hending htext hconfig
  have hplain : cString (if wildcard then ascii "*" ++ ending else ending) =
      if wildcard then ascii "*" ++ ending else ending := by
    split
    · rw [cString_eq_self_iff] at htext ⊢
      rw [mem_append, not_or]
      exact ⟨by decide, htext⟩
    · exact htext
  have hdropped : (if wildcard then
      (if wildcard then ascii "*" ++ ending else ending).tail
      else if wildcard then ascii "*" ++ ending else ending) = ending := by
    cases wildcard <;> rfl
  have hchecked : config.checkObject "config in schema pattern" = .ok () := if_pos hconfig
  simp only [fromJson, toJson, Json.checkArray, Json.isArray, if_true, liftInvalid,
    Attempt.withValue, Json.size, List.length_cons, List.length_nil, Json.item,
    Json.items, List.getD_cons_zero, List.getD_cons_succ, Json.ofString, Json.checkString,
    hchecked, hplain, hhead, hdropped, hending]
  rfl

end FieldConfigPattern

theorem FieldConfigPatterns.fromJson_toJson {patterns : FieldConfigPatterns}
    (hgiven : ∀ pattern ∈ patterns.patterns, pattern.Given) :
    fromJson patterns.toJson = .done patterns := by
  have hloop : ∀ (rest : List FieldConfigPattern)
      (before : FieldConfigPatterns), (∀ pattern ∈ rest, pattern.Given) →
      forEach (fun item (state : FieldConfigPatterns) =>
          let read := FieldConfigPattern.blank.fromJson item
          ⟨⟨state.patterns ++ [read.state]⟩, read.thrown⟩)
        (rest.map FieldConfigPattern.toJson) before =
      .done ⟨before.patterns ++ rest⟩ := by
    intro rest
    induction rest with
    | nil => intro before _; simp; rfl
    | cons first rest ih =>
      intro before hrest
      have hfirst := (hrest first mem_cons_self).fromJson_toJson
      have hstep := ih ⟨before.patterns ++ [first]⟩
        fun pattern hpattern => hrest pattern (mem_cons_of_mem _ hpattern)
      rw [append_assoc] at hstep
      rw [map_cons, forEach_cons, hfirst]
      exact hstep
  exact hloop patterns.patterns ⟨[]⟩ hgiven

theorem FieldConfigPatterns.ends_fromJson {value : Json} (hparsed : value.Parsed) :
    (fromJson value).Ends fun read =>
      ∀ pattern ∈ read.patterns, pattern.Accepted := by
  refine ends_withValue fun _ _ => ?_
  refine ends_forEach_of_mem (fun item hitem state hstate => ?_) nofun
  intro hthrown pattern hpattern
  rcases mem_append.mp hpattern with hold | hnew
  · exact hstate pattern hold
  · rw [mem_singleton.mp hnew]
    refine ⟨item, hparsed.of_mem_items hitem, ?_⟩
    exact congrArg (Attempt.mk _) hthrown

theorem FieldConfigPatterns.mergeFrom_empty (other : FieldConfigPatterns) :
    mergeFrom ⟨[]⟩ other = other := by
  obtain ⟨patterns⟩ := other
  unfold mergeFrom
  split
  next hnone => exact congrArg mk hnone.symm
  next => rfl

/-! ## Schemas -/

namespace FieldConfig

theorem given_forType (config : FieldConfig) (docType : Bytes) :
    (config.forType docType).Given ↔ config.Given := by
  cases config <;> rfl

theorem forType_forType (config : FieldConfig) (docType : Bytes) :
    (config.forType docType).forType docType = config.forType docType := by
  cases config <;> rfl

end FieldConfig

namespace Schema

/-- The names and the configurations of the fields were read from JSON
texts. -/
def FieldsAccepted (schema : Schema) : Prop :=
  ∀ name config, schema.fields[name]? = some config →
    cString name = name ∧ config.Accepted

/-- A schema whose parts were read from JSON texts. -/
structure Accepted (schema : Schema) : Prop where
  fields : schema.FieldsAccepted
  patterns : ∀ pattern ∈ schema.patterns.patterns, pattern.Accepted

theorem FieldsAccepted.set {schema : Schema} (hfields : schema.FieldsAccepted)
    {name : Bytes} (hname : cString name = name) {config : FieldConfig}
    (hconfig : config.Accepted) : (schema.set name (some config)).FieldsAccepted := by
  intro other found hfind
  change (schema.fields.insert name config)[other]? = some found at hfind
  rw [find_insert] at hfind
  split at hfind
  next heq =>
    cases hfind
    exact ⟨heq ▸ hname, hconfig⟩
  next => exact hfields other found hfind

/-- A schema with parts as JSON texts can give them. -/
structure Given (schema : Schema) : Prop where
  names : ∀ entry ∈ schema.fields.toList, cString entry.1 = entry.1
  fields : ∀ entry ∈ schema.fields.toList, entry.2.Given
  patterns : ∀ pattern ∈ schema.patterns.patterns, pattern.Given

theorem Accepted.given {schema : Schema} (haccepted : schema.Accepted) :
    schema.Given where
  names := fun entry hentry => (haccepted.fields entry.1 entry.2
    (mem_toList_iff_getElem?_eq_some.mp hentry)).1
  fields := fun entry hentry => (haccepted.fields entry.1 entry.2
    (mem_toList_iff_getElem?_eq_some.mp hentry)).2.given
  patterns := fun pattern hpattern =>
    (haccepted.patterns pattern hpattern).given

theorem ends_readFields {value : Json} (hparsed : value.Parsed) {schema : Schema}
    (hstart : schema.FieldsAccepted) :
    (readFields value.members schema).Ends FieldsAccepted := by
  refine ends_forEach_of_mem (fun entry hentry state hstate => ?_) hstart
  refine ends_withValue fun config hread => ends_done ?_
  have haccepted : config.Accepted :=
    ⟨entry.2, state.docType, hparsed.of_mem_members hentry, hread⟩
  exact hstate.set (hparsed.name_of_mem hentry) haccepted

/-- What is read from a JSON text is accepted. -/
theorem ends_fromJson (schema : Schema) {value : Json} (hparsed : value.Parsed) :
    (schema.fromJson value).Ends Accepted := by
  have hclear : schema.clear.FieldsAccepted := by
    intro name config hfind
    simp [clear] at hfind
  have hfields : ∀ member : Json, member.Parsed → (if member.isNull then done schema.clear
        else .withValue schema.clear
          (liftInvalid (member.checkObject "fields in schema")) fun _ =>
            readFields member.members schema.clear).Ends FieldsAccepted := by
    intro member hmember
    split
    · exact ends_done hclear
    · exact ends_withValue fun _ _ => ends_readFields hmember hclear
  refine ends_withValue fun _ _ => ?_
  refine (hfields _ (hparsed.member (ascii "fields"))).andThen ?_
  intro state hstate hthrown
  exact ⟨hstate, FieldConfigPatterns.ends_fromJson
    (hparsed.member (ascii "patterns")) hthrown⟩

/-- No field has a maximum length above the limit. -/
def Short (schema : Schema) : Prop :=
  ∀ entry ∈ schema.fields.toList, entry.2.Short

/-- The schema for another type of documents, without indexers. -/
def retyped (schema : Schema) (docType : Bytes) : Schema :=
  ⟨docType, schema.fields.map fun _ config => config.forType docType, ∅,
    schema.patterns⟩

section Retyped

variable {schema : Schema} (docType : Bytes)

theorem mem_retyped {entry : Bytes × FieldConfig}
    (hentry : entry ∈ (schema.retyped docType).fields.toList) :
    ∃ config, (entry.1, config) ∈ schema.fields.toList ∧
      entry.2 = config.forType docType := by
  simp only [retyped, toList_map, mem_map] at hentry
  obtain ⟨⟨name, config⟩, hmem, rfl⟩ := hentry
  exact ⟨config, hmem, rfl⟩

theorem Given.retyped (hgiven : schema.Given) : (schema.retyped docType).Given where
  names := fun entry hentry => by
    obtain ⟨config, hmem, -⟩ := mem_retyped docType hentry
    exact hgiven.names (entry.1, config) hmem
  fields := fun entry hentry => by
    obtain ⟨config, hmem, heq⟩ := mem_retyped docType hentry
    rw [heq, given_forType]
    exact hgiven.fields _ hmem
  patterns := hgiven.patterns

theorem Short.retyped (hshort : schema.Short) : (schema.retyped docType).Short := by
  intro entry hentry
  obtain ⟨config, hmem, heq⟩ := mem_retyped docType hentry
  rw [heq, short_forType]
  exact hshort _ hmem

theorem retyped_retyped (schema : Schema) :
    (schema.retyped docType).retyped docType = schema.retyped docType := by
  simp only [Schema.retyped, Std.ExtTreeMap.map_map, FieldConfig.forType_forType]

theorem toJson_retyped (schema : Schema) :
    (schema.retyped docType).toJson = schema.toJson := by
  have hfields : mapToJson (fun config => config.toJson (.object []))
      (schema.retyped docType).fields =
      mapToJson (fun config => config.toJson (.object [])) schema.fields :=
    mapToJson_map _ fun entry _ => entry.2.toJson_forType docType _
  have hempty : (schema.retyped docType).fields.isEmpty = schema.fields.isEmpty :=
    isEmpty_map _ _
  simp only [toJson, hfields, hempty]
  rfl

end Retyped

/-! ## Reading the fields of a schema -/

section Fields

variable {entries : List (Bytes × FieldConfig)}

theorem readFields_written (hentries : ∀ entry ∈ entries, entry.2.Given ∧ entry.2.Short)
    (schema : Schema) :
    readFields (entries.map fun entry => (entry.1, entry.2.toJson (.object []))) schema =
      .done { schema with
        fields := insertAll (fun _ config => config.forType schema.docType) entries
          schema.fields } := by
  induction entries generalizing schema with
  | nil => rfl
  | cons first rest ih =>
    obtain ⟨hgiven, hshort⟩ := hentries first mem_cons_self
    have hread := fromJson_toJson hgiven hshort schema.docType
    rw [map_cons, readFields, forEach_cons, hread]
    exact ih (fun entry hentry =>
      hentries entry (mem_cons_of_mem _ hentry)) _

variable {entry : Bytes × FieldConfig}

theorem thrown_readFields (hentry : entry ∈ entries) (hlong : ¬ entry.2.Short)
    (schema : Schema) :
    (readFields (entries.map fun entry => (entry.1, entry.2.toJson (.object [])))
      schema).thrown ≠ none := by
  refine thrown_forEach (mem_map_of_mem hentry) (fun state => ?_) schema
  obtain ⟨error, herror⟩ := fromJson_toJson_error hlong state.docType
  rw [herror]
  exact nofun

theorem fresh_set {names : List Bytes} {first : Bytes} (hfirst : first ∉ names)
    {schema : Schema} (hfresh : ∀ name ∈ first :: names, schema.fields[name]? = none)
    {config : FieldConfig} :
    ∀ name ∈ names, (schema.set first (some config)).fields[name]? = none := by
  intro name hname
  have hne : name ≠ first := fun heq => hfirst (heq ▸ hname)
  calc (schema.fields.insert first config)[name]?
      = schema.fields[name]? := by rw [find_insert, if_neg hne]
    _ = none := hfresh name (mem_cons_of_mem _ hname)

/-- The fields of a schema are merged into one that has none of them. -/
theorem mergeField_written [Libraries]
    (hentries : ∀ entry ∈ entries, entry.2.Given ∧ entry.2.Short)
    (hdistinct : (entries.map fst).Nodup) {schema : Schema}
    (hfresh : ∀ name ∈ entries.map fst, schema.fields[name]? = none) :
    forEach mergeField entries schema = .done { schema with
        fields := insertAll (fun _ config => config.forType schema.docType) entries
          schema.fields } := by
  induction entries generalizing schema with
  | nil => rfl
  | cons first rest ih =>
    obtain ⟨hgiven, hshort⟩ := hentries first mem_cons_self
    obtain ⟨hfirst, hrest⟩ := nodup_cons.mp hdistinct
    have hread := fromJson_toJson hgiven hshort schema.docType
    have hnone := hfresh first.1 mem_cons_self
    have hmerge : mergeField first schema =
        .done (schema.set first.1 (some (first.2.forType schema.docType))) := by
      simp only [mergeField, hnone, toJson_null, hread, withValue]
    rw [forEach_cons, hmerge, done_andThen]
    exact ih (fun entry hentry =>
      hentries entry (mem_cons_of_mem _ hentry)) hrest
      (fresh_set hfirst hfresh)

theorem thrown_mergeField [Libraries] (hdistinct : (entries.map Prod.fst).Nodup)
    (hentry : entry ∈ entries) (hlong : ¬ entry.2.Short) {schema : Schema}
    (hfresh : ∀ name ∈ entries.map Prod.fst, schema.fields[name]? = none) :
    (Attempt.forEach mergeField entries schema).thrown ≠ none := by
  induction entries generalizing schema with
  | nil => cases hentry
  | cons first rest ih =>
    obtain ⟨hfirst, hrest⟩ := List.nodup_cons.mp hdistinct
    have hnone := hfresh first.1 List.mem_cons_self
    rw [Attempt.forEach_cons]
    cases hread : FieldConfig.fromJson (first.2.toJson (.object [])) schema.docType with
    | error error =>
      refine Attempt.thrown_andThen ?_ _
      simp only [mergeField, hnone, FieldConfig.toJson_null, hread, Attempt.withValue]
      exact nofun
    | ok config =>
      have hmerge : mergeField first schema =
          .done (schema.set first.1 (some config)) := by
        simp only [mergeField, hnone, FieldConfig.toJson_null, hread, Attempt.withValue]
      rw [hmerge, Attempt.done_andThen]
      rcases List.mem_cons.mp hentry with rfl | hentry
      · obtain ⟨error, herror⟩ := FieldConfig.fromJson_toJson_error hlong schema.docType
        cases herror.symm.trans hread
      · exact ih hrest hentry (fresh_set hfirst hfresh)

end Fields

/-! ## Whole schemas -/

section Whole

variable {schema : Schema}

theorem member_patterns_toJson (schema : Schema) :
    schema.toJson.member (ascii "patterns") = schema.patterns.toJson :=
  member_setMember_self _ _ _

theorem member_fields_toJson (hgiven : schema.Given) :
    schema.toJson.member (ascii "fields") =
      if schema.fields.isEmpty then .null
      else .object (schema.fields.toList.map fun entry =>
        (entry.1, entry.2.toJson (.object []))) := by
  rw [toJson, member_setMember_of_ne _ _ (by decide)]
  split
  · rfl
  · rw [member_setMember_self, mapToJson_eq _ hgiven.names]

/-- A schema is read back from what was written. -/
theorem fromJson_toJson (hgiven : schema.Given) (hshort : schema.Short)
    (docType : Bytes) :
    (new docType).fromJson schema.toJson = .done (schema.retyped docType) := by
  have hpatterns : FieldConfigPatterns.fromJson
      (schema.toJson.member (ascii "patterns")) = .done schema.patterns := by
    rw [member_patterns_toJson]
    exact FieldConfigPatterns.fromJson_toJson hgiven.patterns
  have hobject : schema.toJson.isObject = true := rfl
  have hentries : ∀ entry ∈ schema.fields.toList,
      entry.2.Given ∧ entry.2.Short := fun entry hentry =>
    ⟨hgiven.fields entry hentry, hshort entry hentry⟩
  have hread := readFields_written hentries (new docType).clear
  have hfields := member_fields_toJson hgiven
  cases hempty : schema.fields.isEmpty with
  | true =>
    have hnone : schema.fields = ∅ := isEmpty_iff.mp hempty
    rw [hempty, if_pos rfl] at hfields
    simp only [fromJson, Json.checkObject, hobject, if_true, liftInvalid,
      Attempt.withValue, hfields, Json.isNull, Attempt.done_andThen, readPatterns,
      hpatterns]
    rw [retyped, hnone]
    rfl
  | false =>
    rw [hempty, if_neg Bool.false_ne_true] at hfields
    simp only [fromJson, Json.checkObject, if_true, liftInvalid, Attempt.withValue,
      hfields, isNull, isObject, members, Bool.false_eq_true, if_false, hread,
      Attempt.done_andThen, readPatterns, hpatterns]
    rw [retyped, ← StdMap.insertAll_toList]
    rfl

theorem thrown_fromJson_toJson (hgiven : schema.Given) (hlong : ¬ schema.Short)
    (start : Schema) : (start.fromJson schema.toJson).thrown ≠ none := by
  simp only [Short, not_forall] at hlong
  obtain ⟨entry, hentry, hlong⟩ := hlong
  have hnonempty : schema.fields.isEmpty = false := by
    rw [← isEmpty_toList]
    exact isEmpty_eq_false_iff.mpr (ne_nil_of_mem hentry)
  have hfields := member_fields_toJson hgiven
  rw [hnonempty, if_neg Bool.false_ne_true] at hfields
  simp only [fromJson, Json.checkObject, if_true, liftInvalid, withValue, hfields,
    Json.isNull, Json.isObject, Json.members, Bool.false_eq_true, if_false]
  exact thrown_andThen (thrown_readFields hentry hlong start.clear) _

theorem mergeFrom_new [Libraries] (hgiven : schema.Given) (hshort : schema.Short)
    (docType : Bytes) :
    (new docType).mergeFrom schema = .done (schema.retyped docType) := by
  have hempty : ∀ name ∈ schema.fields.toList.map fst,
      (new docType).fields[name]? = none := fun name _ => by simp [new]
  have hmerge := mergeField_written (fun entry hentry =>
    ⟨hgiven.fields entry hentry, hshort entry hentry⟩)
    (nodup_keys_toList schema.fields) hempty
  rw [mergeFrom, hmerge, done_andThen, retyped, ← insertAll_toList]
  exact congrArg (fun patterns => done (⟨docType, _, ∅, patterns⟩ :
    Schema)) (FieldConfigPatterns.mergeFrom_empty schema.patterns)

theorem thrown_mergeFrom_new [Libraries] (hlong : ¬ schema.Short) (docType : Bytes) :
    ((new docType).mergeFrom schema).thrown ≠ none := by
  simp only [Short, not_forall] at hlong
  obtain ⟨entry, hentry, hlong⟩ := hlong
  exact thrown_andThen (thrown_mergeField (nodup_keys_toList schema.fields) hentry hlong
    fun name _ => by simp [new]) _

end Whole

end Schema

end Restpose.Config
