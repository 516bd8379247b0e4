import Restpose.Schema.SchemaRoundTrip
import Restpose.Config.SetConfig
import Restpose.JsonManip.RoundTrip
import Restpose.Ngramcat.Categoriser
import Restpose.Taxonomy.Codec

/-!
# Copies of a configuration

`clone` writes a configuration to JSON and reads it into a new object.  The
copy shows the same as the original if no field has a maximum length above the
limit and all categorisers can be read back, and there is no copy otherwise.
-/

namespace Restpose.Config

open List Std.ExtTreeMap Json Attempt Schema StdMap Prod

/-! ## Sections -/

/-- A choice of what is read from the JSON of the parts that survive. -/
theorem exists_again {Value : Type} (read : Json → Except Thrown Value)
    (write : Value → Json) :
    ∃ again : Value → Value, ∀ part, Survives read write part →
      read (write part) = .ok (again part) ∧ write (again part) = write part := by
  classical
  refine ⟨fun part => if hpart : Survives read write part then hpart.choose
    else part, fun part hpart => ?_⟩
  simp only [hpart, dif_pos]
  exact hpart.choose_spec

namespace CollectionConfig

variable {Pipe Categoriser : Type}

variable {Value : Type}

theorem sectionToJson_map (key : String) (write : Value → Json)
    {map : StdMap Value} (convert : Bytes → Value → Value)
    (hwrite : ∀ entry ∈ map.toList,
      write (convert entry.1 entry.2) = write entry.2) (value : Json) :
    sectionToJson key write (map.map convert) value =
      sectionToJson key write map value := by
  rw [sectionToJson, sectionToJson, isEmpty_map, mapToJson_map write hwrite]

/-- The member that a section is written to. -/
def sectionMember {Value : Type} (write : Value → Json) (map : StdMap Value) :
    Json :=
  if map.isEmpty then .null else mapToJson write map

theorem member_sectionToJson_self {key : String} (write : Value → Json)
    (map : StdMap Value) {value : Json} (hvalue : value.member (ascii key) = .null) :
    (sectionToJson key write map value).member (ascii key) = sectionMember write map := by
  unfold sectionToJson sectionMember
  split
  · exact hvalue
  · exact member_setMember_self _ _ _

/-- The parts of a section are read and set, one after the other, in a map that
is empty at the start. -/
theorem readSection_written {value : Json} {key : String}
    {read : Json → Except Thrown Value} {write : Value → Json}
    {map : StdMap Value}
    (hmember : value.member (ascii key) = sectionMember write map)
    (again : Value → Value)
    (hparts : ∀ entry ∈ map.toList, cString entry.1 = entry.1 ∧
      read (write entry.2) = .ok (again entry.2)) (description : String)
    (put : CollectionConfig Pipe Categoriser → Bytes → Value →
      CollectionConfig Pipe Categoriser)
    (holding : StdMap Value → Bool → CollectionConfig Pipe Categoriser)
    (hput : ∀ map changed name part, put (holding map changed) name part =
      holding (map.insert name part) true) (changed : Bool) :
    ∃ after, readSection value key description read put (holding ∅ changed) =
      .done (holding (map.map fun _ => again) after) := by
  have hfold : ∀ (entries : List (Bytes × Value)) before changed, ∃ after, entries.foldl
          (fun config entry => put config entry.1 (again entry.2))
          (holding before changed) =
        holding (insertAll (fun _ => again) entries before) after := by
    intro entries
    induction entries with
    | nil => exact fun _ changed => ⟨changed, rfl⟩
    | cons first rest ih =>
      intro before changed
      rw [foldl_cons, hput]
      exact ih _ true
  obtain ⟨after, hafter⟩ := hfold map.toList ∅ changed
  rw [insertAll_toList] at hafter
  refine ⟨after, ?_⟩
  rw [← hafter]
  cases hempty : map.isEmpty with
  | true =>
    have hnone : map.toList = [] := by
      rw [← List.isEmpty_iff, Std.ExtTreeMap.isEmpty_toList, hempty]
    rw [sectionMember, hempty, if_pos rfl] at hmember
    simp only [readSection, forSection, hmember, isNull, if_true, hnone, foldl_nil]
  | false =>
    rw [sectionMember, hempty, if_neg Bool.false_ne_true,
      mapToJson_eq write fun entry hentry => (hparts entry hentry).1]
      at hmember
    simp only [readSection, forSection, hmember, isNull, Bool.false_eq_true, if_false,
      checkObject, isObject, if_true, liftInvalid, members]
    change forEach _ _ (holding ∅ changed) = _
    rw [forEach_map]
    refine forEach_done (fun entry hentry state => ?_) _
    rw [(hparts entry hentry).2]
    rfl

theorem thrown_readSection {value : Json} {key : String}
    {read : Json → Except Thrown Value} {write : Value → Json}
    {map : StdMap Value}
    (hmember : value.member (ascii key) = sectionMember write map)
    (hnames : ∀ entry ∈ map.toList, cString entry.1 = entry.1) {entry : Bytes × Value}
    (hentry : entry ∈ map.toList) (hread : ∀ part, read (write entry.2) ≠ .ok part)
    (description : String)
    (put : CollectionConfig Pipe Categoriser → Bytes → Value →
      CollectionConfig Pipe Categoriser)
    (start : CollectionConfig Pipe Categoriser) :
    (readSection value key description read put start).thrown ≠ none := by
  have hempty : map.isEmpty = false := by
    rw [← Std.ExtTreeMap.isEmpty_toList]
    exact isEmpty_eq_false_iff_exists_mem.mpr ⟨entry, hentry⟩
  rw [sectionMember, hempty, if_neg Bool.false_ne_true,
    mapToJson_eq write hnames] at hmember
  simp only [readSection, forSection, hmember, isNull, Bool.false_eq_true, if_false,
    checkObject, isObject, if_true, liftInvalid, members]
  refine thrown_forEach (mem_map_of_mem hentry) (fun state => ?_) start
  cases hpart : read (write entry.2) with
  | ok part => exact absurd hpart (hread part)
  | error error => exact Option.some_ne_none _

/-! ## Types -/

section Types

variable [Libraries] {entries : List (Bytes × Schema)}

theorem setSchema_fresh {config : CollectionConfig Pipe Categoriser} {type : Bytes}
    {schema : Schema} (hgiven : schema.Given) (hshort : schema.Short)
    (hfresh : config.types[type]? = none) :
    config.setSchema type schema = .done { config with
        types := config.types.insert type (schema.retyped type)
        changed := true } := by
  have hnew : config.types.getD type (new type) = new type := by
    rw [getD_eq_getD_getElem?, hfresh]
    rfl
  simp only [setSchema, hnew, mergeFrom_new hgiven hshort type]
  rfl

theorem readSchema_written {config : CollectionConfig Pipe Categoriser} {type : Bytes}
    {schema : Schema} (hgiven : schema.Given) (hshort : schema.Short)
    (hfresh : config.types[type]? = none) :
    readSchema (type, schema.toJson) config = .done { config with
        types := config.types.insert type (schema.retyped type)
        changed := true } := by
  have hread := fromJson_toJson hgiven hshort type
  have hset := setSchema_fresh (hgiven.retyped type) (hshort.retyped type) hfresh
  rw [retyped_retyped] at hset
  simp only [readSchema, hread]
  exact hset

theorem forEach_readSchema (hentries : ∀ entry ∈ entries, entry.2.Given ∧ entry.2.Short)
    (hdistinct : (entries.map fst).Nodup) {config : CollectionConfig Pipe Categoriser}
    (hfresh : ∀ name ∈ entries.map fst, config.types[name]? = none) :
    ∃ changed, forEach readSchema (entries.map fun entry => (entry.1, entry.2.toJson))
      config =
      .done { config with
        types := insertAll (fun type schema => schema.retyped type) entries config.types
        changed } := by
  induction entries generalizing config with
  | nil => exact ⟨config.changed, rfl⟩
  | cons first rest ih =>
    obtain ⟨hgiven, hshort⟩ := hentries first mem_cons_self
    obtain ⟨hfirst, hrest⟩ := nodup_cons.mp hdistinct
    have hread := readSchema_written hgiven hshort (hfresh first.1 mem_cons_self)
    rw [map_cons, forEach_cons, hread, done_andThen]
    refine ih (fun entry hentry =>
      hentries entry (mem_cons_of_mem _ hentry)) hrest ?_
    intro name hname
    have hne : name ≠ first.1 := fun heq => hfirst (heq ▸ hname)
    calc (config.types.insert first.1 (first.2.retyped first.1))[name]?
        = config.types[name]? := by rw [find_insert, if_neg hne]
      _ = none := hfresh name (mem_cons_of_mem _ hname)

theorem thrown_forEach_readSchema {entry : Bytes × Schema}
    (hentry : entry ∈ entries) (hgiven : entry.2.Given)
    (hlong : ¬ entry.2.Short) (config : CollectionConfig Pipe Categoriser) :
    (forEach readSchema (entries.map fun entry => (entry.1, entry.2.toJson))
      config).thrown ≠
        none := by
  refine thrown_forEach (mem_map_of_mem hentry) (fun state => ?_) config
  have hthrown := thrown_fromJson_toJson hgiven hlong (new entry.1)
  cases herror : ((new entry.1).fromJson entry.2.toJson).thrown with
  | none => exact absurd herror hthrown
  | some error =>
    simp only [readSchema, herror]
    exact nofun

end Types

/-! ## Whole configurations -/

section Whole

/-- A configuration with given kinds of schemas, pipes and categorisers, and with
taxonomies that the server can build. -/
structure Consists (config : CollectionConfig Pipe Categoriser)
    (schema : Schema → Prop) (pipe : Pipe → Prop)
    (categoriser : Categoriser → Prop) : Prop where
  collName : validateCollname config.collName = none
  types : ∀ entry ∈ config.types.toList,
    cString entry.1 = entry.1 ∧ schema entry.2
  defaultType : config.defaultTypeConfig.isNull = true ∨
    ((Schema.new []).fromJson config.defaultTypeConfig).thrown = none
  pipes : ∀ entry ∈ config.pipes.toList,
    cString entry.1 = entry.1 ∧ pipe entry.2
  categorisers : ∀ entry ∈ config.categorisers.toList,
    cString entry.1 = entry.1 ∧ categoriser entry.2
  taxonomies : ∀ entry ∈ config.taxonomies.toList,
    cString entry.1 = entry.1 ∧ Taxonomy.Served entry.2

theorem Consists.given {config : CollectionConfig Pipe Categoriser} {pipe : Pipe → Prop}
    {categoriser : Categoriser → Prop}
    (hconsists : config.Consists Schema.Accepted pipe categoriser) :
    config.Consists Schema.Given pipe categoriser :=
  { hconsists with
    types := fun entry hentry =>
      (hconsists.types entry hentry).imp_right Schema.Accepted.given }

variable [Part Pipe] [Part Categoriser]

/-- A configuration whose field configurations, patterns, pipes and categorisers
were read from JSON. -/
abbrev Accepted (config : CollectionConfig Pipe Categoriser) : Prop :=
  config.Consists Schema.Accepted (fun pipe => ∃ value, Part.fromJson value = .ok pipe)
    fun categoriser => ∃ value : Json, value.Parsed ∧
      Part.fromJson value = .ok categoriser

/-- A configuration with schemas as JSON texts can give them, and with other
parts that can be read back from their JSON. -/
abbrev Given (config : CollectionConfig Pipe Categoriser) : Prop :=
  config.Consists Schema.Given (Survives Part.fromJson Part.toJson)
    (Survives Part.fromJson Part.toJson)

/-- No field of any type has a maximum length above the limit. -/
def Short (config : CollectionConfig Pipe Categoriser) : Prop :=
  ∀ entry ∈ config.types.toList, entry.2.Short

variable {config : CollectionConfig Pipe Categoriser}

theorem member_types_toJson (config : CollectionConfig Pipe Categoriser) :
    config.toJson.member (ascii "types") = mapToJson Schema.toJson config.types := by
  rw [member_toJson config (by decide) (by decide) (by decide) (by decide)]
  simp +decide only [schemasConfigToJson, assign_cons, assign_nil,
    member_setMember, if_true, if_false]

theorem member_sections_toJson (config : CollectionConfig Pipe Categoriser) :
    config.toJson.member (ascii "pipes") = sectionMember Part.toJson config.pipes ∧
      config.toJson.member (ascii "categorisers") =
        sectionMember Part.toJson config.categorisers ∧
      config.toJson.member (ascii "taxonomies") =
        sectionMember taxonomyToJson config.taxonomies := by
  have hnull : ∀ key ∈ ["pipes", "categorisers", "taxonomies"],
      (config.schemasConfigToJson (.object [])).member (ascii key) = .null := by
    intro key hkey
    simp only [mem_cons, not_mem_nil, or_false] at hkey
    rcases hkey with rfl | rfl | rfl <;>
      simp +decide only [schemasConfigToJson, assign_cons, assign_nil,
        member_setMember, if_false] <;> rfl
  rw [toJson, assign_cons, assign_nil]
  refine ⟨?_, ?_, ?_⟩ <;> rw [member_setMember_of_ne _ _ (by decide)]
  · rw [member_sectionToJson (by decide), member_sectionToJson (by decide)]
    exact member_sectionToJson_self _ _ (hnull _ (by decide))
  · rw [member_sectionToJson (by decide)]
    refine member_sectionToJson_self _ _ ?_
    rw [member_sectionToJson (by decide), hnull _ (by decide)]
  · refine member_sectionToJson_self _ _ ?_
    rw [member_sectionToJson (by decide), member_sectionToJson (by decide),
      hnull _ (by decide)]

theorem checkHead_toJson (config : CollectionConfig Pipe Categoriser) :
    checkHead config.toJson = .ok () := by
  have hformat : config.toJson.member (ascii "format") = .uint configFormat :=
    member_setMember_self _ _ _
  have hobject : config.toJson.isObject = true := rfl
  have hread : config.toJson.getUInt64Member "format" 2147483647 = .ok configFormat := by
    rw [getUInt64Member, hformat]
    rfl
  simp only [checkHead, checkObject, hobject, if_true, liftInvalid, hread, bind,
    Except.bind]
  rfl

theorem survives_taxonomy {taxonomy : Taxonomy} (hserved : Taxonomy.Served taxonomy) :
    taxonomyFromJson (taxonomyToJson taxonomy) = .ok taxonomy := by
  have hread := Taxonomy.fromJson_taxonomyToJson hserved.reachable.invariant
    hserved.cString_names
  simp only [taxonomyFromJson, hread]

theorem readDefaultType_written (hgiven : config.Given)
    {start : CollectionConfig Pipe Categoriser}
    (hstart : start.defaultTypeConfig = .null) :
    readDefaultType config.toJson start =
      .done { start with defaultTypeConfig := config.defaultTypeConfig } := by
  have hmember := member_default_type_toJson config
  cases hnull : config.defaultTypeConfig.isNull with
  | true =>
    have hdefault : config.defaultTypeConfig = start.defaultTypeConfig := by
      rw [hstart]
      cases hvalue : config.defaultTypeConfig with
      | null => rfl
      | _ =>
        rw [hvalue] at hnull
        cases hnull
    simp only [readDefaultType, hmember, hnull, if_true]
    rw [hdefault]
  | false =>
    have hthrown := hgiven.defaultType.resolve_left (by simp [hnull])
    simp only [readDefaultType, hmember, hnull, Bool.false_eq_true, if_false, hthrown]

theorem readSpecialFields_written (config start : CollectionConfig Pipe Categoriser) :
    readSpecialFields config.toJson start = .done { start with
        idField := cString config.idField
        typeField := cString config.typeField
        metaField := cString config.metaField } := by
  have hmember := member_special_fields_toJson config
  generalize hspecial : assign .null [("id_field", .ofString config.idField),
    ("type_field", .ofString config.typeField),
    ("meta_field", .ofString config.metaField)] = special at hmember
  have hid : special.member (ascii "id_field") = .ofString config.idField := by
    rw [← hspecial]
    simp +decide only [assign_cons, assign_nil, member_setMember, if_true, if_false]
  have htype : special.member (ascii "type_field") = .ofString config.typeField := by
    rw [← hspecial]
    simp +decide only [assign_cons, assign_nil, member_setMember, if_true, if_false]
  have hmeta : special.member (ascii "meta_field") = .ofString config.metaField := by
    rw [← hspecial]
    exact member_setMember_self _ _ _
  have hnull : special.isNull = false := by rw [← hspecial]; rfl
  have hobject : special.isObject = true := by rw [← hspecial]; rfl
  simp only [readSpecialFields, hmember, hnull, Bool.false_eq_true, if_false, checkObject,
    hobject, if_true, liftInvalid, withValue, getStringMember_of_member _ hid,
    getStringMember_of_member _ htype, getStringMember_of_member _ hmeta]

variable [Libraries]

theorem readTypes_written (hgiven : config.Given) (hshort : config.Short)
    {start : CollectionConfig Pipe Categoriser} (hstart : start.types = ∅) :
    ∃ changed, readTypes config.toJson start = .done { start with
        types := config.types.map fun type schema => schema.retyped type
        changed } := by
  have hnames : ∀ entry ∈ config.types.toList, cString entry.1 = entry.1 :=
    fun entry hentry => (hgiven.types entry hentry).1
  have hmember := member_types_toJson config
  rw [mapToJson_eq _ hnames] at hmember
  have hfresh : ∀ name ∈ config.types.toList.map fst,
      start.types[name]? = none := fun name _ => by simp [hstart]
  obtain ⟨changed, hread⟩ := forEach_readSchema (fun entry hentry =>
    ⟨(hgiven.types entry hentry).2, hshort entry hentry⟩)
    (nodup_keys_toList config.types) hfresh
  refine ⟨changed, ?_⟩
  rw [hstart, insertAll_toList] at hread
  simp only [readTypes, forSection, hmember, isNull, Bool.false_eq_true, if_false,
    checkObject, isObject, if_true, liftInvalid, Attempt.withValue, members, hread]

theorem thrown_readTypes {pipe : Pipe → Prop} {categoriser : Categoriser → Prop}
    (hgiven : config.Consists Schema.Given pipe categoriser) (hlong : ¬ config.Short)
    (start : CollectionConfig Pipe Categoriser) :
    (readTypes config.toJson start).thrown ≠ none := by
  simp only [Short, not_forall] at hlong
  obtain ⟨entry, hentry, hlong⟩ := hlong
  have hnames : ∀ entry ∈ config.types.toList, cString entry.1 = entry.1 :=
    fun entry hentry => (hgiven.types entry hentry).1
  have hmember := member_types_toJson config
  rw [mapToJson_eq _ hnames] at hmember
  simp only [readTypes, forSection, hmember, isNull, Bool.false_eq_true, if_false,
    checkObject, isObject, if_true, liftInvalid, Attempt.withValue, members]
  exact thrown_forEach_readSchema hentry (hgiven.types entry hentry).2 hlong start

section Parts

variable {attempt : Attempt Thrown (CollectionConfig Pipe Categoriser)}
  {start : CollectionConfig Pipe Categoriser}

omit [Libraries] in
theorem andThen_pipes (hgiven : config.Given) (hattempt : attempt = .done start)
    (hstart : start.pipes = ∅) :
    ∃ again changed, attempt.andThen (pipesConfigFromJson config.toJson) =
      .done { start with
          pipes := config.pipes.map fun _ => again, changed } ∧
      ∀ entry ∈ config.pipes.toList,
        Part.toJson (again entry.2) = Part.toJson entry.2 := by
  obtain ⟨again, hagain⟩ :=
    exists_again (Part.fromJson : Json → Except Thrown Pipe) Part.toJson
  have hparts := fun entry hentry =>
    (hgiven.pipes entry hentry).imp_right (hagain entry.2)
  obtain ⟨changed, hread⟩ := readSection_written (member_sections_toJson config).1 again
    (fun entry hentry => (hparts entry hentry).imp_right And.left)
    "pipes definition" setPipe
    (fun pipes changed => { start with pipes, changed })
    (fun _ _ _ _ => rfl) start.changed
  rw [← hstart] at hread
  rw [hattempt, done_andThen]
  exact ⟨again, changed, hread, fun entry hentry => (hparts entry hentry).2.2⟩

omit [Libraries] in
theorem andThen_categorisers (hgiven : config.Given) (hattempt : attempt = .done start)
    (hstart : start.categorisers = ∅) :
    ∃ again changed, attempt.andThen (categorisersConfigFromJson config.toJson) =
      .done { start with
          categorisers := config.categorisers.map fun _ => again, changed } ∧
      ∀ entry ∈ config.categorisers.toList,
        Part.toJson (again entry.2) = Part.toJson entry.2 := by
  obtain ⟨again, hagain⟩ := exists_again
    (Part.fromJson : Json → Except Thrown Categoriser) Part.toJson
  have hparts := fun entry hentry =>
    (hgiven.categorisers entry hentry).imp_right (hagain entry.2)
  obtain ⟨changed, hread⟩ := readSection_written (member_sections_toJson config).2.1 again
    (fun entry hentry => (hparts entry hentry).imp_right And.left)
    "categorisers definition" setCategoriser
    (fun categorisers changed => { start with categorisers, changed })
    (fun _ _ _ _ => rfl) start.changed
  rw [← hstart] at hread
  rw [hattempt, done_andThen]
  exact ⟨again, changed, hread, fun entry hentry => (hparts entry hentry).2.2⟩

omit [Libraries] in
theorem andThen_categories (hgiven : config.Given) (hattempt : attempt = .done start)
    (hstart : start.taxonomies = ∅) :
    ∃ changed, attempt.andThen (categoriesConfigFromJson config.toJson) =
      .done { start with taxonomies := config.taxonomies, changed } := by
  obtain ⟨changed, hread⟩ := readSection_written (member_sections_toJson config).2.2 id
    (fun entry hentry =>
      (hgiven.taxonomies entry hentry).imp_right survives_taxonomy)
    "taxonomies definition" setTaxonomy
    (fun taxonomies changed => { start with taxonomies, changed })
    (fun _ _ _ _ => rfl) start.changed
  have hid : (config.taxonomies.map fun _ => id) = config.taxonomies :=
    Std.ExtTreeMap.ext_getElem? fun name => by simp
  rw [← hstart, hid] at hread
  rw [hattempt, Attempt.done_andThen]
  exact ⟨changed, hread⟩

end Parts

theorem schemasConfigFromJson_written (hgiven : config.Given) (hshort : config.Short)
    {start : CollectionConfig Pipe Categoriser} (htypes : start.types = ∅)
    (hdefault : start.defaultTypeConfig = .null) :
    ∃ changed, schemasConfigFromJson config.toJson start = .done { start with
        types := config.types.map fun type schema => schema.retyped type
        defaultTypeConfig := config.defaultTypeConfig
        idField := cString config.idField
        typeField := cString config.typeField
        metaField := cString config.metaField
        changed } := by
  obtain ⟨changed, hread⟩ := readTypes_written hgiven hshort htypes
  refine ⟨changed, ?_⟩
  rw [schemasConfigFromJson, hread, done_andThen,
    readDefaultType_written hgiven (by exact hdefault), done_andThen,
    readSpecialFields_written]

/-- What a copy has instead of the parts of the original. -/
structure CopyOf (config copy : CollectionConfig Pipe Categoriser)
    (pipeAgain : Pipe → Pipe) (categoriserAgain : Categoriser → Categoriser) :
    Prop where
  types : copy.types =
    config.types.map fun type schema => schema.retyped type
  defaultType : copy.defaultTypeConfig = config.defaultTypeConfig
  idField : copy.idField = cString config.idField
  typeField : copy.typeField = cString config.typeField
  metaField : copy.metaField = cString config.metaField
  pipes : copy.pipes = config.pipes.map fun _ => pipeAgain
  pipe : ∀ entry ∈ config.pipes.toList,
    Part.toJson (pipeAgain entry.2) = Part.toJson entry.2
  categorisers : copy.categorisers =
    config.categorisers.map fun _ => categoriserAgain
  categoriser : ∀ entry ∈ config.categorisers.toList,
    Part.toJson (categoriserAgain entry.2) = Part.toJson entry.2
  taxonomies : copy.taxonomies = config.taxonomies

variable {copy : CollectionConfig Pipe Categoriser}
  {categoriserAgain : Categoriser → Categoriser}

omit [Libraries] in
theorem CopyOf.toJson_eq {pipeAgain : Pipe → Pipe}
    (hcopy : CopyOf config copy pipeAgain categoriserAgain) :
    copy.toJson = config.toJson := by
  have hschemas : copy.schemasConfigToJson (.object []) =
      config.schemasConfigToJson (.object []) := by
    simp only [schemasConfigToJson, hcopy.types, hcopy.defaultType, hcopy.idField,
      hcopy.typeField, hcopy.metaField, ofString, cString_cString]
    rw [mapToJson_map _ fun entry _ => toJson_retyped entry.1 entry.2]
  have hpipes := sectionToJson_map "pipes" Part.toJson (fun _ => pipeAgain) hcopy.pipe
  have hcategorisers := sectionToJson_map "categorisers" Part.toJson
    (fun _ => categoriserAgain) hcopy.categoriser
  simp only [toJson, hschemas, hcopy.pipes, hcopy.categorisers, hcopy.taxonomies]
  rw [hpipes, hcategorisers]

omit [Libraries] [Part Pipe] [Part Categoriser] in
theorem survives_of_toJson_eq {Value : Type} [Part Value] {part other : Value}
    (hpart : Survives Part.fromJson Part.toJson part)
    (hsame : Part.toJson other = Part.toJson part) :
    Survives Part.fromJson Part.toJson other := by
  obtain ⟨again, hread, hagain⟩ := hpart
  exact ⟨again, by rw [hsame, hread], by rw [hagain, hsame]⟩

omit [Libraries] in
theorem CopyOf.given {pipeAgain : Pipe → Pipe}
    (hcopy : CopyOf config copy pipeAgain categoriserAgain) (hgiven : config.Given)
    (hname : copy.collName = config.collName) :
    copy.Given where
  collName := by
    rw [hname]
    exact hgiven.collName
  types := fun entry hentry => by
    rw [hcopy.types, toList_map] at hentry
    obtain ⟨original, horiginal, rfl⟩ := mem_map.mp hentry
    obtain ⟨hname, hschema⟩ := hgiven.types original horiginal
    exact ⟨hname, hschema.retyped original.1⟩
  defaultType := by
    rw [hcopy.defaultType]
    exact hgiven.defaultType
  pipes := fun entry hentry => by
    rw [hcopy.pipes, toList_map] at hentry
    obtain ⟨original, horiginal, rfl⟩ := mem_map.mp hentry
    obtain ⟨hname, hpart⟩ := hgiven.pipes original horiginal
    exact ⟨hname, survives_of_toJson_eq hpart (hcopy.pipe _ horiginal)⟩
  categorisers := fun entry hentry => by
    rw [hcopy.categorisers, toList_map] at hentry
    obtain ⟨original, horiginal, rfl⟩ := mem_map.mp hentry
    obtain ⟨hname, hpart⟩ := hgiven.categorisers original horiginal
    exact ⟨hname, survives_of_toJson_eq hpart (hcopy.categoriser _ horiginal)⟩
  taxonomies := by
    rw [hcopy.taxonomies]
    exact hgiven.taxonomies

variable (hgiven : config.Given)

include hgiven

theorem readSections_written (hshort : config.Short) :
    ∃ (copy : CollectionConfig Pipe Categoriser) (pipeAgain : Pipe → Pipe)
      (categoriserAgain : Categoriser → Categoriser),
      readSections config.toJson (blank config.collName) = .done copy ∧
        copy.collName = config.collName ∧
        CopyOf config copy pipeAgain categoriserAgain := by
  have hblank : (blank config.collName : CollectionConfig Pipe Categoriser).types = ∅ :=
    rfl
  obtain ⟨_, hschemas⟩ := schemasConfigFromJson_written hgiven hshort hblank rfl
  obtain ⟨pipeAgain, _, hpipes, hpipe⟩ := andThen_pipes hgiven hschemas rfl
  obtain ⟨categoriserAgain, _, hcategorisers, hcategoriser⟩ :=
    andThen_categorisers hgiven hpipes rfl
  obtain ⟨_, hcategories⟩ := andThen_categories hgiven hcategorisers rfl
  exact ⟨_, pipeAgain, categoriserAgain, hcategories, rfl,
    ⟨rfl, rfl, rfl, rfl, rfl, rfl, hpipe, rfl, hcategoriser, rfl⟩⟩

omit hgiven in
theorem clone_eq_ok_iff (hname : validateCollname config.collName = none) :
    config.clone = .ok copy ↔
      readSections config.toJson (blank config.collName) = .done copy := by
  rw [← toExcept_eq_ok_iff]
  simp only [clone, create, hname, bind, Except.bind, fromJson, checkHead_toJson,
    withValue]
  rfl

omit hgiven in
/-- A copy shows that no field has a maximum length above the limit, and that all
categorisers were read back. -/
theorem of_clone {pipe : Pipe → Prop} {categoriser : Categoriser → Prop}
    (hconsists : config.Consists Schema.Given pipe categoriser)
    (hclone : config.clone = .ok copy) :
    config.Short ∧ ∀ entry ∈ config.categorisers.toList,
      ∃ again : Categoriser, Part.fromJson (Part.toJson entry.2) = .ok again := by
  have hread := (clone_eq_ok_iff hconsists.collName).mp hclone
  have hnone : (readSections config.toJson (blank config.collName :
      CollectionConfig Pipe Categoriser)).thrown = none := by rw [hread]; rfl
  constructor
  · by_contra hlong
    -- The types are read first, before the five other sections.
    refine absurd hnone ?_
    iterate 5 refine thrown_andThen ?_ _
    exact thrown_readTypes hconsists hlong _
  · intro entry hentry
    by_contra hlost
    refine absurd hnone (thrown_andThen (thrown_andThen_of_next (fun start => ?_) _) _)
    exact thrown_readSection (member_sections_toJson config).2.1
      (fun entry hentry => (hconsists.categorisers entry hentry).1) hentry
      (fun part hpart => hlost ⟨part, hpart⟩) _ _ start

/-- A configuration has a copy that shows the same if and only if no field has
a maximum length above the limit. -/
theorem clone_iff : (∃ copy : CollectionConfig Pipe Categoriser,
      config.clone = .ok copy ∧ copy.toJson = config.toJson) ↔
      config.Short := by
  constructor
  · rintro ⟨copy, hcopy, -⟩
    exact (of_clone hgiven hcopy).1
  · intro hshort
    obtain ⟨copy, _, _, hsections, -, hcopy⟩ := readSections_written hgiven hshort
    exact ⟨copy, (clone_eq_ok_iff hgiven.collName).mpr hsections, hcopy.toJson_eq⟩

theorem copyOf_clone (hclone : config.clone = .ok copy) :
    config.Short ∧ copy.collName = config.collName ∧
      ∃ (pipeAgain : Pipe → Pipe) (categoriserAgain : Categoriser → Categoriser),
        CopyOf config copy pipeAgain categoriserAgain := by
  obtain ⟨hshort, -⟩ := of_clone hgiven hclone
  obtain ⟨read, pipeAgain, categoriserAgain, hsections, hname, hcopy⟩ :=
    readSections_written hgiven hshort
  cases hsections.symm.trans ((clone_eq_ok_iff hgiven.collName).mp hclone)
  exact ⟨hshort, hname, pipeAgain, categoriserAgain, hcopy⟩

omit hgiven

end Whole

end CollectionConfig

/-- A configuration that was read has a copy that shows the same if and only if
no field has a maximum length above the limit, and no categoriser is above its
limits or has a profile that is written outside of its list. -/
theorem clone_iff_writable [Libraries]
    {config : CollectionConfig Pipe Ngramcat.Categoriser} (haccepted : config.Accepted) :
    (∃ copy : CollectionConfig Pipe Ngramcat.Categoriser,
        config.clone = .ok copy ∧ copy.toJson = config.toJson) ↔
      config.Short ∧ ∀ entry ∈ config.categorisers.toList, entry.2.Writable := by
  constructor
  · rintro ⟨copy, hcopy, -⟩
    obtain ⟨hshort, hread⟩ := CollectionConfig.of_clone haccepted.given hcopy
    refine ⟨hshort, ?_⟩
    intro entry hentry
    obtain ⟨again, hagain⟩ := hread entry hentry
    exact Ngramcat.Categoriser.writable_of_fromJson hagain
  · rintro ⟨hshort, hwritable⟩
    refine (CollectionConfig.clone_iff
      { haccepted.given with pipes := ?_, categorisers := ?_ }).mpr hshort
    · intro entry hentry
      obtain ⟨hname, value, hread⟩ := haccepted.pipes entry hentry
      exact ⟨hname, (Pipe.yields_fromJson value entry.2 hread).survives⟩
    · intro entry hentry
      obtain ⟨hname, value, hparsed, hread⟩ := haccepted.categorisers entry hentry
      obtain ⟨hprofiles, hcandidates⟩ :=
        Ngramcat.Categoriser.yields_fromJson hparsed entry.2 hread
      exact ⟨hname, Ngramcat.Categoriser.survives_of_writable hprofiles hcandidates
        (hwritable entry hentry)⟩

/-- What is read from a JSON text survives its own JSON if and only if no
maximum length is above the limit; a schema can be merged into an empty one if
and only if that holds of all its fields; and a configuration can be copied if
and only if it holds of all its fields, and its categorisers can be read back. -/
theorem fieldConfig_survives_iff [Libraries] :
    (∀ (value : Json) (docType : Bytes) (config : FieldConfig),
      value.Parsed → FieldConfig.fromJson value docType = .ok config →
      (Survives (FieldConfig.fromJson · docType)
          (FieldConfig.toJson · (.object [])) config ↔
        FieldConfig.WithinLimit value)) ∧
    (∀ (schema : Schema) (docType : Bytes), schema.Accepted →
      ((((Schema.new docType).mergeFrom schema).thrown = none ∧
          ((Schema.new docType).mergeFrom schema).state.toJson =
            schema.toJson) ↔
        schema.Short)) ∧
    ∀ config : CollectionConfig Pipe Ngramcat.Categoriser, config.Accepted →
      ((∃ copy : CollectionConfig Pipe Ngramcat.Categoriser,
          config.clone = .ok copy ∧ copy.toJson = config.toJson) ↔
        config.Short ∧
          ∀ entry ∈ config.categorisers.toList, entry.2.Writable) := by
  refine ⟨?_, ?_, fun config haccepted => clone_iff_writable haccepted⟩
  · intro value docType config hparsed hread
    obtain ⟨hgiven, hshort⟩ :=
      FieldConfig.readFrom_fromJson hparsed docType config hread
    exact (FieldConfig.survives_iff hgiven docType).trans hshort
  · intro schema docType haccepted
    constructor
    · rintro ⟨hthrown, -⟩
      by_contra hlong
      exact Schema.thrown_mergeFrom_new hlong docType hthrown
    · intro hshort
      rw [Schema.mergeFrom_new haccepted.given hshort docType]
      exact ⟨rfl, Schema.toJson_retyped docType schema⟩

/-! ## A field with a long maximum length -/

/-- The JSON of an id field with a maximum length. -/
def lengthField (length : ℤ) : Json :=
  .object [(ascii "max_length", .int length), (ascii "type", literal "id")]

/-- What is read from it. -/
def lengthConfig (length : ℕ) : FieldConfig :=
  .id ⟨⟨[], badValueno⟩, length, .error⟩ []
    (FieldConfig.idPrefix (ascii "book"))

def lengthSchema (length : ℕ) : Schema :=
  { Schema.new (ascii "book") with
    fields := (∅ : StdMap FieldConfig).insert (ascii "isbn")
      (lengthConfig length) }

/-- The JSON of a categoriser with one profile. -/
def rankJson (maxNgrams : ℤ) : Json :=
  assign .null [("max_ngrams", .int maxNgrams),
    ("profiles", assign .null [("en", assign .null [("max_ngrams", .int 5),
      ("ngrams", .array [literal "b", literal "a"])])]),
    ("type", literal "ngram_rank")]

def rankCategoriser (maxNgrams : ℕ) : Ngramcat.Categoriser :=
  { Ngramcat.Categoriser.new with
    profiles := [(ascii "en",
      .initFromSortedNgram ⟨5, [ascii "b", ascii "a"]⟩)]
    maxNgrams }

/-- A collection with one type that has this field, a pipe and a categoriser. -/
def lengthCollection (length maxNgrams : ℕ) :
    CollectionConfig Pipe Ngramcat.Categoriser :=
  { (CollectionConfig.blank (ascii "books") :
      CollectionConfig Pipe Ngramcat.Categoriser) with
    types := (∅ : StdMap Schema).insert (ascii "book") (lengthSchema length)
    pipes := (∅ : StdMap Pipe).insert (ascii "next") Pipe.nextPipe
    categorisers := (∅ : StdMap Ngramcat.Categoriser).insert (ascii "lang")
      (rankCategoriser maxNgrams) }

section Length

variable {length : ℕ} (hlength : length ≤ 2 ^ 31 - 1)

include hlength

theorem parsed_lengthField : (lengthField length).Parsed := by
  refine .object ?_ ?_ ?_
  · exact pairwise_pair.mpr
      (by decide : compare (ascii "max_length") (ascii "type") = .lt)
  · intro entry hentry
    rcases mem_pair.mp hentry with rfl | rfl
    · exact (by decide : cString (ascii "max_length") = ascii "max_length")
    · exact (by decide : cString (ascii "type") = ascii "type")
  · intro entry hentry
    rcases mem_pair.mp hentry with rfl | rfl
    · exact .int (by omega) (by omega)
    · exact .string (by decide)

theorem fromJson_lengthField (docType : Bytes) :
    FieldConfig.fromJson (lengthField length) docType =
      .ok ((lengthConfig length).forType docType) := by
  have hmod : length % 2 ^ 32 = length := by omega
  have hread : (Json.int length).checkUInt64 "max_length" 240 = .ok length := by
    simp [checkUInt64, isIntegral, lessThanInt, greaterThanUInt, asUInt64]
  have hmember : (lengthField length).member (ascii "max_length") = .int length := rfl
  have htype : (lengthField length).member (ascii "type") = literal "id" := rfl
  rw [FieldConfig.fromJson_of_type rfl htype]
  change FieldConfig.idFromJson _ _ = _
  have hlimits : MaxLenFieldConfig.fromJson (lengthField length) =
      .ok ⟨⟨[], badValueno⟩, length, .error⟩ := by
    simp only [MaxLenFieldConfig.fromJson, getUInt64MemberOr, hmember, hread, isNull,
      Bool.false_eq_true, if_false, hmod, bind, Except.bind]
    rfl
  simp only [FieldConfig.idFromJson, hlimits, bind, Except.bind]
  rfl

theorem accepted_lengthConfig : (lengthConfig length).Accepted :=
  ⟨lengthField length, ascii "book", parsed_lengthField hlength,
    fromJson_lengthField hlength _⟩

theorem accepted_lengthSchema : (lengthSchema length).Accepted := by
  have hempty : (Schema.new (ascii "book")).FieldsAccepted := by
    intro name config hfind
    simp [new] at hfind
  refine ⟨hempty.set (by decide) (accepted_lengthConfig hlength), ?_⟩
  intro pattern hpattern
  cases hpattern

omit hlength in
theorem parsed_rankJson {maxNgrams : ℕ} (hmax : maxNgrams ≤ 2 ^ 31 - 1) :
    (rankJson maxNgrams).Parsed := by
  have hlist : (Json.array [literal "b", literal "a"]).Parsed := by
    refine .array fun item hitem => ?_
    rcases mem_pair.mp hitem with rfl | rfl <;> exact .string (by decide)
  have hprofile : (assign .null [("max_ngrams", .int 5),
      ("ngrams", .array [literal "b", literal "a"])]).Parsed :=
    (Parsed.null.setMember (by decide) (.int (by decide) (by decide))).setMember
      (by decide) hlist
  have hlimit : ((Json.null).setMember (ascii "max_ngrams") (.int maxNgrams)).Parsed :=
    Parsed.null.setMember rfl (.int (by omega) (by omega))
  exact (hlimit.setMember rfl
    (Parsed.null.setMember (by decide) hprofile)).setMember rfl (.string rfl)

theorem accepted_lengthCollection [Libraries] {maxNgrams : ℕ}
    (hmax : maxNgrams ≤ 2 ^ 31 - 1)
    (hread : Part.fromJson (rankJson maxNgrams) = .ok (rankCategoriser maxNgrams)) :
    (lengthCollection length maxNgrams).Accepted where
  collName := rfl
  types := fun entry hentry => by
    rw [mem_singleton.mp hentry]
    exact ⟨(by decide : cString (ascii "book") = ascii "book"),
      accepted_lengthSchema hlength⟩
  defaultType := .inl rfl
  pipes := fun entry hentry => by
    rw [mem_singleton.mp hentry]
    exact ⟨(by decide : cString (ascii "next") = ascii "next"), _, Pipe.fromJson_nextJson⟩
  categorisers := fun entry hentry => by
    rw [mem_singleton.mp hentry]
    exact ⟨(by decide : cString (ascii "lang") = ascii "lang"), _,
      parsed_rankJson hmax, hread⟩
  taxonomies := fun entry hentry => by
    have hempty : (∅ : StdMap Taxonomy).toList = [] := rfl
    change entry ∈ (∅ : StdMap Taxonomy).toList at hentry
    rw [hempty] at hentry
    cases hentry

end Length

/-- A maximum length and a number of n-grams that are kept. -/
theorem fieldConfig_survives_iff_hundred : ∃ _ : Libraries,
    (lengthField 100).Parsed ∧
      FieldConfig.fromJson (lengthField 100) (ascii "book") =
        .ok (lengthConfig 100) ∧
      Survives (FieldConfig.fromJson · (ascii "book"))
        (FieldConfig.toJson · (.object [])) (lengthConfig 100) ∧
      ((Schema.new (ascii "book")).mergeFrom (lengthSchema 100)).thrown =
        none ∧
      ∃ copy : CollectionConfig Pipe Ngramcat.Categoriser,
        (lengthCollection 100 400).clone = .ok copy ∧
          copy.toJson = (lengthCollection 100 400).toJson := by
  refine ⟨Libraries.plain, ?_⟩
  let _ := Libraries.plain
  obtain ⟨hfield, hschema, hclone⟩ := fieldConfig_survives_iff
  have hparsed : (lengthField (100 : ℕ)).Parsed :=
    parsed_lengthField (by decide)
  have hread : FieldConfig.fromJson (lengthField (100 : ℕ)) (ascii "book") =
      .ok (lengthConfig 100) := fromJson_lengthField (by decide) _
  have hshort : (lengthSchema 100).Short := by
    intro entry hentry
    rw [mem_singleton.mp hentry]
    exact (by decide : 100 ≤ maxLengthLimit)
  refine ⟨hparsed, hread, (hfield _ _ _ hparsed hread).mpr ?_,
    ((hschema _ (ascii "book") (accepted_lengthSchema (by decide))).mpr
      hshort).1, (hclone _ (accepted_lengthCollection (by decide) (by decide)
        rfl)).mpr ⟨?_, ?_⟩⟩
  · intro _ _ _ length hlength
    cases hlength
    decide
  · intro entry hentry
    rw [mem_singleton.mp hentry]
    exact hshort
  · intro entry hentry
    rw [mem_singleton.mp hentry]
    exact ⟨by decide, by decide, by decide +kernel⟩

/-- A maximum length of 1000 is accepted, but what is written for it is not; and
neither is what is written for a categoriser with 100000 n-grams. -/
theorem fieldConfig_lost_thousand : ∃ _ : Libraries,
    (lengthField 1000).Parsed ∧
      FieldConfig.fromJson (lengthField 1000) (ascii "book") =
        .ok (lengthConfig 1000) ∧
      ¬ Survives (FieldConfig.fromJson · (ascii "book"))
        (FieldConfig.toJson · (.object [])) (lengthConfig 1000) ∧
      ((Schema.new (ascii "book")).mergeFrom (lengthSchema 1000)).thrown ≠
        none ∧
      ∀ copy : CollectionConfig Pipe Ngramcat.Categoriser,
        (lengthCollection 1000 400).clone ≠ .ok copy ∧
          (lengthCollection 100 100000).clone ≠ .ok copy := by
  have hlong : ¬ (lengthConfig 1000).Short :=
    (by decide : ¬ 1000 ≤ maxLengthLimit)
  have hschema : ¬ (lengthSchema 1000).Short := fun hshort =>
    hlong (hshort (ascii "isbn", lengthConfig 1000)
      (Std.ExtTreeMap.mem_toList_iff_getElem?_eq_some.mpr (by
        simp [lengthSchema])))
  refine ⟨Libraries.plain, parsed_lengthField (by decide),
    fromJson_lengthField (by decide) _, ?_, ?_, ?_⟩
  · rw [FieldConfig.survives_iff (accepted_lengthConfig (by decide)).given]
    exact hlong
  · exact @Schema.thrown_mergeFrom_new _ Libraries.plain hschema _
  · let _ := Libraries.plain
    intro copy
    constructor
    · intro hclone
      have haccepted := @accepted_lengthCollection 1000 (by decide) _ 400
        (by decide) rfl
      have hshort := (CollectionConfig.of_clone haccepted.given hclone).1
      exact hschema (hshort (ascii "book", lengthSchema 1000)
        (Std.ExtTreeMap.mem_toList_iff_getElem?_eq_some.mpr (by
          simp [lengthCollection])))
    · intro hclone
      have haccepted := @accepted_lengthCollection 100 (by decide) _ 100000
        (by decide) rfl
      obtain ⟨again, hagain⟩ := (CollectionConfig.of_clone haccepted.given hclone).2
        (ascii "lang", rankCategoriser 100000)
        (Std.ExtTreeMap.mem_toList_iff_getElem?_eq_some.mpr (by
          simp [lengthCollection]))
      have hfew := (Ngramcat.Categoriser.writable_of_fromJson hagain).2.1
      exact absurd hfew (by decide)

end Restpose.Config
