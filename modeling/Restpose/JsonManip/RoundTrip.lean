import Restpose.Core.Attempt
import Restpose.Core.Results
import Restpose.Config.CollectionConfig
import Restpose.Schema.FieldRoundTrip
import Restpose.JsonManip.Applying
import Restpose.JsonManip.Faults
import Restpose.JsonManip.Pipe

/-!
# Reading back pipes

What was read from JSON has only C strings as keys and fields.  Such paths,
conditionals, mappings and pipes are read back from the JSON that they are
written to.
-/

namespace Restpose

open Attempt JSONPathComponent Except List MappingActions

/-! ## Paths -/

namespace JSONPathComponent

/-- A component whose key is a C string. -/
def Clean : JSONPathComponent → Prop
  | key text => cString text = text
  | index _ => True

theorem clean_ofIndex (number : ℕ) : (ofIndex number).Clean :=
  trivial

variable (value : Json)

theorem clean_key_asString : (key value.asString).Clean := by
  cases value with
  | string text => exact cString_cString text
  | _ => rfl

theorem yields_asUInt : Yields (value.asUInt.map ofIndex) Clean := by
  intro component hread
  cases hnumber : value.asUInt with
  | ok number =>
    rw [hnumber] at hread
    cases hread
    exact clean_ofIndex number
  | error error =>
    rw [hnumber] at hread
    cases hread

theorem yields_set :
    Yields (set value) Clean := yields_ite (yields_ok (clean_key_asString value))
    (yields_ite (yields_asUInt value) (yields_error _))

theorem yields_readItem (item : Json) : Yields (readItem item) Clean :=
  yields_ite (yields_ite (yields_error _) (yields_asUInt item))
    (yields_ite (yields_ok (clean_key_asString item)) (yields_error _))

variable {component : JSONPathComponent}

theorem asUInt_get (number : Fin (2 ^ 32)) :
    (Json.uint number).asUInt.map ofIndex = .ok (index number) := by
  have hsmall : ¬4294967295 < number.val := by omega
  rw [Json.asUInt, if_neg hsmall]
  exact congrArg (ok ∘ index) (Fin.ofNat_val_eq_self number)

theorem set_get (hclean : component.Clean) : set component.get = .ok component := by
  cases component with
  | key text =>
    have htext : cString (cString text) = text := by
      rw [cString_cString, hclean]
    exact congrArg (ok ∘ key) htext
  | index number => exact asUInt_get number

theorem readItem_get (hclean : component.Clean) :
    readItem component.get = .ok component := by
  cases component with
  | key text =>
    have htext : cString (cString text) = text := by
      rw [cString_cString, hclean]
    exact congrArg (ok ∘ key) htext
  | index number => exact asUInt_get number

end JSONPathComponent

namespace JSONPath

/-- A path whose keys are C strings. -/
def Clean (path : JSONPath) : Prop :=
  ∀ component ∈ path, component.Clean

theorem yields_fromJson (value : Json) : Yields (fromJson value) Clean :=
  yields_bind fun _ _ => yields_mapM fun item _ =>
    yields_readItem item

theorem fromJson_toJson {path : JSONPath} (hclean : path.Clean) :
    fromJson path.toJson = .ok path := by
  have hread : (path.map JSONPathComponent.get).mapM readItem = .ok (path.map id) :=
    mapM_map fun component hcomponent =>
      JSONPathComponent.readItem_get (hclean component hcomponent)
  rw [List.map_id] at hread
  exact hread

end JSONPath

/-! ## Conditionals -/

namespace ConditionalClause

mutual

/-- The keys in the paths of a clause are C strings. -/
def Clean : ConditionalClause → Prop
  | existsAt path => path.Clean
  | get path => path.Clean
  | literal _ => True
  | equals children => CleanAll children

def CleanAll : List ConditionalClause → Prop
  | [] => True
  | clause :: clauses => Clean clause ∧ CleanAll clauses

end

theorem cleanAll_iff {clauses : List ConditionalClause} :
    CleanAll clauses ↔ ∀ clause ∈ clauses, clause.Clean := by
  induction clauses with
  | nil => simp [CleanAll]
  | cons clause clauses ih => simp [CleanAll, ih]

theorem yields_ofMember (name : Bytes) (obj : Json)
    {children : Except Thrown (List ConditionalClause)}
    (hchildren : Yields children CleanAll) :
    Yields (ofMember name obj children) Clean := by
  refine yields_ite ?_ (yields_ite ?_ (yields_ite (yields_ok trivial)
    (yields_ite ?_ (yields_error _))))
  · exact yields_bind fun _ _ => yields_bind fun path hpath =>
      yields_ok (JSONPath.yields_fromJson obj path hpath)
  · exact yields_bind fun _ _ => yields_bind fun path hpath =>
      yields_ok (JSONPath.yields_fromJson obj path hpath)
  · exact yields_bind fun _ _ => yields_bind fun clauses hclauses =>
      yields_ok (hchildren clauses hclauses)

theorem yields_fromJson (value : Json) : Yields (fromJson value) Clean := by
  by_cases hvalue : ∃ name obj, value = .object [(name, obj)]
  · obtain ⟨name, obj, hobject⟩ := hvalue
    rw [hobject, fromJson_member]
    refine yields_ofMember name obj fun clauses hclauses => ?_
    have hitems : ∀ item ∈ obj.items, Yields (fromJson item) Clean :=
      fun item hitem => yields_fromJson item
    exact cleanAll_iff.mpr (yields_mapM hitems clauses hclauses)
  · push Not at hvalue
    obtain ⟨message, heq⟩ := fromJson_eq_error hvalue
    rw [heq]
    exact yields_error _
termination_by sizeOf value
decreasing_by
  rw [hobject]
  exact sizeOf_lt_of_mem_items name hitem

theorem ofMember_exists {path : JSONPath} (hclean : path.Clean)
    (children : Except Thrown (List ConditionalClause)) :
    ofMember (ascii "exists") path.toJson children = .ok (existsAt path) := by
  rw [ofMember, if_pos rfl, JSONPath.fromJson_toJson hclean]
  rfl

theorem ofMember_get {path : JSONPath} (hclean : path.Clean)
    (children : Except Thrown (List ConditionalClause)) :
    ofMember (ascii "get") path.toJson children = .ok (get path) := by
  rw [ofMember, if_neg (by decide), if_pos rfl, JSONPath.fromJson_toJson hclean]
  rfl

theorem ofMember_equals (items : List Json) (clauses : List ConditionalClause) :
    ofMember (ascii "equals") (.array items) (.ok clauses) = .ok (equals clauses) := by
  rw [ofMember, if_neg (by decide), if_neg (by decide), if_neg (by decide), if_pos rfl]
  rfl

mutual

theorem fromJson_body : ∀ {clause : ConditionalClause}, clause.Clean →
    fromJson (.object [(clause.name, clause.body)]) = .ok clause
  | existsAt path, hclean =>
    (fromJson_member _ _).trans (ofMember_exists hclean _)
  | get path, hclean => (fromJson_member _ _).trans (ofMember_get hclean _)
  | literal value, _ => fromJson_member _ _
  | equals children, hclean => by
      rw [fromJson_member, body, Json.items, mapM_bodies hclean]
      exact ofMember_equals (bodies children) children

theorem mapM_bodies : ∀ {clauses : List ConditionalClause}, CleanAll clauses →
    (bodies clauses).mapM fromJson = .ok clauses
  | [], _ => rfl
  | clause :: clauses, hclean => by
      rw [bodies, mapM_cons, fromJson_body hclean.1, mapM_bodies hclean.2]
      rfl

end

end ConditionalClause

namespace Conditional

/-- The keys in the paths of a conditional are C strings. -/
def Clean : Conditional → Prop
  | none => True
  | some clause => clause.Clean

theorem yields_fromJson (value : Json) : Yields (fromJson value) Clean := by
  refine yields_ite (yields_ok trivial) fun conditional hread => ?_
  cases hclause : ConditionalClause.fromJson value with
  | error error =>
    rw [hclause] at hread
    cases hread
  | ok clause =>
    rw [hclause] at hread
    cases hread
    exact ConditionalClause.yields_fromJson value clause hclause

theorem fromJson_toJson {conditional : Conditional} (hclean : conditional.Clean) :
    fromJson conditional.toJson = .ok conditional := by
  cases conditional with
  | none => rfl
  | some clause =>
    rw [fromJson, toJson, ConditionalClause.fromJson_body hclean]
    rfl

end Conditional

/-! ## Mappings -/

namespace Mapping

/-- A target at a path, where all names are C strings. -/
structure CleanEntry (entry : JSONPath × MappingTarget) : Prop where
  path : JSONPath.Clean entry.1
  nonempty : entry.1 ≠ []
  field : cString entry.2.field = entry.2.field
  categoriser : cString entry.2.categoriser = entry.2.categoriser

theorem yields_find (path : Json) :
    Yields (find path) fun path => path.Clean ∧ path ≠ [] := by
  have hsingle : ∀ value, Yields (do
      let component ← set value
      return [component]) fun path : JSONPath => path.Clean ∧ path ≠ [] := by
    intro value
    refine yields_bind fun component hcomponent => yields_ok ⟨?_, nofun⟩
    intro other hother
    cases mem_singleton.mp hother
    exact yields_set value component hcomponent
  unfold find
  refine yields_ite (hsingle path) ?_
  split
  next => exact hsingle .null
  next items hitems =>
    intro components hread
    refine ⟨yields_mapM (fun item _ => yields_set item) components hread, ?_⟩
    rintro rfl
    have hlength := yields_length_mapM path.items _ hread
    exact hitems (eq_nil_of_length_eq_zero hlength.symm)

theorem yields_readTarget (entry : Json) : Yields (readTarget entry) CleanEntry := by
  refine yields_bind fun _ _ => yields_bind fun field _ =>
    yields_bind fun path hpath => yields_bind fun categoriser hread => yields_ok ?_
  obtain ⟨hclean, hnonempty⟩ := yields_find _ path hpath
  have hcategoriser : Yields (readCategoriser (entry.member (ascii "categoriser")))
      fun name => cString name = name :=
    yields_ite (yields_ok rfl)
      (yields_bind fun name _ => yields_ok (cString_cString name))
  exact ⟨hclean, hnonempty, cString_cString field, hcategoriser categoriser hread⟩

theorem yields_readTargets (mapval : Json) : Yields (readTargets mapval) fun entries =>
      ∀ entry ∈ entries, CleanEntry entry :=
  yields_ite (yields_ok nofun) (yields_bind fun _ _ =>
    yields_mapM fun entry _ => yields_readTarget entry)

/-- A mapping that was read: its names are C strings, and each node of its tree
leads to a target. -/
structure Clean (mapping : Mapping) : Prop where
  when : Conditional.Clean mapping.when
  pruned : mapping.mappings.Pruned
  entries : ∀ entry ∈ mapping.mappings.entries, CleanEntry entry

theorem yields_fromJson (value : Json) : Yields (fromJson value) Clean := by
  refine yields_bind fun _ _ => yields_bind fun when hwhen =>
    yields_bind fun targets htargets => yields_bind fun defaultAction _ =>
      yields_ok ?_
  refine ⟨Conditional.yields_fromJson _ when hwhen,
    KeyTree.pruned_empty.addAll targets, fun entry hentry => ?_⟩
  rcases KeyTree.mem_entries_addAll hentry with hadded | hempty
  · exact yields_readTargets _ targets htargets entry hadded
  · simp [KeyTree.empty, KeyTree.entries, KeyTree.entriesAll] at hempty

/-! ### Writing the tree -/

/-- The object for an entry below a path. -/
def writeEntry (start : List Json) (entry : JSONPath × MappingTarget) : Json :=
  targetToJson (start ++ entry.1.map JSONPathComponent.get) entry.2

theorem map_writeEntry_cons (start : List Json) (component : JSONPathComponent)
    (entries : List (JSONPath × MappingTarget)) :
    (entries.map fun entry => (component :: entry.1, entry.2)).map (writeEntry start) =
      entries.map (writeEntry (start ++ [component.get])) := by
  rw [map_map]
  refine map_congr_left fun entry _ => ?_
  simp [writeEntry]

/-- The loop of `to_json` writes the entries of the level on top of the
stack. -/
theorem writeTargets_cons : ∀ (children : List (JSONPathComponent × MappingActions))
      (stack : List (List (JSONPathComponent × MappingActions)))
      (start : List Json) (last : Json) (paths : List Json),
      writeTargets (children :: stack) (start ++ [last]) paths =
        writeTargets stack start (paths ++
          (KeyTree.entriesAll children).map (writeEntry start))
  | [], stack, start, last, paths => by
      rw [writeTargets, List.dropLast_concat]
      simp [KeyTree.entriesAll]
  | (component, .node targets children) :: rest, stack, start, last, paths => by
      rw [writeTargets, List.dropLast_concat,
        writeTargets_cons children (rest :: stack) (start ++ [component.get]),
        writeTargets_cons rest stack start component.get, KeyTree.entriesAll,
        KeyTree.entries, List.map_append, map_writeEntry_cons, List.map_append,
        List.map_map]
      have htargets : targets.map (targetToJson (start ++ [component.get])) =
          targets.map (writeEntry (start ++ [component.get]) ∘ fun target =>
            ([], target)) := by
        refine List.map_congr_left fun target _ => ?_
        simp [writeEntry]
      rw [htargets]
      simp only [List.append_assoc]

/-- A target is read back from its object. -/
theorem readTarget_writeEntry {entry : JSONPath × MappingTarget}
    (hclean : CleanEntry entry) : readTarget (writeEntry [] entry) = .ok entry := by
  obtain ⟨path, field, categoriser⟩ := entry
  obtain ⟨hpath, hnonempty, hfield, hcategoriser⟩ := hclean
  dsimp only at hpath hnonempty hfield hcategoriser
  have hfind : find (.array (path.map get)) = .ok path := by
    have hread : (path.map get).mapM set = .ok (path.map id) :=
      mapM_map fun component hcomponent =>
        JSONPathComponent.set_get (hpath component hcomponent)
    rw [List.map_id] at hread
    cases path with
    | nil => exact absurd rfl hnonempty
    | cons component path => exact hread
  have hmembers : (writeEntry [] (path, ⟨field, categoriser⟩)).isObject ∧
      (writeEntry [] (path, ⟨field, categoriser⟩)).member (ascii "to") = .string field ∧
      (writeEntry [] (path, ⟨field, categoriser⟩)).member (ascii "from") =
        .array (path.map get) ∧
      (writeEntry [] (path, ⟨field, categoriser⟩)).member (ascii "categoriser") =
        if categoriser = [] then .null else .string categoriser := by
    unfold writeEntry targetToJson
    split_ifs with hempty
    · simp +decide [Json.member_setMember, Json.ofString, hfield]
    · simp +decide [Json.member_setMember, Json.ofString, hfield, hcategoriser]
  obtain ⟨hobject, hto, hfrom, hname⟩ := hmembers
  unfold readTarget readCategoriser
  rw [Json.checkObject, if_pos hobject, hto, hfrom, hfind, hname]
  by_cases hempty : categoriser = []
  · rw [if_pos hempty, hempty]
    exact congrArg (fun text => ok (path, MappingTarget.mk text [])) hfield
  · rw [if_neg hempty]
    exact congrArg₂ (fun text name => ok (path, MappingTarget.mk text name)) hfield
      hcategoriser

theorem writeTargets_mappings (mapping : Mapping) (hroot : mapping.mappings.values = []) :
    writeTargets [mapping.mappings.children] [.null] [] =
      mapping.mappings.entries.map (writeEntry []) := by
  obtain ⟨when, ⟨values, children⟩, defaultAction⟩ := mapping
  have hvalues : values = [] := hroot
  subst hvalues
  have hlevel := writeTargets_cons children [] [] .null []
  rw [writeTargets] at hlevel
  exact hlevel

theorem Clean.values_eq_nil {mapping : Mapping} (hclean : mapping.Clean) :
    mapping.mappings.values = [] := by
  refine eq_nil_iff_forall_not_mem.mpr fun target htarget => ?_
  have hentry : ([], target) ∈ mapping.mappings.entries :=
    KeyTree.mem_entries_of_mem_valuesAt htarget
  exact (hclean.entries _ hentry).nonempty rfl

theorem member_toJson {mapping : Mapping} (hclean : mapping.Clean) :
    mapping.toJson.isObject ∧
      mapping.toJson.member (ascii "when") = Conditional.toJson mapping.when ∧
      mapping.toJson.member (ascii "map") = (if mapping.mappings.entries = [] then .null
        else .array (mapping.mappings.entries.map (writeEntry []))) ∧
      mapping.toJson.member (ascii "default") = (match mapping.defaultAction with
        | .discard => .string (ascii "discard")
        | .preserveTop => .null) := by
  have hpaths := writeTargets_mappings mapping hclean.values_eq_nil
  obtain ⟨when, mappings, defaultAction⟩ := mapping
  unfold toJson
  simp only [hpaths, List.isEmpty_map, List.isEmpty_iff]
  by_cases hempty : mappings.entries = []
  all_goals
    cases when <;> cases defaultAction <;>
      simp +decide [hempty, Json.member_setMember, Conditional.toJson]

/-- A mapping that was read is read back from its JSON. -/
theorem fromJson_toJson {mapping : Mapping} (hclean : mapping.Clean) :
    fromJson mapping.toJson = .ok mapping := by
  obtain ⟨hobject, hwhen, hmap, hdefault⟩ := member_toJson hclean
  have htargets : readTargets (mapping.toJson.member (ascii "map")) =
      .ok mapping.mappings.entries := by
    rw [hmap]
    split_ifs with hempty
    · rw [hempty]
      rfl
    · have hread : (mapping.mappings.entries.map (writeEntry [])).mapM
          readTarget = .ok (mapping.mappings.entries.map id) :=
        mapM_map fun entry hentry =>
          readTarget_writeEntry (hclean.entries entry hentry)
      rw [List.map_id] at hread
      exact hread
  have haction : readDefault (mapping.toJson.member (ascii "default")) =
      .ok mapping.defaultAction := by
    rw [hdefault]
    cases mapping.defaultAction <;> rfl
  have hcheck : liftInvalid (mapping.toJson.checkObject "mapping") = .ok () := by
    rw [Json.checkObject, if_pos hobject]
    rfl
  unfold fromJson
  rw [hcheck, hwhen, Conditional.fromJson_toJson hclean.when, htargets, haction]
  change ok (Mapping.mk mapping.when
    (KeyTree.addAll mapping.mappings.entries .empty) mapping.defaultAction) = _
  rw [KeyTree.addAll_entries hclean.pruned]

end Mapping

/-! ## Pipes -/

namespace Pipe

/-- A pipe that was read. -/
structure Clean (pipe : Pipe) : Prop where
  mappings : ∀ mapping ∈ pipe.mappings, mapping.Clean
  target : cString pipe.target = pipe.target

theorem yields_fromJson (value : Json) : Yields (fromJson value) Clean := by
  refine yields_bind fun _ _ => yields_bind fun mappings hmappings =>
    yields_bind fun applyAll _ => yields_bind fun target htarget =>
      yields_ok ⟨?_, ?_⟩
  · refine (yields_ite (yields_ok nofun) ?_ :
      Yields (readMappings _) fun mappings => ∀ mapping ∈ mappings,
        mapping.Clean) mappings hmappings
    exact yields_bind fun _ _ => yields_mapM fun item _ =>
      Mapping.yields_fromJson item
  · refine (yields_ite (yields_ok rfl) ?_ :
      Yields (readPipeTarget _) fun target => cString target = target) target htarget
    exact yields_bind fun text _ => yields_ok (cString_cString text)

theorem member_toJson {pipe : Pipe} (hclean : pipe.Clean) : pipe.toJson.isObject ∧
      pipe.toJson.member (ascii "mappings") = (if pipe.mappings = [] then .null
        else .array (pipe.mappings.map Mapping.toJson)) ∧
      pipe.toJson.member (ascii "apply_all") =
        (if pipe.applyAll then .bool true else .null) ∧
      pipe.toJson.member (ascii "target") =
        (if pipe.target = [] then .null else .string pipe.target) := by
  have htarget := hclean.target
  obtain ⟨mappings, applyAll, target⟩ := pipe
  dsimp only at htarget
  unfold toJson
  simp only [List.isEmpty_iff]
  by_cases hmappings : mappings = []
  all_goals
    cases applyAll <;> by_cases hempty : target = [] <;>
      simp +decide [hmappings, hempty, Json.member_setMember, Json.ofString, htarget]

theorem fromJson_toJson {pipe : Pipe} (hclean : pipe.Clean) :
    fromJson pipe.toJson = .ok pipe := by
  obtain ⟨hobject, hmappings, hall, htarget⟩ := member_toJson hclean
  have hread : readMappings (pipe.toJson.member (ascii "mappings")) =
      .ok pipe.mappings := by
    rw [hmappings]
    split_ifs with hempty
    · rw [hempty]
      rfl
    · have hitems : (pipe.mappings.map Mapping.toJson).mapM Mapping.fromJson =
          .ok (pipe.mappings.map id) :=
        mapM_map fun mapping hmapping =>
          Mapping.fromJson_toJson (hclean.mappings mapping hmapping)
      rw [List.map_id] at hitems
      exact hitems
  have hflag : readApplyAll (pipe.toJson.member (ascii "apply_all")) =
      .ok pipe.applyAll := by
    rw [hall]
    cases pipe.applyAll <;> rfl
  have hname : readPipeTarget (pipe.toJson.member (ascii "target")) =
      .ok pipe.target := by
    rw [htarget]
    split_ifs with hempty
    · rw [hempty]
      rfl
    · exact congrArg ok hclean.target
  have hcheck : liftInvalid (pipe.toJson.checkObject "pipe definition") = .ok () := by
    rw [Json.checkObject, if_pos hobject]
    rfl
  unfold fromJson
  rw [hcheck, hread, hflag, hname]
  rfl

/-- A pipe that was read from JSON is read back from its own JSON, and copying
the conditionals of its mappings does not change them. -/
theorem fromJson_survives (value : Json) (pipe : Pipe)
    (hread : fromJson value = .ok pipe) :
    fromJson pipe.toJson = .ok pipe ∧
      ∀ mapping ∈ pipe.mappings,
        Conditional.copy mapping.when = .ok mapping.when := by
  have hclean := yields_fromJson value pipe hread
  exact ⟨fromJson_toJson hclean, fun mapping hmapping =>
    Conditional.fromJson_toJson (hclean.mappings mapping hmapping).when⟩

/-- A pipe with one mapping. -/
def nextPipe : Pipe where
  mappings := [⟨some (.existsAt [.key (ascii "tags")]),
    KeyTree.addAll [([.key (ascii "tags"), .index 1], ⟨ascii "tag", []⟩)] .empty,
    .preserveTop⟩]
  applyAll := true
  target := ascii "next"

/-- A text that it is read from. -/
def nextJson : Json :=
  .object [(ascii "apply_all", .bool true),
    (ascii "mappings", .array [.object [
      (ascii "map", .array [.object [
        (ascii "from", .array [.string (ascii "tags"), .int 1]),
        (ascii "to", .string (ascii "tag"))]]),
      (ascii "when", .object [(ascii "exists",
        .array [.string (ascii "tags")])])]]),
    (ascii "target", .string (ascii "next"))]

theorem fromJson_nextJson : fromJson nextJson = .ok nextPipe := rfl

theorem fromJson_survives_next :
    fromJson nextJson = .ok nextPipe ∧
      fromJson nextPipe.toJson = .ok nextPipe :=
  ⟨fromJson_nextJson,
    (fromJson_survives nextJson nextPipe fromJson_nextJson).1⟩

/-- Pipes as parts of a configuration. -/
instance : Config.Part Pipe where
  fromJson := fromJson
  toJson := toJson

/-- Pipes that were read satisfy what the configurations assume of them. -/
theorem Clean.survives {pipe : Pipe} (hclean : pipe.Clean) :
    Config.Survives Config.Part.fromJson Config.Part.toJson pipe :=
  ⟨pipe, fromJson_toJson hclean, rfl⟩

end Pipe

end Restpose
