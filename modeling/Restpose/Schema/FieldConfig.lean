import Restpose.Json.Utils
import Restpose.Core.Attempt

/-!
# Field configurations

How a field of a document is indexed.  A configuration is read from JSON and
written back to it; the patterns of a schema make configurations for fields
that have none.
-/

namespace Restpose.Config

open List Std.ExtTreeMap Json Attempt

/-! ## Slots -/

def badValueno : ℕ := 0xffffffff

/-- A slot with its number, and with its name if it was given by name. -/
structure SlotName where
  name : Bytes
  num : ℕ
  deriving DecidableEq

namespace SlotName

def hashSlot (name : Bytes) : ℕ :=
  if name = [] then badValueno
  else
    let hash := name.foldl
      (fun hash byte => (hash + (hash * 32 + byte.val)) % 2 ^ 64) 1
    (0x0fffffff + 1 + (hash &&& 0xefffffff)) % 2 ^ 32

/-- The constructor of `SlotName` from a JSON value. -/
def fromJson (value : Json) : Except Thrown SlotName :=
  if value.isNull then .ok ⟨[], badValueno⟩
  else if value.isIntegral then
    if value.lessThanInt 0 then
      .error (.invalid (ascii "Value for slot number was negative"))
    else if value.greaterThanUInt 0xffffffff then
      .error (.invalid (ascii
        "Value for slot number was larger than maximum allowed (" ++
          decimal 0xffffffff ++ ascii ")"))
    else value.asUInt.map fun num => ⟨[], num⟩
  else
    match value with
    | .string text => .ok ⟨text, hashSlot text⟩
    | _ => .error (.invalid (ascii
        "Value for slot number was not an integer or a string."))

def toJson (slot : SlotName) (value : Json) (key : String) : Json :=
  if slot.name = [] then
    if slot.num = badValueno then value
    else value.setMember (ascii key) (.uint slot.num)
  else value.setMember (ascii key) (.ofString slot.name)

end SlotName

/-! ## Configurations -/

inductive TooLongAction where
  | error
  | hash
  | truncate
  deriving DecidableEq

/-- `MaxLenFieldConfig`, the part that fields with a maximum length share. -/
structure MaxLenFieldConfig where
  slot : SlotName
  maxLength : ℕ
  tooLongAction : TooLongAction
  deriving DecidableEq

/-- The classes derived from `FieldConfig`. -/
inductive FieldConfig where
  | metadata (termPrefix : Bytes) (slot : SlotName)
  | id (limits : MaxLenFieldConfig) (storeField termPrefix : Bytes)
  | exact (limits : MaxLenFieldConfig) (termPrefix storeField : Bytes)
      (wdfinc : ℕ) (lowercase : Bool)
  | text (termPrefix storeField processor : Bytes) (slot : SlotName)
  | double (slot : SlotName) (storeField : Bytes)
  | timestamp (slot : SlotName) (storeField : Bytes)
  | date (slot : SlotName) (storeField : Bytes)
  | category (limits : MaxLenFieldConfig)
      (termPrefix taxonomyName storeField : Bytes)
  | lonlat (slot : SlotName) (storeField : Bytes)
  | stored (storeField : Bytes)
  | ignored
  deriving DecidableEq

/-! ## Reading -/

private def argumentError (key problem : String) : Thrown :=
  .invalid (ascii "Field configuration argument \"" ++ ascii key ++
    ascii problem)

/-- A member that has to be a text without tabs that is not empty. -/
def checkedMember (value : Json) (key : String) :
    Except Thrown Bytes := do
  let text ← value.getStringMember key []
  if text = [] then throw (argumentError key "\" may not be empty")
  else if text.contains 9 then
    throw (argumentError key "\" contains invalid character \\t")
  else return text

/-- The beginning of the terms of a field. -/
def groupPrefix (value : Json) : Except Thrown Bytes := do
  let group ← checkedMember value "group"
  return group ++ ascii "\t"

def TooLongAction.fromText (text : Bytes) :
    Except Thrown TooLongAction :=
  if text = ascii "error" then .ok .error
  else if text = ascii "hash" then .ok .hash
  else if text = ascii "truncate" then .ok .truncate
  else .error (.invalid (ascii "Field configuration too_long_action \"" ++
    text ++ ascii "\" is not supported"))

/-- Members that are numbers are kept in an `unsigned int`. -/
def MaxLenFieldConfig.fromJson (value : Json) :
    Except Thrown MaxLenFieldConfig := do
  liftInvalid (value.checkObject "field configuration")
  let maxLength ← value.getUInt64MemberOr "max_length" 240 64
  let actionText ← value.getStringMember "too_long_action" (ascii "error")
  let tooLongAction ← TooLongAction.fromText actionText
  let slot ← SlotName.fromJson (value.member (ascii "slot"))
  return ⟨slot, maxLength % 2 ^ 32, tooLongAction⟩

/-- The fields with a slot and a stored value share one constructor body. -/
def slotAndStore (value : Json) (make : SlotName → Bytes → FieldConfig) :
    Except Thrown FieldConfig := do
  liftInvalid (value.checkObject "schema object")
  let slot ← SlotName.fromJson (value.member (ascii "slot"))
  let storeField ← value.getStringMember "store_field" []
  return make slot storeField

namespace FieldConfig

def metadataFromJson (value : Json) : Except Thrown FieldConfig := do
  liftInvalid (value.checkObject "field configuration")
  let termPrefix ← groupPrefix value
  let slot ← SlotName.fromJson (value.member (ascii "slot"))
  return .metadata termPrefix slot

/-- The beginning of the id terms of a type. -/
def idPrefix (docType : Bytes) : Bytes :=
  ascii "\t" ++ docType ++ ascii "\t"

def idFromJson (value : Json) (docType : Bytes) :
    Except Thrown FieldConfig := do
  let limits ← MaxLenFieldConfig.fromJson value
  let storeField ← value.getStringMember "store_field" []
  return .id limits storeField (idPrefix docType)

def exactFromJson (value : Json) : Except Thrown FieldConfig := do
  let limits ← MaxLenFieldConfig.fromJson value
  let termPrefix ← groupPrefix value
  let storeField ← value.getStringMember "store_field" []
  let wdfinc ← value.getUInt64MemberOr "wdfinc" 18446744073709551615 0
  let lowercase ← value.getBool "lowercase" false
  return .exact limits termPrefix storeField (wdfinc % 2 ^ 32) lowercase

def textFromJson (value : Json) : Except Thrown FieldConfig := do
  liftInvalid (value.checkObject "schema object")
  let termPrefix ← groupPrefix value
  let storeField ← value.getStringMember "store_field" []
  let processor ← value.getStringMember "processor" []
  let slot ← SlotName.fromJson (value.member (ascii "slot"))
  return .text termPrefix storeField processor slot

def doubleFromJson (value : Json) : Except Thrown FieldConfig :=
  slotAndStore value .double

def timestampFromJson (value : Json) : Except Thrown FieldConfig :=
  slotAndStore value .timestamp

def dateFromJson (value : Json) : Except Thrown FieldConfig :=
  slotAndStore value .date

def lonlatFromJson (value : Json) : Except Thrown FieldConfig :=
  slotAndStore value .lonlat

/-- The slot is read a second time, from the same member. -/
def categoryFromJson (value : Json) : Except Thrown FieldConfig := do
  let limits ← MaxLenFieldConfig.fromJson value
  let termPrefix ← groupPrefix value
  let taxonomyName ← checkedMember value "taxonomy"
  let storeField ← value.getStringMember "store_field" []
  let slot ← SlotName.fromJson (value.member (ascii "slot"))
  return .category { limits with slot } termPrefix taxonomyName storeField

def storedFromJson (value : Json) : Except Thrown FieldConfig := do
  liftInvalid (value.checkObject "schema object")
  let storeField ← value.getStringMember "store_field" []
  if storeField = [] then
    throw (argumentError "store_field" "\" may not be empty")
  else return .stored storeField

/-- The constructor that `FieldConfig::from_json` calls for a type. -/
def ofType (value : Json) (docType type : Bytes) :
    Except Thrown FieldConfig :=
  if type = ascii "cat" then categoryFromJson value
  else if type = ascii "date" then dateFromJson value
  else if type = ascii "double" then doubleFromJson value
  else if type = ascii "exact" then exactFromJson value
  else if type = ascii "id" then idFromJson value docType
  else if type = ascii "ignore" then .ok .ignored
  else if type = ascii "lonlat" then lonlatFromJson value
  else if type = ascii "meta" then metadataFromJson value
  else if type = ascii "stored" then storedFromJson value
  else if type = ascii "text" then textFromJson value
  else if type = ascii "timestamp" then timestampFromJson value
  else .error (.invalid (ascii "Field configuration type \"" ++ type ++
    ascii "\" is not supported"))

def fromJson (value : Json) (docType : Bytes) :
    Except Thrown FieldConfig := do
  liftInvalid (value.checkObject "field configuration")
  let type ← value.getStringMember "type" []
  ofType value docType type

end FieldConfig

/-! ## Writing -/

/-- Assign to the members of an object, one after the other. -/
def assign (value : Json) (members : List (String × Json)) : Json :=
  members.foldl (fun value entry => value.setMember (ascii entry.1) entry.2)
    value

@[simp]
theorem assign_nil (value : Json) : assign value [] = value :=
  rfl

@[simp]
theorem assign_cons (value new : Json) (name : String) (members : List (String × Json)) :
    assign value ((name, new) :: members) =
      assign (value.setMember (ascii name) new) members :=
  rfl

/-- An object with a member for every entry of a map. -/
def mapToJson {Value : Type} (write : Value → Json) (map : StdMap Value) :
    Json :=
  map.toList.foldl
    (fun value entry => value.setMember (cString entry.1) (write entry.2))
    (.object [])

/-- Where all names are C strings, the members are those of the map. -/
theorem mapToJson_eq {Value : Type} (write : Value → Json) {map : StdMap Value}
    (hnames : ∀ entry ∈ map.toList, cString entry.1 = entry.1) :
    mapToJson write map = .object
      (map.toList.map fun entry => (entry.1, write entry.2)) := by
  -- The entries come in the order of the names, so each is put at the end.
  have hfold : ∀ entries written : List (Bytes × Value), (written ++ entries).Pairwise
        (fun left right => compare left.1 right.1 = .lt) →
      (∀ entry ∈ entries, cString entry.1 = entry.1) →
      entries.foldl (fun value entry =>
            value.setMember (cString entry.1) (write entry.2))
          (object (written.map fun entry => (entry.1, write entry.2))) =
        .object ((written ++ entries).map fun entry =>
          (entry.1, write entry.2)) := by
    intro entries
    induction entries with
    | nil => simp
    | cons first rest ih =>
      intro written hordered hnames
      have hlast : ∀ entry ∈ written.map fun entry =>
          (entry.1, write entry.2), compare entry.1 first.1 = .lt := by
        intro entry hentry
        obtain ⟨before, hbefore, rfl⟩ := mem_map.mp hentry
        exact (pairwise_append.mp hordered).2.2 before hbefore first
          mem_cons_self
      have hstep := ih (written ++ [first]) (by simpa using hordered)
        fun entry hentry => hnames entry (mem_cons_of_mem _ hentry)
      rw [foldl_cons, hnames first mem_cons_self, setMember, members,
        insertMember_last _ hlast]
      simpa using hstep
  exact hfold map.toList [] ordered_keys_toList hnames

section Members

variable {Value : Type} {write : Value → Json} {map : StdMap Value}
  {name : Bytes}

theorem member_foldl_of_ne {entries : List (Bytes × Value)}
    (hentries : ∀ entry ∈ entries, cString entry.1 ≠ name) (value : Json) :
    (entries.foldl (fun value entry =>
      value.setMember (cString entry.1) (write entry.2)) value).member name =
        value.member name := by
  induction entries generalizing value with
  | nil => rfl
  | cons entry entries ih =>
    rw [foldl_cons, ih fun other hother =>
      hentries other (mem_cons_of_mem _ hother)]
    exact member_setMember_of_ne _ _ (hentries entry mem_cons_self).symm

theorem member_mapToJson_of_ne (hname : ∀ entry ∈ map.toList, cString entry.1 ≠ name) :
    (mapToJson write map).member name = .null :=
  member_foldl_of_ne hname (.object [])

theorem member_mapToJson (hnames : ∀ entry ∈ map.toList, cString entry.1 = entry.1) :
    (mapToJson write map).member name = (map[name]?).elim .null write := by
  cases hfind : map[name]? with
  | none =>
    apply member_mapToJson_of_ne
    intro entry hentry heq
    rw [hnames entry hentry] at heq
    rw [mem_toList_iff_getElem?_eq_some, heq, hfind] at hentry
    cases hentry
  | some value =>
    have hmem : (name, value) ∈ map.toList := mem_toList_iff_getElem?_eq_some.mpr hfind
    obtain ⟨before, after, hsplit⟩ := append_of_mem hmem
    have hdistinct := StdMap.nodup_keys_toList map
    rw [hsplit, map_append, map_cons, nodup_append, nodup_cons] at hdistinct
    have hafter : ∀ entry ∈ after, cString entry.1 ≠ name := by
      intro entry hentry heq
      rw [hnames entry (by simp [hsplit, hentry])] at heq
      apply hdistinct.2.1.1
      exact mem_map.mpr ⟨entry, hentry, heq⟩
    have hname : cString name = name := hnames _ hmem
    rw [mapToJson, hsplit, foldl_append, foldl_cons, member_foldl_of_ne hafter, hname]
    exact member_setMember_self _ _ _

end Members

def TooLongAction.toText : TooLongAction → String
  | .error => "error"
  | .hash => "hash"
  | .truncate => "truncate"

/-- A literal in the source, as a JSON value. -/
def literal (text : String) : Json :=
  .string (ascii text)

def MaxLenFieldConfig.toJson (limits : MaxLenFieldConfig) (value : Json) :
    Json :=
  limits.slot.toJson
    (assign value [("max_length", .uint limits.maxLength),
      ("too_long_action", literal limits.tooLongAction.toText)]) "slot"

namespace FieldConfig

/-- The group that terms with this beginning belong to. -/
def groupOf (termPrefix : Bytes) : Json :=
  .ofString termPrefix.dropLast

def slotThenStore (type : String) (slot : SlotName)
    (storeField : Bytes) (value : Json) : Json :=
  assign (slot.toJson (assign value [("type", literal type)]) "slot")
    [("store_field", .ofString storeField)]

/-- `to_json`, which writes into a value that is an object. -/
def toJson (config : FieldConfig) (value : Json) : Json :=
  match config with
  | .metadata termPrefix slot =>
      slot.toJson (assign value [("type", literal "meta"),
        ("group", groupOf termPrefix)]) "slot"
  | .id limits storeField _ =>
      assign (limits.toJson value) [("type", literal "id"),
        ("store_field", .ofString storeField)]
  | .exact limits termPrefix storeField wdfinc lowercase =>
      assign (limits.toJson value) [("type", literal "exact"),
        ("group", groupOf termPrefix), ("store_field", .ofString storeField),
        ("wdfinc", .uint wdfinc), ("lowercase", .bool lowercase)]
  | .text termPrefix storeField processor slot =>
      slot.toJson (assign value [("type", literal "text"),
        ("group", groupOf termPrefix), ("store_field", .ofString storeField),
        ("processor", .ofString processor)]) "slot"
  | .double slot storeField => slotThenStore "double" slot storeField value
  | .timestamp slot storeField =>
      slotThenStore "timestamp" slot storeField value
  | .date slot storeField => slotThenStore "date" slot storeField value
  | .category limits termPrefix taxonomyName storeField =>
      limits.slot.toJson (assign (limits.toJson value)
        [("type", literal "cat"), ("group", groupOf termPrefix),
          ("taxonomy", .ofString taxonomyName),
          ("store_field", .ofString storeField)]) "slot"
  | .lonlat slot storeField => slotThenStore "lonlat" slot storeField value
  | .stored storeField =>
      assign value [("type", literal "stored"),
        ("store_field", .ofString storeField)]
  | .ignored => assign value [("type", literal "ignore")]

end FieldConfig

/-! ## Patterns -/

structure FieldConfigPattern where
  leadingWildcard : Bool
  ending : Bytes
  config : Json

namespace FieldConfigPattern

/-- A pattern that nothing has been read into. -/
def blank : FieldConfigPattern :=
  ⟨false, [], .null⟩

def fromJson (pattern : FieldConfigPattern) (value : Json) :
    Attempt Thrown FieldConfigPattern :=
  .withValue pattern (liftInvalid (value.checkArray "schema pattern"))
    fun _ =>
  if value.size ≠ 2 then
    .fail pattern (.invalid (ascii
      "Schema patterns must be arrays of length 2"))
  else
    .withValue pattern (liftInvalid
      ((value.item 0).checkString "field in schema pattern")) fun text =>
    .withValue pattern (liftInvalid
      ((value.item 1).checkObject "config in schema pattern")) fun _ =>
    let wildcard := text.head? == some 42
    let ending := if wildcard then text.tail else text
    if ending.contains 42 then
      .fail { pattern with leadingWildcard := wildcard } (.invalid (ascii
        "fields in schema patterns must not contain a * other than at the start"))
    else .done ⟨wildcard, ending, value.item 1⟩

def toJson (pattern : FieldConfigPattern) : Json :=
  .array [.ofString (if pattern.leadingWildcard then
    ascii "*" ++ pattern.ending else pattern.ending), pattern.config]

/-- The first `*` of a text replaced by what the wildcard stands for. -/
def substitute (matched : Bytes) (item : Json) : Json :=
  match item with
  | .string text =>
      if text.contains 42 then
        .ofString (text.takeWhile (· ≠ 42) ++ matched ++
          (text.dropWhile (· ≠ 42)).tail)
      else item
  | _ => item

/-- `FieldConfigPattern::test`, with no configuration for a field that does not
match. -/
def test (pattern : FieldConfigPattern) (fieldname docType : Bytes) :
    Except Thrown (Option FieldConfig) :=
  if pattern.leadingWildcard then
    if pattern.ending.isSuffixOf fieldname then
      let matched := fieldname.take
        (fieldname.length - pattern.ending.length)
      let newconfig := pattern.config.members.foldl
        (fun value entry =>
          value.setMember entry.1 (substitute matched entry.2)) .null
      (FieldConfig.fromJson newconfig docType).map some
    else .ok none
  else if fieldname = pattern.ending then
    (FieldConfig.fromJson pattern.config docType).map some
  else .ok none

theorem parsed_substitute (matched : Bytes) {item : Json} (hparsed : item.Parsed) :
    (substitute matched item).Parsed := by
  cases item with
  | string text =>
    simp only [substitute]
    split
    · exact .ofString _
    · exact hparsed
  | _ => exact hparsed

theorem parsed_substituted (matched : Bytes) {config : Json} (hparsed : config.Parsed) :
    (config.members.foldl (fun value entry =>
      value.setMember entry.1 (substitute matched entry.2)) null).Parsed := by
  have hfold : ∀ (entries : List (Bytes × Json)) (value : Json),
      (∀ entry ∈ entries, entry ∈ config.members) → value.Parsed →
      (entries.foldl (fun value entry =>
        value.setMember entry.1 (substitute matched entry.2)) value).Parsed := by
    intro entries
    induction entries with
    | nil => exact fun _ _ hvalue => hvalue
    | cons entry entries ih =>
      intro value hentries hvalue
      have hentry := hentries entry mem_cons_self
      apply ih _ fun other hother =>
        hentries other (mem_cons_of_mem _ hother)
      exact hvalue.setMember (hparsed.name_of_mem hentry)
        (parsed_substitute matched (hparsed.of_mem_members hentry))
  exact hfold config.members .null (fun _ => id) .null

/-- What a pattern makes is read from the JSON of the pattern, or from this
JSON with the wildcard replaced. -/
theorem yields_test {pattern : FieldConfigPattern} {docType : Bytes}
    {post : FieldConfig → Prop}
    (hread : ∀ value : Json, (pattern.config.Parsed → value.Parsed) →
      Attempt.Yields (FieldConfig.fromJson value docType) post)
    (fieldname : Bytes) :
    Attempt.Yields (pattern.test fieldname docType) fun found =>
      ∀ config ∈ found, post config := by
  have hmap : ∀ value : Json, (pattern.config.Parsed → value.Parsed) →
      Attempt.Yields ((FieldConfig.fromJson value docType).map some)
        fun found => ∀ config ∈ found, post config := by
    intro value hparsed found hfound
    cases hvalue : FieldConfig.fromJson value docType with
    | error error => rw [hvalue] at hfound; cases hfound
    | ok config =>
      rw [hvalue] at hfound
      cases hfound
      rintro _ ⟨⟩
      exact hread value hparsed config hvalue
  apply yields_ite
  · apply yields_ite
    · exact hmap _ (parsed_substituted _)
    · exact yields_ok nofun
  · apply yields_ite
    · exact hmap _ id
    · exact yields_ok nofun

end FieldConfigPattern

structure FieldConfigPatterns where
  patterns : List FieldConfigPattern

namespace FieldConfigPatterns

/-- A pattern is put into the list before it is read. -/
def fromJson (value : Json) : Attempt Thrown FieldConfigPatterns :=
  .withValue ⟨[]⟩ (liftInvalid (value.checkArray "schema pattern list"))
    fun _ =>
  .forEach (fun item state =>
      let read := FieldConfigPattern.blank.fromJson item
      ⟨⟨state.patterns ++ [read.state]⟩, read.thrown⟩)
    value.items ⟨[]⟩

def toJson (patterns : FieldConfigPatterns) : Json :=
  .array (patterns.patterns.map FieldConfigPattern.toJson)

def mergeFrom (patterns other : FieldConfigPatterns) : FieldConfigPatterns :=
  if other.patterns = [] then patterns else other

/-- The configuration of the first pattern that matches. -/
def firstMatch (fieldname docType : Bytes) :
    List FieldConfigPattern → Except Thrown (Option FieldConfig)
  | [] => .ok none
  | pattern :: rest => do
      match ← pattern.test fieldname docType with
      | some config => return some config
      | none => firstMatch fieldname docType rest

def get (patterns : FieldConfigPatterns) (fieldname docType : Bytes) :
    Except Thrown (Option FieldConfig) :=
  firstMatch fieldname docType patterns.patterns

theorem yields_get {patterns : FieldConfigPatterns} {docType : Bytes}
    {post : FieldConfig → Prop}
    (hread : ∀ pattern ∈ patterns.patterns, ∀ value : Json,
      (pattern.config.Parsed → value.Parsed) →
        Attempt.Yields (FieldConfig.fromJson value docType) post)
    (fieldname : Bytes) :
    Attempt.Yields (patterns.get fieldname docType) fun found =>
      ∀ config ∈ found, post config := by
  obtain ⟨list⟩ := patterns
  change Attempt.Yields (firstMatch fieldname docType list) _
  induction list with
  | nil => exact yields_ok nofun
  | cons pattern rest ih =>
    apply yields_bind
    intro found hfound
    cases found with
    | none =>
      exact ih fun other hother =>
        hread other (mem_cons_of_mem _ hother)
    | some config =>
      apply yields_ok
      exact FieldConfigPattern.yields_test (hread pattern mem_cons_self)
        fieldname _ hfound

end FieldConfigPatterns

end Restpose.Config
