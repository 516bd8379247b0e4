import Restpose.Json.Value
import Restpose.Xapian.Libraries

/-!
# Access to JSON values

The accessors of the bundled JSON library.  Strings and names end before their
first zero byte, since the library keeps them as C strings.
-/

namespace Restpose

open List

/-- The exceptions that the modelled code throws. -/
inductive Thrown where
  | invalidValue (error : InvalidValueError)
  /-- `std::runtime_error`, thrown by the JSON library. -/
  | runtimeError (message : Bytes)
  /-- `std::length_error`, thrown by `std::string::reserve`. -/
  | lengthError
  | xapian (error : XapianError)
  deriving DecidableEq

/-- `throw InvalidValueError(message)`. -/
def Thrown.invalid (message : Bytes) : Thrown :=
  .invalidValue ⟨message⟩

/-- An `InvalidValueError` is passed on. -/
def liftInvalid {Value : Type} : Except InvalidValueError Value →
    Except Thrown Value
  | .ok value => .ok value
  | .error error => .error (.invalidValue error)

/-- The decimal digits of a number, as `str` and `Json::valueToString` print
them. -/
def decimal (number : ℕ) : Bytes :=
  ascii (toString number)

/-- What a C string with these bytes holds. -/
def cString (text : Bytes) : Bytes :=
  text.takeWhile (· ≠ 0)

theorem cString_eq_self_iff {text : Bytes} : cString text = text ↔ (0 : Byte) ∉ text := by
  rw [cString, takeWhile_eq_self_iff]
  simp only [decide_eq_true_eq]
  exact ⟨fun hbytes hzero => hbytes 0 hzero rfl, fun hzero byte hbyte heq =>
    hzero (heq ▸ hbyte)⟩

theorem cString_cString (text : Bytes) : cString (cString text) = cString text := by
  rw [cString_eq_self_iff, cString]
  intro hzero
  simpa using mem_takeWhile_imp hzero

theorem cString_tail {text : Bytes} (htext : cString text = text) :
    cString text.tail = text.tail := by
  rw [cString_eq_self_iff] at htext ⊢
  exact fun hzero => htext (mem_of_mem_tail hzero)

namespace Json

def isString : Json → Bool
  | string _ => true
  | _ => false

/-- `Value::isIntegral`, true of booleans as well. -/
def isIntegral : Json → Bool
  | int _ => true
  | uint _ => true
  | bool _ => true
  | _ => false

def isNumeric : Json → Bool
  | real _ => true
  | value => value.isIntegral

/-- `Value::asString` of a string. -/
def asString : Json → Bytes
  | string text => cString text
  | _ => []

/-- `Value(const std::string &)`. -/
def ofString (text : Bytes) : Json :=
  string (cString text)

def size : Json → ℕ
  | array entries => entries.length
  | object entries => entries.length
  | _ => 0

/-- `Value::empty`. -/
def isEmpty (value : Json) : Bool :=
  (value.isNull || value.isArray || value.isObject) && value.size == 0

/-- `Value::operator[](key) const` and `Value::get(key, null)`: `null` if there
is no such member. -/
def member (value : Json) (key : Bytes) : Json :=
  (value.members.lookup key).getD null

/-- `Value::operator[](index) const`. -/
def item (value : Json) (index : ℕ) : Json :=
  value.items.getD index null

/-- Put a member in its place in the order of the names. -/
def insertMember (key : Bytes) (new : Json) :
    List (Bytes × Json) → List (Bytes × Json)
  | [] => [(key, new)]
  | (name, value) :: rest =>
      match compare key name with
      | .lt => (key, new) :: (name, value) :: rest
      | .eq => (key, new) :: rest
      | .gt => (name, value) :: insertMember key new rest

/-- The assignment `value[key] = new` to a member of an object or `null`. -/
def setMember (value : Json) (key : Bytes) (new : Json) : Json :=
  object (insertMember key new value.members)

def append (value new : Json) : Json :=
  array (value.items ++ [new])

/-- `isConvertibleTo(uintValue)`. -/
def isConvertibleToUInt : Json → Bool
  | null => true
  | int value => decide (0 ≤ value)
  | uint _ => true
  | real bits => Double.within bits 0 4294967295
  | bool _ => true
  | _ => false

/-- `isConvertibleTo(intValue)`. -/
def isConvertibleToInt : Json → Bool
  | null => true
  | int _ => true
  | uint value => decide (value ≤ 2147483647)
  | real bits => Double.within bits (-2147483648) 2147483647
  | bool _ => true
  | _ => false

/-- `isConvertibleTo(realValue)`. -/
def isConvertibleToReal : Json → Bool
  | string _ => false
  | array _ => false
  | object _ => false
  | _ => true

/-- `isConvertibleTo(booleanValue)`. -/
def isConvertibleToBool : Json → Bool
  | string _ => false
  | array _ => false
  | object _ => false
  | _ => true

/-- The comparison `value < Value(Int)`.  Values of different types compare by
their types, in the order of the constructors of `ValueType`. -/
def lessThanInt (value : Json) (bound : ℤ) : Bool :=
  match value with
  | null => true
  | int number => decide (number < bound)
  | _ => false

/-- The comparison `value > Value(UInt)`. -/
def greaterThanUInt (value : Json) (bound : ℕ) : Bool :=
  match value with
  | null => false
  | int _ => false
  | uint number => decide (bound < number)
  | _ => true

/-- `Value::asUInt64` of an integral value. -/
def asUInt64 : Json → Except Thrown ℕ
  | int value =>
      if 0 ≤ value then .ok value.toNat
      else .error (.runtimeError
        (ascii "Negative integer can not be converted to UInt64"))
  | uint value => .ok value
  | bool value => .ok value.toNat
  | _ => .ok 0

def asUInt : Json → Except Thrown ℕ
  | null => .ok 0
  | int value =>
      if value < 0 then .error (.runtimeError
        (ascii "Negative integer can not be converted to unsigned integer"))
      else if 4294967295 < value then
        .error (.runtimeError (ascii "signed integer out of UInt range"))
      else .ok value.toNat
  | uint value =>
      if 4294967295 < value then
        .error (.runtimeError (ascii "unsigned integer out of UInt range"))
      else .ok value
  | real bits =>
      if Double.within bits 0 4294967295 then .ok (Double.truncate bits)
      else .error (.runtimeError (ascii "Real out of unsigned integer range"))
  | bool value => .ok value.toNat
  | _ => .error (.runtimeError (ascii "Type is not convertible to uint"))

def asInt : Json → Except Thrown ℤ
  | null => .ok 0
  | int value =>
      if -2147483648 ≤ value ∧ value ≤ 2147483647 then .ok value
      else .error (.runtimeError
        (ascii "unsigned integer out of signed int range"))
  | uint value =>
      if value ≤ 2147483647 then .ok value
      else .error (.runtimeError
        (ascii "unsigned integer out of signed int range"))
  | real bits =>
      if Double.within bits (-2147483648) 2147483647 then
        .ok (Double.truncateInt bits)
      else .error (.runtimeError (ascii "Real out of signed integer range"))
  | bool value => .ok value.toNat
  | _ => .error (.runtimeError (ascii "Type is not convertible to int"))

def asBool : Json → Bool
  | null => false
  | int value => decide (value ≠ 0)
  | uint value => decide (value ≠ 0)
  | real bits => !Double.isZero bits
  | string text => decide (cString text ≠ [])
  | bool value => value
  | array _ => true
  | object _ => true

/-- `Value::asDouble` of a value that is convertible to a real number. -/
def asDouble [Libraries] : Json → Double
  | int value => Libraries.doubleOfInt value
  | uint value => Libraries.doubleOfInt value
  | real bits => bits
  | bool value => Libraries.doubleOfInt value.toInt
  | _ => Libraries.doubleOfInt 0

/-! ## Writing -/

/-- The escape of a byte in `valueToQuotedString`. -/
def escape (byte : Byte) : Bytes :=
  if byte = 34 then ascii "\\\""
  else if byte = 92 then ascii "\\\\"
  else if byte = 8 then ascii "\\b"
  else if byte = 12 then ascii "\\f"
  else if byte = 10 then ascii "\\n"
  else if byte = 13 then ascii "\\r"
  else if byte = 9 then ascii "\\t"
  else if byte.val ≤ 31 then
    ascii "\\u00" ++ ascii (if byte.val < 16 then "0" else "1") ++
      ascii (Nat.digitChar (byte.val % 16)).toUpper.toString
  else [byte]

/-- `valueToQuotedString`. -/
def quoted (text : Bytes) : Bytes :=
  ascii "\"" ++ text.flatMap escape ++ ascii "\""

mutual

/-- `FastWriter::write`, the text that `json_serialise` returns. -/
def serialise [Libraries] : Json → Bytes
  | null => ascii "null"
  | int value => ascii (toString value)
  | uint value => decimal value
  | real bits => Libraries.doubleToString bits
  | string text => quoted text
  | bool value => ascii (if value then "true" else "false")
  | array entries => ascii "[" ++ serialiseItems entries ++ ascii "]"
  | object entries => [123] ++ serialiseMembers entries ++ [125]

def serialiseItems [Libraries] : List Json → Bytes
  | [] => []
  | [value] => serialise value
  | value :: rest => serialise value ++ ascii "," ++ serialiseItems rest

def serialiseMembers [Libraries] : List (Bytes × Json) → Bytes
  | [] => []
  | [(name, value)] => quoted name ++ ascii ":" ++ serialise value
  | (name, value) :: rest =>
      quoted name ++ ascii ":" ++ serialise value ++ ascii "," ++
        serialiseMembers rest

end

/-- `Value::toStyledString` of a value that is no array and no object. -/
def toStyledString [Libraries] (value : Json) : Bytes :=
  value.serialise ++ ascii "\n"

/-! ## Members that were set -/

variable (key : Bytes)

theorem lookup_insertMember (other : Bytes) (new : Json) (entries : List (Bytes × Json)) :
    (insertMember key new entries).lookup other =
      if other = key then some new else entries.lookup other := by
  induction entries with
  | nil => grind [insertMember]
  | cons entry rest ih =>
    obtain ⟨name, value⟩ := entry
    simp only [insertMember]
    cases horder : compare key name with
    | lt | eq | gt => grind

variable (value : Json)

variable (new : Json)

theorem member_setMember (key other : Bytes) : (value.setMember key new).member other =
      if other = key then new else value.member other := by
  simp only [member, setMember, members, lookup_insertMember]
  by_cases heq : other = key <;> simp [heq]

@[simp]
theorem member_setMember_self (key : Bytes) :
    (value.setMember key new).member key = new := by
  rw [member_setMember, if_pos rfl]

theorem member_setMember_of_ne {key other : Bytes} (hne : other ≠ key) :
    (value.setMember key new).member other = value.member other := by
  rw [member_setMember, if_neg hne]

@[simp]
theorem member_object_nil : (object []).member key = null :=
  rfl

@[simp]
theorem isObject_object (entries : List (Bytes × Json)) :
    (object entries).isObject = true :=
  rfl

@[simp]
theorem isObject_setMember (value new : Json) (key : Bytes) :
    (value.setMember key new).isObject = true :=
  rfl

/-- The members are in the order of their names, and no name comes twice. -/
def Ordered (value : Json) : Prop :=
  value.members.Pairwise fun left right => compare left.1 right.1 = .lt

variable {entries : List (Bytes × Json)}

theorem mem_insertMember {key : Bytes} {new : Json} {entry : Bytes × Json}
    (hentry : entry ∈ insertMember key new entries) :
    entry = (key, new) ∨ entry ∈ entries := by
  induction entries with
  | nil => grind [insertMember]
  | cons first rest ih =>
    obtain ⟨name, value⟩ := first
    simp only [insertMember] at hentry
    cases horder : compare key name with
    | lt | eq | gt => grind

theorem pairwise_insertMember
    (hordered : entries.Pairwise fun left right => compare left.1 right.1 = .lt) :
    (insertMember key new entries).Pairwise fun left right =>
      compare left.1 right.1 = .lt := by
  induction entries with
  | nil => simp [insertMember]
  | cons first rest ih =>
    obtain ⟨name, value⟩ := first
    obtain ⟨hfirst, hrest⟩ := pairwise_cons.mp hordered
    simp only [insertMember]
    cases horder : compare key name with
    | lt =>
      refine pairwise_cons.mpr ⟨fun entry hentry => ?_, hordered⟩
      rcases mem_cons.mp hentry with rfl | hentry
      · exact horder
      · exact Std.TransCmp.lt_trans horder (hfirst entry hentry)
    | eq =>
      have heq : key = name := Std.LawfulEqCmp.eq_of_compare horder
      subst heq
      exact pairwise_cons.mpr ⟨hfirst, hrest⟩
    | gt =>
      refine pairwise_cons.mpr ⟨fun entry hentry => ?_, ih hrest⟩
      rcases mem_insertMember hentry with rfl | hentry
      · exact Std.OrientedCmp.gt_iff_lt.mp horder
      · exact hfirst entry hentry

theorem insertMember_last {key : Bytes}
    (hlast : ∀ entry ∈ entries, compare entry.1 key = .lt) :
    insertMember key new entries = entries ++ [(key, new)] := by
  induction entries with
  | nil => rfl
  | cons first rest ih =>
    obtain ⟨name, value⟩ := first
    have hgt : compare key name = .gt :=
      Std.OrientedCmp.gt_iff_lt.mpr (hlast _ mem_cons_self)
    simp only [insertMember, hgt, cons_append]
    rw [ih fun entry hentry => hlast entry (mem_cons_of_mem _ hentry)]

theorem Ordered.setMember {value : Json} (hordered : value.Ordered)
    (key : Bytes) (new : Json) : (value.setMember key new).Ordered :=
  pairwise_insertMember key new hordered

theorem Ordered.nodup {value : Json} (hordered : value.Ordered) :
    (value.members.map Prod.fst).Nodup := by
  refine pairwise_map.mpr (hordered.imp ?_)
  intro left right hlt heq
  rw [heq] at hlt
  simp at hlt

/-! ## What the reader produces -/

/-- The values that `Json::Reader` makes from a text.  An integer is signed if
it is at most the largest `int`, and unsigned if it is larger.  Most integers
out of range become real numbers; the others overflow, and a negative one may
become any signed integer. -/
inductive Parsed : Json → Prop where
  | null : Parsed null
  | int {value : ℤ} (hlow : -2 ^ 63 ≤ value) (hhigh : value < 2 ^ 63) :
      Parsed (int value)
  | uint {value : ℕ} (hlow : 2 ^ 31 ≤ value) (hhigh : value < 2 ^ 64) :
      Parsed (uint value)
  | real (bits : BitVec 64) : Parsed (real bits)
  | string {text : Bytes} (htext : cString text = text) :
      Parsed (string text)
  | bool (value : Bool) : Parsed (bool value)
  | array {entries : List Json} (hitems : ∀ item ∈ entries, Parsed item) :
      Parsed (array entries)
  | object {entries : List (Bytes × Json)}
      (hordered : (object entries).Ordered)
      (hnames : ∀ entry ∈ entries, cString entry.1 = entry.1)
      (hvalues : ∀ entry ∈ entries, Parsed entry.2) : Parsed (object entries)

namespace Parsed

variable {value : Json}

theorem of_mem_members (hparsed : value.Parsed) {entry : Bytes × Json}
    (hentry : entry ∈ value.members) : entry.2.Parsed := by
  cases hparsed with
  | object hordered hnames hvalues => exact hvalues entry hentry
  | _ => cases hentry

theorem name_of_mem (hparsed : value.Parsed) {entry : Bytes × Json}
    (hentry : entry ∈ value.members) : cString entry.1 = entry.1 := by
  cases hparsed with
  | object hordered hnames hvalues => exact hnames entry hentry
  | _ => cases hentry

theorem of_mem_items {item : Json} (hparsed : value.Parsed) (hitem : item ∈ value.items) :
    item.Parsed := by
  cases hparsed with
  | array hitems => exact hitems item hitem
  | _ => cases hitem

theorem member {value : Json} (hparsed : value.Parsed) (key : Bytes) :
    (value.member key).Parsed := by
  unfold Json.member
  cases hlookup : value.members.lookup key with
  | none => exact .null
  | some found =>
    obtain ⟨before, after, heq, -⟩ := lookup_eq_some_iff.mp hlookup
    have hentry : (key, found) ∈ value.members := by simp [heq]
    exact hparsed.of_mem_members hentry

theorem item {value : Json} (hparsed : value.Parsed) (index : ℕ) :
    (value.item index).Parsed := by
  unfold Json.item
  rw [getD_eq_getElem?_getD]
  cases hitem : value.items[index]? with
  | none => exact .null
  | some found => exact hparsed.of_mem_items (mem_of_getElem? hitem)

theorem text {text : Bytes} (hparsed : (Json.string text).Parsed) :
    cString text = text := by
  cases hparsed with
  | string htext => exact htext

theorem ofString (text : Bytes) :
    (Json.ofString text).Parsed := .string (cString_cString text)

theorem setMember {value new : Json} (hparsed : value.Parsed) {key : Bytes}
    (hkey : cString key = key) (hnew : new.Parsed) :
    (value.setMember key new).Parsed := by
  have hordered : value.Ordered := by
    cases hparsed with
    | object hordered _ _ => exact hordered
    | _ => exact List.Pairwise.nil
  apply Parsed.object
  · exact hordered.setMember key new
  · intro entry hentry
    rcases mem_insertMember hentry with rfl | hentry
    · exact hkey
    · exact hparsed.name_of_mem hentry
  · intro entry hentry
    rcases mem_insertMember hentry with rfl | hentry
    · exact hnew
    · exact hparsed.of_mem_members hentry

end Parsed

end Json

end Restpose
