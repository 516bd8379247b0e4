import Restpose.Json.Access

/-!
# Helpers for JSON values and names

The functions that read members of configurations, the texts of values that may
be identifiers, and the checks on names.
-/

namespace Restpose

namespace Json

private def memberError (key : String) (problem : String) : Thrown :=
  .invalid (ascii "JSON value for " ++ ascii key ++ ascii problem)

/-- `json_get_string_member`. -/
def getStringMember (value : Json) (key : String) (default : Bytes) :
    Except Thrown Bytes :=
  match value.member (ascii key) with
  | null => .ok default
  | string text => .ok text
  | _ => .error (memberError key " was not a string")

/-- What both overloads of `json_get_uint64_member` do with a member that is
there. -/
def checkUInt64 (value : Json) (key : String) (max : ℕ) : Except Thrown ℕ :=
  if !value.isIntegral then .error (memberError key " was not an integer")
  else if value.lessThanInt 0 then .error (memberError key " was negative")
  else if value.greaterThanUInt max then
    .error (.invalid (ascii "JSON value for " ++ ascii key ++
      ascii " was larger than maximum allowed (" ++ decimal max ++ ascii ")"))
  else value.asUInt64

/-- `json_get_uint64_member` with a default. -/
def getUInt64MemberOr (value : Json) (key : String) (max default : ℕ) :
    Except Thrown ℕ :=
  if (value.member (ascii key)).isNull then .ok default
  else (value.member (ascii key)).checkUInt64 key max

/-- `json_get_uint64_member` without a default. -/
def getUInt64Member (value : Json) (key : String) (max : ℕ) :
    Except Thrown ℕ :=
  if (value.member (ascii key)).isNull then
    .error (.invalid (ascii "Member " ++ ascii key ++ ascii " was missing"))
  else (value.member (ascii key)).checkUInt64 key max

/-- `json_get_bool`. -/
def getBool (value : Json) (key : String) (default : Bool) :
    Except Thrown Bool :=
  if (value.member (ascii key)).isNull then .ok default
  else if !(value.member (ascii key)).isConvertibleToBool then
    .error (memberError key " was not convertible to a boolean")
  else .ok (value.member (ascii key)).asBool

/-- `json_get_idstyle_value`: the text, or the error. -/
def getIdstyleValue [Libraries] (value : Json) :
    Except Bytes Bytes :=
  match value with
  | string text => .ok text
  | null => .ok []
  | _ =>
      if !value.isConvertibleToUInt then
        .error (ascii "Expected value in field to be an integer or a string")
      else if value.lessThanInt 0 then
        .error (ascii
          "JSON value for field was negative - wanted unsigned int")
      else if value.greaterThanUInt 18446744073709551615 then
        .error (ascii "JSON value " ++ value.toStyledString ++
          ascii " was larger than maximum allowed (" ++
          decimal 18446744073709551615 ++ ascii ")")
      else
        match value.asUInt64 with
        | .ok number => .ok (decimal number)
        | .error _ => .ok []

/-- `json_get_double_member`. -/
def getDoubleMember [Libraries] (value : Json) (key : String)
    (default : Double) : Except Thrown Double :=
  let member := value.member (ascii key)
  if member.isNull then .ok default
  else if !member.isConvertibleToReal then
    .error (memberError key " was not convertible to a double")
  else .ok member.asDouble

/-- `json_get_lonlat`: the longitude and the latitude, or the error. -/
def getLonlat [Libraries] (value : Json) :
    Except Bytes (Double × Double) :=
  if value.isArray then
    if value.size ≠ 2 then
      .error (ascii "Invalid lonlat value - array length not 2")
    else if !(value.item 0).isConvertibleToReal then
      .error (ascii
        "Invalid longitude component - not convertible to double")
    else if !(value.item 1).isConvertibleToReal then
      .error (ascii "Invalid latitude component - not convertible to double")
    else .ok ((value.item 0).asDouble, (value.item 1).asDouble)
  else if value.isObject then
    if !(value.member (ascii "lon")).isConvertibleToReal then
      .error (ascii
        "Invalid \"lon\" component - not convertible to double")
    else if !(value.member (ascii "lat")).isConvertibleToReal then
      .error (ascii
        "Invalid \"lat\" component - not convertible to double")
    else .ok ((value.member (ascii "lon")).asDouble,
      (value.member (ascii "lat")).asDouble)
  else .error (ascii "Invalid format for longitude-latitude coordinate")

end Json

/-! ## Names -/

private def hexDigit (number : ℕ) : Bytes :=
  ascii (Nat.digitChar number).toString

/-- `hexesc` of one byte. -/
def hexescByte (byte : Byte) : Bytes :=
  if byte = 92 then ascii "\\\\"
  else if byte = 9 then ascii "\\t"
  else if byte = 10 then ascii "\\n"
  else if byte = 13 then ascii "\\r"
  else if 32 ≤ byte.val ∧ byte.val ≤ 127 then [byte]
  else ascii "\\x" ++ hexDigit (byte.val / 16) ++ hexDigit (byte.val % 16)

def hexesc (text : Bytes) : Bytes :=
  text.flatMap hexescByte

/-- The bytes that names may not contain: control characters and
`: / \ . , [ ] ` and braces. -/
def isReserved (byte : Byte) : Bool :=
  decide (byte.val ≤ 31) ||
    [58, 47, 92, 46, 44, 91, 93, 123, 125].contains byte

/-- The checks of `validation.cc` differ in what they call the name. -/
def validateName (emptyError kind : String) (value : Bytes) :
    Option Bytes :=
  if value = [] then some (ascii emptyError)
  else
    (value.find? isReserved).map fun byte =>
      ascii "Invalid character (" ++ hexescByte byte ++ ascii ") in " ++
        ascii kind

/-- `validate_collname`: the error, if there is one. -/
def validateCollname : Bytes → Option Bytes :=
  validateName "Invalid empty collection name" "collection name"

def validateDocType : Bytes → Option Bytes :=
  validateName "Invalid empty document type name" "document type"

def validateDocId : Bytes → Option Bytes :=
  validateName "Invalid empty document ID" "document ID"

def validateCatid : Bytes → Option Bytes :=
  validateName "Invalid empty category identifier" "category identifier"

section Valid

variable {emptyError kind : String} {value : Bytes}

theorem ne_nil_of_validateName (hvalid : validateName emptyError kind value = none) :
    value ≠ [] := by
  rintro rfl
  cases hvalid

/-- A valid name has no zero byte, so nothing of it is lost in a C string. -/
theorem cString_of_validateName (hvalid : validateName emptyError kind value = none) :
    cString value = value := by
  rw [validateName, if_neg (ne_nil_of_validateName hvalid),
    Option.map_eq_none_iff, List.find?_eq_none] at hvalid
  refine List.takeWhile_eq_self_iff.mpr fun byte hbyte => ?_
  have hreserved := hvalid byte hbyte
  rw [decide_eq_true_iff]
  rintro rfl
  exact hreserved (by decide)

end Valid

end Restpose
