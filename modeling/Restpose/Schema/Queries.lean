import Restpose.Schema.Schema

/-!
# Queries for fields

The queries of the fields that are searched by their terms.  They make the
terms from the values asked for, in code that is separate from that of the
indexers.
-/

namespace Restpose.Config

open Json Except

/-- A query for the documents that have one of these terms. -/
structure Query where
  terms : List Bytes
  deriving DecidableEq

/-- The values asked for.  A value that is no array is put into one; `null`
counts as an empty array. -/
def queryItems (value : Json) : List Json :=
  if value.isArray then value.items else [value]

/-- The loop over the values asked for. -/
def queryTerms (make : Json → Except Thrown (List Bytes))
    (value : Json) : Except Thrown Query := do
  let terms ← (queryItems value).mapM make
  return ⟨terms.flatten⟩

def queryTypeError (qtype : Bytes) (kind : String) : Thrown :=
  .invalid (ascii "Invalid query type \"" ++ qtype ++ ascii "\" for " ++
    ascii kind ++ ascii " field")

section Texts

variable [Libraries]

/-- The text of a value asked for.  The fields differ in two of the errors. -/
def queryText (kindError negativeError : String) (item : Json) :
    Except Thrown Bytes :=
  match item with
  | .string text => .ok text
  | _ =>
      if !item.isConvertibleToUInt then .error (.invalid (ascii kindError))
      else if item.lessThanInt 0 then
        .error (.invalid (ascii negativeError))
      else if item.greaterThanUInt 18446744073709551615 then
        .error (.invalid (ascii "JSON value " ++ item.toStyledString ++
          ascii " was larger than maximum allowed (" ++
          decimal 18446744073709551615 ++ ascii ")"))
      else item.asUInt64.map decimal

/-- The limit on the length of a text.  A text that is an error to index is
searched for as it is. -/
def queryLimit (limits : MaxLenFieldConfig) (text : Bytes) :
    Bytes :=
  if limits.maxLength < text.length then
    match limits.tooLongAction with
    | .error => text
    | .hash => hashLongTerm text limits.maxLength
    | .truncate => text.take limits.maxLength
  else text

/-- `IDFieldConfig::query`. -/
def idQuery (limits : MaxLenFieldConfig) (termPrefix qtype : Bytes)
    (value : Json) : Except Thrown Query :=
  if qtype ≠ ascii "is" then .error (queryTypeError qtype "id")
  else
    queryTerms (fun item => do
      let text ← queryText "ID value must be an integer or a string"
        "JSON value for field was negative - wanted unsigned int" item
      return [termPrefix ++ queryLimit limits text]) value

/-- `ExactFieldConfig::query`. -/
def exactQuery (limits : MaxLenFieldConfig) (termPrefix : Bytes)
    (lowercase : Bool) (qtype : Bytes) (value : Json) :
    Except Thrown Query :=
  if qtype ≠ ascii "is" then .error (queryTypeError qtype "exact")
  else
    queryTerms (fun item => do
      let text ← queryText "Filter value must be an integer or a string"
        "JSON value for field was negative - wanted unsigned int" item
      let text := if lowercase then Libraries.toLower text else text
      return [termPrefix ++ queryLimit limits text]) value

/-- What stands between the group and the category in the terms that a type of
query looks for: `C` for the category of a document, `A` for an ancestor. -/
def categoryCodes (qtype : Bytes) : Option (List String) :=
  if qtype = ascii "is" then some ["C"]
  else if qtype = ascii "is_descendant" then some ["A"]
  else if qtype = ascii "is_or_is_descendant" then some ["C", "A"]
  else none

/-- `CategoryFieldConfig::query`. -/
def categoryQuery (termPrefix qtype : Bytes) (value : Json) :
    Except Thrown Query :=
  match categoryCodes qtype with
  | none => .error (queryTypeError qtype "category")
  | some codes =>
      queryTerms (fun item => do
        let text ← queryText "Category value must be an integer or a string"
          "JSON value for category was negative - wanted unsigned int" item
        return codes.map fun code => termPrefix ++ ascii code ++ text) value

/-- The code of the entries that a type of query looks for in the metadata. -/
def metaCode (qtype : Bytes) : Option String :=
  if qtype = ascii "exists" then some "F"
  else if qtype = ascii "nonempty" then some "N"
  else if qtype = ascii "empty" then some "M"
  else if qtype = ascii "error" then some "E"
  else none

/-- `MetaFieldConfig::query`.  There is no term for the existence of any field,
so the query looks for one that is not empty or one that is empty. -/
def metaQuery (termPrefix qtype : Bytes) (value : Json) :
    Except Thrown Query :=
  match metaCode qtype with
  | none => .error (queryTypeError qtype "meta")
  | some code =>
      queryTerms (fun item =>
        match item with
        | .null =>
            if code = "F" then
              .ok [termPrefix ++ ascii "N", termPrefix ++ ascii "M"]
            else .ok [termPrefix ++ ascii code]
        | .string text => .ok [termPrefix ++ ascii code ++ text]
        | _ => .error (.invalid (ascii "Invalid query value (" ++
            item.serialise ++
            ascii ") for meta field - must be string or null"))) value

/-- `FieldConfig::query`, for the fields that are searched by their terms. -/
def FieldConfig.query (config : FieldConfig) (qtype : Bytes)
    (value : Json) : Option (Except Thrown Query) :=
  match config with
  | .metadata termPrefix _ => some (metaQuery termPrefix qtype value)
  | .id limits _ termPrefix => some (idQuery limits termPrefix qtype value)
  | .exact limits termPrefix _ _ lowercase =>
      some (exactQuery limits termPrefix lowercase qtype value)
  | .category _ termPrefix _ _ => some (categoryQuery termPrefix qtype value)
  | _ => none

end Texts

/-! ## One value -/

theorem queryTerms_single {make : Json → Except Thrown (List Bytes)} {value : Json}
    {terms : List Bytes} (harray : value.isArray = false)
    (hmake : make value = .ok terms) :
    queryTerms make value = .ok ⟨terms⟩ := by
  rw [queryTerms, queryItems, if_neg (by simp [harray])]
  simp [hmake]

section Idstyle

variable [Libraries] {value : Json} {text : Bytes}

variable (htext : value.getIdstyleValue = .ok text)

include htext

theorem isNull_of_idstyle (hne : text ≠ []) : value.isNull = false := by
  cases value with
  | null => exact absurd (ok.inj htext).symm hne
  | _ => rfl

theorem isArray_of_idstyle (hnull : value.isNull = false) : value.isArray = false := by
  cases value with
  | null => cases hnull
  | array items =>
    simp [getIdstyleValue, isConvertibleToUInt] at htext
  | _ => rfl

/-- A value that is indexed by a text is searched for by the same text. -/
theorem queryText_of_idstyle (hnull : value.isNull = false)
    (kindError negativeError : String) :
    queryText kindError negativeError value = .ok text := by
  cases value with
  | null => cases hnull
  | string stored => exact congrArg ok (ok.inj htext)
  | _ =>
    simp only [getIdstyleValue] at htext
    simp only [queryText]
    split_ifs at htext ⊢ with hkind hnegative hlarge
    -- Both sides convert the number, which is not negative.
    cases hnumber : asUInt64 _ with
    | ok number =>
      simp only [hnumber] at htext
      exact congrArg ok (ok.inj htext)
    | error thrown =>
      simp_all [asUInt64, lessThanInt]

omit htext

end Idstyle

end Restpose.Config
