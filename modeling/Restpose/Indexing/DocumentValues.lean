import Restpose.Json.Access

/-!
# Document values and document data

What the indexers store besides terms: sets of values in numbered slots, and
named texts.  Both are written with encoded lengths.
-/

namespace Restpose.Indexing

/-! ## Lengths -/

/-- The loop of `encode_length`, for as many passes as there can be. -/
def encodeRest : ℕ → ℕ → Bytes
  | 0, _ => []
  | fuel + 1, rest =>
      if rest / 128 = 0 then [Fin.ofNat 256 (rest % 128 + 128)]
      else Fin.ofNat 256 (rest % 128) :: encodeRest fuel (rest / 128)

def encodeLength (length : ℕ) : Bytes :=
  if length < 255 then [Fin.ofNat 256 length]
  else 255 :: encodeRest length (length - 255)

theorem encodeLength_ne_nil (length : ℕ) : encodeLength length ≠ [] := by
  unfold encodeLength
  split_ifs <;> exact List.cons_ne_nil _ _

/-- A text after its length. -/
def withLength (text : Bytes) : Bytes :=
  encodeLength text.length ++ text

/-! ## Values -/

inductive ValueEncoding where
  | vintLengths
  | singlyValued
  | geoencode
  deriving DecidableEq

/-- The classes derived from `DocumentValue`, with the values of a slot. -/
structure DocumentValue where
  encoding : ValueEncoding
  values : Finset Bytes

namespace DocumentValue

def serialise (value : DocumentValue) : Bytes :=
  let sorted := value.values.sort (· ≤ ·)
  match value.encoding with
  | .vintLengths => sorted.flatMap withLength
  | .singlyValued => sorted.headD []
  | .geoencode => sorted.flatten

end DocumentValue

structure DocumentValues where
  entries : Std.ExtTreeMap ℕ DocumentValue
  formats : Std.ExtTreeMap ℕ ValueEncoding

namespace DocumentValues

def empty : DocumentValues :=
  ⟨∅, ∅⟩

def setSlotFormat (values : DocumentValues) (slot : ℕ)
    (encoding : ValueEncoding) : DocumentValues :=
  { values with formats := values.formats.insert slot encoding }

/-- `add`.  A slot keeps the encoding that it had at the first value. -/
def add (values : DocumentValues) (slot : ℕ) (value : Bytes) :
    DocumentValues :=
  let entry := values.entries.getD slot
    ⟨values.formats.getD slot .vintLengths, ∅⟩
  { values with
    entries := values.entries.insert slot
      { entry with values := insert value entry.values } }

/-- `empty(slot)`. -/
def isEmpty (values : DocumentValues) (slot : ℕ) : Bool :=
  match values.entries[slot]? with
  | none => true
  | some entry => decide (entry.values = ∅)

def apply (values : DocumentValues) (document : Xapian.Document) :
    Xapian.Document :=
  values.entries.toList.foldl
    (fun document entry => document.addValue entry.1 entry.2.serialise)
    document

end DocumentValues

/-! ## Data -/

structure DocumentData where
  fields : StdMap Bytes

namespace DocumentData

def empty : DocumentData :=
  ⟨∅⟩

/-- `set`.  An empty value is the same as none. -/
def set (data : DocumentData) (field value : Bytes) : DocumentData :=
  ⟨if value = [] then data.fields.erase field
    else data.fields.insert field value⟩

/-- `expected_len`: an estimate of the length of the result, in an `int`. -/
def expectedLen (data : DocumentData) : BitVec 32 :=
  data.fields.toList.foldl (fun length entry =>
    length + BitVec.ofNat 32 (entry.1.length + entry.2.length + 8)) 0

/-- How an entry is written. -/
def writeEntry (entry : Bytes × Bytes) : Bytes :=
  withLength entry.1 ++ withLength entry.2

/-- `serialise`.  As much space as expected is reserved first, and there is no
string for a negative number of bytes. -/
def serialise (data : DocumentData) : Except Thrown Bytes :=
  if data.expectedLen.toInt < 0 then .error .lengthError
  else .ok (data.fields.toList.flatMap writeEntry)

end DocumentData

end Restpose.Indexing
