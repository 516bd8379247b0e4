import Restpose.Xapian.Database

/-!
# Other libraries

The functions of the C library and of the search library that indexing calls.
Nothing is assumed about what they return.  The hash of long terms is not one of
them: its code comes with the server.
-/

namespace Restpose

/-- The bits of a `double`. -/
abbrev Double := BitVec 64

namespace Double

/-- The number that the bits stand for, unless they stand for an infinity or for
no number. -/
def value (bits : Double) : Option ℚ :=
  let negative := bits.msb
  let exponent := (bits.extractLsb' 52 11).toNat
  let fraction := (bits.extractLsb' 0 52).toNat
  let sign : ℚ := if negative then -1 else 1
  if exponent = 2047 then none
  else if exponent = 0 then some (sign * fraction * 2 ^ (-1074 : ℤ))
  else some (sign * (2 ^ 52 + fraction) * 2 ^ ((exponent : ℤ) - 1075))

/-- The test that a number is not less than one bound and not greater than
another. -/
def within (bits : Double) (low high : ℤ) : Bool :=
  match bits.value with
  | none => false
  | some number => decide (low ≤ number) && decide (number ≤ high)

def isZero (bits : Double) : Bool :=
  bits.within 0 0

/-- The conversion of a number that is not negative to an unsigned integer. -/
def truncate (bits : Double) : ℕ :=
  ⌊bits.value.getD 0⌋₊

/-- The conversion to an `int` of a number in its range, towards zero. -/
def truncateInt (bits : Double) : ℤ :=
  let number := bits.value.getD 0
  if 0 ≤ number then ⌊number⌋ else ⌈number⌉

/-- The comparison `==`. -/
def equals (left right : Double) : Bool :=
  match left.value, right.value with
  | some first, some second => decide (first = second)
  | none, none => decide (left = right) && left.extractLsb' 0 52 == 0
  | _, _ => false

end Double

/-! ## Long terms -/

def hashLen : ℕ := (4 * 8 + 5) / 6

/-- The loop that writes six bits of a hash to each byte. -/
def hashDigits : ℕ → ℕ → Bytes
  | 0, _ => []
  | fuel + 1, hash =>
      if hash = 0 then []
      else Fin.ofNat 256 (hash % 64 + 33) :: hashDigits fuel (hash / 64)

def hashString (text : Bytes) : Bytes :=
  let hash := text.foldl
    (fun hash byte => (hash + (hash * 32 + byte.val)) % 2 ^ 64) 1
  let digits := hashDigits hashLen (hash % 2 ^ 32)
  digits ++ List.replicate (hashLen - digits.length) 32

def hashLongTerm (term : Bytes) (maxLength : ℕ) : Bytes :=
  if term.length ≤ maxLength then term
  else term.take (maxLength - hashLen) ++
    hashString (term.drop (maxLength - hashLen))

/-- `Xapian::Error`. -/
structure XapianError where
  message : Bytes
  deriving DecidableEq

/-- What the modelled code calls in other libraries. -/
class Libraries where
  /-- `Json::valueToString(double)`. -/
  doubleToString : Double → Bytes
  /-- The conversion of an integer to a `double`. -/
  doubleOfInt : ℤ → Double
  /-- `strtod`: the number read, and the text after it. -/
  strtod : Bytes → Double × Bytes
  /-- `floor`, converted to an `int`. -/
  floorInt : Double → ℤ
  /-- `Xapian::sortable_serialise`. -/
  sortableSerialise : Double → Bytes
  /-- `Xapian::sortable_unserialise`. -/
  sortableUnserialise : Bytes → Double
  /-- `Xapian::Unicode::tolower`. -/
  toLower : Bytes → Bytes
  /-- `LatLongCoord(latitude, longitude).serialise()`. -/
  latLongSerialise : Double → Double → Except XapianError Bytes
  /-- `TermGenerator::index_text` with a stemmer for a language and a prefix. -/
  indexText : (language text termPrefix : Bytes) → Xapian.Document →
    Except XapianError Xapian.Document
  /-- `cjk::tokenizer::tokenize`: the tokens with their positions. -/
  cjkTokenize : Bytes → List (Bytes × ℕ)

/-- Libraries that leave every text as it is and find nothing in it. -/
abbrev Libraries.plain : Libraries where
  doubleToString := fun _ => []
  doubleOfInt := fun number => BitVec.ofInt 64 number
  strtod := fun text => (0, text)
  floorInt := fun bits => bits.toInt
  sortableSerialise := fun _ => []
  sortableUnserialise := fun _ => 0
  toLower := id
  latLongSerialise := fun _ _ => .ok []
  indexText := fun _ _ _ document => .ok document
  cjkTokenize := fun _ => []

end Restpose
