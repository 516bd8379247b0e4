import Restpose.Core.Heaps
import Restpose.Schema.FieldConfig

/-!
# Profiles of n-grams

A text is compared with others by the n-grams that are most frequent in it.  A
profile lists them in the order of their frequency; the profiles that samples
are compared with have the positions in this list by n-gram.
-/

namespace Restpose.Ngramcat

/-! ## Profiles -/

/-- `SortedNGramProfile`: the n-grams in descending order of frequency. -/
structure SortedNGramProfile where
  maxNgrams : ℕ
  ngrams : List Bytes
  deriving DecidableEq

/-- `NGramProfile`: the position of each n-gram in that order. -/
structure NGramProfile where
  maxNgrams : ℕ
  positions : StdMap ℕ

/-- `init_from_sorted_ngram`.  A later position of an n-gram replaces an earlier
one. -/
def NGramProfile.initFromSortedNgram (other : SortedNGramProfile) :
    NGramProfile where
  maxNgrams := other.maxNgrams
  positions :=
    StdMap.insertAll (fun _ position => position) other.ngrams.zipIdx ∅

namespace SortedNGramProfile

/-- `ngrams[position] = ngram`, which has no result outside of the vector. -/
def place (ngrams : List Bytes) (entry : Bytes × ℕ) :
    Option (List Bytes) :=
  if entry.2 < ngrams.length then some (ngrams.set entry.2 entry.1) else none

def initFromNgram (other : NGramProfile) : Option SortedNGramProfile :=
  (other.positions.toList.foldlM place
    (List.replicate other.positions.size [])).map fun ngrams =>
      ⟨other.maxNgrams, ngrams⟩

def toJson (profile : SortedNGramProfile) : Json :=
  Config.assign (.object []) [
    ("ngrams", .array (profile.ngrams.map .ofString)),
    ("max_ngrams", .uint profile.maxNgrams)]

/-- The body of the loop over the list of n-grams. -/
def readNgram (item : Json) : Except Thrown Bytes := do
  let _ ← liftInvalid (item.checkString "ngram in ngram list in ngram profile")
  return item.asString

def fromJson (value : Json) : Except Thrown SortedNGramProfile := do
  liftInvalid (value.checkObject "ngram profile")
  let ngramObj := value.member (ascii "ngrams")
  liftInvalid (ngramObj.checkArray "ngram list in ngram profile")
  let ngrams ← ngramObj.items.mapM readNgram
  let maxNgrams ← value.getUInt64Member "max_ngrams" 0xffffffff
  return ⟨maxNgrams % 2 ^ 32, ngrams⟩

/-- `abs(position - index)`: the difference is an `unsigned int` that is read as
an `int`. -/
def displacement (position index : ℕ) : ℕ :=
  (BitVec.ofInt 32 (position - index)).toInt.natAbs

/-- One pass of the loop of `distance`. -/
def addDistance (ngramCount : ℕ) (other : NGramProfile) (count : ℕ)
    (entry : Bytes × ℕ) : ℕ :=
  match other.positions[entry.1]? with
  | none => (count + ngramCount) % 2 ^ 32
  | some position => (count + displacement position entry.2) % 2 ^ 32

/-- `distance`, in 32 bits. -/
def distance (profile : SortedNGramProfile) (other : NGramProfile) : ℕ :=
  let ngramCount := min profile.maxNgrams other.maxNgrams
  let ngramsSize := profile.ngrams.length % 2 ^ 32
  let count :=
    if ngramsSize < ngramCount then
      (ngramCount - ngramsSize) * ngramCount % 2 ^ 32
    else 0
  let len := min ngramsSize ngramCount
  (profile.ngrams.take len).zipIdx.foldl (addDistance ngramCount other) count

end SortedNGramProfile

namespace NGramProfile

def toJson (profile : NGramProfile) : Option Json :=
  (SortedNGramProfile.initFromNgram profile).map SortedNGramProfile.toJson

def fromJson (value : Json) : Except Thrown NGramProfile :=
  (SortedNGramProfile.fromJson value).map initFromSortedNgram

end NGramProfile

/-! ## Building a profile -/

structure NGramFreq where
  ngram : Bytes
  freq : ℕ
  deriving DecidableEq

namespace NGramFreq

/-- `NGramFreq(iter)`. -/
def ofEntry (entry : Bytes × ℕ) : NGramFreq :=
  ⟨entry.1, entry.2⟩

/-- `operator<`: the item with the highest frequency is the lowest. -/
def less (left right : NGramFreq) : Bool :=
  if right.freq < left.freq then true
  else if left.freq < right.freq then false
  else decide (left.ngram < right.ngram)

def key (item : NGramFreq) : ℕᵒᵈ ×ₗ Bytes :=
  toLex (OrderDual.toDual item.freq, item.ngram)

theorem key_injective : Function.Injective key := by
  intro left right heq
  have hpair := toLex_inj.mp heq
  cases left
  cases right
  simp_all

instance : LinearOrder NGramFreq :=
  LinearOrder.lift' key key_injective

theorem lt_iff {left right : NGramFreq} : left < right ↔
    right.freq < left.freq ∨
      left.freq = right.freq ∧ left.ngram < right.ngram := by
  change key left < key right ↔ _
  rw [key, key, Prod.Lex.toLex_lt_toLex]
  rfl

theorem less_iff {left right : NGramFreq} :
    left.less right = true ↔ left < right := by
  rw [less, lt_iff]
  split
  next hlt => simp [hlt]
  next hle =>
    split
    next hlt => simp [hle, hlt.ne]
    next hge =>
      have heq : left.freq = right.freq := by omega
      simp [heq]

end NGramFreq

section Builder

variable [Heaps.Algorithms NGramFreq]

/-- The loop that fills the items, up to their greatest number. -/
def fill (maxNgrams : ℕ) : List NGramFreq → List (Bytes × ℕ) →
    List NGramFreq × List (Bytes × ℕ)
  | items, [] => (items, [])
  | items, entry :: entries =>
      if items.length < maxNgrams then
        fill maxNgrams (items ++ [.ofEntry entry]) entries
      else (items, entry :: entries)

/-- `items.front().freq`. -/
def frontFreq (items : List NGramFreq) : ℕ :=
  (items.head?.map NGramFreq.freq).getD 0

/-- One pass of the loop over the other n-grams, with the items and
`min_freq`. -/
def consider (state : List NGramFreq × ℕ) (entry : Bytes × ℕ) :
    List NGramFreq × ℕ :=
  if state.2 < entry.2 then
    let items := Heaps.exchange state.1 (.ofEntry entry)
    (items, frontFreq items)
  else state

/-- The items that `build` puts into the profile. -/
def buildItems (counts : StdMap ℕ) (maxNgrams : ℕ) : List NGramFreq :=
  let filled := fill maxNgrams [] counts.toList
  if filled.1 = [] then []
  else
    let items := Heaps.makeHeap filled.1
    Heaps.sortHeap (filled.2.foldl consider (items, frontFreq items)).1

def build (counts : StdMap ℕ) (maxNgrams : ℕ) : SortedNGramProfile :=
  ⟨maxNgrams, (buildItems counts maxNgrams).map NGramFreq.ngram⟩

end Builder

end Restpose.Ngramcat
