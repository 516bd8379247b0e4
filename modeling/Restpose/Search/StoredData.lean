import Restpose.Core.Attempt
import Restpose.Search.TextReader

/-!
# Stored document data

The named texts of a document are written one after the other, each name and
each text after its length.  The reader takes any text apart in this way until
nothing is left of it.
-/

namespace Restpose.Indexing.DocumentData

open Search List StdMap

/-- A name and a text, and the position after them. -/
def readEntry (text : Bytes) (position : ℕ) :
    Except ReadFault ((Bytes × Bytes) × ℕ) := do
  let (field, position) ← readText text position
  let (value, position) ← readText text position
  return ((field, value), position)

/-- The loop of `unserialise`.  There is no result if it has not ended after
`fuel` passes. -/
def unserialiseFrom (text : Bytes) :
    ℕ → ℕ → DocumentData → Option (Attempt ReadFault DocumentData)
  | 0, _, _ => none
  | fuel + 1, position, data =>
      if position = text.length then some (.done data)
      else
        match readEntry text position with
        | .error fault => some (.fail data fault)
        | .ok ((field, value), position) =>
            unserialiseFrom text fuel position
              ⟨data.fields.insert field value⟩

def unserialise (fuel : ℕ) (text : Bytes) :
    Option (Attempt ReadFault DocumentData) :=
  unserialiseFrom text fuel 0 .empty

/-- The attempt went through, or ended with an `UnserialisationError`. -/
def Safe (attempt : Attempt ReadFault DocumentData) : Prop :=
  attempt.thrown = none ∨
    ∃ message, attempt.thrown = some (.thrown (.unserialisation message))

/-- The lengths of names and texts can be read. -/
def Readable (data : DocumentData) : Prop :=
  ∀ entry ∈ data.fields.toList,
    entry.1.length < lengthLimit ∧ entry.2.length < lengthLimit

/-- Reading an entry from a position in the text stays inside the text. -/
theorem readEntry_spec {text : Bytes} {position : ℕ}
    (hposition : position ≤ text.length) :
    (∃ entry next, readEntry text position = .ok (entry, next) ∧
        position < next ∧ next ≤ text.length) ∨
      ∃ message, readEntry text position =
        .error (.thrown (.unserialisation message)) := by
  have hfirst := textRead_readText hposition
  rw [readEntry]
  generalize readText text position = first at hfirst ⊢
  cases hfirst with
  | thrown message => exact .inr ⟨message, rfl⟩
  | @found field middle hmoved hmiddle =>
    have hsecond := textRead_readText hmiddle
    simp only [bind, Except.bind]
    generalize readText text middle = second at hsecond ⊢
    cases hsecond with
    | thrown message => exact .inr ⟨message, rfl⟩
    | @found value next hmovedAgain hnext =>
      exact .inl ⟨_, next, rfl, hmoved.trans hmovedAgain, hnext⟩

/-- The loop ends, since every pass moves the pointer, and it ends safely. -/
theorem unserialiseFrom_safe (text : Bytes) (fuel : ℕ) {position : ℕ}
    (hposition : position ≤ text.length) (hfuel : text.length < position + fuel)
    (data : DocumentData) :
    ∃ attempt, unserialiseFrom text fuel position data = some attempt ∧ Safe attempt := by
  induction fuel generalizing position data with
  | zero => omega
  | succ fuel ih =>
    rw [unserialiseFrom]
    split_ifs with hend
    · exact ⟨_, rfl, .inl rfl⟩
    · rcases readEntry_spec hposition with ⟨entry, next, hread, hmoved, hnext⟩
        | ⟨message, hread⟩
      · rw [hread]
        exact ih hnext (by omega) _
      · rw [hread]
        exact ⟨_, rfl, .inr ⟨message, rfl⟩⟩

/-! ## Reading what was written -/

theorem readEntry_writeEntry (before after : Bytes) {entry : Bytes × Bytes}
    (hname : entry.1.length < lengthLimit) (htext : entry.2.length < lengthLimit) :
    readEntry (before ++ (writeEntry entry ++ after)) before.length =
      .ok (entry, (before ++ writeEntry entry).length) := by
  have hfirst := readText_withLength before (withLength entry.2 ++ after) hname
  have hsecond := readText_withLength (before ++ withLength entry.1) after htext
  rw [append_assoc before] at hsecond
  rw [readEntry, writeEntry, append_assoc (withLength entry.1), hfirst]
  simp only [bind, Except.bind]
  rw [hsecond, ← append_assoc before]
  rfl

theorem one_le_length_writeEntry (entry : Bytes × Bytes) :
    1 ≤ (writeEntry entry).length := by
  have hname := length_pos_of_ne_nil (encodeLength_ne_nil entry.1.length)
  rw [writeEntry, withLength]
  simp only [length_append]
  omega

/-- The loop puts the entries into the map one after the other. -/
theorem unserialiseFrom_flatMap (entries : List (Bytes × Bytes))
    (hentries : ∀ entry ∈ entries, entry.1.length < lengthLimit ∧
      entry.2.length < lengthLimit)
    (before : Bytes) (data : DocumentData) (fuel : ℕ)
    (hfuel : (entries.flatMap writeEntry).length < fuel) :
    unserialiseFrom (before ++ entries.flatMap writeEntry) fuel before.length data =
      some (.done ⟨insertAll (fun _ => id) entries data.fields⟩) := by
  induction entries generalizing before data fuel with
  | nil =>
    cases fuel with
    | zero => cases hfuel
    | succ fuel =>
      rw [unserialiseFrom, flatMap_nil, append_nil, if_pos rfl]
      rfl
  | cons entry entries ih =>
    obtain ⟨hentry, hrest⟩ := forall_mem_cons.mp hentries
    have hlength := one_le_length_writeEntry entry
    rw [flatMap_cons, length_append] at hfuel
    cases fuel with
    | zero => cases hfuel
    | succ fuel =>
      have hinside : before.length ≠ (before ++ (writeEntry entry ++
            entries.flatMap writeEntry)).length := by
        simp only [length_append]
        omega
      have hnext := ih hrest (before ++ writeEntry entry)
        ⟨data.fields.insert entry.1 entry.2⟩ fuel (by omega)
      rw [append_assoc] at hnext
      rw [flatMap_cons, unserialiseFrom, if_neg hinside,
        readEntry_writeEntry before _ hentry.1 hentry.2]
      exact hnext

theorem unserialise_flatMap {data : DocumentData} (hreadable : data.Readable) {fuel : ℕ}
    (hfuel : (data.fields.toList.flatMap writeEntry).length < fuel) :
    unserialise fuel (data.fields.toList.flatMap writeEntry) = some (.done data) := by
  have hloop := unserialiseFrom_flatMap data.fields.toList hreadable [] .empty fuel hfuel
  have hfields : insertAll (fun _ => id) data.fields.toList ∅ = data.fields := by
    rw [insertAll_toList]
    exact Std.ExtTreeMap.ext_getElem? fun key => by simp
  rw [nil_append] at hloop
  change unserialise fuel _ =
    some (.done ⟨insertAll (fun _ => id) data.fields.toList ∅⟩) at hloop
  rw [hloop, hfields]

/-! ## The space that is reserved -/

/-- The estimate of the length, in unbounded arithmetic. -/
def estimate (data : DocumentData) : ℕ :=
  (data.fields.toList.map fun entry => entry.1.length + entry.2.length + 8).sum

theorem expectedLen_eq (data : DocumentData) :
    data.expectedLen = BitVec.ofNat 32 data.estimate := by
  have hloop : ∀ (entries : List (Bytes × Bytes)) (start : ℕ),
      entries.foldl (fun length entry =>
          length + BitVec.ofNat 32 (entry.1.length + entry.2.length + 8))
        (BitVec.ofNat 32 start) = BitVec.ofNat 32 (start +
          (entries.map fun entry => entry.1.length + entry.2.length + 8).sum) := by
    intro entries
    induction entries with
    | nil => exact fun _ => rfl
    | cons entry entries ih =>
      intro start
      rw [foldl_cons, ← BitVec.ofNat_add, ih, map_cons, sum_cons, Nat.add_assoc]
  have hstart := hloop data.fields.toList 0
  rwa [Nat.zero_add] at hstart

/-- A string is made unless the `int` that holds the estimate is negative. -/
theorem serialise_eq (data : DocumentData) : data.serialise =
    if data.estimate % 2 ^ 32 < 2 ^ 31 then .ok (data.fields.toList.flatMap writeEntry)
    else .error .lengthError := by
  have hsign : data.expectedLen.toInt < 0 ↔ ¬data.estimate % 2 ^ 32 < 2 ^ 31 := by
    rw [expectedLen_eq, BitVec.toInt_eq_toNat_cond, BitVec.toNat_ofNat]
    split_ifs <;> omega
  rw [serialise]
  split_ifs with hneg hspace hspace
  · exact absurd hspace (hsign.mp hneg)
  · rfl
  · rfl
  · exact absurd (hsign.mpr hspace) hneg

/-- Document data is read back as it was written if and only if the estimate of
its length is not negative as an `int`.  Reading any text ends after at most as
many passes as there are bytes, without reading beyond the end, with data or with
an `UnserialisationError`. -/
theorem readBack_serialise_iff (data : DocumentData) (hreadable : data.Readable)
    (stored : Bytes) (limit : ℕ) (hlimit : stored.length < limit) :
    ((∃ text, data.serialise = .ok text ∧ ∀ fuel, text.length < fuel →
        unserialise fuel text = some (.done data)) ↔
      data.estimate % 2 ^ 32 < 2 ^ 31) ∧
      ∃ attempt, unserialise limit stored = some attempt ∧ Safe attempt := by
  constructor
  · rw [serialise_eq]
    split_ifs with hspace
    · exact iff_of_true ⟨_, rfl, fun _ => unserialise_flatMap hreadable⟩ hspace
    · apply iff_of_false _ hspace
      rintro ⟨text, hwritten, -⟩
      cases hwritten
  · exact unserialiseFrom_safe stored limit (Nat.zero_le _) (by omega) .empty

/-- The data of a document with an author and a title. -/
def titleData : DocumentData :=
  (DocumentData.empty.set (ascii "title") (ascii "x")).set (ascii "author") (ascii "yz")

theorem titleData_spec : titleData.Readable ∧ titleData.estimate = 30 := by
  have hlist : titleData.fields.toList =
      [(ascii "author", ascii "yz"), (ascii "title", ascii "x")] := by
    decide +kernel
  rw [Readable, estimate, hlist]
  exact ⟨by decide, by decide⟩

/-- Data with two texts, and a text that is cut off after a name. -/
theorem readBack_serialise_titleData :
    (∃ text, titleData.serialise = .ok text ∧ ∀ fuel, text.length < fuel →
        unserialise fuel text = some (.done titleData)) ∧
      ∃ attempt, unserialise 20 (withLength (ascii "title")) = some attempt ∧
        Safe attempt := by
  obtain ⟨hread, hsafe⟩ := readBack_serialise_iff titleData titleData_spec.1
    (withLength (ascii "title")) 20 (by decide)
  refine ⟨hread.mpr ?_, hsafe⟩
  rw [titleData_spec.2]
  decide

/-- Data with one text. -/
def oneText (text : Bytes) : DocumentData :=
  DocumentData.empty.set (ascii "text") text

theorem oneText_spec {text : Bytes} (hlength : text.length = 2 ^ 31) :
    (oneText text).Readable ∧ (oneText text).serialise = .error .lengthError := by
  have hne : text ≠ [] := by
    rintro rfl
    cases hlength
  have hlist : (oneText text).fields.toList = [(ascii "text", text)] := by
    rw [oneText, set, if_neg hne]
    exact toList_singleton _ _
  have hname : (ascii "text").length = 4 := rfl
  rw [serialise_eq, estimate, Readable, hlist]
  simp only [forall_mem_singleton, map_singleton, sum_singleton, hname, hlength]
  exact ⟨⟨by decide, by decide⟩, if_neg (by decide)⟩

/-- All lengths are far below the limit of what can be read, but there is no
string for data with a text of 2^31 bytes. -/
theorem serialise_longText_throws :
    (oneText (replicate (2 ^ 31) 120)).Readable ∧
      (oneText (replicate (2 ^ 31) 120)).serialise = .error .lengthError :=
  oneText_spec length_replicate

end Restpose.Indexing.DocumentData
