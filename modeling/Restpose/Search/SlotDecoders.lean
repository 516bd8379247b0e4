import Restpose.Schema.FieldConfig
import Restpose.Search.SortKeys
import Restpose.Search.TextReader

/-!
# Decoders of slots

A decoder reads the values of a slot of a document, one with each call.  What it
reads from the values that `DocumentValues` has written are these values, in
their order.
-/

namespace Restpose.Search

open Indexing Config List Std.ExtTreeMap

/-! ## Decoders -/

/-- The state of a `SlotDecoder`: the value of the slot, what is left of it and
whether it was read. -/
structure DecoderState where
  decoder : SlotDecoder
  value : Bytes
  rest : Bytes
  read : Bool

namespace SlotDecoder

def create (slot : ℕ) (encoding : ValueEncoding) : Option SlotDecoder :=
  if slot = badValueno then none else some ⟨slot, encoding⟩

def newdoc (decoder : SlotDecoder) (document : Xapian.Document) :
    DecoderState :=
  let value := document.getValue decoder.slot
  ⟨decoder, value, value, false⟩

end SlotDecoder

namespace DecoderState

/-- `next`: the next value with the state after it, or nothing at the end. -/
def next (state : DecoderState) :
    Except SourceError (Option (Bytes × DecoderState)) :=
  match state.decoder.encoding with
  | .singlyValued =>
      if state.read then .ok none
      else .ok (some (state.value, { state with read := true }))
  | .vintLengths =>
      if state.rest = [] then .ok none
      else (decodeLength state.rest true).map fun (length, rest) =>
        some (rest.take length, { state with rest := rest.drop length })
  | .geoencode =>
      if state.rest = [] then .ok none
      else if state.rest.length < 6 then .error (.unserialisation
        (ascii "Bad geoencoded value: invalid encoded length"))
      else .ok (some (state.rest.take 6,
        { state with rest := state.rest.drop 6 }))

/-- Repeated calls of `next` yield the values and then the end. -/
inductive Yields : DecoderState → List Bytes → Prop where
  | done {state : DecoderState} (hnext : state.next = .ok none) :
      Yields state []
  | value {state after : DecoderState} {value : Bytes}
      {values : List Bytes} (hnext : state.next = .ok (some (value, after)))
      (hrest : Yields after values) : Yields state (value :: values)

end DecoderState

theorem SlotDecoder.first_eq (decoder : SlotDecoder) (document : Xapian.Document) :
    decoder.first document = (decoder.newdoc document).next.map
      (Option.map Prod.fst) := by
  obtain ⟨slot, encoding⟩ := decoder
  cases encoding with
  | singlyValued => rfl
  | vintLengths =>
    by_cases hempty : document.getValue slot = []
    · simp [first, newdoc, DecoderState.next, hempty, Except.map]
    · simp only [first, newdoc, DecoderState.next, hempty, if_false]
      cases decodeLength (document.getValue slot) true with
      | error error | ok found => rfl
  | geoencode =>
    by_cases hempty : document.getValue slot = []
    · simp [first, newdoc, DecoderState.next, hempty, Except.map]
    · by_cases hshort : (document.getValue slot).length < 6
      all_goals simp [first, newdoc, DecoderState.next, hempty, hshort, Except.map]

/-! ## What was written -/

/-- The values that an encoding can take. -/
def ValueFits (encoding : ValueEncoding) (value : Bytes) : Prop :=
  match encoding with
  | .vintLengths => value.length < lengthLimit
  | .geoencode => value.length = 6
  | .singlyValued => False

/-- How an encoding writes a value. -/
def writeValue (encoding : ValueEncoding) (value : Bytes) : Bytes :=
  match encoding with
  | .vintLengths => withLength value
  | _ => value

variable {encoding : ValueEncoding}

theorem serialise_eq (values : Finset Bytes) (hencoding : encoding ≠ .singlyValued) :
    DocumentValue.serialise ⟨encoding, values⟩ =
      (values.sort (· ≤ ·)).flatMap (writeValue encoding) := by
  cases encoding with
  | vintLengths => rfl
  | singlyValued => exact absurd rfl hencoding
  | geoencode => exact flatMap_id.symm

/-- One call of `next` takes one value off what was written. -/
theorem next_writeValue {value : Bytes} (hfits : ValueFits encoding value) (slot : ℕ)
    (whole rest : Bytes) :
    DecoderState.next ⟨⟨slot, encoding⟩, whole,
      writeValue encoding value ++ rest, false⟩ =
      .ok (some (value, ⟨⟨slot, encoding⟩, whole, rest, false⟩)) := by
  cases encoding with
  | singlyValued => cases hfits
  | vintLengths =>
    have hnonempty : withLength value ++ rest ≠ [] := by
      simp [withLength, encodeLength_ne_nil]
    have hread : decodeLength (withLength value ++ rest) true =
        .ok (value.length, value ++ rest) := by
      rw [withLength, append_assoc]
      exact decodeLength_text hfits rest
    simp only [DecoderState.next, writeValue, if_neg hnonempty, hread,
      Except.map, take_left, drop_left]
  | geoencode =>
    have hlength : value.length = 6 := hfits
    have hnonempty : value ++ rest ≠ [] := by
      intro hempty
      rw [(append_eq_nil_iff.mp hempty).1] at hlength
      cases hlength
    have henough : ¬(value ++ rest).length < value.length := by
      rw [length_append]
      omega
    simp only [DecoderState.next, writeValue, if_neg hnonempty, ← hlength,
      if_neg henough, take_left, drop_left]

theorem yields_flatMap (hencoding : encoding ≠ .singlyValued) (slot : ℕ) (whole : Bytes)
    (values : List Bytes) (hfits : ∀ value ∈ values, ValueFits encoding value) :
    DecoderState.Yields ⟨⟨slot, encoding⟩, whole,
      values.flatMap (writeValue encoding), false⟩ values := by
  induction values with
  | nil =>
    apply DecoderState.Yields.done
    cases encoding with
    | vintLengths | geoencode => rfl
    | singlyValued => exact absurd rfl hencoding
  | cons value values ih =>
    obtain ⟨hvalue, hvalues⟩ := forall_mem_cons.mp hfits
    rw [flatMap_cons]
    exact .value (next_writeValue hvalue slot whole _) (ih hvalues)

/-! ## Slots of documents -/

variable {values : DocumentValues} {slot : ℕ}

theorem entries_foldl_add {present : Finset Bytes}
    (hentry : values.entries[slot]? = some ⟨encoding, present⟩) (added : List Bytes) :
    (added.foldl (fun values value => values.add slot value) values).entries[slot]? =
      some ⟨encoding, present ∪ added.toFinset⟩ := by
  induction added generalizing values present with
  | nil => simpa using hentry
  | cons value added ih =>
    have hadd : (values.add slot value).entries[slot]? =
        some ⟨encoding, insert value present⟩ := by
      rw [DocumentValues.add, getElem?_insert_self, getD_eq_getD_getElem?, hentry]
      rfl
    rw [foldl_cons, ih hadd, toFinset_cons, Finset.insert_union, Finset.union_insert]

/-- `apply`, from an entry on. -/
def applyEntries (entries : List (ℕ × DocumentValue))
    (document : Xapian.Document) : Xapian.Document :=
  entries.foldl (fun document entry =>
    document.addValue entry.1 entry.2.serialise) document

variable {entries : List (ℕ × DocumentValue)}

theorem getValue_applyEntries_of_notMem (hslot : slot ∉ entries.map Prod.fst)
    (document : Xapian.Document) :
    (applyEntries entries document).getValue slot = document.getValue slot := by
  induction entries generalizing document with
  | nil => rfl
  | cons first entries ih =>
    obtain ⟨hne, hrest⟩ := not_or.mp (mt mem_cons.mpr hslot)
    have hstep := ih hrest (document.addValue first.1 first.2.serialise)
    rwa [Xapian.Document.getValue_addValue, if_neg hne] at hstep

theorem getValue_applyEntries_of_mem (hdistinct : (entries.map Prod.fst).Nodup)
    {value : DocumentValue} (hentry : (slot, value) ∈ entries)
    (document : Xapian.Document) :
    (applyEntries entries document).getValue slot = value.serialise := by
  induction entries generalizing document with
  | nil => cases hentry
  | cons first entries ih =>
    obtain ⟨hfirst, hrest⟩ := nodup_cons.mp hdistinct
    rcases mem_cons.mp hentry with rfl | hentry
    · have hstep := getValue_applyEntries_of_notMem hfirst
        (document.addValue slot value.serialise)
      rwa [Xapian.Document.getValue_addValue, if_pos rfl] at hstep
    · exact ih hrest hentry _

theorem getValue_apply {value : DocumentValue}
    (hentry : values.entries[slot]? = some value) (document : Xapian.Document) :
    (values.apply document).getValue slot = value.serialise := by
  apply getValue_applyEntries_of_mem
  · rw [map_fst_toList_eq_keys]
    exact nodup_keys
  · exact mem_toList_iff_getElem?_eq_some.mpr hentry

theorem getValue_apply_of_none (hentry : values.entries[slot]? = none)
    (document : Xapian.Document) :
    (values.apply document).getValue slot = document.getValue slot := by
  apply getValue_applyEntries_of_notMem
  rw [Std.ExtTreeMap.map_fst_toList_eq_keys, Std.ExtTreeMap.mem_keys]
  intro hmem
  rw [getElem?_eq_some_getElem hmem] at hentry
  cases hentry

/-- The values that are added to a slot with an encoding that was set before. -/
def addAll (values : DocumentValues) (slot : ℕ) (encoding : ValueEncoding)
    (added : List Bytes) : DocumentValues :=
  added.foldl (fun values value => values.add slot value)
    (values.setSlotFormat slot encoding)

theorem entries_addAll (hfirst : values.entries[slot]? = none) (encoding : ValueEncoding)
    (added : List Bytes) :
    (addAll values slot encoding added).entries[slot]? =
      if added = [] then none else some ⟨encoding, added.toFinset⟩ := by
  cases added with
  | nil => exact hfirst
  | cons value added =>
    have hadd : ((values.setSlotFormat slot encoding).add slot
        value).entries[slot]? = some ⟨encoding, {value}⟩ := by
      have hentries : (values.setSlotFormat slot encoding).entries[slot]? = none := hfirst
      rw [DocumentValues.add, getElem?_insert_self, getD_eq_getD_getElem?, hentries]
      simp [DocumentValues.setSlotFormat, getD_insert_self]
    rw [addAll, foldl_cons, entries_foldl_add hadd, if_neg (cons_ne_nil _ _),
      toFinset_cons, ← Finset.insert_eq]

/-- What was added to a slot is read back: every value once and in order, and
then the end.  The document has nothing in the slot before, or something was
added. -/
theorem yields_addAll {values : DocumentValues} {slot : ℕ}
    (hslot : slot ≠ badValueno) (hfirst : values.entries[slot]? = none)
    {encoding : ValueEncoding} {added : List Bytes}
    (hencoding : encoding ≠ .singlyValued)
    (hfits : ∀ value ∈ added, ValueFits encoding value)
    {document : Xapian.Document}
    (hdocument : added = [] → document.getValue slot = []) :
    ∃ decoder, SlotDecoder.create slot encoding = some decoder ∧
      (decoder.newdoc ((addAll values slot encoding added).apply
        document)).Yields (added.toFinset.sort (· ≤ ·)) := by
  have hvalue : ((addAll values slot encoding added).apply document).getValue
      slot = (added.toFinset.sort (· ≤ ·)).flatMap (writeValue encoding) := by
    have hentries := entries_addAll hfirst encoding added
    by_cases hadded : added = []
    · rw [if_pos hadded] at hentries
      rw [getValue_apply_of_none hentries, hdocument hadded, hadded,
        List.toFinset_nil, Finset.sort_empty, List.flatMap_nil]
    · rw [if_neg hadded] at hentries
      rw [getValue_apply hentries, serialise_eq _ hencoding]
  refine ⟨⟨slot, encoding⟩, if_neg hslot, ?_⟩
  rw [SlotDecoder.newdoc, hvalue]
  apply yields_flatMap hencoding
  intro value hmem
  apply hfits
  exact List.mem_toFinset.mp ((Finset.mem_sort _).mp hmem)

/-- Two texts that are added, one of them twice. -/
theorem yields_addAll_colours :
    ∃ decoder, SlotDecoder.create 3 .vintLengths = some decoder ∧
      (decoder.newdoc ((addAll .empty 3 .vintLengths
        [ascii "red", ascii "blue", ascii "red"]).apply ⟨∅, ∅, []⟩)).Yields
          ([ascii "red", ascii "blue", ascii "red"].toFinset.sort (· ≤ ·)) := by
  apply yields_addAll
  · decide
  · simp [DocumentValues.empty]
  · decide
  · intro value hvalue
    fin_cases hvalue
    · change 3 < lengthLimit
      decide
    · change 4 < lengthLimit
      decide
    · change 3 < lengthLimit
      decide
  · nofun

end Restpose.Search
