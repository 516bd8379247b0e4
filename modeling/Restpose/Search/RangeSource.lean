import Restpose.Xapian.Libraries
import Restpose.Search.Lengths

/-!
# Sources of documents in a range

The serialised form of a range source has two texts with their lengths and a
number without one at the end.  The reader takes the number from what is left,
but then still expects that nothing is left.
-/

namespace Restpose.Search

open Indexing List Libraries Nat

structure MultiValueRangeSource where
  slot : ℕ
  weight : Double
  startVal : Bytes
  endVal : Bytes
  deriving DecidableEq

namespace MultiValueRangeSource

variable [Libraries]

def serialise (source : MultiValueRangeSource) : Bytes :=
  encodeLength source.slot ++
    (encodeLength source.startVal.length ++ (source.startVal ++
      (encodeLength source.endVal.length ++ (source.endVal ++
        Libraries.sortableSerialise source.weight))))

def unserialise (text : Bytes) :
    Except SourceError MultiValueRangeSource := do
  let (newSlot, rest) ← decodeLength text false
  let (startLength, rest) ← decodeLength rest true
  let newStartVal := rest.take startLength
  let (endLength, rest) ← decodeLength (rest.drop startLength) true
  let newEndVal := rest.take endLength
  let rest := rest.drop endLength
  let newWeight := Libraries.sortableUnserialise rest
  -- The position was not moved past the number.
  if rest ≠ [] then
    .error (.network (ascii "Bad serialised MultiValueRangeSource"))
  else return ⟨newSlot % 2 ^ 32, newWeight, newStartVal, newEndVal⟩

/-- Both texts have lengths that can be read. -/
def Readable (source : MultiValueRangeSource) : Prop :=
  source.startVal.length < lengthLimit ∧ source.endVal.length < lengthLimit

variable {source : MultiValueRangeSource}

theorem unserialise_readable (hslot : source.slot < 2 ^ 32)
    (hreadable : source.Readable) :
    unserialise source.serialise =
      if sortableSerialise source.weight ≠ [] then
        .error (.network (ascii "Bad serialised MultiValueRangeSource"))
      else .ok ⟨source.slot, sortableUnserialise (sortableSerialise source.weight),
        source.startVal, source.endVal⟩ := by
  have hslotLimit : source.slot < lengthLimit := by
    unfold lengthLimit
    omega
  unfold unserialise serialise
  rw [decodeLength_encodeLength hslotLimit _ false nofun]
  simp only [bind, Except.bind]
  rw [decodeLength_text hreadable.1]
  simp only [drop_left, take_left]
  rw [decodeLength_text hreadable.2]
  simp only [drop_left, take_left, mod_eq_of_lt hslot]
  rfl

/-- A text that is too long is not read. -/
theorem unserialise_error (hslot : source.slot < 2 ^ 32) (hreadable : ¬source.Readable) :
    ∃ error, unserialise source.serialise = .error error := by
  have hslotLimit : source.slot < lengthLimit := by
    unfold lengthLimit
    omega
  unfold unserialise serialise
  rw [decodeLength_encodeLength hslotLimit _ false nofun]
  simp only [bind, Except.bind]
  by_cases hstart : source.startVal.length < lengthLimit
  · have hend : lengthLimit ≤ source.endVal.length :=
      not_lt.mp fun hend => hreadable ⟨hstart, hend⟩
    rw [decodeLength_text hstart]
    simp only [drop_left, take_left]
    obtain ⟨error, herror⟩ := decodeLength_encodeLength_error hend
      (source.endVal ++ sortableSerialise source.weight) true
    rw [herror]
    exact ⟨error, rfl⟩
  · obtain ⟨error, herror⟩ :=
      decodeLength_encodeLength_error (not_lt.mp hstart) (source.startVal ++
        (encodeLength source.endVal.length ++ (source.endVal ++
          sortableSerialise source.weight))) true
    rw [herror]
    exact ⟨error, rfl⟩

/-- A range source is read back if and only if its texts are not too long and
its weight is written as nothing. -/
theorem unserialise_serialise_iff (source : MultiValueRangeSource)
    (hinverse : Libraries.sortableUnserialise
      (Libraries.sortableSerialise source.weight) = source.weight)
    (hslot : source.slot < 2 ^ 32) :
    unserialise source.serialise = .ok source ↔
      source.Readable ∧ Libraries.sortableSerialise source.weight = [] := by
  by_cases hreadable : source.Readable
  · rw [unserialise_readable hslot hreadable, hinverse]
    split_ifs with hweight
    · simp [hweight]
    · simp only [ne_eq, not_not] at hweight
      simp [hreadable, hweight]
  · obtain ⟨error, herror⟩ := unserialise_error hslot hreadable
    rw [herror]
    simp [hreadable]

end MultiValueRangeSource

/-! ## A way to write numbers -/

/-- The bits of minus infinity. -/
def negativeInfinity : Double :=
  0xFFF0000000000000#64

/-- Minus infinity as nothing, and any other number as a byte and its digits. -/
def writeDigits (number : Double) : Bytes :=
  if number = negativeInfinity then []
  else 0 :: (Nat.digits 256 number.toNat).map (Fin.ofNat 256)

def readDigits (text : Bytes) : Double :=
  if text = [] then negativeInfinity
  else BitVec.ofNat 64 (Nat.ofDigits 256 (text.tail.map Fin.val))

theorem readDigits_writeDigits (number : Double) :
    readDigits (writeDigits number) = number := by
  unfold writeDigits
  split_ifs with hinfinity
  · rw [hinfinity]
    rfl
  · have hdigits : ((digits 256 number.toNat).map (Fin.ofNat 256)).map
        Fin.val = digits 256 number.toNat := by
      rw [map_map]
      refine (map_congr_left fun digit hdigit => ?_).trans (map_id _)
      exact mod_eq_of_lt (digits_lt_base (by decide) hdigit)
    rw [readDigits, if_neg (cons_ne_nil _ _), tail_cons, hdigits,
      ofDigits_digits, BitVec.ofNat_toNat, BitVec.setWidth_eq]

/-- Libraries that write numbers like this. -/
abbrev digitLibraries : Libraries where
  __ := Libraries.plain
  sortableSerialise := writeDigits
  sortableUnserialise := readDigits

namespace MultiValueRangeSource

/-- A source with minus infinity as its weight. -/
theorem unserialise_serialise_infinite : ∃ _ : Libraries,
    let source : MultiValueRangeSource :=
      ⟨7, negativeInfinity, ascii "a", ascii "b"⟩
    unserialise source.serialise = .ok source := by
  refine ⟨digitLibraries, ?_⟩
  exact (@unserialise_serialise_iff digitLibraries
    ⟨7, negativeInfinity, ascii "a", ascii "b"⟩
    (readDigits_writeDigits negativeInfinity) (by decide)).mpr
    ⟨⟨by decide, by decide⟩, rfl⟩

/-- A source with the weight one is not read, although the number is read back
and is not written as nothing unless it is infinite. -/
theorem unserialise_serialise_one : ∃ _ : Libraries,
    let source : MultiValueRangeSource :=
      ⟨7, 0x3FF0000000000000#64, ascii "a", ascii "b"⟩
    (∀ weight, Libraries.sortableUnserialise
        (Libraries.sortableSerialise weight) = weight) ∧
      (∀ weight, weight.value ≠ none →
        Libraries.sortableSerialise weight ≠ []) ∧
      unserialise source.serialise =
        .error (.network (ascii "Bad serialised MultiValueRangeSource")) := by
  refine ⟨digitLibraries, readDigits_writeDigits, ?_, ?_⟩
  · intro weight hfinite hempty
    have hinfinity : weight = negativeInfinity := by
      by_contra hother
      change writeDigits weight = [] at hempty
      rw [writeDigits, if_neg hother] at hempty
      cases hempty
    rw [hinfinity] at hfinite
    exact hfinite (by decide +kernel)
  · rw [@unserialise_readable digitLibraries
      ⟨7, 0x3FF0000000000000#64, ascii "a", ascii "b"⟩ (by decide)
      ⟨by decide, by decide⟩]
    refine if_pos ?_
    change writeDigits _ ≠ []
    rw [writeDigits, if_neg (by decide)]
    exact List.cons_ne_nil _ _

end MultiValueRangeSource

end Restpose.Search
