import Restpose.Search.Lengths

/-!
# Reading through a pointer

The readers of serialised data move a pointer over a text.  Here every read of a
byte is a step that fails behind the end of the text, and the reader of lengths
is shown to be the one that works on what is left of the text.
-/

namespace Restpose.Search

open Indexing List

/-- What can go wrong in a read through a pointer. -/
inductive ReadFault where
  | thrown (error : SourceError)
  /-- A byte is read that is not in the text. -/
  | beyondEnd
  deriving DecidableEq

/-- `*p`. -/
def byteAt (text : Bytes) (position : ℕ) : Except ReadFault Byte :=
  match text[position]? with
  | some byte => .ok byte
  | none => .error .beyondEnd

/-- `string(p, length)`. -/
def bytesAt (text : Bytes) (position length : ℕ) :
    Except ReadFault Bytes :=
  if text.length < position + length then .error .beyondEnd
  else .ok ((text.drop position).take length)

/-- The loop of `rsp_decode_length`, with the number and the position after
it. -/
def decodeRestAt (text : Bytes) (position shift length : ℕ) :
    Except ReadFault (ℕ × ℕ) :=
  if _hend : position = text.length ∨ 28 < shift then
    .error (.thrown (.unserialisation
      (ascii "Bad encoded length: insufficient data")))
  else
    match byteAt text position with
    | .error fault => .error fault
    | .ok byte =>
        let length := length ||| (byte.val &&& 0x7f) <<< shift
        if byte.val &&& 0x80 = 0 then
          decodeRestAt text (position + 1) (shift + 7) length
        else .ok (length, position + 1)
termination_by 35 - shift

/-- A length without the check that there are bytes enough. -/
def decodeHeadAt (text : Bytes) (position : ℕ) :
    Except ReadFault (ℕ × ℕ) :=
  if position = text.length then
    .error (.thrown (.unserialisation (ascii "Bad encoded length: no data")))
  else
    match byteAt text position with
    | .error fault => .error fault
    | .ok byte =>
        if byte = 0xff then
          (decodeRestAt text (position + 1) 0 0).map fun (length, position) =>
            (length + 255, position)
        else .ok (byte.val, position + 1)

/-- `rsp_decode_length`, with the length and the position after it. -/
def decodeLengthAt (text : Bytes) (position : ℕ) (checkRemaining : Bool) :
    Except ReadFault (ℕ × ℕ) :=
  match decodeHeadAt text position with
  | .error fault => .error fault
  | .ok (length, position) =>
      if checkRemaining && text.length - position < length then
        .error (.thrown (.unserialisation
          (ascii "Bad encoded length: length greater than data")))
      else .ok (length, position)

/-- The result of a reader that works on what is left of a text, as one of a
reader that moves a pointer over the text. -/
def atPosition (text : Bytes) :
    Except SourceError (ℕ × Bytes) → Except ReadFault (ℕ × ℕ)
  | .ok (length, rest) => .ok (length, text.length - rest.length)
  | .error error => .error (.thrown error)

variable {text rest : Bytes} {position : ℕ}

theorem byteAt_of_drop {byte : Byte} (hdrop : text.drop position = byte :: rest) :
    byteAt text position = .ok byte ∧ text.drop (position + 1) = rest := by
  have hhead : text[position]? = some byte := by
    rw [← head?_drop, hdrop, head?_cons]
  have htail : text.drop (position + 1) = rest := by
    rw [← tail_drop, hdrop, tail_cons]
  rw [byteAt, hhead]
  exact ⟨rfl, htail⟩

theorem lt_length_of_drop {byte : Byte} (hdrop : text.drop position = byte :: rest) :
    position < text.length := by
  have hlength := congrArg length hdrop
  rw [length_drop, length_cons] at hlength
  omega

theorem decodeRestAt_eq (text : Bytes) : ∀ (rest : Bytes) (position shift length : ℕ),
      text.drop position = rest → position ≤ text.length →
      decodeRestAt text position shift length =
        atPosition text (decodeRest rest shift length)
  | [], position, shift, length, hdrop, hposition => by
      have hend : position = text.length :=
        le_antisymm hposition (drop_eq_nil_iff.mp hdrop)
      rw [decodeRestAt, dif_pos (Or.inl hend)]
      rfl
  | byte :: rest, position, shift, length, hdrop, hposition => by
      obtain ⟨hbyte, htail⟩ := byteAt_of_drop hdrop
      have hlt := lt_length_of_drop hdrop
      rw [decodeRestAt, decodeRest]
      by_cases hshift : 28 < shift
      · rw [dif_pos (Or.inr hshift), if_pos hshift]
        rfl
      · rw [dif_neg (not_or.mpr ⟨hlt.ne, hshift⟩), if_neg hshift, hbyte]
        by_cases hlast : byte.val &&& 0x80 = 0
        · simp only [hlast, if_true]
          exact decodeRestAt_eq text rest _ _ _ htail hlt
        · simp only [hlast, if_false, atPosition, Except.ok.injEq, Prod.mk.injEq,
            true_and]
          have hlength := congrArg List.length htail
          rw [List.length_drop] at hlength
          omega

variable {length : ℕ}

theorem decodeRest_suffix {shift start : ℕ}
    (hread : decodeRest text shift start = .ok (length, rest)) :
    rest <:+ text := by
  induction text generalizing shift start with
  | nil => cases hread
  | cons byte text ih =>
    rw [decodeRest] at hread
    split_ifs at hread with hshift hlast
    · exact (ih hread).trans (suffix_cons byte text)
    · cases hread
      exact suffix_cons byte _

/-- What `decodeLength` reads before it checks that there are bytes enough. -/
def decodeHead : Bytes → Except SourceError (ℕ × Bytes)
  | [] => .error (.unserialisation (ascii "Bad encoded length: no data"))
  | byte :: rest =>
      if byte = 0xff then
        (decodeRest rest 0 0).map fun (length, rest) => (length + 255, rest)
      else .ok (byte.val, rest)

theorem decodeLength_eq (text : Bytes) (checkRemaining : Bool) :
    decodeLength text checkRemaining =
      match decodeHead text with
      | .error error => .error error
      | .ok (length, rest) =>
        if checkRemaining && rest.length < length then
          .error (.unserialisation (ascii "Bad encoded length: length greater than data"))
        else .ok (length, rest) := by
  cases text with
  | nil => rfl
  | cons byte rest =>
    rw [decodeLength, decodeHead]
    by_cases hlarge : byte = 0xff
    · simp only [hlarge, if_true]
      cases decodeRest rest 0 0 with
      | error error | ok found => rfl
    · simp only [hlarge, if_false]
      rfl

theorem decodeHead_suffix (hread : decodeHead text = .ok (length, rest)) :
    ∃ byte tail, text = byte :: tail ∧ rest <:+ tail := by
  cases text with
  | nil => cases hread
  | cons byte tail =>
    rw [decodeHead] at hread
    split_ifs at hread
    · cases hrest : decodeRest tail 0 0 with
      | error error => rw [hrest] at hread; cases hread
      | ok found =>
        rw [hrest] at hread
        cases hread
        exact ⟨byte, tail, rfl, decodeRest_suffix hrest⟩
    · cases hread
      exact ⟨byte, rest, rfl, suffix_rfl⟩

/-- A length takes at least one byte, and what is left is enough for a text of
this length if that was checked. -/
theorem decodeLength_suffix {checkRemaining : Bool}
    (hread : decodeLength text checkRemaining = .ok (length, rest)) :
    rest <:+ text ∧ rest.length < text.length ∧
      (checkRemaining = true → length ≤ rest.length) := by
  rw [decodeLength_eq] at hread
  cases hhead : decodeHead text with
  | error error => rw [hhead] at hread; cases hread
  | ok found =>
    rw [hhead] at hread
    dsimp only at hread
    split_ifs at hread with hcheck
    cases hread
    obtain ⟨byte, tail, rfl, hsuffix⟩ := decodeHead_suffix hhead
    have hlength := hsuffix.length_le
    refine ⟨hsuffix.trans (suffix_cons byte tail), ?_, fun hremaining => ?_⟩
    · rw [length_cons]
      omega
    · simpa [hremaining] using hcheck

theorem decodeHeadAt_eq (hposition : position ≤ text.length) :
    decodeHeadAt text position =
      atPosition text (decodeHead (text.drop position)) := by
  cases hdrop : text.drop position with
  | nil =>
    have hend : position = text.length := le_antisymm hposition (drop_eq_nil_iff.mp hdrop)
    rw [decodeHeadAt, if_pos hend]
    rfl
  | cons byte rest =>
    obtain ⟨hbyte, htail⟩ := byteAt_of_drop hdrop
    have hlt := lt_length_of_drop hdrop
    rw [decodeHeadAt, if_neg hlt.ne, hbyte, decodeHead]
    by_cases hlarge : byte = 0xff
    · simp only [hlarge, if_true]
      rw [decodeRestAt_eq text rest (position + 1) 0 0 htail hlt]
      cases decodeRest rest 0 0 with
      | error error | ok found => rfl
    · simp only [hlarge, if_false, atPosition, Except.ok.injEq, Prod.mk.injEq, true_and]
      have hlength := congrArg length htail
      rw [length_drop] at hlength
      omega

/-- The pointer moves as what is left of the text says. -/
theorem decodeLengthAt_eq (hposition : position ≤ text.length) (checkRemaining : Bool) :
    decodeLengthAt text position checkRemaining =
      atPosition text (decodeLength (text.drop position) checkRemaining) := by
  rw [decodeLengthAt, decodeLength_eq, decodeHeadAt_eq hposition]
  cases hhead : decodeHead (text.drop position) with
  | error error => rfl
  | ok found =>
    obtain ⟨byte, tail, hdrop, hsuffix⟩ := decodeHead_suffix hhead
    have hback : text.length - (text.length - found.2.length) = found.2.length := by
      have htail := hsuffix.length_le
      have hlength := congrArg length hdrop
      rw [length_drop, length_cons] at hlength
      omega
    simp only [atPosition, hback]
    split_ifs <;> rfl

/-! ## Texts -/

/-- A text after its length, and the position after it. -/
def readText (text : Bytes) (position : ℕ) :
    Except ReadFault (Bytes × ℕ) :=
  match decodeLengthAt text position true with
  | .error fault => .error fault
  | .ok (length, position) =>
      (bytesAt text position length).map fun found =>
        (found, position + length)

theorem decodeRest_error {shift : ℕ} {error : SourceError}
    (hread : decodeRest text shift length = .error error) :
    ∃ message, error = .unserialisation message := by
  induction text generalizing shift length with
  | nil =>
    cases hread
    exact ⟨_, rfl⟩
  | cons byte text ih =>
    rw [decodeRest] at hread
    split_ifs at hread
    · cases hread
      exact ⟨_, rfl⟩
    · exact ih hread

theorem decodeLength_error {checkRemaining : Bool} {error : SourceError}
    (hread : decodeLength text checkRemaining = .error error) :
    ∃ message, error = .unserialisation message := by
  have hhead : ∀ {error}, decodeHead text = .error error →
      ∃ message, error = .unserialisation message := by
    intro error hread
    cases text with
    | nil =>
      cases hread
      exact ⟨_, rfl⟩
    | cons byte rest =>
      rw [decodeHead] at hread
      split_ifs at hread
      cases hrest : decodeRest rest 0 0 with
      | error error =>
        rw [hrest] at hread
        cases hread
        exact decodeRest_error hrest
      | ok found => rw [hrest] at hread; cases hread
  rw [decodeLength_eq] at hread
  cases hfound : decodeHead text with
  | error error =>
    rw [hfound] at hread
    cases hread
    exact hhead hfound
  | ok found =>
    rw [hfound] at hread
    dsimp only at hread
    split_ifs at hread
    cases hread
    exact ⟨_, rfl⟩

/-- What comes of a read of a text: there is one, and the pointer has moved to
a later position in the text, or an exception is thrown. -/
inductive TextRead (text : Bytes) (position : ℕ) :
    Except ReadFault (Bytes × ℕ) → Prop where
  | found {field : Bytes} {next : ℕ} (hmoved : position < next)
      (hnext : next ≤ text.length) : TextRead text position (.ok (field, next))
  | thrown (message : Bytes) :
      TextRead text position (.error (.thrown (.unserialisation message)))

/-- Reading a text from a position in the text stays inside the text. -/
theorem textRead_readText (hposition : position ≤ text.length) :
    TextRead text position (readText text position) := by
  rw [readText, decodeLengthAt_eq hposition]
  cases hread : decodeLength (text.drop position) true with
  | error error =>
    obtain ⟨message, rfl⟩ := decodeLength_error hread
    exact .thrown message
  | ok found =>
    obtain ⟨length, rest⟩ := found
    obtain ⟨-, hshorter, henough⟩ := decodeLength_suffix hread
    have hlength := henough rfl
    rw [length_drop] at hshorter
    have hinside : ¬text.length < text.length - rest.length + length := by
      omega
    simp only [atPosition, bytesAt, if_neg hinside, Except.map]
    exact .found (by omega) (by omega)

/-- A text that was written with its length is read. -/
theorem readText_withLength (before after : Bytes) {field : Bytes}
    (hfield : field.length < lengthLimit) :
    readText (before ++ (withLength field ++ after)) before.length =
      .ok (field, (before ++ withLength field).length) := by
  have hposition : before.length ≤ (before ++ (withLength field ++ after)).length := by
    simp
  have hread : decodeLength ((before ++ (withLength field ++ after)).drop
      before.length) true = .ok (field.length, field ++ after) := by
    rw [drop_left, withLength, append_assoc]
    exact decodeLength_text hfield after
  have hnext : (before ++ (withLength field ++ after)).length -
      (field ++ after).length = (before ++ encodeLength field.length).length := by
    simp only [withLength, length_append]
    omega
  have hinside : ¬(before ++ (withLength field ++ after)).length <
      (before ++ encodeLength field.length).length + field.length := by
    simp only [withLength, length_append]
    omega
  have hbytes : ((before ++ (withLength field ++ after)).drop
      (before ++ encodeLength field.length).length).take field.length = field := by
    rw [withLength, append_assoc, ← append_assoc before, drop_left, take_left]
  rw [readText, decodeLengthAt_eq hposition, hread]
  simp only [atPosition, hnext, bytesAt, if_neg hinside, Except.map, hbytes]
  rw [withLength, ← append_assoc]
  exact congrArg (fun next => Except.ok (field, next)) length_append.symm

end Restpose.Search
