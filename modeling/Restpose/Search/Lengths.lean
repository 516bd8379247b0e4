import Restpose.Indexing.DocumentValues

/-!
# Reading lengths

The reader of the lengths that are written before texts.  It takes at most five
bytes with seven bits each after the first byte, which is enough for every
number below `2 ^ 35 + 255`.
-/

namespace Restpose.Search

open Indexing List Nat

/-- The exceptions of the readers of serialised data. -/
inductive SourceError where
  /-- `RestPose::UnserialisationError`. -/
  | unserialisation (message : Bytes)
  /-- `Xapian::NetworkError`. -/
  | network (message : Bytes)
  deriving DecidableEq

/-- The loop of `rsp_decode_length`, with the number and the bytes after it. -/
def decodeRest : Bytes → ℕ → ℕ → Except SourceError (ℕ × Bytes)
  | [], _, _ => .error (.unserialisation
      (ascii "Bad encoded length: insufficient data"))
  | byte :: rest, shift, length =>
      if 28 < shift then .error (.unserialisation
        (ascii "Bad encoded length: insufficient data"))
      else
        let length := length ||| (byte.val &&& 0x7f) <<< shift
        if byte.val &&& 0x80 = 0 then decodeRest rest (shift + 7) length
        else .ok (length, rest)

/-- `rsp_decode_length`, with the length and the bytes after it. -/
def decodeLength (text : Bytes) (checkRemaining : Bool) :
    Except SourceError (ℕ × Bytes) := do
  let (length, rest) ← match text with
    | [] => .error (.unserialisation (ascii "Bad encoded length: no data"))
    | byte :: rest =>
        if byte = 0xff then
          (decodeRest rest 0 0).map fun (length, rest) => (length + 255, rest)
        else .ok (byte.val, rest)
  if checkRemaining && rest.length < length then
    .error (.unserialisation
      (ascii "Bad encoded length: length greater than data"))
  else return (length, rest)

/-- The lengths that the reader can read. -/
def lengthLimit : ℕ :=
  2 ^ 35 + 255

theorem bits_last : ∀ bits < 128, (Fin.ofNat 256 (bits + 128)).val &&& 0x7f = bits ∧
      (Fin.ofNat 256 (bits + 128)).val &&& 0x80 ≠ 0 := by
  decide

theorem bits_inner : ∀ bits < 128, (Fin.ofNat 256 bits).val &&& 0x7f = bits ∧
      (Fin.ofNat 256 bits).val &&& 0x80 = 0 := by
  decide

theorem or_shiftLeft {low shift : ℕ} (hlow : low < 2 ^ shift) (high : ℕ) :
    low ||| high <<< shift = low + high * 2 ^ shift := by
  rw [shiftLeft_eq, lor_comm, mul_comm, ← two_pow_add_eq_or_of_lt hlow, add_comm]

/-- The loop of the reader reads what the loop of the writer writes, from a
group of seven bits on. -/
theorem decodeRest_encodeRest (rest : Bytes) (group low : ℕ) {fuel value : ℕ}
    (hgroup : group ≤ 4) (hlow : low < 2 ^ (7 * group))
    (hvalue : value < 128 ^ (5 - group)) (hfuel : value < 128 ^ (fuel + 1)) :
    decodeRest (encodeRest (fuel + 1) value ++ rest) (7 * group) low =
      .ok (low + value * 2 ^ (7 * group), rest) := by
  induction fuel generalizing group value low with
  | zero =>
    have hzero : value / 128 = 0 := by omega
    obtain ⟨hbits, hlast⟩ := bits_last (value % 128) (mod_lt _ (by decide))
    have hvalue : value % 128 = value := by omega
    simp only [encodeRest, hzero, if_true, singleton_append, decodeRest]
    rw [if_neg (by omega), if_neg hlast, hbits, or_shiftLeft hlow, hvalue]
  | succ fuel ih =>
    by_cases hzero : value / 128 = 0
    · obtain ⟨hbits, hlast⟩ := bits_last (value % 128) (mod_lt _ (by decide))
      have hvalue : value % 128 = value := by omega
      rw [encodeRest, if_pos hzero, singleton_append, decodeRest, if_neg (by omega)]
      simp only
      rw [if_neg hlast, hbits, or_shiftLeft hlow, hvalue]
    · obtain ⟨hbits, hinner⟩ := bits_inner (value % 128) (mod_lt _ (by decide))
      have hpow : (2 : ℕ) ^ (7 * (group + 1)) = 128 * 2 ^ (7 * group) := by
        rw [mul_succ, pow_add]
        omega
      have hnext : group + 1 ≤ 4 := by
        by_contra hlarge
        have hlast : group = 4 := by omega
        rw [hlast] at hvalue
        omega
      have hquotient : value / 128 < 128 ^ (5 - (group + 1)) := by
        have hsplit : 5 - group = 5 - (group + 1) + 1 := by omega
        rw [hsplit, pow_succ] at hvalue
        exact Nat.div_lt_of_lt_mul (by omega)
      have hrest : value / 128 < 128 ^ (fuel + 1) := by
        rw [pow_succ] at hfuel
        exact Nat.div_lt_of_lt_mul (by omega)
      have hbound : low + value % 128 * 2 ^ (7 * group) < 2 ^ (7 * (group + 1)) := by
        have hmod : value % 128 * 2 ^ (7 * group) ≤ 127 * 2 ^ (7 * group) :=
          mul_le_mul_right _ (by omega)
        omega
      have hloop := ih (group + 1) _ hnext hbound hquotient hrest
      rw [encodeRest, if_neg hzero, cons_append, decodeRest, if_neg (by omega)]
      simp only
      rw [if_pos hinner, hbits, or_shiftLeft hlow,
        show 7 * group + 7 = 7 * (group + 1) by ring, hloop]
      congr 2
      rw [hpow]
      conv_rhs => rw [← mod_add_div value 128]
      ring

/-- A number with more groups of bits is not read. -/
theorem decodeRest_encodeRest_error (rest : Bytes) (group low : ℕ) {fuel value : ℕ}
    (hgroup : group ≤ 5) (hvalue : 128 ^ (5 - group) ≤ value)
    (hfuel : value < 128 ^ (fuel + 1)) :
    ∃ error, decodeRest (encodeRest (fuel + 1) value ++ rest) (7 * group) low =
      .error error := by
  induction fuel generalizing group value low with
  | zero =>
    have hlast : group = 5 := by
      by_contra hearlier
      have hpow : 128 ^ 1 ≤ 128 ^ (5 - group) :=
        Nat.pow_le_pow_right (by decide) (by omega)
      omega
    have hzero : value / 128 = 0 := by omega
    rw [encodeRest, if_pos hzero, singleton_append, decodeRest, if_pos (by omega)]
    exact ⟨_, rfl⟩
  | succ fuel ih =>
    by_cases hlast : group = 5
    · have hcons : ∃ byte bytes, encodeRest (fuel + 1 + 1) value = byte :: bytes := by
        rw [encodeRest]
        split_ifs <;> exact ⟨_, _, rfl⟩
      obtain ⟨byte, bytes, hbytes⟩ := hcons
      rw [hbytes, cons_append, decodeRest, if_pos (by omega)]
      exact ⟨_, rfl⟩
    · have hsplit : 5 - group = 5 - (group + 1) + 1 := by omega
      rw [hsplit, pow_succ] at hvalue
      have hpos : 0 < 128 ^ (5 - (group + 1)) := by positivity
      have hquotient : 128 ^ (5 - (group + 1)) ≤ value / 128 := by
        rw [le_div_iff_mul_le (by decide)]
        exact hvalue
      have hrest : value / 128 < 128 ^ (fuel + 1) := by
        rw [pow_succ] at hfuel
        exact Nat.div_lt_of_lt_mul (by omega)
      obtain ⟨-, hinner⟩ := bits_inner (value % 128) (mod_lt _ (by decide))
      rw [encodeRest, if_neg (by omega), cons_append, decodeRest, if_neg (by omega)]
      simp only
      rw [if_pos hinner, show 7 * group + 7 = 7 * (group + 1) by ring]
      exact ih (group + 1) _ (by omega) hquotient hrest

theorem rest_lt_pow (length : ℕ) : length - 255 < 128 ^ (length - 1 + 1) := by
  have hpow := Nat.lt_pow_self (n := length - 1 + 1) (show 1 < 128 by decide)
  omega

/-- A length is read as it was written. -/
theorem decodeLength_encodeLength {length : ℕ} (hlength : length < lengthLimit)
    (rest : Bytes) (checkRemaining : Bool)
    (hremaining : checkRemaining = true → length ≤ rest.length) :
    decodeLength (encodeLength length ++ rest) checkRemaining = .ok (length, rest) := by
  have hcheck : ¬(checkRemaining && decide (rest.length < length)) = true := by
    simp only [Bool.and_eq_true, decide_eq_true_eq, not_and, not_lt]
    exact hremaining
  unfold encodeLength
  split_ifs with hsmall
  · have hbyte : (Fin.ofNat 256 length).val = length := mod_eq_of_lt (by omega)
    have hne : Fin.ofNat 256 length ≠ 0xff := by
      intro heq
      have hval : length = 255 := by
        rw [← hbyte, heq]
        rfl
      omega
    rw [singleton_append, decodeLength]
    simp only [if_neg hne, hbyte]
    exact if_neg hcheck
  · have hloop := decodeRest_encodeRest rest 0 0
      (by decide) (by decide) (show length - 255 < 128 ^ (5 - 0) by
        unfold lengthLimit at hlength
        omega) (rest_lt_pow length)
    have hfuel : length - 1 + 1 = length := by omega
    rw [hfuel] at hloop
    have hsum : 0 + (length - 255) * 2 ^ (7 * 0) + 255 = length := by omega
    rw [cons_append, decodeLength]
    simp only [hloop, Except.map, hsum]
    exact if_neg hcheck

theorem decodeLength_text {text : Bytes} (htext : text.length < lengthLimit)
    (rest : Bytes) :
    decodeLength (encodeLength text.length ++ (text ++ rest)) true =
      .ok (text.length, text ++ rest) :=
  decodeLength_encodeLength htext _ true fun _ => by simp

/-- A length above the limit is not read. -/
theorem decodeLength_encodeLength_error {length : ℕ} (hlength : lengthLimit ≤ length)
    (rest : Bytes) (checkRemaining : Bool) :
    ∃ error, decodeLength (encodeLength length ++ rest) checkRemaining =
      .error error := by
  have hlarge : ¬length < 255 := by
    unfold lengthLimit at hlength
    omega
  obtain ⟨error, hloop⟩ := decodeRest_encodeRest_error rest 0 0
    (by decide) (show 128 ^ (5 - 0) ≤ length - 255 by
      unfold lengthLimit at hlength
      omega) (rest_lt_pow length)
  have hfuel : length - 1 + 1 = length := by omega
  rw [hfuel] at hloop
  refine ⟨error, ?_⟩
  rw [encodeLength, if_neg hlarge, cons_append, decodeLength]
  simp only [hloop, Except.map]
  rfl

end Restpose.Search
