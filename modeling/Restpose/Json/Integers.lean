import Restpose.Json.Utils

/-!
# Integers in JSON texts

`Json::Reader` makes a value of a number without a fraction or an exponent in
`decodeNumber`.  The loop leaves a number to the floating point parser if it
gets too large, but it does not notice every number that is too large, and
computes modulo `2 ^ 64`.  The kind of integer that comes out decides how the
value compares with a limit.
-/

namespace Restpose.Json

/-! ## The reader -/

/-- The number that digits stand for, after others that stand for `value`. -/
def digitsFrom (value : ℕ) (digits : List (Fin 10)) : ℕ :=
  digits.foldl (fun value digit => value * 10 + digit) value

/-- `maxIntegerValue`. -/
def maxInteger (negative : Bool) : ℕ :=
  if negative then 2 ^ 63 else 2 ^ 64 - 1

/-- The loop of `decodeNumber`, with no value if the number is left to
`decodeDouble`. -/
def decodeDigits (limit : ℕ) : List (Fin 10) → ℕ → Option ℕ
  | [], value => some value
  | digit :: rest, value =>
      if limit / 10 ≤ value ∧ (rest ≠ [] ∨ limit % 10 < digit.val) then none
      else decodeDigits limit rest ((value * 10 + digit) % 2 ^ 64)

/-- The token of an integer. -/
def integerToken (negative : Bool) (digits : List (Fin 10)) : Bytes :=
  (if negative then ascii "-" else []) ++
    digits.flatMap fun digit => decimal digit

/-- `decodeNumber` of an integer. -/
def decodeInteger [Libraries] (negative : Bool) (digits : List (Fin 10)) :
    Json :=
  match decodeDigits (maxInteger negative) digits 0 with
  | none => .real (Libraries.strtod (integerToken negative digits)).1
  | some value =>
      if negative then .int (-BitVec.ofNat 64 value).toInt
      else if value ≤ 2147483647 then .int value
      else .uint value

/-- The integer that a token stands for. -/
def integerValue (negative : Bool) (digits : List (Fin 10)) : ℤ :=
  if negative then -(digitsFrom 0 digits : ℤ) else digitsFrom 0 digits

/-! ## What the loop computes -/

theorem le_digitsFrom (value : ℕ) (digits : List (Fin 10)) :
    value * 10 ^ digits.length ≤ digitsFrom value digits := by
  induction digits generalizing value with
  | nil => simp [digitsFrom]
  | cons digit rest ih =>
    calc value * 10 ^ (rest.length + 1) = (value * 10) * 10 ^ rest.length := by ring
      _ ≤ (value * 10 + digit) * 10 ^ rest.length := by gcongr; omega
      _ ≤ digitsFrom (value * 10 + digit) rest := ih _

variable {digits : List (Fin 10)}

/-- The loop gives up where a number is seen to be too large, and otherwise
computes it modulo `2 ^ 64`. -/
theorem decodeDigits_eq {limit : ℕ} (hlimit : limit < 2 ^ 64) (hdigits : digits ≠ [])
    {value : ℕ} (hvalue : value / 10 < limit / 10) :
    decodeDigits limit digits value =
      if limit / 10 ≤ digitsFrom value digits / 100 ∨
        (limit / 10 ≤ digitsFrom value digits / 10 ∧
            limit % 10 < digitsFrom value digits % 10) then none
      else some (digitsFrom value digits % 2 ^ 64) := by
  induction digits generalizing value with
  | nil => exact absurd rfl hdigits
  | cons digit rest ih =>
    cases rest with
    | nil =>
      have hlast : digitsFrom value [digit] = value * 10 + digit := rfl
      have hpart : (value * 10 + digit) / 10 = value := by omega
      have hdigit : (value * 10 + digit.val) % 10 = digit := by omega
      have hearly : ¬limit / 10 ≤ (value * 10 + digit) / 100 := by omega
      simp only [decodeDigits, hlast, hpart, hdigit, hearly, ne_eq, not_true_eq_false,
        false_or]
    | cons next rest =>
      by_cases hlarge : limit / 10 ≤ value
      · -- The number does not get smaller by more digits.
        have hgrows : value ≤ digitsFrom value (digit :: next :: rest) / 100 := by
          have hle := le_digitsFrom value (digit :: next :: rest)
          have hpow : value * 100 ≤ value * 10 ^ (digit :: next :: rest).length := by
            have hten : 1 ≤ 10 ^ rest.length := Nat.one_le_pow _ _ (by omega)
            calc value * 100 = value * (1 * 100) := by ring
              _ ≤ value * (10 ^ rest.length * 100) := by gcongr
              _ = value * 10 ^ (rest.length + 2) := by ring
          omega
        rw [decodeDigits, if_pos ⟨hlarge, .inl (by simp)⟩,
          if_pos (.inl (hlarge.trans hgrows))]
      · have hsmall : (value * 10 + digit) % 2 ^ 64 = value * 10 + digit := by omega
        rw [decodeDigits, if_neg (fun hcheck => hlarge hcheck.1), hsmall,
          ih (by simp) (by omega)]
        rfl

/-- A number that is too large, and that the loop does not see to be so. -/
def Overflows (negative : Bool) (number : ℕ) : Prop :=
  number / 100 < maxInteger negative / 10 ∧
    maxInteger negative / 10 < number / 10 ∧
    number % 10 ≤ maxInteger negative % 10

instance (negative : Bool) (number : ℕ) :
    Decidable (Overflows negative number) :=
  inferInstanceAs (Decidable (_ ∧ _ ∧ _))

variable (negative : Bool)

theorem decodeDigits_zero (hdigits : digits ≠ []) :
    decodeDigits (maxInteger negative) digits 0 =
      if digitsFrom 0 digits ≤ maxInteger negative then
        some (digitsFrom 0 digits)
      else if Overflows negative (digitsFrom 0 digits) then
        some (digitsFrom 0 digits % 2 ^ 64)
      else none := by
  have hlimit : maxInteger negative < 2 ^ 64 ∧ 0 / 10 < maxInteger negative / 10 := by
    cases negative <;> decide
  rw [decodeDigits_eq hlimit.1 hdigits hlimit.2]
  generalize digitsFrom 0 digits = number
  by_cases hle : number ≤ maxInteger negative
  · have hexact : number % 2 ^ 64 = number := Nat.mod_eq_of_lt (by omega)
    rw [if_neg (by omega), if_pos hle, hexact]
  · rw [if_neg hle]
    by_cases hover : Overflows negative number
    · obtain ⟨hearly, hlast, hdigit⟩ := hover
      rw [if_neg (by omega), if_pos ⟨hearly, hlast, hdigit⟩]
    · rw [if_neg hover, if_pos]
      unfold Overflows at hover
      omega

/-! ## Limits -/

/-- A function that gets an integer up to a limit. -/
def Enforced (number : ℤ) (max : ℕ) (result : Except Thrown ℕ) : Prop :=
  (0 ≤ number → number ≤ max → result = .ok number.toNat) ∧
    (number < 0 ∨ max < number →
      ∃ error, result = .error (.invalidValue error))

/-- The condition under which a limit is enforced.  A number above the limit
has to be unsigned, and above the limit still when it has overflowed; a
negative one has to be negative still. -/
def LimitHolds (negative : Bool) (number max : ℕ) : Prop :=
  if negative then
    Overflows true number → 0 < number % 2 ^ 64 ∧ number % 2 ^ 64 ≤ 2 ^ 63
  else
    max < number →
      2 ^ 31 ≤ (if Overflows false number then number % 2 ^ 64 else number) ∧
      max < if Overflows false number then number % 2 ^ 64 else number

section Limits

variable {key : String} {max : ℕ}

theorem checkUInt64_int_of_neg {number : ℤ} (hneg : number < 0) :
    ∃ error, (int number).checkUInt64 key max = .error (.invalidValue error) := by
  simp only [checkUInt64, isIntegral, lessThanInt, decide_eq_true hneg]
  exact ⟨_, rfl⟩

theorem checkUInt64_int {number : ℤ} (hnonneg : 0 ≤ number) :
    (int number).checkUInt64 key max = .ok number.toNat := by
  simp [checkUInt64, isIntegral, lessThanInt, greaterThanUInt, asUInt64, hnonneg]

variable {number : ℕ}

theorem checkUInt64_uint (hle : number ≤ max) :
    (uint number).checkUInt64 key max = .ok number := by
  simp [checkUInt64, isIntegral, lessThanInt, greaterThanUInt, asUInt64, hle]

theorem checkUInt64_uint_of_lt (hlt : max < number) :
    ∃ error, (uint number).checkUInt64 key max =
      .error (.invalidValue error) := by
  simp [checkUInt64, isIntegral, lessThanInt, greaterThanUInt, hlt, Thrown.invalid]

theorem checkUInt64_real (bits : Double) : ∃ error, (real bits).checkUInt64 key max =
      .error (.invalidValue error) := by
  exact ⟨_, rfl⟩

theorem enforced_of_error {number : ℤ} {result : Except Thrown ℕ}
    (herror : ∃ error, result = .error (.invalidValue error)) :
    Enforced number max result ↔ number < 0 ∨ max < number := by
  obtain ⟨error, rfl⟩ := herror
  constructor
  · intro henforced
    by_contra hwithin
    obtain ⟨hnonneg, hle⟩ := not_or.mp hwithin
    cases henforced.1 (Int.not_lt.mp hnonneg) (Int.not_lt.mp hle)
  · intro hout
    refine ⟨fun hnonneg hle => ?_, fun _ => ⟨error, rfl⟩⟩
    omega

theorem enforced_of_ok {number : ℤ} {read : ℕ} : Enforced number max (.ok read) ↔
      0 ≤ number ∧ number ≤ max ∧ number = read := by
  constructor
  · intro henforced
    have hwithin : ¬(number < 0 ∨ max < number) := by
      intro hout
      obtain ⟨error, herror⟩ := henforced.2 hout
      cases herror
    have hnonneg : 0 ≤ number := by omega
    have hle : number ≤ max := by omega
    have hread := Except.ok.inj (henforced.1 hnonneg hle)
    exact ⟨hnonneg, hle, by omega⟩
  · rintro ⟨hnonneg, hle, rfl⟩
    refine ⟨fun _ _ => rfl, fun hout => ?_⟩
    omega

variable {kept : ℕ}

theorem toInt_neg_ofNat (hkept : kept < 2 ^ 64) :
    (-BitVec.ofNat 64 kept).toInt < 0 ↔ 0 < kept ∧ kept ≤ 2 ^ 63 := by
  rw [BitVec.toInt_neg_iff, BitVec.toNat_neg, BitVec.toNat_ofNat]
  omega

theorem not_overflows_of_le {negative : Bool} (hle : number ≤ maxInteger negative) :
    ¬Overflows negative number := by
  unfold Overflows
  omega

theorem lt_of_overflows {negative : Bool} (hover : Overflows negative number) :
    maxInteger negative < number := by
  unfold Overflows at hover
  omega

/-- What the loop keeps of a number. -/
inductive Kept (negative : Bool) (number : ℕ) : ℕ → Prop where
  | exact (hle : number ≤ maxInteger negative) : Kept negative number number
  | wrapped (hover : Overflows negative number) :
      Kept negative number (number % 2 ^ 64)

theorem enforced_negative_iff (hkept : Kept true number kept) :
    Enforced (-(number : ℤ)) max
        ((int (-BitVec.ofNat 64 kept).toInt).checkUInt64 key max) ↔
      LimitHolds true number max := by
  have hlimit : maxInteger true = 2 ^ 63 := rfl
  have hsize : kept < 2 ^ 64 := by
    cases hkept with
    | exact hle | wrapped hover => omega
  simp only [LimitHolds, if_true]
  by_cases hneg : (-BitVec.ofNat 64 kept).toInt < 0
  · rw [enforced_of_error (checkUInt64_int_of_neg hneg)]
    rw [toInt_neg_ofNat hsize] at hneg
    cases hkept with
    | exact hle =>
      exact iff_of_true (by omega) fun hover =>
        absurd hover (not_overflows_of_le hle)
    | wrapped hover =>
      have hlarge := lt_of_overflows hover
      exact iff_of_true (by omega) fun _ => hneg
  · rw [checkUInt64_int (Int.not_lt.mp hneg), enforced_of_ok]
    have hkeeps := mt (toInt_neg_ofNat hsize).mpr hneg
    cases hkept with
    | exact hle =>
      obtain rfl : number = 0 := by omega
      exact iff_of_true ⟨by decide, by simp, by decide⟩ fun hover =>
        absurd hover (not_overflows_of_le hle)
    | wrapped hover =>
      have hlarge := lt_of_overflows hover
      exact iff_of_false (by omega) fun hholds => hkeeps (hholds hover)

theorem enforced_nonnegative_iff (hkept : Kept false number kept) (hmax : max < 2 ^ 64) :
    Enforced number max ((if kept ≤ 2147483647 then int kept else uint kept).checkUInt64
      key max) ↔
      LimitHolds false number max := by
  have hlimit : maxInteger false = 2 ^ 64 - 1 := rfl
  have hkeeps : (if Overflows false number then number % 2 ^ 64
      else number) = kept := by
    cases hkept with
    | exact hle => rw [if_neg (not_overflows_of_le hle)]
    | wrapped hover => rw [if_pos hover]
  -- A number that was changed is above every limit.
  have hchanged : kept = number ∨ max < number := by
    cases hkept with
    | exact hle => exact .inl rfl
    | wrapped hover =>
      have hlarge := lt_of_overflows hover
      exact .inr (by omega)
  simp only [LimitHolds, Bool.false_eq_true, if_false, hkeeps]
  by_cases hsigned : kept ≤ 2147483647
  · rw [if_pos hsigned, checkUInt64_int (by omega), enforced_of_ok]
    omega
  · rw [if_neg hsigned]
    by_cases hle : kept ≤ max
    · rw [checkUInt64_uint hle, enforced_of_ok]
      omega
    · rw [enforced_of_error (checkUInt64_uint_of_lt (by omega))]
      omega

theorem kept_decodeDigits (hdigits : digits ≠ []) :
    match decodeDigits (maxInteger negative) digits 0 with
    | some kept => Kept negative (digitsFrom 0 digits) kept
    | none => maxInteger negative < digitsFrom 0 digits ∧
        ¬Overflows negative (digitsFrom 0 digits) := by
  rw [decodeDigits_zero negative hdigits]
  by_cases hle : digitsFrom 0 digits ≤ maxInteger negative
  · rw [if_pos hle]
    exact .exact hle
  · rw [if_neg hle]
    by_cases hover : Overflows negative (digitsFrom 0 digits)
    · rw [if_pos hover]
      exact .wrapped hover
    · rw [if_neg hover]
      exact ⟨Nat.not_le.mp hle, hover⟩

/-- Whether a limit is enforced on a token. -/
theorem enforced_decodeInteger_iff [Libraries] (hdigits : digits ≠ [])
    (hmax : max < 2 ^ 64) :
    Enforced (integerValue negative digits) max
        ((decodeInteger negative digits).checkUInt64 key max) ↔
      LimitHolds negative (digitsFrom 0 digits) max := by
  have hkept := kept_decodeDigits negative hdigits
  rw [decodeInteger, integerValue]
  cases hdecoded : decodeDigits (maxInteger negative) digits 0 with
  | some kept =>
    rw [hdecoded] at hkept
    cases negative with
    | true => exact enforced_negative_iff hkept
    | false => exact enforced_nonnegative_iff hkept hmax
  | none =>
    rw [hdecoded] at hkept
    obtain ⟨hlarge, hover⟩ := hkept
    rw [enforced_of_error (checkUInt64_real _), LimitHolds]
    cases negative with
    | true =>
      have hlimit : maxInteger true = 2 ^ 63 := rfl
      rw [if_pos rfl, if_pos rfl]
      exact iff_of_true (by omega) fun hwrapped => absurd hwrapped hover
    | false =>
      have hlimit : maxInteger false = 2 ^ 64 - 1 := rfl
      rw [if_neg (by simp), if_neg (by simp), if_neg hover]
      exact iff_of_true (by omega) fun _ => ⟨by omega, by omega⟩

end Limits

/-- An integer of a text is one of the values that the reader makes. -/
theorem parsed_decodeInteger [Libraries] (hdigits : digits ≠ []) :
    (decodeInteger negative digits).Parsed := by
  have hkept := kept_decodeDigits negative hdigits
  unfold decodeInteger
  cases hdecoded : decodeDigits (maxInteger negative) digits 0 with
  | none => exact .real _
  | some kept =>
    rw [hdecoded] at hkept
    have hsize : kept < 2 ^ 64 := by
      have hlimit : maxInteger negative < 2 ^ 64 := by
        cases negative <;> decide
      cases hkept with
      | exact hle | wrapped hover => omega
    dsimp only
    split_ifs with hnegative hsigned
    · exact .int (BitVec.le_toInt _) BitVec.toInt_lt
    · exact .int (by omega) (by omega)
    · exact .uint (by omega) hsize

theorem isNull_decodeInteger [Libraries] (digits : List (Fin 10)) :
    (decodeInteger negative digits).isNull = false := by
  unfold decodeInteger
  split
  · rfl
  · split_ifs <;> rfl

/-- Both overloads of `json_get_uint64_member` enforce a limit on an integer in
a text if and only if the condition holds. -/
theorem uint64Member_enforced_iff [Libraries] (value : Json) (key : String)
    (max default : ℕ) (hmax : max < 2 ^ 64) (negative : Bool)
    (digits : List (Fin 10)) (hdigits : digits ≠ [])
    (hmember : value.member (ascii key) = decodeInteger negative digits) :
    (Enforced (integerValue negative digits) max
        (value.getUInt64MemberOr key max default) ∧
      Enforced (integerValue negative digits) max
        (value.getUInt64Member key max)) ↔
      LimitHolds negative (digitsFrom 0 digits) max := by
  have hnull := isNull_decodeInteger negative digits
  simp only [getUInt64MemberOr, getUInt64Member, hmember, hnull,
    Bool.false_eq_true, if_false, and_self]
  exact enforced_decodeInteger_iff negative hdigits hmax

theorem uint64Member_enforced_iff_hundred : ∃ _ : Libraries,
    (Enforced (integerValue false [1, 0, 0]) 240
        ((object [(ascii "size", decodeInteger false [1, 0, 0])]).getUInt64MemberOr
          "size" 240 64) ∧
      Enforced (integerValue false [1, 0, 0]) 240
        ((object [(ascii "size", decodeInteger false [1, 0, 0])]).getUInt64Member
          "size" 240)) ↔
      LimitHolds false (digitsFrom 0 [1, 0, 0]) 240 :=
  ⟨Libraries.plain, @uint64Member_enforced_iff Libraries.plain _ "size" 240 64
    (by decide) false [1, 0, 0] (by decide) rfl⟩

/-- A thousand is accepted where at most ten is allowed, and a number of twenty
digits is taken for four. -/
theorem uint64Member_exceeds_limit : ∃ _ : Libraries,
    (object [(ascii "size", decodeInteger false [1, 0, 0, 0])]).getUInt64Member
        "size" 10 = .ok 1000 ∧
      (object [(ascii "size", decodeInteger false [1, 8, 4, 4, 6, 7, 4, 4, 0, 7,
        3, 7, 0, 9, 5, 5, 1, 6, 2, 0])]).getUInt64Member "size" 10 = .ok 4 := by
  exact ⟨Libraries.plain, rfl, rfl⟩

end Restpose.Json
