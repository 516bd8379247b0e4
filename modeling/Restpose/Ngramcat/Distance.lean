import Restpose.Core.RankDistance
import Restpose.Ngramcat.Build

/-!
# Distances of profiles

The distance of a sample from a profile is the out-of-place distance of their
n-grams, in numbers of 32 bits.  It is symmetric for profiles that were built
with the same limit.  Profiles that were read may have more n-grams than their
limit, and then the sum need not fit.
-/

namespace Restpose.Ngramcat

open Ranks Heaps List SortedNGramProfile Nat StdMap

/-- Where a profile has an n-gram. -/
def NGramProfile.place (profile : NGramProfile) (ngram : Bytes) :
    Option ℕ :=
  profile.positions[ngram]?

/-! ## Numbers of 32 bits -/

namespace SortedNGramProfile

section Machine

variable {position index : ℕ}

theorem displacement_of_le (hshift : shift position index ≤ 2 ^ 31) :
    displacement position index = shift position index := by
  rw [shift] at hshift
  rw [displacement, shift, BitVec.toInt_ofInt, Int.bmod_def]
  norm_num at hshift ⊢
  split <;> omega

theorem displacement_of_lt (hshift : 2 ^ 31 < shift position index)
    (hbound : shift position index < 2 ^ 32) :
    displacement position index = 2 ^ 32 - shift position index := by
  rw [shift] at hshift hbound
  rw [displacement, shift, BitVec.toInt_ofInt, Int.bmod_def]
  norm_num at hshift hbound ⊢
  split <;> omega

/-- What one pass of the loop adds. -/
def machineCost (ngramCount : ℕ) (other : NGramProfile)
    (entry : Bytes × ℕ) : ℕ :=
  match other.place entry.1 with
  | none => ngramCount
  | some position => displacement position entry.2

variable {ngramCount : ℕ} {other : NGramProfile}

theorem addDistance_eq (count : ℕ) (entry : Bytes × ℕ) :
    addDistance ngramCount other count entry =
      (count + machineCost ngramCount other entry) % 2 ^ 32 := by
  rw [addDistance, machineCost, NGramProfile.place]
  cases other.positions[entry.1]? <;> rfl

theorem foldl_addDistance (entries : List (Bytes × ℕ)) {count : ℕ}
    (hcount : count < 2 ^ 32) :
    entries.foldl (addDistance ngramCount other) count =
      (count + (entries.map (machineCost ngramCount other)).sum) % 2 ^ 32 := by
  induction entries generalizing count with
  | nil => simpa using (mod_eq_of_lt hcount).symm
  | cons entry entries ih =>
    rw [foldl_cons, addDistance_eq, ih (mod_lt _ (by norm_num)),
      map_cons, sum_cons, mod_add_mod, add_assoc]

theorem machineCost_of_le {entry : Bytes × ℕ}
    (hcost : cost ngramCount other.place entry ≤ 2 ^ 31) :
    machineCost ngramCount other entry = cost ngramCount other.place entry := by
  rw [cost] at hcost ⊢
  rw [machineCost]
  cases hplace : other.place entry.1 with
  | none => rfl
  | some position =>
    rw [hplace] at hcost
    exact displacement_of_le hcost

theorem machineCost_of_lt {entry : Bytes × ℕ} (hlimit : ngramCount ≤ 2 ^ 31)
    (hcost : 2 ^ 31 < cost ngramCount other.place entry)
    (hbound : cost ngramCount other.place entry < 2 ^ 32) :
    machineCost ngramCount other entry = 2 ^ 32 - cost ngramCount other.place entry := by
  rw [cost] at hcost hbound ⊢
  rw [machineCost]
  cases hplace : other.place entry.1 with
  | none =>
    rw [hplace] at hcost
    exact absurd hcost (not_lt.mpr hlimit)
  | some position =>
    rw [hplace] at hcost hbound
    exact displacement_of_lt hcost hbound

end Machine

/-! ## The distance -/

section Distance

variable (profile : SortedNGramProfile) (other : NGramProfile)

/-- The number of n-grams that are compared. -/
def ngramCount : ℕ :=
  min profile.maxNgrams other.maxNgrams

/-- The n-grams of the sample that are compared. -/
def compared : List Bytes :=
  profile.ngrams.take (profile.ngramCount other)

/-- The distance as a sum of natural numbers. -/
def naturalDistance : ℕ :=
  outOfPlace (profile.ngramCount other) (profile.compared other) other.place

/-- How far the n-grams that both have are from their places. -/
def sharedShifts : List ℕ :=
  shifts (profile.compared other) other.place

theorem length_compared : (profile.compared other).length ≤ profile.ngramCount other := by
  rw [compared, length_take]
  exact min_le_left _ _

variable {profile}

variable (hlength : profile.ngrams.length < 2 ^ 32)

include hlength

/-- The distance is the sum of what the passes add, in 32 bits. -/
theorem distance_eq : profile.distance other =
      ((profile.ngramCount other - (profile.compared other).length) *
        profile.ngramCount other +
        ((profile.compared other).zipIdx.map
          (machineCost (profile.ngramCount other) other)).sum) % 2 ^ 32 := by
  have htake : profile.ngrams.take
    (min profile.ngrams.length (profile.ngramCount other)) =
        profile.compared other := by
    rw [compared, min_comm, ← take_take, take_length]
  have hstart : (if profile.ngrams.length < profile.ngramCount other then
      (profile.ngramCount other - profile.ngrams.length) *
        profile.ngramCount other % 2 ^ 32 else 0) =
      (profile.ngramCount other - (profile.compared other).length) *
        profile.ngramCount other % 2 ^ 32 := by
    rw [compared, length_take]
    split
    next hshort => rw [min_eq_right hshort.le]
    next hlong =>
      rw [min_eq_left (Nat.le_of_not_lt hlong), Nat.sub_self, Nat.zero_mul]
      rfl
  change ((profile.ngrams.take (min (profile.ngrams.length % 2 ^ 32)
    (profile.ngramCount other))).zipIdx.foldl
      (addDistance (profile.ngramCount other) other)
      (if profile.ngrams.length % 2 ^ 32 < profile.ngramCount other then
        (profile.ngramCount other - profile.ngrams.length % 2 ^ 32) *
          profile.ngramCount other % 2 ^ 32 else 0)) = _
  rw [mod_eq_of_lt hlength, htake, hstart,
    foldl_addDistance _ (mod_lt _ (by norm_num)), mod_add_mod]

theorem distance_lt : profile.distance other < 2 ^ 32 := by
  rw [distance_eq other hlength]
  exact mod_lt _ (by norm_num)

/-- If no n-gram is too far away, the passes add what they should. -/
theorem distance_eq_mod (hcost : ∀ entry ∈ (profile.compared other).zipIdx,
      cost (profile.ngramCount other) other.place entry ≤ 2 ^ 31) :
    profile.distance other = profile.naturalDistance other % 2 ^ 32 := by
  have hsum : (profile.compared other).zipIdx.map
    (machineCost (profile.ngramCount other) other) =
        (profile.compared other).zipIdx.map
          (cost (profile.ngramCount other) other.place) := by
    apply map_congr_left
    intro entry hentry
    exact machineCost_of_le (hcost entry hentry)
  rw [distance_eq other hlength, hsum]
  rfl

omit hlength

theorem naturalDistance_add : profile.naturalDistance other +
        profile.ngramCount other * (profile.sharedShifts other).length =
      profile.ngramCount other * profile.ngramCount other +
        (profile.sharedShifts other).sum :=
  outOfPlace_add (profile.length_compared other) _

variable {other}

/-- An n-gram that is too far away is not counted as it should be, if the sum
fits in 32 bits. -/
theorem distance_ne (hlength : profile.ngrams.length < 2 ^ 32)
    (hlimit : profile.ngramCount other ≤ 2 ^ 31) {far : ℕ}
    (hfar : far ∈ profile.sharedShifts other) (hlarge : 2 ^ 31 < far)
    (hbound : profile.naturalDistance other < 2 ^ 32) :
    profile.distance other ≠ profile.naturalDistance other := by
  obtain ⟨entry, hentry, hcost⟩ :=
    exists_cost_eq_of_mem_shifts (profile.ngramCount other) hfar
  -- The other n-grams have less than half of what fits.
  have hperm := perm_cons_erase hentry
  generalize (profile.compared other).zipIdx.erase entry = rest at hperm
  have hnatural : profile.naturalDistance other =
      (profile.ngramCount other - (profile.compared other).length) *
        profile.ngramCount other +
        (far + (rest.map (cost (profile.ngramCount other) other.place)).sum) := by
    rw [naturalDistance, outOfPlace, (hperm.map _).sum_eq, map_cons, sum_cons, hcost]
  have hrest : rest.map (machineCost (profile.ngramCount other) other) =
      rest.map (cost (profile.ngramCount other) other.place) := by
    apply map_congr_left
    intro next hnext
    have hmem := mem_map_of_mem (f := cost (profile.ngramCount other) other.place) hnext
    have hle := le_sum_of_mem hmem
    exact machineCost_of_le (by omega)
  have hmachine : profile.distance other =
      ((profile.ngramCount other - (profile.compared other).length) *
          profile.ngramCount other + ((2 ^ 32 - far) +
        (rest.map (cost (profile.ngramCount other) other.place)).sum)) % 2 ^ 32 := by
    have hwrapped := machineCost_of_lt hlimit (hcost ▸ hlarge) (by rw [hcost]; omega)
    rw [distance_eq other hlength, (hperm.map _).sum_eq, map_cons, sum_cons, hrest,
      hwrapped, hcost]
  rw [hmachine, mod_eq_of_lt (by omega), hnatural]
  omega

/-- The distance is the sum of natural numbers, and is at most the square of the
number of n-grams that are compared, if and only if the n-grams that both have
are not too far from their places on average, and none of them is further away
than an `int` can tell. -/
theorem distance_exact (hlength : profile.ngrams.length < 2 ^ 32)
    (hlimit : profile.ngramCount other ≤ 65536) :
    profile.distance other = profile.naturalDistance other ∧
      profile.naturalDistance other ≤
          profile.ngramCount other * profile.ngramCount other ↔
      (profile.sharedShifts other).sum ≤
          profile.ngramCount other * (profile.sharedShifts other).length ∧
        (profile.ngramCount other = 65536 → (profile.sharedShifts other).sum <
            profile.ngramCount other * (profile.sharedShifts other).length) ∧
        ∀ far ∈ profile.sharedShifts other, far ≤ 2 ^ 31 := by
  have hadd := profile.naturalDistance_add other
  have hsquare : profile.ngramCount other * profile.ngramCount other ≤ 2 ^ 32 := by
    nlinarith
  constructor
  · rintro ⟨hexact, hle⟩
    have hlt := distance_lt other hlength
    refine ⟨by omega, ?_, ?_⟩
    · intro hmax
      rw [hmax] at hadd ⊢
      omega
    · intro far hfar
      by_contra hlarge
      exact distance_ne hlength (by omega) hfar (by omega) (by omega) hexact
  · rintro ⟨hsum, hstrict, hfar⟩
    have hle : profile.naturalDistance other ≤
        profile.ngramCount other * profile.ngramCount other := by
      omega
    have hlt : profile.naturalDistance other < 2 ^ 32 := by
      rcases hlimit.lt_or_eq with hsmall | hmax
      · nlinarith
      · have hless := hstrict hmax
        rw [hmax] at hadd hless
        omega
    refine ⟨?_, hle⟩
    rw [distance_eq_mod other hlength, mod_eq_of_lt hlt]
    intro entry hentry
    exact cost_le_of_shifts (by omega) hfar hentry

end Distance

end SortedNGramProfile

/-! ## Profiles that were built -/

section Built

/-- The positions of n-grams that are not there twice. -/
theorem place_initFromSortedNgram {profile : SortedNGramProfile}
    (hnodup : profile.ngrams.Nodup) :
    (NGramProfile.initFromSortedNgram profile).place = placeIn profile.ngrams := by
  funext ngram
  have hkeys : profile.ngrams.zipIdx.map Prod.fst = profile.ngrams :=
    zipIdx_map_fst 0 profile.ngrams
  change (insertAll (fun _ position => position) profile.ngrams.zipIdx ∅)[ngram]? = _
  cases hplace : placeIn profile.ngrams ngram with
  | some position =>
    have hentry := (placeIn_eq_some_iff hnodup).mp hplace
    exact find_insertAll_of_mem (fun _ position => position)
      (hkeys.symm ▸ hnodup) hentry ∅
  | none =>
    have hmem := notMem_of_placeIn hplace
    rw [find_insertAll_of_notMem _ (hkeys.symm ▸ hmem)]
    simp

variable [Algorithms NGramFreq] (counts others : StdMap ℕ) {maxNgrams : ℕ}

theorem length_ngrams_build_le (maxNgrams : ℕ) :
    (build counts maxNgrams).ngrams.length ≤ maxNgrams := by
  rw [length_ngrams_build]
  exact min_le_left _ _

theorem distance_build (hmax : maxNgrams ≤ 2 ^ 31) : (build counts maxNgrams).distance
        (.initFromSortedNgram (build others maxNgrams)) =
      outOfPlace maxNgrams (build counts maxNgrams).ngrams
        (placeIn (build others maxNgrams).ngrams) % 2 ^ 32 := by
  have hleft := length_ngrams_build_le counts maxNgrams
  have hright := length_ngrams_build_le others maxNgrams
  have hplace := place_initFromSortedNgram (nodup_ngrams_build others maxNgrams)
  have hcount : (build counts maxNgrams).ngramCount
      (.initFromSortedNgram (build others maxNgrams)) = maxNgrams :=
    min_self maxNgrams
  have hcompared : (build counts maxNgrams).compared
      (.initFromSortedNgram (build others maxNgrams)) =
        (build counts maxNgrams).ngrams := by
    rw [compared, hcount, take_of_length_le hleft]
  rw [distance_eq_mod]
  · rw [naturalDistance, hcount, hcompared, hplace]
  · omega
  · rw [hcount, hcompared, hplace]
    intro entry hentry
    exact (cost_placeIn_le hleft hright hentry).trans hmax

/-- The distance of profiles that were built with the same limit is symmetric,
and the distance of a profile from itself is what its missing n-grams cost. -/
theorem distance_build_comm (counts others : StdMap ℕ)
    (hmax : maxNgrams ≤ 2 ^ 31) :
    (build counts maxNgrams).distance
          (.initFromSortedNgram (build others maxNgrams)) =
        (build others maxNgrams).distance
          (.initFromSortedNgram (build counts maxNgrams)) ∧
      (build counts maxNgrams).distance
          (.initFromSortedNgram (build counts maxNgrams)) =
        (maxNgrams - (build counts maxNgrams).ngrams.length) * maxNgrams %
          2 ^ 32 := by
  have hleft := nodup_ngrams_build counts maxNgrams
  have hright := nodup_ngrams_build others maxNgrams
  constructor
  · rw [distance_build counts others hmax, distance_build others counts hmax,
      outOfPlace_comm hleft hright (length_ngrams_build_le counts maxNgrams)
        (length_ngrams_build_le others maxNgrams)]
  · rw [distance_build counts counts hmax, outOfPlace_self maxNgrams hleft]

end Built

/-- The counts of the n-grams `a` and `b`. -/
def countsOf (first second : ℕ) : StdMap ℕ :=
  ((∅ : StdMap ℕ).insert (ascii "a") first).insert (ascii "b") second

/-- Two profiles with the same n-grams in the other order. -/
theorem distance_build_comm_pair : ∃ _ : Algorithms NGramFreq,
    (build (countsOf 2 1) 3).distance
          (.initFromSortedNgram (build (countsOf 1 2) 3)) = 5 ∧
      (build (countsOf 1 2) 3).distance
          (.initFromSortedNgram (build (countsOf 2 1) 3)) = 5 ∧
      (build (countsOf 2 1) 3).distance
          (.initFromSortedNgram (build (countsOf 2 1) 3)) = 3 := by
  refine ⟨sorting, ?_⟩
  let _ : Algorithms NGramFreq := sorting
  have hvalue : (build (countsOf 2 1) 3).distance
      (.initFromSortedNgram (build (countsOf 1 2) 3)) = 5 := by
    decide +kernel
  have hboth := distance_build_comm (countsOf 2 1) (countsOf 1 2)
    (show 3 ≤ 2 ^ 31 by norm_num)
  exact ⟨hvalue, hboth.1.symm.trans hvalue, hboth.2.trans (by decide +kernel)⟩

/-! ## Profiles that were read -/

/-- The distance of a sample that was built with a limit of at most 65536 from
any other profile is computed without overflow, and is at most the square of the
smaller limit, if and only if the n-grams that both have are on average not
further from their places than this limit, and closer if it is 65536, and none
of them is further away than an `int` can tell. -/
theorem distance_build_exact_iff [Algorithms NGramFreq] (counts : StdMap ℕ)
    {maxNgrams : ℕ} (hmax : maxNgrams ≤ 65536) (target : NGramProfile) :
    (build counts maxNgrams).distance target =
          (build counts maxNgrams).naturalDistance target ∧
        (build counts maxNgrams).naturalDistance target ≤
          min maxNgrams target.maxNgrams * min maxNgrams target.maxNgrams ↔
      ((build counts maxNgrams).sharedShifts target).sum ≤
          min maxNgrams target.maxNgrams *
            ((build counts maxNgrams).sharedShifts target).length ∧
        (min maxNgrams target.maxNgrams = 65536 →
          ((build counts maxNgrams).sharedShifts target).sum <
            min maxNgrams target.maxNgrams *
              ((build counts maxNgrams).sharedShifts target).length) ∧
        ∀ far ∈ (build counts maxNgrams).sharedShifts target,
          far ≤ 2 ^ 31 := by
  have hlength := length_ngrams_build_le counts maxNgrams
  have hlimit : min maxNgrams target.maxNgrams ≤ maxNgrams := min_le_left _ _
  exact SortedNGramProfile.distance_exact (by omega) (hlimit.trans hmax)

/-- The positions of n-grams that were stored are below their number. -/
theorem lt_length_of_place {stored : SortedNGramProfile} {ngram : Bytes} {position : ℕ}
    (hplace : (NGramProfile.initFromSortedNgram stored).place ngram = some position) :
    position < stored.ngrams.length := by
  rcases mem_of_find_insertAll _ hplace with hempty | ⟨index, hentry, rfl⟩
  · simp at hempty
  · simpa using snd_lt_of_mem_zipIdx hentry

/-- In particular there is no overflow if no more n-grams are stored than the
smaller limit allows, and the limit is below 65536. -/
theorem distance_build_of_length_le [Algorithms NGramFreq] (counts : StdMap ℕ)
    {maxNgrams : ℕ} (hmax : maxNgrams ≤ 65536) {stored : SortedNGramProfile}
    (hlength : stored.ngrams.length ≤ min maxNgrams stored.maxNgrams)
    (hlimit : min maxNgrams stored.maxNgrams < 65536) :
    (build counts maxNgrams).distance (.initFromSortedNgram stored) =
        (build counts maxNgrams).naturalDistance (.initFromSortedNgram stored) ∧
      (build counts maxNgrams).naturalDistance (.initFromSortedNgram stored) ≤
        min maxNgrams stored.maxNgrams * min maxNgrams stored.maxNgrams := by
  have hbuilt := length_ngrams_build_le counts maxNgrams
  have hshifts : ∀ far ∈
      (build counts maxNgrams).sharedShifts (.initFromSortedNgram stored),
      far ≤ min maxNgrams stored.maxNgrams := by
    intro far hfar
    refine le_of_mem_shifts (length_compared _ _) ?_ hfar
    intro ngram position hplace
    exact (lt_length_of_place hplace).le.trans hlength
  have hcount : (build counts maxNgrams).ngramCount (.initFromSortedNgram stored) =
      min maxNgrams stored.maxNgrams := rfl
  refine (distance_exact (by omega) (hcount.trans_le hlimit.le)).mpr ⟨?_, ?_, ?_⟩
  · rw [Nat.mul_comm]
    exact sum_le_card_nsmul _ _ hshifts
  · intro hequal
    exact absurd hequal hlimit.ne
  · intro far hfar
    exact (hshifts far hfar).trans (by omega)

/-- The JSON of a profile. -/
def profileJson (ngrams : List String) (maxNgrams : ℤ) : Json :=
  .object [(ascii "max_ngrams", .int maxNgrams),
    (ascii "ngrams", .array (ngrams.map fun ngram => .string (ascii ngram)))]

theorem distance_build_exact_pair : ∃ _ : Algorithms NGramFreq,
    ∃ target, NGramProfile.fromJson (profileJson ["b", "a"] 3) = .ok target ∧
      (build (countsOf 2 1) 3).distance target =
        (build (countsOf 2 1) 3).naturalDistance target ∧
      (build (countsOf 2 1) 3).naturalDistance target ≤ 9 := by
  let _ : Algorithms NGramFreq := sorting
  refine ⟨sorting, _, rfl, ?_⟩
  apply (distance_build_exact_iff (countsOf 2 1) (by norm_num) _).mpr
  decide +kernel

/-- An empty sample and an empty profile, both with the greatest limit, are as
close as can be; and an n-gram of a profile with more n-grams than its limit is
further away than the limit. -/
theorem distance_build_wraps : ∃ _ : Algorithms NGramFreq,
    (∃ target, NGramProfile.fromJson (profileJson [] 65536) = .ok target ∧
      (build ∅ 65536).distance target = 0 ∧
      (build ∅ 65536).naturalDistance target = 2 ^ 32) ∧
    ∃ target, NGramProfile.fromJson (profileJson ["x", "y", "a"] 1) =
        .ok target ∧
      (build (countsOf 2 1) 1).distance target = 2 ∧
      min 1 target.maxNgrams * min 1 target.maxNgrams = 1 := by
  let _ : Algorithms NGramFreq := sorting
  refine ⟨sorting, ⟨_, rfl, ?_⟩, ⟨_, rfl, ?_⟩⟩
  · decide +kernel
  · decide +kernel

end Restpose.Ngramcat
