import Mathlib

/-!
# Out-of-place distance

A ranking is compared with another one by how far its elements are from their
places in the other one.  Elements that have no place there, and elements that
are missing from the ranking, cost as much as its greatest length.
-/

namespace Restpose.Ranks

open List

variable {Gram : Type*}

/-- How far an element at an index is from its place. -/
def shift (position index : ℕ) : ℕ :=
  ((position : ℤ) - index).natAbs

theorem shift_comm (left right : ℕ) : shift left right = shift right left := by
  rw [shift, shift]
  omega

@[simp]
theorem shift_self (index : ℕ) : shift index index = 0 := by
  simp [shift]

/-- What an element at an index costs, by its place. -/
def cost (limit : ℕ) (place : Gram → Option ℕ) (entry : Gram × ℕ) : ℕ :=
  match place entry.1 with
  | none => limit
  | some position => shift position entry.2

/-- The out-of-place distance of a ranking of at most `limit` elements. -/
def outOfPlace (limit : ℕ) (ranking : List Gram) (place : Gram → Option ℕ) : ℕ :=
  (limit - ranking.length) * limit +
    (ranking.zipIdx.map (cost limit place)).sum

/-- The shifts of the elements that have a place. -/
def shifts (ranking : List Gram) (place : Gram → Option ℕ) : List ℕ :=
  ranking.zipIdx.filterMap fun entry =>
    (place entry.1).map fun position => shift position entry.2

variable {ranking : List Gram}

theorem exists_cost_eq_of_mem_shifts (limit : ℕ) {place : Gram → Option ℕ} {far : ℕ}
    (hfar : far ∈ shifts ranking place) :
    ∃ entry ∈ ranking.zipIdx, cost limit place entry = far := by
  obtain ⟨entry, hentry, hshift⟩ := mem_filterMap.mp hfar
  obtain ⟨position, hplace, hposition⟩ := Option.map_eq_some_iff.mp hshift
  refine ⟨entry, hentry, ?_⟩
  rw [cost, hplace]
  exact hposition

theorem cost_le_of_shifts {limit bound : ℕ} (hlimit : limit ≤ bound)
    {place : Gram → Option ℕ} (hshifts : ∀ far ∈ shifts ranking place, far ≤ bound)
    {entry : Gram × ℕ} (hentry : entry ∈ ranking.zipIdx) :
    cost limit place entry ≤ bound := by
  rw [cost]
  cases hplace : place entry.1 with
  | none => exact hlimit
  | some position =>
    apply hshifts
    exact mem_filterMap.mpr ⟨entry, hentry, by rw [hplace]; rfl⟩

theorem le_of_mem_shifts {limit : ℕ} (hlength : ranking.length ≤ limit)
    {place : Gram → Option ℕ}
    (hplace : ∀ gram position, place gram = some position → position ≤ limit) {far : ℕ}
    (hfar : far ∈ shifts ranking place) : far ≤ limit := by
  obtain ⟨entry, hentry, hshift⟩ := mem_filterMap.mp hfar
  obtain ⟨position, hposition, rfl⟩ := Option.map_eq_some_iff.mp hshift
  have hle := hplace entry.1 position hposition
  have hindex := snd_lt_of_mem_zipIdx hentry
  rw [shift]
  omega

theorem sum_cost (limit : ℕ) (place : Gram → Option ℕ) (entries : List (Gram × ℕ)) :
    (entries.map (cost limit place)).sum + limit * (entries.filterMap fun entry =>
          (place entry.1).map fun position => shift position entry.2).length =
      limit * entries.length + (entries.filterMap fun entry =>
          (place entry.1).map fun position => shift position entry.2).sum := by
  induction entries with
  | nil => simp
  | cons entry entries ih =>
    rw [map_cons, sum_cons, cost]
    cases hplace : place entry.1 with
    | none =>
      simp only [filterMap_cons, hplace, Option.map_none, length_cons, Nat.mul_succ]
      omega
    | some position =>
      simp only [filterMap_cons, hplace, Option.map_some, length_cons, sum_cons,
        Nat.mul_succ]
      omega

theorem outOfPlace_add {limit : ℕ} (hlength : ranking.length ≤ limit)
    (place : Gram → Option ℕ) :
    outOfPlace limit ranking place + limit * (shifts ranking place).length =
      limit * limit + (shifts ranking place).sum := by
  have hcost := sum_cost limit place ranking.zipIdx
  have hsplit : (limit - ranking.length) * limit + limit * ranking.length =
      limit * limit := by
    rw [Nat.mul_comm, ← Nat.mul_add, Nat.sub_add_cancel hlength]
  rw [length_zipIdx] at hcost
  rw [outOfPlace, shifts]
  omega

section Rankings

variable [DecidableEq Gram]

variable {ranking : List Gram}

theorem zipIdx_eq_map (hnodup : ranking.Nodup) :
    ranking.zipIdx = ranking.map fun gram => (gram, ranking.idxOf gram) := by
  apply ext_getElem
  · simp
  · intro index hleft hright
    have hindex : index < ranking.length := by simpa using hright
    simp [hnodup.idxOf_getElem index hindex]

/-- The place of an element in a ranking. -/
def placeIn (ranking : List Gram) (gram : Gram) : Option ℕ :=
  if gram ∈ ranking then some (ranking.idxOf gram) else none

theorem notMem_of_placeIn {gram : Gram} (hplace : placeIn ranking gram = none) :
    gram ∉ ranking := by
  intro hmem
  simp [placeIn, hmem] at hplace

theorem placeIn_eq_some_iff (hnodup : ranking.Nodup) {gram : Gram} {position : ℕ} :
    placeIn ranking gram = some position ↔ (gram, position) ∈ ranking.zipIdx := by
  rw [placeIn, zipIdx_eq_map hnodup, mem_map]
  constructor
  · intro hplace
    split at hplace
    next hmem => exact ⟨gram, hmem, by rw [Option.some.inj hplace]⟩
    next => cases hplace
  · rintro ⟨other, hmem, hpair⟩
    obtain ⟨rfl, hindex⟩ := Prod.mk.inj hpair
    rw [if_pos hmem, hindex]

variable {left right : List Gram}

/-- No element of a ranking costs more than the limit. -/
theorem cost_placeIn_le {limit : ℕ} (hleft : left.length ≤ limit)
    (hright : right.length ≤ limit) {entry : Gram × ℕ} (hentry : entry ∈ left.zipIdx) :
    cost limit (placeIn right) entry ≤ limit := by
  have hindex : entry.2 < left.length := by
    simpa using (mem_zipIdx hentry).2.1
  rw [cost, placeIn]
  by_cases hmem : entry.1 ∈ right
  · have hposition : right.idxOf entry.1 < right.length := idxOf_lt_length_iff.mpr hmem
    simp only [if_pos hmem, shift]
    omega
  · simp [hmem]

/-- The shifts between two rankings, over the elements of the first. -/
theorem shifts_placeIn (hleft : left.Nodup) : shifts left (placeIn right) =
      (left.filter fun gram => decide (gram ∈ right)).map fun gram =>
        shift (right.idxOf gram) (left.idxOf gram) := by
  have hfilter : ∀ grams : List Gram,
    (grams.filterMap fun gram => (placeIn right gram).map
        fun position => shift position (left.idxOf gram)) =
      (grams.filter fun gram => decide (gram ∈ right)).map fun gram =>
        shift (right.idxOf gram) (left.idxOf gram) := by
    intro grams
    induction grams with
    | nil => rfl
    | cons gram grams ih =>
      by_cases hmem : gram ∈ right <;> simp [placeIn, hmem, ← ih]
  rw [shifts, zipIdx_eq_map hleft, filterMap_map]
  exact hfilter left

/-- The shifts between two rankings do not depend on their order. -/
theorem shifts_perm (hleft : left.Nodup) (hright : right.Nodup) :
    (shifts left (placeIn right)).Perm (shifts right (placeIn left)) := by
  rw [shifts_placeIn hleft, shifts_placeIn hright]
  have hcommon : (left.filter fun gram => decide (gram ∈ right)).Perm
      (right.filter fun gram => decide (gram ∈ left)) := by
    apply (perm_ext_iff_of_nodup (hleft.filter _) (hright.filter _)).mpr
    intro gram
    simp [and_comm]
  have hshift : (fun gram => shift (right.idxOf gram) (left.idxOf gram)) =
      fun gram => shift (left.idxOf gram) (right.idxOf gram) := by
    funext gram
    exact shift_comm _ _
  rw [hshift]
  exact hcommon.map _

theorem outOfPlace_comm {limit : ℕ} (hleft : left.Nodup) (hright : right.Nodup)
    (hleftLength : left.length ≤ limit) (hrightLength : right.length ≤ limit) :
    outOfPlace limit left (placeIn right) = outOfPlace limit right (placeIn left) := by
  have hperm := shifts_perm hleft hright
  have hfirst := outOfPlace_add hleftLength (placeIn right)
  have hsecond := outOfPlace_add hrightLength (placeIn left)
  rw [hperm.length_eq, hperm.sum_eq] at hfirst
  omega

/-- The distance of a ranking from itself counts what is missing. -/
theorem outOfPlace_self (limit : ℕ) (hnodup : ranking.Nodup) :
    outOfPlace limit ranking (placeIn ranking) = (limit - ranking.length) * limit := by
  have hcost : ∀ gram ∈ ranking,
      cost limit (placeIn ranking) (gram, ranking.idxOf gram) = 0 := by
    intro gram hgram
    simp [cost, placeIn, hgram]
  have hzero : (ranking.zipIdx.map (cost limit (placeIn ranking))).sum = 0 := by
    rw [zipIdx_eq_map hnodup, map_map]
    apply sum_eq_zero
    intro number hnumber
    obtain ⟨gram, hgram, rfl⟩ := mem_map.mp hnumber
    exact hcost gram hgram
  rw [outOfPlace, hzero, Nat.add_zero]

end Rankings

end Restpose.Ranks
