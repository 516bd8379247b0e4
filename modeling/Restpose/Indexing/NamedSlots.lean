import Restpose.Indexing.Indexers

/-!
# Slots with names

A slot that is given by its name has a hash of the name as its number.  The hash
keeps clear of the numbers that are given as numbers.  Its largest value is the
number that stands for no slot.
-/

namespace Restpose.Config.SlotName

open Indexing Nat

/-- The number with the digits `1` and then the bytes of the name, in base 33. -/
def nameNumber (name : Bytes) : ℕ :=
  Nat.ofDigits 33 ((name.map Fin.val).reverse ++ [1])

/-- The name has a hash below the largest one. -/
def HashesBelow (name : Bytes) : Prop :=
  nameNumber name % 2 ^ 32 ≠ 0xefffffff ∧ nameNumber name % 2 ^ 32 ≠ 0xffffffff

/-! ## The loop -/

theorem foldl_hash (name : Bytes) (start : ℕ) :
    name.foldl (fun hash byte => (hash + (hash * 32 + byte.val)) % 2 ^ 64)
      start % 2 ^ 64 =
      (ofDigits 33 (name.map Fin.val).reverse + 33 ^ name.length * start) % 2 ^ 64 := by
  induction name generalizing start with
  | nil => simp
  | cons byte name ih =>
    have hdigits : ofDigits 33 ((byte :: name).map Fin.val).reverse =
        ofDigits 33 (name.map Fin.val).reverse + 33 ^ name.length * byte.val := by
      simp [ofDigits_append]
    rw [List.foldl_cons, ih, hdigits]
    calc (ofDigits 33 (name.map Fin.val).reverse + 33 ^ name.length *
            ((start + (start * 32 + byte.val)) % 2 ^ 64)) % 2 ^ 64
        = (ofDigits 33 (name.map Fin.val).reverse + 33 ^ name.length *
            (start + (start * 32 + byte.val))) % 2 ^ 64 := by
          simp [add_mod, mul_mod]
      _ = _ := by
          congr 1
          rw [List.length_cons]
          ring

theorem foldl_hash_one (name : Bytes) :
    name.foldl (fun hash byte => (hash + (hash * 32 + byte.val)) % 2 ^ 64) 1 % 2 ^ 64 =
      nameNumber name % 2 ^ 64 := by
  rw [foldl_hash, nameNumber, ofDigits_append]
  simp

/-! ## The mask -/

/-- The mask drops one bit out of 32. -/
theorem and_mask (hash : ℕ) :
    hash &&& 0xefffffff = hash / 2 ^ 29 % 8 * 2 ^ 29 + hash % 2 ^ 28 := by
  have hhigh : hash &&& 7 <<< 29 = (hash >>> 29 &&& 7) <<< 29 := by
    apply eq_of_testBit_eq
    intro index
    rw [testBit_and, testBit_shiftLeft, testBit_shiftLeft, testBit_and,
      testBit_shiftRight]
    by_cases hindex : 29 ≤ index <;> simp [hindex]
  have hlow : hash % 2 ^ 28 < 2 ^ 29 := by omega
  calc hash &&& 0xefffffff = hash &&& (7 <<< 29 ||| (2 ^ 28 - 1)) := rfl
    _ = (hash >>> 29 &&& 2 ^ 3 - 1) <<< 29 ||| hash % 2 ^ 28 := by
        rw [and_or_distrib_left, hhigh, and_two_pow_sub_one_eq_mod hash]
        rfl
    _ = hash / 2 ^ 29 % 8 * 2 ^ 29 + hash % 2 ^ 28 := by
        rw [← shiftLeft_add_eq_or_of_lt hlow, shiftLeft_eq,
          and_two_pow_sub_one_eq_mod, shiftRight_eq_div_pow]

theorem mask_eq_iff (hash : ℕ) : hash &&& 0xefffffff = 0xefffffff ↔
      hash % 2 ^ 32 = 0xefffffff ∨ hash % 2 ^ 32 = 0xffffffff := by
  rw [and_mask]
  omega

theorem hashSlot_eq {name : Bytes} (hname : name ≠ []) :
    hashSlot name = 0x10000000 + (nameNumber name &&& 0xefffffff) := by
  have hloop := foldl_hash_one name
  simp only [hashSlot, if_neg hname, and_mask]
  omega

/-! ## The slot -/

theorem add_entries (values : DocumentValues) (slot : ℕ) (value : Bytes) :
    ∃ entry, (values.add slot value).entries[slot]? = some entry ∧
      value ∈ entry.values := by
  refine ⟨_, Std.ExtTreeMap.getElem?_insert_self, ?_⟩
  exact Finset.mem_insert_self _ _

/-- The number of a named slot is not one that is advised for numbered slots.
It is the number of a slot, such that values are stored in it, if and only if
the hash of the name is not the largest one. -/
theorem hashSlot_ne_badValueno_iff (name : Bytes) (hname : name ≠ []) :
    0x10000000 ≤ hashSlot name ∧
      (hashSlot name ≠ badValueno ↔ HashesBelow name) ∧
      ((∀ (state : IndexingState) (value : Bytes), ∃ entry,
          (state.addSlotValue (hashSlot name) value).docvals.entries[
            hashSlot name]? = some entry ∧ value ∈ entry.values) ↔
        HashesBelow name) := by
  have heq := hashSlot_eq hname
  have hmask := mask_eq_iff (nameNumber name)
  have hbad : hashSlot name ≠ badValueno ↔ HashesBelow name := by
    rw [HashesBelow, ← not_or, ← hmask, heq, badValueno]
    omega
  refine ⟨by omega, hbad, ?_⟩
  rw [← hbad]
  constructor
  · intro hstored hnone
    obtain ⟨entry, hentry, -⟩ := hstored (.new .none) []
    rw [hnone, IndexingState.addSlotValue, if_pos rfl] at hentry
    simp [IndexingState.new, DocumentValues.empty] at hentry
  · intro hslot state value
    rw [IndexingState.addSlotValue, if_neg hslot]
    exact add_entries state.docvals _ value

/-- The slot named "date". -/
theorem hashSlot_date :
    0x10000000 ≤ hashSlot (ascii "date") ∧
      hashSlot (ascii "date") ≠ badValueno := by
  have hslot := hashSlot_ne_badValueno_iff (ascii "date") (by decide)
  exact ⟨hslot.1, hslot.2.1.mpr ⟨by decide, by decide⟩⟩

/-- A name that has the largest hash: nothing is stored in the slot. -/
theorem hashSlot_ddxpadi :
    ascii "ddxpadi" ≠ [] ∧ hashSlot (ascii "ddxpadi") = badValueno ∧
      ∀ (state : IndexingState) (value : Bytes),
        state.addSlotValue (hashSlot (ascii "ddxpadi")) value = state := by
  have hhash : hashSlot (ascii "ddxpadi") = badValueno := by decide
  refine ⟨by decide, hhash, fun state value => ?_⟩
  rw [IndexingState.addSlotValue, if_pos hhash]

end Restpose.Config.SlotName
