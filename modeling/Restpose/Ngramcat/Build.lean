import Restpose.Ngramcat.Profile

/-!
# The most frequent n-grams

The builder keeps a heap of the best n-grams it has seen.  A later n-gram is
only taken if it is more frequent than the worst of them: if it is as frequent,
it comes after all of them, because the counts are read in the order of the
n-grams.
-/

namespace Restpose.Ngramcat

open Heaps NGramFreq List

theorem fill_eq (maxNgrams : ℕ) (items : List NGramFreq) (entries : List (Bytes × ℕ)) :
    fill maxNgrams items entries =
      (items ++ (entries.take (maxNgrams - items.length)).map ofEntry,
        entries.drop (maxNgrams - items.length)) := by
  induction entries generalizing items with
  | nil => simp [fill]
  | cons entry entries ih =>
    rw [fill]
    split
    next hroom =>
      have hcount : maxNgrams - items.length =
          maxNgrams - (items ++ [ofEntry entry]).length + 1 := by
        simp only [length_append, length_singleton]
        omega
      rw [hcount]
      simpa using ih (items ++ [ofEntry entry])
    next hfull =>
      have hcount : maxNgrams - items.length = 0 := by omega
      simp [hcount]

section Selecting

variable [Algorithms NGramFreq]

/-- The items are a heap of the best of those seen, with `min_freq` the frequency
at its front. -/
structure Selecting (seen : List NGramFreq) (size : ℕ)
    (state : List NGramFreq × ℕ) : Prop where
  heap : IsHeap state.1
  least : Least seen state.1
  length : state.1.length = size
  minFreq : state.2 = frontFreq state.1

omit [Algorithms NGramFreq] in
/-- An n-gram that is not more frequent than the worst item is worse. -/
theorem Selecting.le_ofEntry {seen : List NGramFreq} {size : ℕ}
    {state : List NGramFreq × ℕ} (hselecting : Selecting seen size state)
    {entry : Bytes × ℕ} (hlast : ∀ item ∈ seen, item.ngram < entry.1)
    (hfreq : entry.2 ≤ state.2) : ∀ item ∈ state.1, item ≤ ofEntry entry := by
  intro item hitem
  obtain ⟨items, minFreq⟩ := state
  cases items with
  | nil => cases hitem
  | cons front items =>
    have hfront : front.ngram < entry.1 :=
      hlast front (hselecting.least.subset mem_cons_self)
    have hminFreq : minFreq = front.freq := hselecting.minFreq
    have hle : entry.2 ≤ front.freq := hminFreq ▸ hfreq
    have hworse : front < ofEntry entry := by
      apply NGramFreq.lt_iff.mpr
      rcases hle.lt_or_eq with hlt | heq
      · exact Or.inl hlt
      · exact Or.inr ⟨heq.symm, hfront⟩
    exact (hselecting.heap.le_front item hitem).trans hworse.le

theorem Selecting.consider {seen : List NGramFreq} {size : ℕ}
    {state : List NGramFreq × ℕ} (hselecting : Selecting seen size state)
    {entry : Bytes × ℕ} (hlast : ∀ item ∈ seen, item.ngram < entry.1) :
    Selecting (seen ++ [ofEntry entry]) size (Ngramcat.consider state entry) := by
  rw [Ngramcat.consider]
  split
  next =>
    obtain ⟨greatest, hperm, hheap, hgreatest⟩ :=
      exchange_spec hselecting.heap (ofEntry entry)
    have hlength := hperm.length_eq
    rw [length_cons, length_cons] at hlength
    exact
      { heap := hheap
        least := hselecting.least.exchange hperm hgreatest
        length := (Nat.succ.inj hlength).trans hselecting.length
        minFreq := rfl }
  next hfreq =>
    exact
      { heap := hselecting.heap
        least := hselecting.least.skip
          (hselecting.le_ofEntry hlast (Nat.le_of_not_lt hfreq))
        length := hselecting.length
        minFreq := hselecting.minFreq }

theorem Selecting.foldl_consider {seen entries : List (Bytes × ℕ)} {size : ℕ}
    {state : List NGramFreq × ℕ} (hselecting : Selecting (seen.map ofEntry) size state)
    (hordered : (seen ++ entries).Pairwise fun left right => left.1 < right.1) :
    Selecting ((seen ++ entries).map ofEntry) size
      (entries.foldl Ngramcat.consider state) := by
  induction entries generalizing seen state with
  | nil => simpa using hselecting
  | cons entry entries ih =>
    have hlast : ∀ item ∈ seen.map ofEntry, item.ngram < entry.1 := by
      intro item hitem
      obtain ⟨other, hother, rfl⟩ := mem_map.mp hitem
      exact (pairwise_append.mp hordered).2.2 other hother entry mem_cons_self
    have hnext : Selecting ((seen ++ [entry]).map ofEntry) size
        (Ngramcat.consider state entry) := by
      rw [map_append]
      exact hselecting.consider hlast
    have hagain := ih hnext (by simpa using hordered)
    simpa using hagain

variable (counts : StdMap ℕ) (maxNgrams : ℕ)

/-- The items are the best ones, in order. -/
theorem buildItems_eq :
    buildItems counts maxNgrams =
      ((counts.toList.map ofEntry).insertionSort (· ≤ ·)).take
        (min maxNgrams counts.size) := by
  have hsize : counts.toList.length = counts.size :=
    Std.ExtTreeMap.length_toList
  rw [buildItems, fill_eq]
  simp only [length_nil, Nat.sub_zero, nil_append]
  split
  next hempty =>
    have hzero : min maxNgrams counts.size = 0 := by
      rw [← hsize, ← length_take, ← length_map ofEntry, hempty]
      rfl
    rw [hzero, take_zero]
  next =>
    have hlength : ((counts.toList.take maxNgrams).map ofEntry).length =
        min maxNgrams counts.size := by
      rw [length_map, length_take, hsize]
    have hperm := Algorithms.makeHeap_perm
      ((counts.toList.take maxNgrams).map ofEntry)
    have hstart : Selecting ((counts.toList.take maxNgrams).map ofEntry)
        (min maxNgrams counts.size)
        (makeHeap ((counts.toList.take maxNgrams).map ofEntry), frontFreq
          (makeHeap ((counts.toList.take maxNgrams).map ofEntry))) :=
      { heap := Algorithms.isHeap_makeHeap _
        least := Least.of_perm hperm.symm
        length := hperm.length_eq.trans hlength
        minFreq := rfl }
    have hordered : counts.toList.Pairwise
        fun left right => left.1 < right.1 := by
      apply List.Pairwise.imp ?_ Std.ExtTreeMap.ordered_keys_toList
      intro left right hlt
      exact compare_eq_lt_iff.mp hlt
    rw [← take_append_drop maxNgrams counts.toList] at hordered
    have hend := hstart.foldl_consider hordered
    rw [take_append_drop] at hend
    have hsorted := Algorithms.sortHeap_perm _ hend.heap
    rw [← hend.length, ← hsorted.length_eq]
    exact (hend.least.perm_kept hsorted).eq_take
      (Algorithms.pairwise_sortHeap _ hend.heap)

omit [Algorithms NGramFreq] in
theorem nodup_map_ngram : ((counts.toList.map ofEntry).map ngram).Nodup := by
  have hnames : (counts.toList.map ofEntry).map ngram = counts.toList.map Prod.fst := by
    rw [map_map]
    rfl
  rw [hnames]
  exact StdMap.nodup_keys_toList counts

theorem nodup_ngrams_build : (build counts maxNgrams).ngrams.Nodup := by
  have hsorted := perm_insertionSort (· ≤ ·) (counts.toList.map ofEntry)
  have hall := (hsorted.map ngram).nodup_iff.mpr (nodup_map_ngram counts)
  rw [build, buildItems_eq]
  exact hall.sublist ((take_sublist _ _).map ngram)

theorem length_ngrams_build :
    (build counts maxNgrams).ngrams.length = min maxNgrams counts.size := by
  rw [build, buildItems_eq, length_map, length_take, length_insertionSort, length_map,
    Std.ExtTreeMap.length_toList, min_assoc, min_self]

/-- A profile has the first n-grams of the list of all n-grams in descending
order of their frequency and, where that is the same, in ascending order of
their bytes. -/
theorem build_eq_take (counts : StdMap ℕ) (maxNgrams : ℕ) :
    ∃ sorted : List NGramFreq,
      sorted.Perm (counts.toList.map ofEntry) ∧
        sorted.Pairwise (fun left right => right.freq < left.freq ∨
          left.freq = right.freq ∧ left.ngram < right.ngram) ∧
        build counts maxNgrams =
          ⟨maxNgrams, (sorted.take (min maxNgrams counts.size)).map ngram⟩ := by
  have hperm := List.perm_insertionSort (· ≤ ·) (counts.toList.map ofEntry)
  have hordered := List.pairwise_insertionSort (· ≤ ·)
    (counts.toList.map ofEntry)
  have hdistinct : (counts.toList.map ofEntry).Nodup :=
    (nodup_map_ngram counts).of_map ngram
  refine ⟨_, hperm, ?_, ?_⟩
  · apply (hordered.and (hperm.nodup_iff.mpr hdistinct)).imp
    rintro left right ⟨hle, hne⟩
    exact lt_iff.mp (lt_of_le_of_ne hle hne)
  · rw [build, buildItems_eq]

end Selecting

/-- The counts of three n-grams, two of which are equally frequent. -/
def tiedCounts : StdMap ℕ :=
  (((∅ : StdMap ℕ).insert (ascii "b") 1).insert (ascii "c") 2).insert
    (ascii "a") 1

/-- Of n-grams with the same count the first ones are kept. -/
theorem build_eq_take_tied : ∃ _ : Heaps.Algorithms NGramFreq,
    build tiedCounts 2 = ⟨2, [ascii "c", ascii "a"]⟩ ∧
      ∃ sorted : List NGramFreq,
        sorted.Perm (tiedCounts.toList.map ofEntry) ∧
          (sorted.take 2).map ngram = [ascii "c", ascii "a"] := by
  refine ⟨Heaps.sorting, ?_⟩
  let _ : Heaps.Algorithms NGramFreq := Heaps.sorting
  have hbuilt : build tiedCounts 2 = ⟨2, [ascii "c", ascii "a"]⟩ := by
    decide +kernel
  obtain ⟨sorted, hperm, -, htake⟩ := build_eq_take tiedCounts 2
  have hngrams := congrArg SortedNGramProfile.ngrams (hbuilt.symm.trans htake)
  exact ⟨hbuilt, sorted, hperm, hngrams.symm⟩

end Restpose.Ngramcat
