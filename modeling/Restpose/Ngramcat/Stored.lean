import Restpose.Core.Results
import Restpose.Json.Integers
import Restpose.Ngramcat.Distance

/-!
# Profiles that are written back

A profile is kept by the positions of its n-grams, and is written as the list of
them.  A list with an n-gram twice has fewer n-grams than positions, so that the
last position is outside of the list that is made from them.
-/

namespace Restpose.Ngramcat

open Ranks SortedNGramProfile Attempt List StdMap

/-! ## The list of n-grams -/

variable {entries : List (Bytes × ℕ)} {ngrams : List Bytes}

theorem lt_of_foldlM_place {start : List Bytes}
    (hplaced : entries.foldlM place start = some ngrams) :
    ∀ entry ∈ entries, entry.2 < start.length := by
  induction entries generalizing start with
  | nil => simp
  | cons first entries ih =>
    rw [List.foldlM_cons, place] at hplaced
    split at hplaced
    next hfirst =>
      intro entry hentry
      rcases List.mem_cons.mp hentry with rfl | hentry
      · exact hfirst
      · simpa using ih hplaced entry hentry
    next => cases hplaced

/-- If every entry is where the list has it, exactly these places are filled. -/
theorem foldlM_place (hentries : ∀ entry ∈ entries, ngrams[entry.2]? = some entry.1)
    {start : List Bytes} (hlength : start.length = ngrams.length) :
    ∃ filled, entries.foldlM place start = some filled ∧ filled.length = ngrams.length ∧
      ∀ index : ℕ, filled[index]? =
        if index ∈ entries.map Prod.snd then ngrams[index]?
        else start[index]? := by
  induction entries generalizing start with
  | nil => exact ⟨start, rfl, hlength, by simp⟩
  | cons first entries ih =>
    have hfirst := hentries first List.mem_cons_self
    have hbound : first.2 < start.length := by
      rw [hlength]
      exact (List.getElem?_eq_some_iff.mp hfirst).1
    obtain ⟨filled, hfilled, hsame, hget⟩ :=
      ih (fun entry hentry => hentries entry (List.mem_cons_of_mem _ hentry))
        ((List.length_set).trans hlength)
    refine ⟨filled, ?_, hsame, ?_⟩
    · rw [List.foldlM_cons, place, if_pos hbound]
      exact hfilled
    · intro index
      rw [hget index]
      by_cases hlater : index ∈ entries.map Prod.snd
      · simp [hlater]
      · rw [if_neg hlater, List.getElem?_set]
        by_cases hindex : first.2 = index
        · subst hindex
          simp [hbound, hfirst]
        · simp [hindex, hlater, Ne.symm hindex]

section Positions

variable {profile : SortedNGramProfile}

theorem toList_positions_perm (hnodup : profile.ngrams.Nodup) :
    (NGramProfile.initFromSortedNgram profile).positions.toList.Perm
      profile.ngrams.zipIdx := by
  have hleft := (nodup_keys_toList
    (NGramProfile.initFromSortedNgram profile).positions).of_map Prod.fst
  have hright : profile.ngrams.zipIdx.Nodup := by
    apply List.Nodup.of_map Prod.fst
    rwa [zipIdx_map_fst]
  apply (perm_ext_iff_of_nodup hleft hright).mpr
  rintro ⟨ngram, position⟩
  rw [Std.ExtTreeMap.mem_toList_iff_getElem?_eq_some]
  change (NGramProfile.initFromSortedNgram profile).place ngram = _ ↔ _
  rw [place_initFromSortedNgram hnodup]
  exact placeIn_eq_some_iff hnodup

/-- A list without repetitions is made again from its positions. -/
theorem initFromNgram_of_nodup (hnodup : profile.ngrams.Nodup) :
    initFromNgram (.initFromSortedNgram profile) = some profile := by
  have hperm := toList_positions_perm hnodup
  have hsize : (NGramProfile.initFromSortedNgram profile).positions.size =
      profile.ngrams.length := by
    rw [← Std.ExtTreeMap.length_toList, hperm.length_eq, length_zipIdx]
  have hentries : ∀ entry ∈ (NGramProfile.initFromSortedNgram profile).positions.toList,
        profile.ngrams[entry.2]? = some entry.1 := by
    intro entry hentry
    exact mem_zipIdx_iff_getElem?.mp (hperm.mem_iff.mp hentry)
  have hstart : (replicate profile.ngrams.length
      ([] : Bytes)).length = profile.ngrams.length :=
    length_replicate
  obtain ⟨filled, hfilled, hlength, hget⟩ := foldlM_place hentries hstart
  have hsame : filled = profile.ngrams := by
    apply ext_getElem?
    intro index
    rw [hget index]
    split
    next => rfl
    next hmissing =>
      have houtside : profile.ngrams.length ≤ index := by
        by_contra hinside
        apply hmissing
        have hentry : (profile.ngrams[index], index) ∈ profile.ngrams.zipIdx :=
          mem_zipIdx_iff_getElem?.mpr (getElem?_eq_getElem _)
        exact mem_map.mpr ⟨_, hperm.mem_iff.mpr hentry, rfl⟩
      rw [getElem?_eq_none houtside, getElem?_eq_none (by simpa)]
  rw [initFromNgram, hsize, hfilled, hsame]
  rfl

theorem last_mem_positions {front : List Bytes} {last : Bytes}
    (hngrams : profile.ngrams = front ++ [last]) :
    (last, front.length) ∈ (NGramProfile.initFromSortedNgram
      profile).positions.toList := by
  rw [Std.ExtTreeMap.mem_toList_iff_getElem?_eq_some]
  change (insertAll _ profile.ngrams.zipIdx ∅)[last]? = _
  rw [hngrams, insertAll, zipIdx_append, foldl_append]
  simp

/-- There are as many positions as different n-grams. -/
theorem size_positions_lt (hrepeats : ¬profile.ngrams.Nodup) :
    (NGramProfile.initFromSortedNgram profile).positions.size <
      profile.ngrams.length := by
  have hsubset : (NGramProfile.initFromSortedNgram profile).positions.keySet ⊆
      profile.ngrams.toFinset := by
    intro ngram hngram
    obtain ⟨position, hposition⟩ := mem_keySet_iff.mp hngram
    by_contra hmem
    have hkeys : ngram ∉ profile.ngrams.zipIdx.map Prod.fst := by
      rw [zipIdx_map_fst]
      exact fun hin => hmem (mem_toFinset.mpr hin)
    have hnone := find_insertAll_of_notMem (fun _ (position : ℕ) => position) hkeys ∅
    change (insertAll _ profile.ngrams.zipIdx ∅)[ngram]? = _ at hposition
    rw [hnone] at hposition
    simp at hposition
  calc (NGramProfile.initFromSortedNgram profile).positions.size
      = (NGramProfile.initFromSortedNgram profile).positions.keySet.card :=
        (card_keySet _).symm
    _ ≤ profile.ngrams.toFinset.card := Finset.card_le_card hsubset
    _ < profile.ngrams.length := by
        apply lt_of_le_of_ne (toFinset_card_le _)
        intro hcard
        exact hrepeats (Multiset.toFinset_card_eq_card_iff_nodup.mp hcard)

/-- A list with repetitions has a position outside of the list that is made. -/
theorem initFromNgram_of_not_nodup (hrepeats : ¬profile.ngrams.Nodup) :
    initFromNgram (.initFromSortedNgram profile) = none := by
  have hsize := size_positions_lt hrepeats
  rcases eq_nil_or_concat' profile.ngrams with
    hempty | ⟨front, last, hngrams⟩
  · exact absurd (hempty ▸ nodup_nil) hrepeats
  · rw [hngrams, length_append, length_singleton] at hsize
    cases hinit : initFromNgram (.initFromSortedNgram profile) with
    | none => rfl
    | some made =>
      obtain ⟨ngrams, hplaced, -⟩ := Option.map_eq_some_iff.mp hinit
      have hlt := lt_of_foldlM_place hplaced _ (last_mem_positions hngrams)
      rw [length_replicate] at hlt
      exact absurd hlt (Nat.not_lt.mpr (Nat.le_of_lt_succ hsize))

end Positions

/-! ## Reading and writing -/

/-- The n-grams of a JSON value, as they are read. -/
def ngramTexts (value : Json) : List Bytes :=
  (value.member (ascii "ngrams")).items.map Json.asString

theorem readNgram_eq {item : Json} {ngram : Bytes} (hread : readNgram item = .ok ngram) :
    ngram = item.asString := by
  cases item with
  | string text => exact (Except.ok.inj hread).symm
  | _ => cases hread

theorem mapM_readNgram_eq {items : List Json}
    (hread : items.mapM readNgram = .ok ngrams) :
    ngrams = items.map Json.asString := by
  induction items generalizing ngrams with
  | nil => exact (Except.ok.inj hread).symm
  | cons item items ih =>
    rw [mapM_cons] at hread
    cases hfirst : readNgram item with
    | error error => rw [hfirst] at hread; cases hread
    | ok ngram =>
      cases hrest : items.mapM readNgram with
      | error error => rw [hfirst, hrest] at hread; cases hread
      | ok others =>
        rw [hfirst, hrest] at hread
        rw [← Except.ok.inj hread, readNgram_eq hfirst, ih hrest]
        rfl

theorem fromJson_spec {value : Json} {profile : SortedNGramProfile}
    (hread : SortedNGramProfile.fromJson value = .ok profile) :
    profile.ngrams = ngramTexts value ∧ profile.maxNgrams < 2 ^ 32 := by
  have hyields : Yields (SortedNGramProfile.fromJson value) fun profile =>
      profile.ngrams = ngramTexts value ∧ profile.maxNgrams < 2 ^ 32 := by
    apply yields_bind
    intro _ _
    apply yields_bind
    intro _ _
    apply yields_bind
    intro ngrams hngrams
    apply yields_bind
    intro maxNgrams _
    exact yields_ok ⟨mapM_readNgram_eq hngrams, Nat.mod_lt _ (by norm_num)⟩
  exact hyields profile hread

theorem cString_of_mem_ngramTexts {value : Json} {ngram : Bytes}
    (hngram : ngram ∈ ngramTexts value) : cString ngram = ngram := by
  obtain ⟨item, -, rfl⟩ := mem_map.mp hngram
  cases item with
  | string text => exact cString_cString text
  | _ => rfl

/-- A profile whose n-grams are C strings is read as it was written. -/
theorem fromJson_toJson {profile : SortedNGramProfile}
    (hngrams : ∀ ngram ∈ profile.ngrams, cString ngram = ngram)
    (hmax : profile.maxNgrams < 2 ^ 32) :
    SortedNGramProfile.fromJson profile.toJson = .ok profile := by
  have hobject : profile.toJson.isObject = true := rfl
  have hlist : profile.toJson.member (ascii "ngrams") =
      .array (profile.ngrams.map .ofString) := by
    simp +decide [SortedNGramProfile.toJson, Json.member_setMember]
  have hnumber : profile.toJson.member (ascii "max_ngrams") =
      .uint profile.maxNgrams := by
    simp [SortedNGramProfile.toJson]
  have hread : (profile.ngrams.map Json.ofString).mapM readNgram =
      .ok (profile.ngrams.map id) := by
    apply mapM_map
    intro ngram hngram
    change Except.ok (cString (cString ngram)) = _
    rw [cString_cString, hngrams ngram hngram]
    rfl
  have hlimit : profile.toJson.getUInt64Member "max_ngrams" 0xffffffff =
      .ok profile.maxNgrams := by
    rw [Json.getUInt64Member, hnumber]
    exact Json.checkUInt64_uint (by omega)
  simp only [SortedNGramProfile.fromJson, Json.checkObject, hobject, if_true,
    liftInvalid, hlist, Json.checkArray, Json.isArray, Json.items, hread,
    map_id, hlimit, Nat.mod_eq_of_lt hmax, bind, Except.bind]
  rfl

/-- A profile that was read can be written if its n-grams are different, and is
then read as the same profile. -/
theorem toJson_of_fromJson {value : Json} {profile : NGramProfile}
    (hread : NGramProfile.fromJson value = .ok profile) :
    if (ngramTexts value).Nodup then
      ∃ written, profile.toJson = some written ∧
        NGramProfile.fromJson written = .ok profile
    else profile.toJson = none := by
  obtain ⟨sorted, hsorted, rfl⟩ : ∃ sorted,
      SortedNGramProfile.fromJson value = .ok sorted ∧
        NGramProfile.initFromSortedNgram sorted = profile := by
    rw [NGramProfile.fromJson] at hread
    cases hsorted : SortedNGramProfile.fromJson value with
    | error error => rw [hsorted] at hread; cases hread
    | ok sorted =>
      rw [hsorted] at hread
      exact ⟨sorted, rfl, Except.ok.inj hread⟩
  obtain ⟨hngrams, hmax⟩ := fromJson_spec hsorted
  rw [← hngrams]
  split_ifs with hnodup
  · have hagain : SortedNGramProfile.fromJson sorted.toJson = .ok sorted := by
      apply fromJson_toJson _ hmax
      intro ngram hngram
      exact cString_of_mem_ngramTexts (hngrams ▸ hngram)
    refine ⟨sorted.toJson, ?_, ?_⟩
    · rw [NGramProfile.toJson, initFromNgram_of_nodup hnodup]
      rfl
    · rw [NGramProfile.fromJson, hagain]
      rfl
  · rw [NGramProfile.toJson, initFromNgram_of_not_nodup hnodup]
    rfl

/-- A profile that was read can be written, and is then read as the same profile,
if and only if its n-grams are different. -/
theorem toJson_fromJson_iff {value : Json} {profile : NGramProfile}
    (hread : NGramProfile.fromJson value = .ok profile) :
    (∃ written, profile.toJson = some written ∧
        NGramProfile.fromJson written = .ok profile) ↔
      (ngramTexts value).Nodup := by
  have hcases := toJson_of_fromJson hread
  split_ifs at hcases with hnodup
  · exact iff_of_true hcases hnodup
  · apply iff_of_false _ hnodup
    rintro ⟨written, hwritten, -⟩
    rw [hcases] at hwritten
    cases hwritten

theorem toJson_fromJson_pair : ∃ profile,
    NGramProfile.fromJson (profileJson ["b", "a"] 5) = .ok profile ∧
      ∃ written, profile.toJson = some written ∧
        NGramProfile.fromJson written = .ok profile := by
  obtain ⟨profile, hread⟩ : ∃ profile,
      NGramProfile.fromJson (profileJson ["b", "a"] 5) = .ok profile :=
    ⟨_, rfl⟩
  refine ⟨profile, hread, (toJson_fromJson_iff hread).mpr ?_⟩
  decide

/-- An n-gram that is there twice: its position is outside of the list. -/
theorem toJson_outside_repeated : ∃ profile,
    NGramProfile.fromJson (profileJson ["a", "a"] 5) = .ok profile ∧
      profile.positions.toList = [(ascii "a", 1)] ∧
      profile.positions.size = 1 ∧
      profile.toJson.isNone = true := by
  refine ⟨_, rfl, ?_⟩
  decide +kernel

end Restpose.Ngramcat
