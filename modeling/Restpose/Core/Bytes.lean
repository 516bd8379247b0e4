import Mathlib

/-!
# Byte strings and ordered maps

The source keeps names, terms and keys in `std::string`, which is a string of
arbitrary bytes ordered by unsigned comparison, and it keeps its tables in
`std::map`, which iterates in the order of the keys.
-/

namespace Restpose

open List Std.ExtTreeMap

abbrev Byte := Fin 256

/-- The contents of a `std::string`. -/
abbrev Bytes := List Byte

/-! Literals and sorting refer to these instances by name. -/

instance neZero_byte : NeZero 256 :=
  ⟨by decide⟩

instance neZero_word : NeZero (2 ^ 32) :=
  ⟨by decide⟩

instance neZero_one : NeZero 1 :=
  ⟨by decide⟩

instance neZero_two : NeZero 2 :=
  ⟨by decide⟩

instance transCmp_byteString :
    Std.TransCmp (compare : Bytes → Bytes → Ordering) :=
  inferInstance

instance isTrans_byteString :
    IsTrans Bytes (· ≤ ·) :=
  inferInstance

instance antisymm_byteString :
    Std.Antisymm (fun first second : Bytes => first ≤ second) :=
  inferInstance

instance total_byteString :
    Std.Total (fun first second : Bytes => first ≤ second) :=
  inferInstance

/-- The byte string that a C++ literal of ASCII characters denotes. -/
def ascii (text : String) : Bytes :=
  text.toList.map fun char => Fin.ofNat 256 char.toNat

/-- `std::map<std::string, Value>`. -/
abbrev StdMap (Value : Type) := Std.ExtTreeMap Bytes Value

namespace StdMap

variable {Value : Type}

/-- The keys of a map as a set. -/
def keySet (map : StdMap Value) : Finset Bytes :=
  map.keys.toFinset

theorem mem_keySet_iff {map : StdMap Value} {key : Bytes} :
    key ∈ map.keySet ↔ ∃ value, map[key]? = some value := by
  rw [keySet, List.mem_toFinset, Std.ExtTreeMap.mem_keys,
    Std.ExtTreeMap.mem_iff_isSome_getElem?, Option.isSome_iff_exists]

variable (map : StdMap Value)

theorem card_keySet : map.keySet.card = map.size := by
  rw [keySet, toFinset_card_of_nodup nodup_keys, length_keys]

/-- A list of keys in ascending order is known by its members. -/
theorem eq_of_sorted {left right : List Bytes}
    (hleft : left.Pairwise fun first second => compare first second = .lt)
    (hright : right.Pairwise fun first second => compare first second = .lt)
    (hmem : ∀ key, key ∈ left ↔ key ∈ right) : left = right := by
  have hnodup : ∀ {keys : List Bytes},
      (keys.Pairwise fun first second => compare first second = .lt) →
      keys.Nodup := by
    intro keys hkeys
    refine hkeys.imp ?_
    rintro first second hlt rfl
    simp at hlt
  have hperm : left.Perm right :=
    (perm_ext_iff_of_nodup (hnodup hleft) (hnodup hright)).mpr hmem
  refine hperm.eq_of_pairwise ?_ hleft hright
  intro first second _ _ hlt hgt
  rw [Std.OrientedCmp.gt_iff_lt.mpr hlt] at hgt
  cases hgt

theorem filter_keys_eq {Other : Type} {left : StdMap Value} {right : StdMap Other}
    {test otherTest : Bytes → Bool}
    (hmem : ∀ key, (key ∈ left ∧ test key = true) ↔
      (key ∈ right ∧ otherTest key = true)) :
    left.keys.filter test = right.keys.filter otherTest := by
  refine eq_of_sorted (ordered_keys.filter _) (Std.ExtTreeMap.ordered_keys.filter _)
    fun key => ?_
  rw [List.mem_filter, List.mem_filter, Std.ExtTreeMap.mem_keys, Std.ExtTreeMap.mem_keys]
  exact hmem key

variable (key : Bytes)

theorem find_insert (other : Bytes) (value : Value) : (map.insert key value)[other]? =
      if other = key then some value else map[other]? := by
  rw [Std.ExtTreeMap.getElem?_insert]
  by_cases heq : other = key
  · simp [heq]
  · simp [heq, Ne.symm heq]

theorem toList_singleton (value : Value) :
    ((∅ : StdMap Value).insert key value).toList = [(key, value)] :=
  rfl

theorem insert_insert (first second : Value) :
    (map.insert key first).insert key second = map.insert key second := by
  ext1 other
  simp only [find_insert]
  split <;> rfl

theorem find_erase (other : Bytes) :
    (map.erase key)[other]? = if other = key then none else map[other]? := by
  rw [getElem?_erase]
  by_cases heq : other = key
  · simp [heq]
  · simp [heq, Ne.symm heq]

section Rebuilding

variable {Other : Type} (convert : Bytes → Value → Other)

/-- Put entries into a map, one after the other. -/
def insertAll (entries : List (Bytes × Value)) (map : StdMap Other) :
    StdMap Other :=
  entries.foldl
    (fun map entry => map.insert entry.1 (convert entry.1 entry.2)) map

variable {entries : List (Bytes × Value)}

theorem find_insertAll_of_notMem {key : Bytes} (hkey : key ∉ entries.map Prod.fst)
    (map : StdMap Other) :
    (insertAll convert entries map)[key]? = map[key]? := by
  induction entries generalizing map with
  | nil => rfl
  | cons first rest ih =>
    obtain ⟨hne, hrest⟩ := not_or.mp (mt mem_cons.mpr hkey)
    have hstep := ih hrest (map.insert first.1 (convert first.1 first.2))
    rwa [find_insert, if_neg hne] at hstep

theorem find_insertAll_of_mem (hdistinct : (entries.map Prod.fst).Nodup) {key : Bytes}
    {value : Value} (hentry : (key, value) ∈ entries) (map : StdMap Other) :
    (insertAll convert entries map)[key]? = some (convert key value) := by
  induction entries generalizing map with
  | nil => cases hentry
  | cons first rest ih =>
    obtain ⟨hfirst, hrest⟩ := nodup_cons.mp hdistinct
    rcases mem_cons.mp hentry with rfl | hentry
    · have hstep := find_insertAll_of_notMem convert hfirst
        (map.insert key (convert key value))
      rwa [find_insert, if_pos rfl] at hstep
    · exact ih hrest hentry (map.insert first.1 (convert first.1 first.2))

theorem mem_of_find_insertAll {key : Bytes} {found : Other} {map : StdMap Other}
    (hfound : (insertAll convert entries map)[key]? = some found) :
    map[key]? = some found ∨ ∃ value, (key, value) ∈ entries ∧
      convert key value = found := by
  induction entries generalizing map with
  | nil => exact .inl hfound
  | cons first rest ih =>
    rcases ih hfound with hold | ⟨value, hentry, hvalue⟩
    · rw [find_insert] at hold
      split at hold
      next heq =>
        subst heq
        exact .inr ⟨first.2, mem_cons_self, Option.some.inj hold⟩
      next => exact .inl hold
    · exact .inr ⟨value, mem_cons_of_mem _ hentry, hvalue⟩

theorem nodup_keys_toList : (map.toList.map Prod.fst).Nodup := by
  rw [map_fst_toList_eq_keys]
  exact nodup_keys

theorem insertAll_toList : insertAll convert map.toList ∅ = map.map convert := by
  refine Std.ExtTreeMap.ext_getElem? fun key => ?_
  rw [Std.ExtTreeMap.getElem?_map]
  cases hfind : map[key]? with
  | some value =>
    exact find_insertAll_of_mem convert (nodup_keys_toList map)
      (mem_toList_iff_getElem?_eq_some.mpr hfind) ∅
  | none =>
    have hkey : key ∉ map.toList.map Prod.fst := by
      rw [Std.ExtTreeMap.map_fst_toList_eq_keys, Std.ExtTreeMap.mem_keys]
      exact fun hmem => by simp [hmem] at hfind
    rw [find_insertAll_of_notMem convert hkey]
    simp

end Rebuilding

end StdMap

/-! ## Maps of pointers -/

namespace StdMap

variable {Value : Type}

/-- What a map of pointers has for a key, with no difference between a key that
is missing and one with a null pointer. -/
def pointee (map : StdMap (Option Value)) (key : Bytes) : Option Value :=
  map[key]?.join

@[simp]
theorem pointee_empty (key : Bytes) : pointee (∅ : StdMap (Option Value)) key = none := by
  simp [pointee]

variable (map : StdMap (Option Value))

@[simp]
theorem pointee_insert_self (key : Bytes) (value : Option Value) :
    pointee (map.insert key value) key = value := by
  simp [pointee]

theorem pointee_insert_of_ne {key other : Bytes} (hne : other ≠ key)
    (value : Option Value) :
    pointee (map.insert key value) other = pointee map other := by
  rw [pointee, pointee, Std.ExtTreeMap.getElem?_insert, if_neg]
  simpa using Ne.symm hne

theorem pointee_erase (key other : Bytes) : pointee (map.erase key) other =
      if other = key then none else pointee map other := by
  rw [pointee, pointee, getElem?_erase]
  by_cases heq : other = key
  · simp [heq]
  · have hne : key ≠ other := Ne.symm heq
    simp [heq, hne]

/-- The list that a map of lists has for a key. -/
def listed {Value : Type} (map : StdMap (List Value)) (key : Bytes) :
    List Value :=
  map[key]?.getD []

@[simp]
theorem listed_empty (key : Bytes) : listed (∅ : StdMap (List Value)) key = [] := by
  simp [listed]

theorem listed_insert (map : StdMap (List Value)) (key other : Bytes)
    (values : List Value) :
    listed (map.insert key values) other =
      if other = key then values else listed map other := by
  rw [listed, listed, find_insert]
  split <;> rfl

/-- What is true of every list stays true when one of them is replaced. -/
theorem forall_listed_insert {p : List Value → Prop} {map : StdMap (List Value)}
    (hmap : ∀ other, p (listed map other)) {key : Bytes} {values : List Value}
    (hvalues : p values) (other : Bytes) : p (listed (map.insert key values) other) := by
  rw [listed_insert]
  split
  · exact hvalues
  · exact hmap other

theorem mem_listed_insert {map : StdMap (List Value)} {key other : Bytes}
    {values : List Value} {value : Value}
    (hvalue : value ∈ listed (map.insert key values) other) :
    (other = key ∧ value ∈ values) ∨ (other ≠ key ∧ value ∈ listed map other) := by
  rw [listed_insert] at hvalue
  split at hvalue
  next heq => exact Or.inl ⟨heq, hvalue⟩
  next hne => exact Or.inr ⟨hne, hvalue⟩

theorem listed_erase (map : StdMap (List Value)) (key other : Bytes) :
    listed (map.erase key) other =
      if other = key then [] else listed map other := by
  rw [listed, listed, find_erase]
  split <;> rfl

end StdMap

/-! ## Scanning a sorted list -/

/-- `skip_to`: the rest of a sorted list from the first string that is not
before the target. -/
def skipTo (target : Bytes) (strings : List Bytes) :
    List Bytes :=
  strings.dropWhile fun string => compare string target == .lt

/-- The stretch of a sorted list that starts with a common beginning, found by
skipping to its first string and stopping at the first string without it. -/
def scan (beginning : Bytes) (strings : List Bytes) :
    List Bytes :=
  (skipTo beginning strings).takeWhile fun string =>
    beginning.isPrefixOf string

theorem compare_cons (first second : Byte) (left right : Bytes) :
    compare (first :: left) (second :: right) =
      (compare first second).then (compare left right) :=
  List.compareLex_cons_cons

/-- Maps compare their keys in the order of byte strings. -/
theorem compare_eq_lt_iff {left right : Bytes} :
    compare left right = .lt ↔ left < right := by
  induction left generalizing right with
  | nil =>
    cases right with
    | nil => decide
    | cons byte right => exact iff_of_true rfl (nil_lt_cons byte right)
  | cons first left ih =>
    cases right with
    | nil => exact iff_of_false (fun hlt => nomatch hlt) (not_lt_nil _)
    | cons second right =>
      rw [compare_cons, Ordering.then_eq_lt, ih, cons_lt_cons_iff,
        Std.LawfulEqCmp.compare_eq_iff_eq, compare_lt_iff_lt]

/-- No string that starts with another one is before it. -/
theorem compare_ne_lt_of_isPrefix {beginning string : Bytes}
    (hstarts : beginning <+: string) : compare string beginning ≠ .lt := by
  induction beginning generalizing string with
  | nil =>
    cases string with
    | nil => decide
    | cons => exact fun hlt => nomatch hlt
  | cons byte beginning ih =>
    obtain ⟨rest, rfl⟩ := hstarts
    rw [cons_append, compare_cons]
    have hrest := ih ⟨rest, rfl⟩
    simpa using hrest

/-- The strings between a beginning and a string that starts with it start with
it as well. -/
theorem isPrefix_of_between {beginning string last : Bytes}
    (hfrom : compare string beginning ≠ .lt) (hbefore : compare string last = .lt)
    (hstarts : beginning <+: last) : beginning <+: string := by
  induction beginning generalizing string last with
  | nil => exact nil_prefix
  | cons byte beginning ih =>
    obtain ⟨rest, rfl⟩ := hstarts
    cases string with
    | nil => exact absurd rfl hfrom
    | cons first string =>
      rw [cons_append, compare_cons] at hbefore
      rw [compare_cons] at hfrom
      cases horder : compare first byte with
      | lt => simp [horder] at hfrom
      | gt => simp [horder] at hbefore
      | eq =>
        rw [horder, Ordering.eq_then] at hfrom hbefore
        obtain rfl := Std.LawfulEqCmp.eq_of_compare horder
        exact cons_prefix_cons.mpr ⟨rfl, ih hfrom hbefore ⟨rest, rfl⟩⟩

section Scan

variable {beginning string : Bytes} {strings : List Bytes}

variable (hsorted : strings.Pairwise fun left right => compare left right = .lt)

include hsorted

theorem mem_skipTo : string ∈ skipTo beginning strings ↔
      string ∈ strings ∧ compare string beginning ≠ .lt := by
  induction strings with
  | nil => simp [skipTo]
  | cons first strings ih =>
    obtain ⟨hfirst, hrest⟩ := pairwise_cons.mp hsorted
    rw [skipTo, dropWhile_cons]
    split
    next hlt =>
      rw [beq_iff_eq] at hlt
      change string ∈ skipTo beginning strings ↔ _
      rw [ih hrest, mem_cons]
      constructor
      · exact fun ⟨hmem, hfrom⟩ => ⟨Or.inr hmem, hfrom⟩
      · rintro ⟨rfl | hmem, hfrom⟩
        · exact absurd hlt hfrom
        · exact ⟨hmem, hfrom⟩
    next hge =>
      rw [beq_iff_eq] at hge
      refine ⟨fun hmem => ⟨hmem, ?_⟩, And.left⟩
      rcases mem_cons.mp hmem with rfl | hmem
      · exact hge
      · intro hlt
        exact hge (Std.TransCmp.lt_trans (hfirst string hmem) hlt)

theorem pairwise_skipTo : (skipTo beginning strings).Pairwise
      fun left right => compare left right = .lt :=
  hsorted.sublist (dropWhile_sublist _)

/-- A scan finds every string with the beginning. -/
theorem mem_scan :
    string ∈ scan beginning strings ↔ string ∈ strings ∧ beginning <+: string := by
  have hskipped : (skipTo beginning strings).Pairwise
      fun left right => compare left right = .lt := pairwise_skipTo hsorted
  have hfrom : ∀ other ∈ skipTo beginning strings, compare other beginning ≠ .lt :=
    fun other hother => ((mem_skipTo hsorted).mp hother).2
  have htake : string ∈ scan beginning strings ↔
      string ∈ skipTo beginning strings ∧ beginning <+: string := by
    rw [scan]
    generalize skipTo beginning strings = rest at hskipped hfrom
    induction rest with
    | nil => simp
    | cons first rest ih =>
      obtain ⟨hfirst, hrest⟩ := pairwise_cons.mp hskipped
      have htail := ih hrest fun other hother =>
        hfrom other (mem_cons_of_mem _ hother)
      rw [takeWhile_cons]
      split
      next hstarts =>
        rw [ isPrefixOf_iff_prefix] at hstarts
        rw [mem_cons, mem_cons, htail]
        constructor
        · rintro (rfl | ⟨hmem, hstring⟩)
          · exact ⟨Or.inl rfl, hstarts⟩
          · exact ⟨Or.inr hmem, hstring⟩
        · rintro ⟨rfl | hmem, hstring⟩
          · exact Or.inl rfl
          · exact Or.inr ⟨hmem, hstring⟩
      next hstarts =>
        rw [ isPrefixOf_iff_prefix] at hstarts
        refine ⟨fun hmem => absurd hmem (by simp), ?_⟩
        rintro ⟨hmem, hstring⟩
        rcases mem_cons.mp hmem with rfl | hmem
        · exact absurd hstring hstarts
        · exact absurd (isPrefix_of_between (hfrom first (mem_cons_self ..))
            (hfirst string hmem)
            hstring) hstarts
  rw [htake, mem_skipTo hsorted]
  constructor
  · exact fun ⟨⟨hmem, _⟩, hstarts⟩ => ⟨hmem, hstarts⟩
  · exact fun ⟨hmem, hstarts⟩ =>
      ⟨⟨hmem, compare_ne_lt_of_isPrefix hstarts⟩, hstarts⟩

theorem pairwise_scan : (scan beginning strings).Pairwise
      fun left right => compare left right = .lt :=
  (pairwise_skipTo hsorted).sublist (takeWhile_sublist _)

omit hsorted

end Scan

end Restpose
