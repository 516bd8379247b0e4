import Restpose.Core.Attempt
import Restpose.Json.Utils

/-!
# Results from a document on

A search can ask for the results from the rank of a document on.  The rank is
looked for in pages of the result.  The size of the pages is the caller's, and
pages of size zero never come to the end of the result.
-/

namespace Restpose.Search

open Attempt List Option

/-! ## The request -/

/-- What `perform_search` reads from the member `fromdoc`. -/
structure Fromdoc where
  docType : Bytes
  docId : Bytes
  offset : ℤ
  pagesize : ℕ

/-- A member with the style of an id, which has to be there. -/
def readIdMember [Libraries] (value : Json) (key label : String) :
    Except Thrown Bytes :=
  match (value.member (ascii key)).getIdstyleValue with
  | .error error => .error (.invalid
      (ascii "Invalid value supplied for fromdoc " ++ ascii label ++
        ascii ": " ++ error))
  | .ok text =>
      if text = [] then .error (.invalid
        (ascii "Missing or empty " ++ ascii label ++
          ascii " supplied for fromdoc"))
      else .ok text

def readOffset (value : Json) : Except Thrown ℤ :=
  if (value.member (ascii "from")).isNull then .ok 0
  else if !(value.member (ascii "from")).isConvertibleToInt then
    .error (.invalid (ascii
      "fromdoc \"from\" parameter is not convertible to an integer"))
  else (value.member (ascii "from")).asInt

/-- The part of `perform_search` that reads `fromdoc`.  The size of a page is
converted to 32 bits. -/
def readFromdoc [Libraries] (search : Json) : Except Thrown (Option Fromdoc) := do
  let start ← search.getUInt64MemberOr "from" 0xffffffff 0
  let value := search.member (ascii "fromdoc")
  if value.isNull then return none
  if start % 2 ^ 32 ≠ 0 then
    throw (.invalid (ascii "fromdoc was supplied, but from was not 0"))
  if !value.isObject then
    throw (.invalid (ascii
      "Invalid value supplied for fromdoc: expected an object"))
  let docType ← readIdMember value "type" "type"
  let docId ← readIdMember value "id" "ID"
  let offset ← readOffset value
  let pagesize ← value.getUInt64MemberOr "pagesize" 0xffffffff 10000
  return some ⟨docType, docId, offset, pagesize % 2 ^ 32⟩

/-! ## The rank -/

/-- `get_mset`: the part of the result from a rank on. -/
def getMset (ranked : List ℕ) (start size : ℕ) : List ℕ :=
  (ranked.drop start).take size

/-- The rank plus the offset, or zero if that is negative. -/
def addOffset (rank : ℕ) (offset : ℤ) : ℕ :=
  if offset < 0 ∧ rank < (-offset % 2 ^ 32).toNat then 0
  else ((rank + offset) % 2 ^ 32).toNat

/-- The loop of `calc_fromdoc_offset`.  There is no result if it has not ended
after `fuel` passes. -/
def findRank (ranked : List ℕ) (docid pagesize : ℕ) (offset : ℤ) :
    ℕ → ℕ → Option (Except Thrown ℕ)
  | 0, _ => none
  | fuel + 1, start =>
      let mset := getMset ranked start pagesize
      match mset.idxOf? docid with
      | some index => some (.ok (addOffset (start + index) offset))
      | none =>
          if mset.length ≠ pagesize then
            some (.error (.invalid (ascii
              "fromdoc document not present in result set")))
          else findRank ranked docid pagesize offset fuel
            ((start + pagesize) % 2 ^ 32)

def calcFromdocOffset (database : Xapian.Database) (ranked : List ℕ)
    (fromdoc : Fromdoc) (fuel : ℕ) : Option (Except Thrown ℕ) :=
  match database.postlist (9 :: fromdoc.docType ++ 9 :: fromdoc.docId) with
  | [] => some (.error (.invalid (ascii
      "fromdoc document not present in database")))
  | docid :: _ =>
      findRank ranked docid fromdoc.pagesize fromdoc.offset fuel 0

/-! ## The loop -/

/-- The answer of a loop that ends. -/
def rankAnswer (ranked : List ℕ) (docid : ℕ) (offset : ℤ) : Except Thrown ℕ :=
  match ranked.idxOf? docid with
  | some rank => .ok (addOffset rank offset)
  | none => .error (.invalid (ascii
      "fromdoc document not present in result set"))

variable {start : ℕ}

/-- Pages of size zero are empty, and the loop stays where it is. -/
theorem findRank_zero (ranked : List ℕ) (docid : ℕ) (offset : ℤ) (fuel : ℕ)
    (hstart : start < 2 ^ 32) :
    findRank ranked docid 0 offset fuel start = none := by
  induction fuel with
  | zero => rfl
  | succ fuel ih =>
    have hempty : getMset ranked start 0 = [] := take_zero
    rw [findRank, hempty]
    simp only [idxOf?_nil, length_nil, ne_eq, not_true_eq_false,
      if_false, Nat.add_zero, Nat.mod_eq_of_lt hstart]
    exact ih

theorem idxOf?_append (left right : List ℕ) (docid : ℕ) : (left ++ right).idxOf? docid =
      (left.idxOf? docid).or ((right.idxOf? docid).map (· + left.length)) :=
  findIdx?_append

variable {ranked : List ℕ}

/-- Where a document is that a page has, and the pages before it have not. -/
theorem idxOf?_of_getMset {docid size index : ℕ} (hstart : start ≤ ranked.length)
    (hbefore : docid ∉ ranked.take start)
    (hindex : (getMset ranked start size).idxOf? docid = some index) :
    ranked.idxOf? docid = some (start + index) := by
  have hpage : (ranked.drop start).idxOf? docid = some index := by
    rw [← take_append_drop size (ranked.drop start), idxOf?_append]
    rw [getMset] at hindex
    rw [hindex, some_or]
  have hlength : (ranked.take start).length = start := length_take_of_le hstart
  rw [← take_append_drop start ranked, idxOf?_append, idxOf?_eq_none_iff.mpr hbefore,
    none_or, hpage, hlength, map_some, Nat.add_comm]

/-- Pages that are not empty get to the document or to the end. -/
theorem findRank_eq (hranked : ranked.length < 2 ^ 32) (docid : ℕ) {pagesize : ℕ}
    (hpagesize : 0 < pagesize) (offset : ℤ) (fuel : ℕ) (hstart : start ≤ ranked.length)
    (hbefore : docid ∉ ranked.take start) (hfuel : ranked.length < start + fuel) :
    findRank ranked docid pagesize offset fuel start =
      some (rankAnswer ranked docid offset) := by
  induction fuel generalizing start with
  | zero => omega
  | succ fuel ih =>
    rw [findRank]
    cases hpage : (getMset ranked start pagesize).idxOf? docid with
    | some index =>
      rw [rankAnswer, idxOf?_of_getMset hstart hbefore hpage]
    | none =>
      have habsent : docid ∉ getMset ranked start pagesize := idxOf?_eq_none_iff.mp hpage
      have hlength : (getMset ranked start pagesize).length =
          min pagesize (ranked.length - start) := by
        rw [getMset, length_take, length_drop]
      dsimp only
      split_ifs with hshort
      · have hrest : getMset ranked start pagesize = ranked.drop start := by
          apply take_of_length_le
          rw [length_drop]
          omega
        have hnone : docid ∉ ranked := by
          rw [← take_append_drop start ranked, mem_append, ← hrest]
          exact not_or.mpr ⟨hbefore, habsent⟩
        rw [rankAnswer, idxOf?_eq_none_iff.mpr hnone]
      · have hnext : start + pagesize ≤ ranked.length := by omega
        have hnotyet : docid ∉ ranked.take (start + pagesize) := by
          rw [take_add, mem_append]
          exact not_or.mpr ⟨hbefore, habsent⟩
        rw [Nat.mod_eq_of_lt (hnext.trans_lt hranked)]
        exact ih hnext hnotyet (by omega)

/-! ## The offset -/

theorem addOffset_eq_iff {rank : ℕ} {offset : ℤ} (hrank : rank < 2 ^ 32)
    (hlow : -2 ^ 31 ≤ offset) (hhigh : offset < 2 ^ 31) :
    addOffset rank offset = (max 0 (rank + offset)).toNat ↔
      (rank : ℤ) + offset < 2 ^ 32 := by
  rw [addOffset]
  split_ifs with hnegative <;> omega

theorem truncateInt_bounds {bits : Double} {low high : ℤ}
    (hwithin : Double.within bits low high = true) :
    low ≤ Double.truncateInt bits ∧ Double.truncateInt bits ≤ high := by
  rw [Double.within] at hwithin
  rw [Double.truncateInt]
  cases hvalue : Double.value bits with
  | none => simp [hvalue] at hwithin
  | some number =>
    simp only [hvalue, Bool.and_eq_true, decide_eq_true_eq] at hwithin
    obtain ⟨hlow, hhigh⟩ := hwithin
    simp only [getD_some]
    split_ifs
    · exact ⟨Int.le_floor.mpr hlow, by exact_mod_cast (Int.floor_le number).trans hhigh⟩
    · exact ⟨by exact_mod_cast hlow.trans (Int.le_ceil number), Int.ceil_le.mpr hhigh⟩

theorem yields_asInt (value : Json) :
    Yields value.asInt fun number => -2 ^ 31 ≤ number ∧ number < 2 ^ 31 := by
  cases value with
  | null => exact yields_ok (by norm_num)
  | int number =>
    apply yields_ite_of
    · intro hbounds
      exact yields_ok ⟨by omega, by omega⟩
    · intro _
      exact yields_error _
  | uint number =>
    apply yields_ite_of
    · intro hbound
      exact yields_ok ⟨by omega, by omega⟩
    · intro _
      exact yields_error _
  | real bits =>
    apply yields_ite_of
    · intro hwithin
      have hbounds := truncateInt_bounds hwithin
      exact yields_ok ⟨by omega, by omega⟩
    · intro _
      exact yields_error _
  | bool value =>
    apply yields_ok
    cases value <;> norm_num
  | string text | array items | object members => exact yields_error _

theorem yields_readOffset (value : Json) : Yields (readOffset value) fun offset =>
      -2 ^ 31 ≤ offset ∧ offset < 2 ^ 31 := by
  apply yields_ite
  · exact yields_ok (by norm_num)
  · apply yields_ite
    · exact yields_error _
    · exact yields_asInt _

/-- What `perform_search` accepts. -/
theorem yields_readFromdoc [Libraries] (search : Json) :
    Yields (readFromdoc search) fun found => ∀ fromdoc ∈ found,
      -2 ^ 31 ≤ fromdoc.offset ∧ fromdoc.offset < 2 ^ 31 := by
  apply yields_bind
  intro start _
  apply yields_ite
  · exact yields_ok nofun
  apply yields_ite
  · exact yields_error _
  apply yields_ite
  · exact yields_error _
  apply yields_bind
  intro docType _
  apply yields_bind
  intro docId _
  apply yields_bind
  intro offset hoffset
  apply yields_bind
  intro pagesize _
  apply yields_ok
  rintro fromdoc ⟨⟩
  exact yields_readOffset _ offset hoffset

/-! ## The result -/

/-- What is wanted: the rank of the document and the offset added, but not less
than zero, or an `InvalidValueError` for a document that is not found. -/
def wantedAnswer (ranked : List ℕ) (docid : ℕ) (offset : ℤ) :
    Except Thrown ℕ :=
  match ranked.idxOf? docid with
  | some rank => .ok (max 0 (rank + offset)).toNat
  | none => .error (.invalid (ascii
      "fromdoc document not present in result set"))

theorem rankAnswer_eq_iff (hranked : ranked.length < 2 ^ 32) {docid : ℕ} {offset : ℤ}
    (hlow : -2 ^ 31 ≤ offset) (hhigh : offset < 2 ^ 31) :
    rankAnswer ranked docid offset = wantedAnswer ranked docid offset ↔
      ∀ rank, ranked.idxOf? docid = some rank → (rank : ℤ) + offset < 2 ^ 32 := by
  rw [rankAnswer, wantedAnswer]
  cases hfound : ranked.idxOf? docid with
  | none => simp
  | some rank =>
    have hrank : rank < ranked.length := by
      have hindex := findIdx?_eq_some_iff_getElem.mp hfound
      exact hindex.1
    simp only [Except.ok.injEq, some.injEq, forall_eq']
    exact addOffset_eq_iff (hrank.trans hranked) hlow hhigh

theorem length_lt_of_docids (hdistinct : ranked.Nodup)
    (hdocids : ∀ docid ∈ ranked, 0 < docid ∧ docid < 2 ^ 32) :
    ranked.length < 2 ^ 32 := by
  have hsubset : ranked.toFinset ⊆ Finset.Ioo 0 (2 ^ 32) := by
    intro docid hdocid
    exact Finset.mem_Ioo.mpr (hdocids docid (mem_toFinset.mp hdocid))
  have hcard := Finset.card_le_card hsubset
  rw [toFinset_card_of_nodup hdistinct, Nat.card_Ioo] at hcard
  omega

/-- For a document that is in the database, the loop ends with the wanted answer
if and only if the pages are not empty and the sum has at most 32 bits. -/
theorem calcFromdocOffset_iff [Libraries] {search : Json} {fromdoc : Fromdoc}
    (hread : readFromdoc search = .ok (some fromdoc))
    {database : Xapian.Database} {docid : ℕ} {others : List ℕ}
    (hpresent : database.postlist
      (9 :: fromdoc.docType ++ 9 :: fromdoc.docId) = docid :: others)
    {ranked : List ℕ} (hdistinct : ranked.Nodup)
    (hdocids : ∀ docid ∈ ranked, 0 < docid ∧ docid < 2 ^ 32) :
    (∃ bound, ∀ fuel ≥ bound, calcFromdocOffset database ranked fromdoc fuel =
        some (wantedAnswer ranked docid fromdoc.offset)) ↔
      fromdoc.pagesize ≠ 0 ∧ ∀ rank, ranked.idxOf? docid = some rank →
        (rank : ℤ) + fromdoc.offset < 2 ^ 32 := by
  have hranked := length_lt_of_docids hdistinct hdocids
  obtain ⟨hlow, hhigh⟩ := yields_readFromdoc search _ hread fromdoc rfl
  have hcalc : ∀ fuel, calcFromdocOffset database ranked fromdoc fuel =
      findRank ranked docid fromdoc.pagesize fromdoc.offset fuel 0 := by
    intro fuel
    rw [calcFromdocOffset, hpresent]
  simp only [hcalc]
  rcases Nat.eq_zero_or_pos fromdoc.pagesize with hzero | hpagesize
  · apply iff_of_false
    · rintro ⟨bound, hended⟩
      have hanswer := hended bound le_rfl
      rw [hzero, findRank_zero ranked docid fromdoc.offset bound
        (by norm_num)] at hanswer
      cases hanswer
    · exact fun hcondition => hcondition.1 hzero
  · have hends : ∀ fuel ≥ ranked.length + 1,
        findRank ranked docid fromdoc.pagesize fromdoc.offset fuel 0 =
          some (rankAnswer ranked docid fromdoc.offset) := fun fuel hfuel =>
      findRank_eq hranked docid hpagesize fromdoc.offset fuel (Nat.zero_le _)
        (by simp) (by omega)
    rw [← rankAnswer_eq_iff hranked hlow hhigh]
    constructor
    · rintro ⟨bound, hended⟩
      have hanswer := hends (max bound (ranked.length + 1)) (le_max_right _ _)
      rw [hended _ (le_max_left _ _)] at hanswer
      exact ⟨hpagesize.ne', (Option.some.inj hanswer).symm⟩
    · rintro ⟨-, hanswer⟩
      refine ⟨ranked.length + 1, fun fuel hfuel => ?_⟩
      rw [hends fuel hfuel, hanswer]

/-! ## Databases of books -/

/-- The documents of the type `book` with these ids. -/
def booksDatabase (ids : List String) : Xapian.Database :=
  ids.foldl (fun database id => database.addDocument
    (Xapian.Document.addTerm ⟨∅, ∅, []⟩ (ascii "\tbook\t" ++ ascii id) 0)) .empty

/-- The document `1` of the type `book`. -/
def bookDatabase : Xapian.Database :=
  booksDatabase ["1"]

/-- A search for the results from this document on, with pages of a size. -/
def bookSearch (pagesize : ℕ) : Json :=
  .object [(ascii "fromdoc", .object [(ascii "id", .string (ascii "1")),
    (ascii "pagesize", .uint pagesize), (ascii "type", .string (ascii "book"))])]

theorem postlist_bookDatabase :
    bookDatabase.postlist (9 :: ascii "book" ++ 9 :: ascii "1") = [1] := by
  decide +kernel

/-- A search for the results from the one before this document on. -/
def neighbourSearch : Json :=
  .object [(ascii "fromdoc", .object [(ascii "from", .int (-1)),
    (ascii "id", .string (ascii "1")), (ascii "pagesize", .uint 2),
    (ascii "type", .string (ascii "book"))])]

/-- With pages of two results, the third one is found on the second page. -/
theorem calcFromdocOffset_second : ∃ _ : Libraries,
    readFromdoc neighbourSearch =
        .ok (some ⟨ascii "book", ascii "1", -1, 2⟩) ∧
      ∃ bound, ∀ fuel ≥ bound,
        calcFromdocOffset (booksDatabase ["4", "2", "1", "3", "5"])
          [5, 1, 3, 4, 2] ⟨ascii "book", ascii "1", -1, 2⟩ fuel =
            some (.ok 1) := by
  refine ⟨Libraries.plain, rfl, ?_⟩
  have hpresent : (booksDatabase ["4", "2", "1", "3", "5"]).postlist
      (9 :: ascii "book" ++ 9 :: ascii "1") = [3] := by
    decide +kernel
  exact (@calcFromdocOffset_iff Libraries.plain neighbourSearch
    ⟨ascii "book", ascii "1", -1, 2⟩ rfl _ 3 [] hpresent [5, 1, 3, 4, 2]
    (by decide) (by decide)).mpr
    ⟨by decide, fun rank hrank => by
      cases hrank
      decide⟩

/-- With pages of size zero there is no answer. -/
theorem calcFromdocOffset_zero : ∃ _ : Libraries,
    readFromdoc (bookSearch 0) =
        .ok (some ⟨ascii "book", ascii "1", 0, 0⟩) ∧
      bookDatabase.postlist (9 :: ascii "book" ++ 9 :: ascii "1") = [1] ∧
      ∀ fuel, calcFromdocOffset bookDatabase [1]
        ⟨ascii "book", ascii "1", 0, 0⟩ fuel = none := by
  refine ⟨Libraries.plain, rfl, postlist_bookDatabase, fun fuel => ?_⟩
  rw [calcFromdocOffset, postlist_bookDatabase]
  exact findRank_zero [1] 1 0 fuel (by norm_num)

end Restpose.Search
