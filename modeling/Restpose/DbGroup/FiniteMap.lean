import Restpose.DbGroup.Contents

/-!
# A group as a finite map

Over any set of id terms, a group whose documents have one id term each and do
not share it represents a map from id terms to documents.  Adding and deleting
documents insert and delete in this map, whichever fragment they go to, and the
other operations leave it alone.
-/

namespace Restpose

open Xapian List Option Function Database Document

namespace DbGroup

/-- No two stored documents share an id term. -/
def Distinct (isId : Bytes → Prop) (frags : List DbFragment) : Prop :=
  ∀ index docid document index' docid' document' term,
    Holds frags index docid document → Holds frags index' docid' document' →
      isId term → term ∈ document.terms → term ∈ document'.terms →
        index = index' ∧ docid = docid'

/-- The stored documents have at most one id term each. -/
def Single (isId : Bytes → Prop) (frags : List DbFragment) : Prop :=
  ∀ index docid document, Holds frags index docid document →
    ∀ left right, isId left → isId right → left ∈ document.terms →
      right ∈ document.terms → left = right

/-- The fragments hold the documents of a map, each in one place.  `isId` says
which terms are id terms. -/
structure Represents (isId : Bytes → Prop) (frags : List DbFragment)
    (map : Bytes → Option Document) : Prop where
  single : Single isId frags
  unique : Distinct isId frags
  covers : ∀ term document, isId term → (map term = some document ↔
    ∃ index docid, Holds frags index docid document ∧ term ∈ document.terms)

namespace Represents

variable {isId : Bytes → Prop} {frags frags' : List DbFragment}
  {map : Bytes → Option Document}

theorem congr (hrepresents : Represents isId frags map) (hholds : ∀ index docid document,
      Holds frags' index docid document ↔ Holds frags index docid document) :
    Represents isId frags' map := by
  constructor
  · intro index docid document hdocument
    exact hrepresents.single index docid document ((hholds ..).mp hdocument)
  · intro index docid document index' docid' document' term hleft hright
    exact hrepresents.unique index docid document index' docid' document' term
      ((hholds ..).mp hleft) ((hholds ..).mp hright)
  · intro term document hid
    simp only [hholds]
    exact hrepresents.covers term document hid

variable {idterm : Bytes}

variable (hrepresents : Represents isId frags map)

include hrepresents

/-- Putting a document in the place of those that have its id term inserts it
into the map. -/
theorem insert {document : Document} (hid : isId idterm) (hterm : idterm ∈ document.terms)
    (honly : ∀ term ∈ document.terms, isId term → term = idterm)
    (place number : ℕ)
    (hholds : ∀ index docid found, Holds frags' index docid found ↔
      (index = place ∧ docid = number ∧ found = document) ∨
        (Holds frags index docid found ∧ idterm ∉ found.terms)) :
    Represents isId frags' (update map idterm (some document)) := by
  constructor
  · intro index docid found hfound left right hleft hright hinLeft hinRight
    rcases (hholds ..).mp hfound with ⟨_, _, rfl⟩ | ⟨hold, _⟩
    · rw [honly left hinLeft hleft, honly right hinRight hright]
    · exact hrepresents.single index docid found hold left right hleft hright
        hinLeft hinRight
  · intro index docid found index' docid' found' term hfound hfound' hterm' hin hin'
    rcases (hholds ..).mp hfound with ⟨rfl, rfl, rfl⟩ | ⟨hold, hfree⟩
    · rcases (hholds ..).mp hfound' with ⟨rfl, rfl, rfl⟩ | ⟨_, hfree⟩
      · exact ⟨rfl, rfl⟩
      · exact absurd (honly term hin hterm' ▸ hin') hfree
    · rcases (hholds ..).mp hfound' with ⟨rfl, rfl, rfl⟩ | ⟨hold', _⟩
      · exact absurd (honly term hin' hterm' ▸ hin) hfree
      · exact hrepresents.unique index docid found index' docid' found' term
          hold hold' hterm' hin hin'
  · intro term found hterm'
    by_cases heq : term = idterm
    · subst heq
      rw [update_self, some.injEq]
      constructor
      · rintro rfl
        exact ⟨place, number, (hholds ..).mpr (Or.inl ⟨rfl, rfl, rfl⟩), hterm⟩
      · rintro ⟨index, docid, hfound, hin⟩
        rcases (hholds ..).mp hfound with ⟨_, _, rfl⟩ | ⟨_, hfree⟩
        · rfl
        · exact absurd hin hfree
    · rw [update_of_ne heq, hrepresents.covers term found hterm']
      constructor
      · rintro ⟨index, docid, hold, hin⟩
        refine ⟨index, docid, (hholds ..).mpr (Or.inr ⟨hold, fun hshared => ?_⟩), hin⟩
        exact heq (hrepresents.single index docid found hold term idterm hterm' hid
          hin hshared)
      · rintro ⟨index, docid, hfound, hin⟩
        rcases (hholds ..).mp hfound with ⟨_, _, rfl⟩ | ⟨hold, _⟩
        · exact absurd (honly term hin hterm') heq
        · exact ⟨index, docid, hold, hin⟩

/-- Removing the documents with an id term deletes it from the map. -/
theorem erase (hid : isId idterm)
    (hholds : ∀ index docid found, Holds frags' index docid found ↔
      Holds frags index docid found ∧ idterm ∉ found.terms) :
    Represents isId frags' (update map idterm none) := by
  constructor
  · intro index docid found hfound
    exact hrepresents.single index docid found ((hholds ..).mp hfound).1
  · intro index docid found index' docid' found' term hfound hfound'
    exact hrepresents.unique index docid found index' docid' found' term
      ((hholds ..).mp hfound).1 ((hholds ..).mp hfound').1
  · intro term found hterm'
    by_cases heq : term = idterm
    · subst heq
      rw [update_self]
      refine ⟨fun hnone => by simp at hnone, ?_⟩
      rintro ⟨index, docid, hfound, hin⟩
      exact absurd hin ((hholds ..).mp hfound).2
    · rw [update_of_ne heq, hrepresents.covers term found hterm']
      constructor
      · rintro ⟨index, docid, hold, hin⟩
        refine ⟨index, docid, (hholds ..).mpr ⟨hold, fun hshared => ?_⟩, hin⟩
        exact heq (hrepresents.single index docid found hold term idterm hterm' hid
          hin hshared)
      · rintro ⟨index, docid, hfound, hin⟩
        exact ⟨index, docid, ((hholds ..).mp hfound).1, hin⟩

theorem not_mem_iff (hid : isId idterm) {place number : ℕ} {document : Document}
    (hplace : Holds frags place number document) (hterm : idterm ∈ document.terms)
    {index docid : ℕ} {found : Document} (hfound : Holds frags index docid found) :
    (index = place → idterm ∉ found.terms) ↔ idterm ∉ found.terms := by
  refine ⟨fun hfree hin => ?_, fun hfree _ => hfree⟩
  exact hfree (hrepresents.unique index docid found place number document idterm
    hfound hplace hid hin hterm).1 hin

omit hrepresents

end Represents

/-- What an operation does to the map. -/
def Operation.apply (map : Bytes → Option Document) :
    Operation → Bytes → Option Document
  | .addDoc document idterm => Function.update map idterm (some document)
  | .deleteDoc idterm => Function.update map idterm none
  | _ => map

/-- A document is added under its only id term, and deleted under an id term
or under the empty one, which the group refuses. -/
def Operation.Proper (isId : Bytes → Prop) : Operation → Prop
  | .addDoc document idterm => isId idterm ∧ idterm ∈ document.terms ∧
      ∀ term ∈ document.terms, isId term → term = idterm
  | .deleteDoc idterm => isId idterm ∨ idterm = []
  | _ => True

section Steps

variable {isId : Bytes → Prop} {group : DbGroup}
  {map : Bytes → Option Document}

theorem ensureFrag_spec (hsound : AllSound group.frags) :
    AllSound group.ensureFrag.frags ∧ group.ensureFrag.frags ≠ [] ∧
      ∀ index docid document, Holds group.ensureFrag.frags index docid document ↔
        Holds group.frags index docid document := by
  rw [ensureFrag]
  split
  · exact ⟨allSound_addFrag hsound, by simp [addFrag], fun _ _ _ => holds_addFrag_iff⟩
  · next hnonempty =>
    exact ⟨hsound, by simpa using hnonempty, fun _ _ _ => Iff.rfl⟩

theorem makeRoom_spec (hsound : AllSound group.frags) (hnonempty : group.frags ≠ []) :
    AllSound group.makeRoom.frags ∧ group.makeRoom.frags ≠ [] ∧
      ∀ index docid document, Holds group.makeRoom.frags index docid document ↔
        Holds group.frags index docid document := by
  have hopens : Opens group.frags group.openLast.frags := Opens.modify _ _
  have hopened : group.openLast.frags ≠ [] := by
    intro hnil
    have hlength := hopens.length_eq
    rw [hnil] at hlength
    exact hnonempty (length_eq_zero_iff.mp hlength.symm)
  have hlast := hopens.allSound hsound
  rw [makeRoom]
  split
  · exact ⟨allSound_addFrag hlast, by simp [addFrag],
      fun _ _ _ => holds_addFrag_iff.trans hopens.holds_iff⟩
  · exact ⟨hlast, hopened, fun _ _ _ => hopens.holds_iff⟩

theorem allSound_addDocAt (hsound : AllSound group.frags) (index : ℕ)
    (document : Document) (idterm : Bytes) :
    AllSound (group.addDocAt index document idterm).frags :=
  allSound_modify hsound _

variable {idterm : Bytes}

/-- A document whose id term is not in the group goes to the last fragment. -/
theorem appendDoc_spec (hsound : AllSound group.frags) (hnonempty : group.frags ≠ [])
    (hrepresents : Represents isId group.frags map) {document : Document}
    (hne : idterm ≠ []) (hproper : (Operation.addDoc document idterm).Proper isId)
    (hfree : ∀ index docid found, Holds group.frags index docid found →
      idterm ∉ found.terms) :
    AllSound (group.appendDoc document idterm).frags ∧
      Represents isId (group.appendDoc document idterm).frags
        (update map idterm (some document)) := by
  obtain ⟨hroom, hlast, hholds⟩ := makeRoom_spec hsound hnonempty
  have hindex : group.makeRoom.frags.length - 1 < group.makeRoom.frags.length :=
    Nat.sub_lt (length_pos_of_ne_nil hlast) Nat.one_pos
  obtain ⟨docid, hadded⟩ := holds_addDocAt hindex document hne
  refine ⟨allSound_addDocAt hroom _ _ _, ?_⟩
  obtain ⟨hid, hterm, honly⟩ := hproper
  refine hrepresents.insert hid hterm honly (group.makeRoom.frags.length - 1)
    docid fun index number found => ?_
  rw [appendDoc, hadded, hholds]
  refine or_congr_right (and_congr_right fun hfound => ?_)
  exact iff_of_true (fun _ => hfree index number found hfound)
    (hfree index number found hfound)

theorem addDoc_spec (hsound : AllSound group.frags)
    (hrepresents : Represents isId group.frags map) {document : Document}
    (hne : idterm ≠ []) (hproper : (Operation.addDoc document idterm).Proper isId) :
    AllSound (group.addDoc document idterm).frags ∧
      Represents isId (group.addDoc document idterm).frags
        (update map idterm (some document)) := by
  obtain ⟨hensured, hnonempty, hsame⟩ := ensureFrag_spec hsound
  have hrepresents := hrepresents.congr hsame
  obtain ⟨hopens, hresult⟩ :=
    search_spec hne group.ensureFrag.frags.length (le_refl _) hensured
  simp only [addDoc, if_neg hne]
  generalize search idterm group.ensureFrag.frags.length
    group.ensureFrag.frags = searched at hopens hresult
  obtain ⟨frags, result⟩ := searched
  have hfrags := hopens.allSound hensured
  have hopened := hrepresents.congr fun _ _ _ => hopens.holds_iff
  cases result with
  | some index =>
    obtain ⟨number, old, hold, hhas⟩ := hresult
    have hplace := hopens.holds_iff.mpr hold
    have hindex : index < frags.length := by
      obtain ⟨fragment, hfragment, _⟩ := hplace
      exact (List.getElem?_eq_some_iff.mp hfragment).1
    have hindex' : index < ({ group.ensureFrag with frags } : DbGroup).frags.length :=
      hindex
    obtain ⟨docid, hadded⟩ := holds_addDocAt hindex' document hne
    refine ⟨allSound_addDocAt hfrags _ _ _, ?_⟩
    obtain ⟨hid, hterm, honly⟩ := hproper
    refine hopened.insert hid hterm honly index docid fun other _ found => ?_
    rw [hadded]
    refine or_congr_right (and_congr_right fun hfound => ?_)
    exact hopened.not_mem_iff hid hplace hhas hfound
  | none =>
    have hlength := hopens.length_eq
    refine appendDoc_spec hfrags ?_ hopened hne hproper ?_
    · intro hnil
      rw [show frags = [] from hnil] at hlength
      exact hnonempty (length_eq_zero_iff.mp hlength.symm)
    · intro index docid found hfound
      have hbefore := hopens.holds_iff.mp hfound
      refine hresult index ?_ docid found hbefore
      obtain ⟨fragment, hfragment, _⟩ := hbefore
      exact (List.getElem?_eq_some_iff.mp hfragment).1

theorem deleteDoc_spec (hsound : AllSound group.frags)
    (hrepresents : Represents isId group.frags map) (hne : idterm ≠ [])
    (hid : isId idterm) :
    AllSound (group.deleteDoc idterm).state.frags ∧
      Represents isId (group.deleteDoc idterm).state.frags (update map idterm none) := by
  obtain ⟨hopens, hresult⟩ := search_spec hne group.frags.length (le_refl _) hsound
  simp only [deleteDoc, if_neg hne]
  generalize search idterm group.frags.length group.frags = searched at hopens hresult
  obtain ⟨frags, result⟩ := searched
  have hfrags := hopens.allSound hsound
  have hopened := hrepresents.congr fun _ _ _ => hopens.holds_iff
  cases result with
  | some index =>
    obtain ⟨number, old, hold, hhas⟩ := hresult
    refine ⟨allSound_modify hfrags _, hopened.erase hid fun other docid found => ?_⟩
    refine (holds_deleteDoc_iff idterm).trans (and_congr_right fun hfound => ?_)
    exact hopened.not_mem_iff hid (hopens.holds_iff.mpr hold) hhas hfound
  | none =>
    refine ⟨hfrags, hopened.erase hid fun index docid found => ?_⟩
    refine (and_iff_left_of_imp fun hfound => ?_).symm
    have hbefore := hopens.holds_iff.mp hfound
    refine hresult index ?_ docid found hbefore
    obtain ⟨fragment, hfragment, _⟩ := hbefore
    exact (List.getElem?_eq_some_iff.mp hfragment).1

theorem initGroupDb_spec (group : DbGroup) :
    Opens group.frags group.initGroupDb.frags := by
  rw [initGroupDb]
  split
  · exact Opens.refl group.frags
  · exact Opens.map group.frags

theorem sync_spec (hsound : AllSound group.frags) :
    AllSound group.sync.frags ∧ ∀ index docid document,
      Holds group.sync.frags index docid document ↔
        Holds group.frags index docid document := by
  constructor
  · intro index fragment hfragment
    rw [sync, getElem?_map] at hfragment
    obtain ⟨before, hbefore, rfl⟩ := map_eq_some_iff.mp hfragment
    exact (hsound index before hbefore).commit
  · intro index docid document
    simp only [sync, Holds, getElem?_map, map_eq_some_iff,
      exists_exists_and_eq_and, DbFragment.contents_commit]

/-- Every operation does to the group what it does to the map. -/
theorem run_spec (hempty : ¬ isId []) (hsound : AllSound group.frags)
    (hrepresents : Represents isId group.frags map) {operation : Operation}
    (hproper : operation.Proper isId) :
    AllSound (group.run operation).frags ∧
      Represents isId (group.run operation).frags (operation.apply map) := by
  have hread : AllSound group.initGroupDb.frags ∧
      Represents isId group.initGroupDb.frags map := by
    have hopens := initGroupDb_spec group
    exact ⟨hopens.allSound hsound, hrepresents.congr fun _ _ _ => hopens.holds_iff⟩
  cases operation with
  | addDoc document idterm =>
    have hne : idterm ≠ [] := by
      rintro rfl
      exact hempty hproper.1
    exact addDoc_spec hsound hrepresents hne hproper
  | deleteDoc idterm =>
    by_cases hne : idterm = []
    · -- The group throws, and no id term is empty.
      subst hne
      refine ⟨by simpa [run, deleteDoc] using hsound, ?_⟩
      have hsame : Represents isId group.frags (Operation.apply map (.deleteDoc [])) := by
        refine ⟨hrepresents.single, hrepresents.unique, ?_⟩
        intro term document hid
        have hterm : term ≠ [] := by
          rintro rfl
          exact hempty hid
        rw [Operation.apply, update_of_ne hterm]
        exact hrepresents.covers term document hid
      simpa [run, deleteDoc] using hsame
    · exact deleteDoc_spec hsound hrepresents hne (hproper.resolve_right hne)
  | getDb | getDocument idterm | docExists idterm => exact hread
  | sync =>
    obtain ⟨hsynced, hholds⟩ := sync_spec hsound
    exact ⟨hsynced, hrepresents.congr hholds⟩

/-- Every run of operations does to the group what it does to the map. -/
theorem foldl_run_spec (hempty : ¬ isId []) (hsound : AllSound group.frags)
    (hrepresents : Represents isId group.frags map) {operations : List Operation}
    (hproper : ∀ operation ∈ operations, operation.Proper isId) :
    AllSound (operations.foldl run group).frags ∧
      Represents isId (operations.foldl run group).frags
        (operations.foldl Operation.apply map) := by
  induction operations generalizing group map with
  | nil => exact ⟨hsound, hrepresents⟩
  | cons operation operations ih =>
    obtain ⟨hnext, hmap⟩ := run_spec hempty hsound hrepresents
      (hproper operation (mem_cons_self ..))
    exact ih hnext hmap fun other hother =>
      hproper other (mem_cons_of_mem _ hother)

end Steps

/-- A group that `DbGroup::open_writable` has just opened. -/
structure Opened (group : DbGroup) : Prop where
  closed : ∀ fragment ∈ group.frags, fragment.handle = .closed
  groupDb : group.groupDb = none

theorem Opened.allSound {group : DbGroup} (hopened : group.Opened) :
    AllSound group.frags := by
  intro index fragment hfragment rodb hrodb
  rw [hopened.closed fragment (mem_of_getElem? hfragment)] at hrodb
  cases hrodb

/-- The documents of a group that have a term. -/
def holders (group : DbGroup) (term : Bytes) : List Document :=
  group.frags.flatMap fun fragment =>
    (fragment.contents.postlist term).filterMap fun docid =>
      fragment.contents.docs[docid]?

variable {document : Document}

theorem mem_holders {group : DbGroup} {term : Bytes} : document ∈ group.holders term ↔
      ∃ index docid, Holds group.frags index docid document ∧ term ∈ document.terms := by
  simp only [holders, mem_flatMap, mem_filterMap, mem_postlist]
  constructor
  · rintro ⟨fragment, hmem, docid, ⟨other, hother, hterm⟩, hfound⟩
    obtain ⟨index, hfragment⟩ := mem_iff_getElem?.mp hmem
    obtain rfl := some.inj (hother.symm.trans hfound)
    exact ⟨index, docid, ⟨fragment, hfragment, hfound⟩, hterm⟩
  · rintro ⟨index, docid, ⟨fragment, hfragment, hfound⟩, hterm⟩
    exact ⟨fragment, mem_of_getElem? hfragment, docid, ⟨document, hfound, hterm⟩, hfound⟩

/-- The document that a group stores under a term. -/
def stored (group : DbGroup) (term : Bytes) : Option Document :=
  (group.holders term).head?

theorem Holds.eq {frags : List DbFragment} {index docid : ℕ} {document' : Document}
    (hholds : Holds frags index docid document)
    (hholds' : Holds frags index docid document') : document = document' := by
  obtain ⟨fragment, hfragment, hdocument⟩ := hholds
  obtain ⟨fragment', hfragment', hdocument'⟩ := hholds'
  obtain rfl := some.inj (hfragment.symm.trans hfragment')
  exact some.inj (hdocument.symm.trans hdocument')

theorem represents_stored {isId : Bytes → Prop} {group : DbGroup}
    (hsingle : Single isId group.frags) (hdistinct : Distinct isId group.frags) :
    Represents isId group.frags group.stored := by
  refine ⟨hsingle, hdistinct, fun term document hid => ?_⟩
  rw [stored, ← mem_holders]
  constructor
  · exact mem_of_head?
  · intro hdocument
    obtain ⟨index, docid, hholds, hterm⟩ := mem_holders.mp hdocument
    cases hfirst : (group.holders term).head? with
    | none => simp [head?_eq_none_iff.mp hfirst] at hdocument
    | some first =>
      obtain ⟨index', docid', hholds', hterm'⟩ := mem_holders.mp (mem_of_head? hfirst)
      obtain ⟨rfl, rfl⟩ := hdistinct index docid document index' docid'
        first term hholds hholds' hid hterm hterm'
      rw [hholds.eq hholds']

/-- After any sequence of operations an id term is in at most one document of
at most one fragment, and the fragments hold the documents of the map that the
same insertions and deletions give. -/
theorem fragments_hold_map {isId : Bytes → Prop} (hempty : ¬ isId [])
    {group : DbGroup} (hopened : group.Opened)
    (hsingle : Single isId group.frags) (hdistinct : Distinct isId group.frags)
    {operations : List Operation}
    (hproper : ∀ operation ∈ operations, operation.Proper isId) :
    Distinct isId (operations.foldl run group).frags ∧
      ∀ term document, isId term →
        (operations.foldl Operation.apply group.stored term = some document ↔
          ∃ index docid,
            Holds (operations.foldl run group).frags index docid document ∧
              term ∈ document.terms) := by
  have hrun := (foldl_run_spec hempty hopened.allSound
    (represents_stored hsingle hdistinct) hproper).2
  exact ⟨hrun.unique, hrun.covers⟩

/-- A term that starts with a tab. -/
def isTabbed (term : Bytes) : Prop :=
  term.head? = some 9

/-- A document without data that has some terms. -/
def documentWith (terms : List Bytes) : Document :=
  terms.foldl (fun document term => document.addTerm term 0) ⟨∅, ∅, []⟩

instance (term : Bytes) : Decidable (isTabbed term) :=
  inferInstanceAs (Decidable (term.head? = some 9))

theorem proper_addDoc {idterm : Bytes} (hterm : idterm ∈ document.termlist)
    (honly : ∀ term ∈ document.termlist, isTabbed term ↔ term = idterm) :
    (Operation.addDoc document idterm).Proper isTabbed := by
  refine ⟨(honly idterm hterm).mpr rfl, mem_termlist.mp hterm, ?_⟩
  exact fun term hmem => (honly term (mem_termlist.mpr hmem)).mp

/-- A group of one fragment with one document. -/
def storedGroup (terms : List Bytes) : DbGroup :=
  ⟨1, [⟨Database.empty.addDocument (documentWith terms), .closed⟩], none⟩

theorem opened_storedGroup (terms : List Bytes) : (storedGroup terms).Opened :=
  ⟨by simp [storedGroup], rfl⟩

theorem holds_storedGroup {terms : List Bytes} {index docid : ℕ}
    (hholds : Holds (storedGroup terms).frags index docid document) :
    index = 0 ∧ docid = 1 ∧ document = documentWith terms := by
  obtain ⟨fragment, hfragment, hdocument⟩ := hholds
  obtain ⟨hindex, rfl⟩ := List.getElem?_eq_some_iff.mp hfragment
  obtain rfl : index = 0 := by simpa [storedGroup] using hindex
  change (empty.docs.insert 1 (documentWith terms))[docid]? = _ at hdocument
  rw [Std.ExtTreeMap.getElem?_insert] at hdocument
  split at hdocument
  next heq =>
    rw [Std.LawfulEqCmp.compare_eq_iff_eq] at heq
    exact ⟨rfl, heq.symm, (some.inj hdocument).symm⟩
  next => simp [empty] at hdocument

theorem distinct_storedGroup (isId : Bytes → Prop) (terms : List Bytes) :
    Distinct isId (storedGroup terms).frags := by
  intro index docid document index' docid' document' term hleft hright _ _ _
  obtain ⟨rfl, rfl, _⟩ := holds_storedGroup hleft
  obtain ⟨rfl, rfl, _⟩ := holds_storedGroup hright
  exact ⟨rfl, rfl⟩

theorem single_storedGroup {terms : List Bytes} (idterm : Bytes)
    (honly : ∀ term ∈ (documentWith terms).termlist, isTabbed term → term = idterm) :
    Single isTabbed (storedGroup terms).frags := by
  intro index docid document hholds left right hleft hright hinLeft hinRight
  obtain ⟨_, _, rfl⟩ := holds_storedGroup hholds
  rw [honly left (mem_termlist.mpr hinLeft) hleft,
    honly right (mem_termlist.mpr hinRight) hright]

/-- A replacement, a document for a new fragment, and a deletion. -/
def sampleOperations : List Operation :=
  [.addDoc (documentWith [ascii "\tx", ascii "new"]) (ascii "\tx"),
    .addDoc (documentWith [ascii "\ty"]) (ascii "\ty"),
    .deleteDoc (ascii "\tx")]

theorem proper_sampleOperations :
    ∀ operation ∈ sampleOperations, operation.Proper isTabbed := by
  intro operation hoperation
  simp only [sampleOperations, mem_cons, not_mem_nil, or_false] at hoperation
  rcases hoperation with rfl | rfl | rfl
  · exact proper_addDoc (by decide) (by decide)
  · exact proper_addDoc (by decide) (by decide)
  · exact Or.inl (by decide)

theorem fragments_hold_map_storedGroup :
    (sampleOperations.foldl run (storedGroup [ascii "\tx"])).frags.length = 2 ∧
      Distinct isTabbed
        (sampleOperations.foldl run (storedGroup [ascii "\tx"])).frags ∧
      ¬ ∃ document index docid, Holds
        (sampleOperations.foldl run (storedGroup [ascii "\tx"])).frags index
          docid document ∧ ascii "\tx" ∈ document.terms := by
  obtain ⟨hdistinct, hcovers⟩ := fragments_hold_map (by decide)
    (opened_storedGroup [ascii "\tx"])
    (single_storedGroup (ascii "\tx") (by decide))
    (distinct_storedGroup isTabbed [ascii "\tx"]) proper_sampleOperations
  refine ⟨by decide, hdistinct, ?_⟩
  rintro ⟨document, hholds⟩
  have hstored := (hcovers (ascii "\tx") document (by decide)).mpr hholds
  simp [sampleOperations, Operation.apply] at hstored

/-- A stored document with two id terms goes with the first of them that is
used: the other one is lost from the fragments, but not from the map. -/
theorem shared_document_lost :
    (storedGroup [ascii "\tx", ascii "\ty"]).Opened ∧
      Distinct isTabbed (storedGroup [ascii "\tx", ascii "\ty"]).frags ∧
      (Operation.addDoc (documentWith [ascii "\tx"]) (ascii "\tx")).Proper
        isTabbed ∧
      isTabbed (ascii "\ty") ∧
      Operation.apply (storedGroup [ascii "\tx", ascii "\ty"]).stored
          (.addDoc (documentWith [ascii "\tx"]) (ascii "\tx")) (ascii "\ty") =
        some (documentWith [ascii "\tx", ascii "\ty"]) ∧
      ¬ ∃ document index docid, Holds
        ((storedGroup [ascii "\tx", ascii "\ty"]).run
          (.addDoc (documentWith [ascii "\tx"]) (ascii "\tx"))).frags index
            docid document ∧ ascii "\ty" ∈ document.terms := by
  refine ⟨opened_storedGroup _, distinct_storedGroup _ _,
    proper_addDoc (by decide) (by decide), by decide, ?_, ?_⟩
  · rw [Operation.apply, Function.update_of_ne (by decide)]
    rfl
  · rintro ⟨document, hholds⟩
    have hmem := mem_holders.mpr hholds
    have hnone : ((storedGroup [ascii "\tx", ascii "\ty"]).run
        (.addDoc (documentWith [ascii "\tx"]) (ascii "\tx"))).holders
          (ascii "\ty") = [] := by
      rw [← List.isEmpty_iff]
      decide
    rw [hnone] at hmem
    simp at hmem

end DbGroup

end Restpose
