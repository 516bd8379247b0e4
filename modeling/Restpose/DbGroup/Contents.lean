import Restpose.DbGroup.Model

/-!
# What a group holds

A group is a finite map from id terms to documents that is spread over the
fragments.  Opening fragments does not change what they hold, and every search
sees what they hold, because nobody else writes to the fragments of a group
that is open for writing.  A document is written to the fragment that has its
id term, so no id term gets into two fragments.
-/

namespace Restpose

open Xapian List Option Database DbFragment

namespace DbFragment

/-- A handle for reading shows what is committed. -/
def Sound (fragment : DbFragment) : Prop :=
  ∀ rodb, fragment.handle = .reading rodb → rodb = fragment.committed

def IsWriting (fragment : DbFragment) : Prop :=
  ∃ wrdb, fragment.handle = .writing wrdb

theorem opened_opened (fragment : DbFragment) :
    fragment.opened.opened = fragment.opened := by
  rcases fragment with ⟨committed, handle⟩
  cases handle <;> rfl

theorem contents_opened (fragment : DbFragment) :
    fragment.opened.contents = fragment.contents := by
  rcases fragment with ⟨committed, handle⟩
  cases handle <;> rfl

theorem isWriting_opened_iff {fragment : DbFragment} :
    fragment.opened.IsWriting ↔ fragment.IsWriting := by
  rcases fragment with ⟨committed, handle⟩
  cases handle <;> simp [IsWriting, opened, openReadonly]

theorem Sound.opened {fragment : DbFragment} (hsound : fragment.Sound) :
    fragment.opened.Sound := by
  rcases fragment with ⟨committed, handle⟩
  cases handle with
  | closed =>
    intro rodb hrodb
    exact (Handle.reading.inj hrodb).symm
  | reading rodb | writing wrdb => exact hsound

theorem Sound.getDb_eq {fragment : DbFragment} (hsound : fragment.Sound) :
    fragment.getDb = fragment.contents := by
  rcases fragment with ⟨committed, handle⟩
  cases handle with
  | closed | writing wrdb => rfl
  | reading rodb => exact hsound rodb rfl

theorem isWriting_openWritable (fragment : DbFragment) :
    fragment.openWritable.IsWriting := by
  rcases fragment with ⟨committed, handle⟩
  cases handle <;> exact ⟨_, rfl⟩

theorem contents_openWritable (fragment : DbFragment) :
    fragment.openWritable.contents = fragment.contents := by
  rcases fragment with ⟨committed, handle⟩
  cases handle <;> rfl

section Write

variable {fragment : DbFragment} (change : Database → Database)

theorem IsWriting.write (hwriting : fragment.IsWriting) :
    (fragment.write change).IsWriting := by
  obtain ⟨wrdb, hhandle⟩ := hwriting
  exact ⟨change wrdb, by rw [DbFragment.write, hhandle]⟩

theorem IsWriting.contents_write (hwriting : fragment.IsWriting) :
    (fragment.write change).contents = change fragment.contents := by
  obtain ⟨wrdb, hhandle⟩ := hwriting
  simp only [DbFragment.write, contents, hhandle]

end Write

theorem IsWriting.sound {fragment : DbFragment} (hwriting : fragment.IsWriting) :
    fragment.Sound := by
  obtain ⟨wrdb, hhandle⟩ := hwriting
  intro rodb hrodb
  rw [hhandle] at hrodb
  cases hrodb

theorem contents_commit (fragment : DbFragment) :
    fragment.commit.contents = fragment.contents := by
  rcases fragment with ⟨committed, handle⟩
  cases handle <;> rfl

theorem Sound.commit {fragment : DbFragment} (hsound : fragment.Sound) :
    fragment.commit.Sound := by
  rcases fragment with ⟨committed, handle⟩
  cases handle with
  | closed | reading rodb => exact hsound
  | writing wrdb => exact IsWriting.sound ⟨wrdb, rfl⟩

end DbFragment

namespace DbGroup

/-! ## Opening fragments -/

/-- All fragments are sound. -/
def AllSound (frags : List DbFragment) : Prop :=
  ∀ (index : ℕ) (fragment : DbFragment),
    frags[index]? = some fragment → fragment.Sound

/-- A fragment holds a document under a number. -/
def Holds (frags : List DbFragment) (index docid : ℕ)
    (document : Document) : Prop :=
  ∃ fragment, frags[index]? = some fragment ∧
    fragment.contents.docs[docid]? = some document

/-- The same fragments, some of which have been opened. -/
def Opens (frags frags' : List DbFragment) : Prop :=
  ∀ index : ℕ, frags'[index]? = frags[index]? ∨
    frags'[index]? = frags[index]?.map DbFragment.opened

namespace Opens

variable {frags frags' frags'' : List DbFragment}

theorem refl (frags : List DbFragment) : Opens frags frags := fun _ => Or.inl rfl

theorem trans (hfirst : Opens frags frags') (hsecond : Opens frags' frags'') :
    Opens frags frags'' := by
  intro index
  rcases hfirst index with heq | heq <;> rcases hsecond index with heq' | heq'
  · exact Or.inl (heq'.trans heq)
  · exact Or.inr (heq'.trans (by rw [heq]))
  · exact Or.inr (heq'.trans heq)
  · refine Or.inr (heq'.trans ?_)
    rw [heq, Option.map_map]
    congr 1
    funext fragment
    exact fragment.opened_opened

theorem set {index : ℕ} {fragment : DbFragment}
    (hfragment : frags[index]? = some fragment) :
    Opens frags (frags.set index fragment.opened) := by
  intro other
  by_cases heq : index = other
  · subst heq
    obtain ⟨hlt, _⟩ := List.getElem?_eq_some_iff.mp hfragment
    right
    rw [getElem?_set_self hlt, hfragment]
    rfl
  · exact Or.inl (getElem?_set_ne heq)

theorem modify (frags : List DbFragment) (index : ℕ) :
    Opens frags (frags.modify index opened) := by
  intro other
  rw [getElem?_modify]
  by_cases heq : index = other
  · right
    simp [heq]
  · left
    simp [heq]

theorem map (frags : List DbFragment) : Opens frags (frags.map opened) :=
  fun _ => Or.inr getElem?_map

variable (hopens : Opens frags frags')

include hopens

theorem length_eq : frags'.length = frags.length := by
  have hnone : ∀ index : ℕ, frags'[index]? = none ↔ frags[index]? = none := by
    intro index
    rcases hopens index with heq | heq <;> simp [heq]
  simp only [getElem?_eq_none_iff] at hnone
  have hleft := (hnone frags'.length).mp (le_refl _)
  have hright := (hnone frags.length).mpr (le_refl _)
  omega

theorem exists_before {index : ℕ} {fragment' : DbFragment}
    (hfragment : frags'[index]? = some fragment') :
    ∃ fragment, frags[index]? = some fragment ∧
      (fragment' = fragment ∨ fragment' = fragment.opened) := by
  rcases hopens index with heq | heq
  · exact ⟨fragment', heq ▸ hfragment, Or.inl rfl⟩
  · rw [hfragment] at heq
    obtain ⟨fragment, hbefore, hopened⟩ := map_eq_some_iff.mp heq.symm
    exact ⟨fragment, hbefore, Or.inr hopened.symm⟩

theorem map_contents (index : ℕ) :
    frags'[index]?.map contents = frags[index]?.map contents := by
  rcases hopens index with heq | heq
  · rw [heq]
  · rw [heq, Option.map_map]
    congr 1
    funext fragment
    exact fragment.contents_opened

theorem holds_iff {index docid : ℕ} {document : Document} :
    Holds frags' index docid document ↔ Holds frags index docid document := by
  have hcontents := hopens.map_contents index
  constructor
  · rintro ⟨fragment, hfragment, hdocument⟩
    rw [hfragment] at hcontents
    obtain ⟨before, hbefore, hsame⟩ := map_eq_some_iff.mp hcontents.symm
    exact ⟨before, hbefore, hsame ▸ hdocument⟩
  · rintro ⟨fragment, hfragment, hdocument⟩
    rw [hfragment] at hcontents
    obtain ⟨after, hafter, hsame⟩ := map_eq_some_iff.mp hcontents
    exact ⟨after, hafter, hsame ▸ hdocument⟩

theorem allSound (hsound : AllSound frags) : AllSound frags' := by
  intro index fragment hfragment
  obtain ⟨before, hbefore, rfl | rfl⟩ := hopens.exists_before hfragment
  · exact hsound index _ hbefore
  · exact (hsound index before hbefore).opened

omit hopens

end Opens

theorem search_spec {idterm : Bytes} (hterm : idterm ≠ []) (count : ℕ)
    {frags : List DbFragment} (hcount : count ≤ frags.length) (hsound : AllSound frags) :
    Opens frags (search idterm count frags).1 ∧
      match (search idterm count frags).2 with
      | some index =>
        ∃ docid document, Holds frags index docid document ∧ idterm ∈ document.terms
      | none => ∀ index < count, ∀ docid document,
          Holds frags index docid document → idterm ∉ document.terms := by
  induction count generalizing frags with
  | zero => exact ⟨Opens.refl frags, by simp [search]⟩
  | succ index ih =>
    have hfragment : frags[index]? = some frags[index] := getElem?_eq_getElem (by omega)
    have hopens := Opens.set hfragment
    have hgetDb := (hsound index _ hfragment).getDb_eq
    rw [search, hfragment]
    simp only [hgetDb]
    by_cases hexists : frags[index].contents.termExists idterm = true
    · rw [if_pos hexists]
      obtain ⟨docid, document, hdocument, hhas⟩ := (termExists_iff hterm).mp hexists
      exact ⟨hopens, docid, document, ⟨_, hfragment, hdocument⟩, hhas⟩
    · rw [if_neg hexists]
      obtain ⟨hrest, hfound⟩ := ih (by rw [length_set]; omega) (hopens.allSound hsound)
      refine ⟨hopens.trans hrest, ?_⟩
      generalize (search idterm index (frags.set index frags[index].opened)).2 =
        result at hfound
      cases result with
      | some found =>
        obtain ⟨docid, document, hholds, hhas⟩ := hfound
        exact ⟨docid, document, hopens.holds_iff.mp hholds, hhas⟩
      | none =>
        intro other hother docid document hholds hhas
        rcases Nat.lt_succ_iff_lt_or_eq.mp hother with hlt | rfl
        · exact hfound other hlt docid document (hopens.holds_iff.mpr hholds) hhas
        · obtain ⟨fragment, hsome, hdocument⟩ := hholds
          obtain rfl := some.inj (hfragment.symm.trans hsome)
          exact hexists ((termExists_iff hterm).mpr ⟨docid, document, hdocument, hhas⟩)

/-! ## Writing to a fragment -/

section Write

variable {frags : List DbFragment} {index : ℕ}

theorem getElem?_modify_openWritable (change : Database → Database) {other : ℕ}
    {fragment : DbFragment} :
    (frags.modify index fun before =>
        before.openWritable.write change)[other]? = some fragment ↔
      ∃ before, frags[other]? = some before ∧
        fragment = if index = other then before.openWritable.write change
          else before := by
  rw [List.getElem?_modify, Option.map_eq_map, Option.map_eq_some_iff]
  constructor
  all_goals
    rintro ⟨before, hbefore, rfl⟩
    refine ⟨before, hbefore, ?_⟩
    split <;> rfl

theorem allSound_modify (hsound : AllSound frags) (change : Database → Database) :
    AllSound (frags.modify index fun before =>
      before.openWritable.write change) := by
  intro other fragment hfragment
  obtain ⟨before, hbefore, rfl⟩ := (getElem?_modify_openWritable change).mp hfragment
  split
  · exact (before.isWriting_openWritable.write change).sound
  · exact hsound other before hbefore

/-- A write changes what one fragment holds. -/
theorem holds_modify_iff (change : Database → Database) {other docid : ℕ}
    {document : Document} :
    Holds (frags.modify index fun before =>
        before.openWritable.write change) other docid document ↔
      ∃ before, frags[other]? = some before ∧
        (if index = other then change before.contents
          else before.contents).docs[docid]? = some document := by
  simp only [Holds, getElem?_modify_openWritable]
  constructor
  · rintro ⟨_, ⟨before, hbefore, rfl⟩, hdocument⟩
    refine ⟨before, hbefore, ?_⟩
    rw [← hdocument]
    split
    · rw [before.isWriting_openWritable.contents_write, before.contents_openWritable]
    · rfl
  · rintro ⟨before, hbefore, hdocument⟩
    refine ⟨_, ⟨before, hbefore, rfl⟩, ?_⟩
    rw [← hdocument]
    split
    · rw [before.isWriting_openWritable.contents_write, before.contents_openWritable]
    · rfl

end Write

variable {group : DbGroup}

/-- Adding a document to a fragment replaces those that have its id term
there. -/
theorem holds_addDocAt {index : ℕ} (hindex : index < group.frags.length)
    (document : Document) {idterm : Bytes} (hterm : idterm ≠ []) :
    ∃ docid : ℕ, ∀ (other number : ℕ) (found : Document),
      Holds (group.addDocAt index document idterm).frags other number found ↔
        (other = index ∧ number = docid ∧ found = document) ∨
          (Holds group.frags other number found ∧
            (other = index → idterm ∉ found.terms)) := by
  have hfragment : group.frags[index]? = some group.frags[index] :=
    getElem?_eq_getElem hindex
  obtain ⟨docid, hdocs⟩ := group.frags[index].contents.exists_docid_replaceDocument
    idterm document
  refine ⟨docid, fun other number found => ?_⟩
  simp only [addDocAt, DbFragment.addDoc, if_neg hterm]
  rw [holds_modify_iff]
  simp only [Holds]
  by_cases heq : index = other
  · subst heq
    simp only [hfragment, some.injEq, exists_eq_left', if_true, hdocs, true_and,
      forall_const]
  · simp only [if_neg heq, Ne.symm heq, false_and, false_or, false_implies, and_true]

/-- Deleting a document from a fragment removes those that have its id term
there. -/
theorem holds_deleteDoc_iff {frags : List DbFragment} {index : ℕ} (idterm : Bytes)
    {other number : ℕ} {found : Document} :
    Holds (frags.modify index fun fragment =>
        fragment.openWritable.deleteDoc idterm) other number found ↔
      Holds frags other number found ∧ (other = index → idterm ∉ found.terms) := by
  simp only [DbFragment.deleteDoc]
  rw [holds_modify_iff]
  simp only [Holds]
  by_cases heq : index = other
  · subst heq
    simp only [if_true, docs_deleteByTerm, forall_const, ← and_assoc, exists_and_right]
  · simp only [if_neg heq, Ne.symm heq, false_implies, and_true]

theorem holds_addFrag_iff {index docid : ℕ} {document : Document} :
    Holds group.addFrag.frags index docid document ↔
      Holds group.frags index docid document := by
  simp only [addFrag, Holds, getElem?_append]
  split
  · rfl
  · next hbeyond =>
    have hnone : group.frags[index]? = none :=
      getElem?_eq_none_iff.mpr (not_lt.mp hbeyond)
    rw [hnone]
    constructor
    · rintro ⟨fragment, hfragment, hdocument⟩
      obtain ⟨_, rfl⟩ := List.getElem?_eq_some_iff.mp hfragment
      simp [DbFragment.contents, Database.empty] at hdocument
    · rintro ⟨fragment, hfragment, _⟩
      cases hfragment

theorem allSound_addFrag (hsound : AllSound group.frags) :
    AllSound group.addFrag.frags := by
  intro index fragment hfragment
  rw [addFrag, getElem?_append] at hfragment
  split at hfragment
  · exact hsound index fragment hfragment
  · obtain ⟨_, rfl⟩ := List.getElem?_eq_some_iff.mp hfragment
    exact DbFragment.IsWriting.sound (by simp [DbFragment.IsWriting])

end DbGroup

end Restpose
