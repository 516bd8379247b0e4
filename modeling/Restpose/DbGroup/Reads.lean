import Restpose.DbGroup.FiniteMap

/-!
# Reading what was written

The combined database of a group keeps the handles that the fragments had when
it was built.  It goes on to show a fragment that was open for writing then,
but of one that was open for reading it keeps the snapshot, and the source does
not build it again when such a fragment is opened for writing.  As long as no
write does that, the reads of a group show the last writes.
-/

namespace Restpose

open Xapian List Option DbFragment

namespace DbGroup

/-- A part of the combined database shows what its fragment holds, and will go
on to do so if the fragment is open for writing. -/
def Tracks (index : ℕ) (view : View) (fragment : DbFragment) : Prop :=
  (view = .live index ∧ fragment.IsWriting) ∨
    (view = .snapshot fragment.contents ∧ ¬ fragment.IsWriting)

/-- The combined database, if there is one, is up to date. -/
def Current (group : DbGroup) : Prop :=
  ∀ views, group.groupDb = some views → views.length = group.frags.length ∧
    ∀ (index : ℕ) (view : View) (fragment : DbFragment),
      views[index]? = some view → group.frags[index]? = some fragment →
        Tracks index view fragment

variable {group : DbGroup} {frags : List DbFragment} {document : Document}
  {idterm : Bytes}

theorem current_of_none (hnone : group.groupDb = none) : Current group := by
  intro views hviews
  rw [hnone] at hviews
  cases hviews

theorem tracks_view {index : ℕ} {fragment : DbFragment} (hsound : fragment.Sound) :
    Tracks index (view index fragment) fragment := by
  rw [view]
  split
  next wrdb hhandle => exact Or.inl ⟨rfl, wrdb, hhandle⟩
  next hhandle =>
    refine Or.inr ⟨by rw [hsound.getDb_eq], ?_⟩
    rintro ⟨wrdb, hwriting⟩
    exact hhandle wrdb hwriting

theorem Opens.isWriting {frags' : List DbFragment} (hopens : Opens frags frags')
    {index : ℕ} {fragment : DbFragment} (hfragment : frags[index]? = some fragment)
    (hwriting : fragment.IsWriting) {fragment' : DbFragment}
    (hfragment' : frags'[index]? = some fragment') : fragment'.IsWriting := by
  obtain ⟨before, hbefore, heq⟩ := hopens.exists_before hfragment'
  obtain rfl := some.inj (hfragment.symm.trans hbefore)
  rcases heq with rfl | rfl
  · exact hwriting
  · exact isWriting_opened_iff.mpr hwriting

theorem groupDb_appendDoc (hnone : group.groupDb = none) (document : Document)
    (idterm : Bytes) :
    (group.appendDoc document idterm).groupDb = none := by
  rw [appendDoc, addDocAt, makeRoom]
  split
  · rfl
  · exact hnone

theorem groupDb_addDoc (hnone : group.ensureFrag.groupDb = none)
    (document : Document) (idterm : Bytes) :
    (group.addDoc document idterm).groupDb = none := by
  simp only [addDoc]
  split
  · exact groupDb_appendDoc hnone document idterm
  · split
    · exact hnone
    next frags _ =>
      have hopened : ({ group.ensureFrag with frags } : DbGroup).groupDb = none := hnone
      exact groupDb_appendDoc hopened document idterm

variable (hcurrent : group.Current)

include hcurrent

/-- A combined database that is up to date shows what the fragments hold. -/
theorem Current.shownDbs_eq {views : List View} (hviews : group.groupDb = some views) :
    group.shownDbs = group.frags.map contents := by
  obtain ⟨hlength, htracks⟩ := hcurrent views hviews
  simp only [shownDbs, hviews]
  refine ext_getElem? fun index => ?_
  rw [getElem?_map, getElem?_map]
  by_cases hindex : index < group.frags.length
  · obtain ⟨view, hview⟩ : ∃ view, views[index]? = some view :=
      ⟨_, getElem?_eq_getElem (hlength ▸ hindex)⟩
    have hfragment : group.frags[index]? = some group.frags[index] :=
      getElem?_eq_getElem hindex
    rw [hview, hfragment]
    rcases htracks index _ _ hview hfragment with ⟨heq, _⟩ | ⟨heq, _⟩
    · simp [heq, shown, hfragment]
    · simp [heq, shown]
  · have hview : views[index]? = none := getElem?_eq_none_iff.mpr (by omega)
    have hfragment : group.frags[index]? = none := getElem?_eq_none_iff.mpr (by omega)
    rw [hview, hfragment]
    rfl

/-! ## What keeps the combined database up to date -/

theorem Current.opens (hopens : Opens group.frags frags) :
    Current { group with frags } := by
  intro views hviews
  obtain ⟨hlength, htracks⟩ := hcurrent views hviews
  refine ⟨hlength.trans hopens.length_eq.symm, ?_⟩
  intro index view fragment hview hfragment
  obtain ⟨before, hbefore, rfl | rfl⟩ := hopens.exists_before hfragment
  · exact htracks index view fragment hview hbefore
  · have hbefore := htracks index view before hview hbefore
    rw [Tracks, contents_opened, isWriting_opened_iff]
    exact hbefore

theorem Current.write {index : ℕ}
    (hwriting : group.groupDb ≠ none → ∀ fragment,
      group.frags[index]? = some fragment → fragment.IsWriting)
    (change : Database → Database) :
    Current { group with frags := group.frags.modify index fun fragment =>
      fragment.openWritable.write change } := by
  intro views hviews
  obtain ⟨hlength, htracks⟩ := hcurrent views hviews
  refine ⟨hlength.trans (length_modify _ _ _).symm, ?_⟩
  intro other view fragment hview hfragment
  obtain ⟨before, hbefore, rfl⟩ := (getElem?_modify_openWritable change).mp hfragment
  have hbeforeTracks := htracks other view before hview hbefore
  split
  next heq =>
    subst heq
    have hsome : group.groupDb ≠ none := by
      rw [show group.groupDb = some views from hviews]
      simp
    rcases hbeforeTracks with ⟨hlive, _⟩ | ⟨_, hreading⟩
    · exact Or.inl ⟨hlive, before.isWriting_openWritable.write change⟩
    · exact absurd (hwriting hsome before hbefore) hreading
  next => exact hbeforeTracks

theorem current_initGroupDb (hsound : AllSound group.frags) :
    group.initGroupDb.Current := by
  rw [initGroupDb]
  split
  · exact hcurrent
  · intro views hviews
    obtain rfl := some.inj hviews
    refine ⟨length_mapIdx, ?_⟩
    intro index view fragment hview hfragment
    change (group.frags.map opened)[index]? = some fragment at hfragment
    rw [getElem?_mapIdx, hfragment] at hview
    obtain rfl := some.inj hview
    exact tracks_view ((Opens.map group.frags).allSound hsound index fragment hfragment)

theorem current_sync : group.sync.Current := by
  intro views hviews
  obtain ⟨hlength, htracks⟩ := hcurrent views hviews
  refine ⟨by simpa [sync] using hlength, ?_⟩
  intro index view fragment hview hfragment
  rw [sync, getElem?_map] at hfragment
  obtain ⟨before, hbefore, rfl⟩ := map_eq_some_iff.mp hfragment
  have hbefore := htracks index view before hview hbefore
  rw [Tracks, contents_commit]
  exact hbefore

/-- The fragment that an operation writes to, unless it starts a new one. -/
def writesTo (group : DbGroup) : Operation → Option ℕ
  | .addDoc _ idterm =>
      match search idterm group.frags.length group.frags with
      | (_, some index) => some index
      | (frags, none) =>
          if group.frags.isEmpty ∨
              group.maxNewdbDocs ≤ { group with frags }.lastDoccount then none
          else some (group.frags.length - 1)
  | .deleteDoc idterm => (search idterm group.frags.length group.frags).2
  | _ => none

/-- There is no combined database, or the operation writes to a fragment that
is already open for writing. -/
def Timely (group : DbGroup) (operation : Operation) : Prop :=
  group.groupDb = none ∨ ∀ index, group.writesTo operation = some index →
    ∃ fragment, group.frags[index]? = some fragment ∧ fragment.IsWriting

theorem current_appendDoc (hwriting : group.groupDb ≠ none →
      ¬ group.maxNewdbDocs ≤ group.lastDoccount → ∀ fragment,
        group.frags[group.frags.length - 1]? = some fragment → fragment.IsWriting) :
    (group.appendDoc document idterm).Current := by
  by_cases hfull : group.maxNewdbDocs ≤ group.lastDoccount
  · refine current_of_none ?_
    rw [appendDoc, addDocAt, makeRoom, if_pos hfull]
    rfl
  · have hopens : Opens group.frags group.openLast.frags := Opens.modify _ _
    have hopened : group.openLast.Current := hcurrent.opens hopens
    rw [appendDoc, makeRoom, if_neg hfull]
    refine hopened.write (fun hsome fragment hfragment => ?_) _
    rw [hopens.length_eq] at hfragment
    obtain ⟨before, hbefore, heq⟩ := hopens.exists_before hfragment
    exact hopens.isWriting hbefore (hwriting hsome hfull before hbefore) hfragment

theorem current_addDoc (hsound : AllSound group.frags) (hne : idterm ≠ [])
    (htimely : group.Timely (.addDoc document idterm)) :
    (group.addDoc document idterm).Current := by
  by_cases hnone : group.ensureFrag.groupDb = none
  · exact current_of_none (groupDb_addDoc hnone document idterm)
  · -- Starting the first fragment drops the combined database.
    have hnonempty : ¬ group.frags.isEmpty := by
      intro hempty
      rw [ensureFrag, if_pos hempty] at hnone
      exact hnone rfl
    have hensured : group.ensureFrag = group := by
      rw [ensureFrag, if_neg hnonempty]
    rw [hensured] at hnone
    have hwrites := htimely.resolve_left hnone
    obtain ⟨hopens, _⟩ := search_spec hne group.frags.length (le_refl _) hsound
    simp only [addDoc, hensured, if_neg hne]
    simp only [writesTo] at hwrites
    generalize search idterm group.frags.length group.frags = searched at hopens hwrites
    obtain ⟨frags, result⟩ := searched
    have hopened : Current { group with frags } := hcurrent.opens hopens
    have hkeeps : ∀ index : ℕ, (∃ fragment : DbFragment,
        group.frags[index]? = some fragment ∧ fragment.IsWriting) →
          ∀ fragment : DbFragment, frags[index]? = some fragment →
            fragment.IsWriting := by
      rintro index ⟨before, hbefore, hwriting⟩ fragment hfragment
      exact hopens.isWriting hbefore hwriting hfragment
    cases result with
    | some index =>
      exact hopened.write (fun _ => hkeeps index (hwrites index rfl)) _
    | none =>
      refine current_appendDoc hopened fun _ hroom => ?_
      rw [hopens.length_eq]
      refine hkeeps _ (hwrites _ ?_)
      simp only [if_neg (not_or.mpr ⟨hnonempty, hroom⟩)]

theorem current_deleteDoc (hsound : AllSound group.frags) (hne : idterm ≠ [])
    (htimely : group.Timely (.deleteDoc idterm)) :
    (group.deleteDoc idterm).state.Current := by
  obtain ⟨hopens, _⟩ := search_spec hne group.frags.length (le_refl _) hsound
  simp only [Timely, writesTo] at htimely
  simp only [deleteDoc, if_neg hne]
  generalize search idterm group.frags.length group.frags = searched at hopens htimely
  obtain ⟨frags, result⟩ := searched
  have hopened : Current { group with frags } := hcurrent.opens hopens
  cases result with
  | none => exact hopened
  | some index =>
    refine hopened.write (fun hsome fragment hfragment => ?_) _
    obtain ⟨before, hbefore, hwriting⟩ := htimely.resolve_left hsome index rfl
    exact hopens.isWriting hbefore hwriting hfragment

theorem current_run {isId : Bytes → Prop} (hempty : ¬ isId [])
    (hsound : AllSound group.frags) {operation : Operation}
    (hproper : operation.Proper isId) (htimely : group.Timely operation) :
    (group.run operation).Current := by
  cases operation with
  | addDoc document idterm =>
    have hne : idterm ≠ [] := by
      rintro rfl
      exact hempty hproper.1
    exact current_addDoc hcurrent hsound hne htimely
  | deleteDoc idterm =>
    by_cases hne : idterm = []
    · simpa [run, deleteDoc, hne] using hcurrent
    · exact current_deleteDoc hcurrent hsound hne htimely
  | getDb | getDocument idterm | docExists idterm =>
    exact current_initGroupDb hcurrent hsound
  | sync => exact current_sync hcurrent

/-! ## Reads -/

omit hcurrent

theorem mem_combinedPostings {term : Bytes} (hterm : term ≠ []) :
    (∃ number, (number, document) ∈ combinedPostings (frags.map contents) term) ↔
      ∃ index docid, Holds frags index docid document ∧ term ∈ document.terms := by
  simp only [combinedPostings, Database.postings, if_neg hterm, mem_flatMap,
    mem_filterMap, map_eq_some_iff, Database.mem_postlist, Prod.exists,
    mem_zipIdx_iff_getElem?, getElem?_map, Prod.mk.injEq, Holds]
  constructor
  · rintro ⟨_, _, index, ⟨fragment, hfragment, rfl⟩, docid, ⟨_, hhas, hmem⟩, _,
      hfound, rfl, rfl⟩
    obtain rfl := some.inj (hhas.symm.trans hfound)
    exact ⟨index, docid, ⟨fragment, hfragment, hfound⟩, hmem⟩
  · rintro ⟨index, docid, ⟨fragment, hfragment, hfound⟩, hmem⟩
    exact ⟨_, _, index, ⟨fragment, hfragment, rfl⟩, docid,
      ⟨document, hfound, hmem⟩, document, hfound, rfl, rfl⟩

section Observations

variable {isId : Bytes → Prop} {group : DbGroup}
  {map : Bytes → Option Document}

theorem shownDbs_initGroupDb (hcurrent : group.Current) (hsound : AllSound group.frags) :
    group.initGroupDb.shownDbs = group.initGroupDb.frags.map contents := by
  have hsome : ∃ views, group.initGroupDb.groupDb = some views := by
    rw [initGroupDb]
    split
    next views hviews => exact ⟨views, hviews⟩
    next => exact ⟨_, rfl⟩
  obtain ⟨views, hviews⟩ := hsome
  exact (current_initGroupDb hcurrent hsound).shownDbs_eq hviews

theorem getDocument_eq (hcurrent : group.Current) (hsound : AllSound group.frags)
    (hrepresents : Represents isId group.frags map) {term : Bytes} (hid : isId term)
    (hterm : term ≠ []) : group.getDocument term = map term := by
  have hholds : ∀ document, (∃ number, (number, document) ∈
      combinedPostings group.initGroupDb.shownDbs term) ↔ map term = some document := by
    intro document
    rw [shownDbs_initGroupDb hcurrent hsound, mem_combinedPostings hterm,
      hrepresents.covers term document hid]
    simp only [(initGroupDb_spec group).holds_iff]
  rw [getDocument]
  cases hfirst : (combinedPostings group.initGroupDb.shownDbs term).argmin Prod.fst with
  | none =>
    have hnil := argmin_eq_none.mp hfirst
    cases hmap : map term with
    | none => rfl
    | some document =>
      obtain ⟨number, hmem⟩ := (hholds document).mpr hmap
      rw [hnil] at hmem
      simp at hmem
  | some first =>
    have hmem := argmin_mem hfirst
    exact ((hholds first.2).mp ⟨first.1, hmem⟩).symm

theorem docExists_eq (hcurrent : group.Current) (hsound : AllSound group.frags)
    (hrepresents : Represents isId group.frags map) {term : Bytes} (hid : isId term)
    (hterm : term ≠ []) :
    group.docExists term = (map term).isSome := by
  rw [Bool.eq_iff_iff, docExists, shownDbs_initGroupDb hcurrent hsound,
    List.any_eq_true, Option.isSome_iff_exists]
  simp only [hrepresents.covers term _ hid, ← (initGroupDb_spec group).holds_iff,
    List.mem_map, Database.termExists_iff hterm]
  constructor
  · rintro ⟨_, ⟨fragment, hmem, rfl⟩, docid, document, hdocument, hhas⟩
    obtain ⟨index, hfragment⟩ := List.mem_iff_getElem?.mp hmem
    exact ⟨document, index, docid, ⟨fragment, hfragment, hdocument⟩, hhas⟩
  · rintro ⟨document, index, docid, ⟨fragment, hfragment, hdocument⟩, hhas⟩
    exact ⟨_, ⟨fragment, List.mem_of_getElem? hfragment, rfl⟩, docid, document,
      hdocument, hhas⟩

end Observations

/-- A run in which every write is timely. -/
def TimelyRun : DbGroup → List Operation → Prop
  | _, [] => True
  | group, operation :: operations =>
      group.Timely operation ∧ TimelyRun (group.run operation) operations

theorem TimelyRun.current {isId : Bytes → Prop} (hempty : ¬ isId [])
    {map : Bytes → Option Document} {operations : List Operation} {group : DbGroup}
    (htimely : TimelyRun group operations) (hcurrent : group.Current)
    (hsound : AllSound group.frags) (hrepresents : Represents isId group.frags map)
    (hproper : ∀ operation ∈ operations, operation.Proper isId) :
    (operations.foldl run group).Current := by
  induction operations generalizing group map with
  | nil => exact hcurrent
  | cons operation operations ih =>
    obtain ⟨hfirst, hrest⟩ := htimely
    have hoperation := hproper operation (mem_cons_self ..)
    obtain ⟨hnext, hmap⟩ := run_spec hempty hsound hrepresents hoperation
    exact ih hrest (current_run hcurrent hempty hsound hoperation hfirst)
      hnext hmap fun other hother =>
        hproper other (mem_cons_of_mem _ hother)

/-- In a run of timely writes, the reads of a group show the last write under
an id term, or what was stored under it. -/
theorem reads_own_writes {isId : Bytes → Prop} (hempty : ¬ isId [])
    {group : DbGroup} (hopened : group.Opened)
    (hsingle : Single isId group.frags) (hdistinct : Distinct isId group.frags)
    {operations : List Operation}
    (hproper : ∀ operation ∈ operations, operation.Proper isId)
    (htimely : TimelyRun group operations) {term : Bytes}
    (hid : isId term) :
    (operations.foldl run group).getDocument term =
        operations.foldl Operation.apply group.stored term ∧
      (operations.foldl run group).docExists term =
        (operations.foldl Operation.apply group.stored term).isSome := by
  have hterm : term ≠ [] := by
    rintro rfl
    exact hempty hid
  have hstored := represents_stored hsingle hdistinct
  obtain ⟨hsound, hrepresents⟩ :=
    foldl_run_spec hempty hopened.allSound hstored hproper
  have hcurrent := htimely.current hempty (current_of_none hopened.groupDb)
    hopened.allSound hstored hproper
  exact ⟨getDocument_eq hcurrent hsound hrepresents hid hterm,
    docExists_eq hcurrent hsound hrepresents hid hterm⟩

/-- A write, a read that builds the combined database, and another write. -/
def rewriteOperations : List Operation :=
  [.addDoc (documentWith [ascii "\tx", ascii "old"]) (ascii "\tx"),
    .getDocument (ascii "\tx"),
    .addDoc (documentWith [ascii "\tx", ascii "new"]) (ascii "\tx")]

theorem proper_rewriteOperations :
    ∀ operation ∈ rewriteOperations, operation.Proper isTabbed := by
  intro operation hoperation
  simp only [rewriteOperations, mem_cons, not_mem_nil, or_false] at hoperation
  rcases hoperation with rfl | rfl | rfl
  · exact proper_addDoc (by decide) (by decide)
  · trivial
  · exact proper_addDoc (by decide) (by decide)

theorem timelyRun_rewriteOperations :
    TimelyRun (storedGroup [ascii "\tx"]) rewriteOperations := by
  refine ⟨Or.inl rfl, Or.inl rfl, Or.inr fun index hindex => ?_, trivial⟩
  have hzero : (((storedGroup [ascii "\tx"]).run
      (.addDoc (documentWith [ascii "\tx", ascii "old"]) (ascii "\tx"))).run
        (.getDocument (ascii "\tx"))).writesTo
          (.addDoc (documentWith [ascii "\tx", ascii "new"]) (ascii "\tx")) =
      some 0 := by
    decide
  obtain rfl := some.inj (hzero.symm.trans hindex)
  exact ⟨_, rfl, _, rfl⟩

theorem reads_own_writes_storedGroup :
    TimelyRun (storedGroup [ascii "\tx"]) rewriteOperations ∧
      (rewriteOperations.foldl run (storedGroup [ascii "\tx"])).getDocument
          (ascii "\tx") =
        some (documentWith [ascii "\tx", ascii "new"]) := by
  refine ⟨timelyRun_rewriteOperations, ?_⟩
  have hreads := (reads_own_writes (by decide)
    (opened_storedGroup [ascii "\tx"])
    (single_storedGroup (ascii "\tx") (by decide))
    (distinct_storedGroup isTabbed [ascii "\tx"]) proper_rewriteOperations
    timelyRun_rewriteOperations
    (show isTabbed (ascii "\tx") by decide)).1
  rw [hreads]
  simp [rewriteOperations, Operation.apply]

/-- A read before the first write makes all later reads miss the write. -/
theorem stale_read_storedGroup :
    (storedGroup [ascii "\tx"]).Opened ∧
      Single isTabbed (storedGroup [ascii "\tx"]).frags ∧
      Distinct isTabbed (storedGroup [ascii "\tx"]).frags ∧
      (Operation.addDoc (documentWith [ascii "\tx", ascii "new"])
        (ascii "\tx")).Proper isTabbed ∧
      ((((storedGroup [ascii "\tx"]).run (.docExists (ascii "\tx"))).run
        (.addDoc (documentWith [ascii "\tx", ascii "new"])
          (ascii "\tx"))).getDocument (ascii "\tx")).map Document.termlist =
        some [ascii "\tx"] ∧
      (documentWith [ascii "\tx", ascii "new"]).termlist =
        [ascii "\tx", ascii "new"] := by
  refine ⟨opened_storedGroup _, single_storedGroup (ascii "\tx") (by decide),
    distinct_storedGroup _ _, proper_addDoc (by decide) (by decide), ?_, ?_⟩
  · decide
  · decide

end DbGroup

end Restpose
