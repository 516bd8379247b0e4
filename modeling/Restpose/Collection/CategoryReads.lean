import Restpose.Config.CollectionConfig

/-!
# Requests that read categories

The tasks that answer a request for a taxonomy or a category look up what the
request names and call `set_ready` with a status.  Two of them go on after the
answer that there is no such taxonomy, and use it.
-/

namespace Restpose.Config

open Attempt

/-- The read tasks of `category_tasks.cc` that name a taxonomy. -/
inductive CategoryRead where
  /-- `CollGetTaxonomyTask`. -/
  | taxonomy (taxonomyName : Bytes)
  /-- `CollGetCategoryTask`. -/
  | category (taxonomyName catId : Bytes)
  /-- `CollGetCategoryParentTask`. -/
  | categoryParent (taxonomyName catId parentId : Bytes)
  /-- `CollGetTopCategoriesTask`. -/
  | topCategories (taxonomyName : Bytes)

/-- The response when `set_ready` is called. -/
structure Response where
  body : Json
  status : ℕ

/-- A null pointer is dereferenced. -/
inductive NullPointer where
  | used

namespace CategoryRead

/-- The body of a 404. -/
def missing (message : Bytes) : Json :=
  (Json.object []).setMember (ascii "err") (.ofString message)

def taxonomyMissing (taxonomyName : Bytes) : Response :=
  ⟨missing (ascii "Taxonomy \"" ++ hexesc taxonomyName ++
    ascii "\" not found"), 404⟩

def categoryMissing (catId : Bytes) : Response :=
  ⟨missing (ascii "Category \"" ++ hexesc catId ++ ascii "\" not found"), 404⟩

/-- The message names the parent twice. -/
def parentMissing (parentId : Bytes) : Response :=
  ⟨missing (ascii "Category \"" ++ hexesc parentId ++
    ascii "\" not a parent of \"" ++ hexesc parentId ++ ascii "\""), 404⟩

def namesToJson (names : Categories) : Json :=
  .array ((names.sort (· ≤ ·)).map .ofString)

def categoryToJson (category : Category) : Json :=
  ((((Json.object []).setMember (ascii "parents")
        (namesToJson category.parents)).setMember (ascii "children")
      (namesToJson category.children)).setMember (ascii "ancestors")
    (namesToJson category.ancestors)).setMember (ascii "descendants")
      (namesToJson category.descendants)

/-- The loop of `CollGetTopCategoriesTask::perform`. -/
def topToJson (taxonomy : Taxonomy) : Json :=
  taxonomy.categories.toList.foldl (fun result entry =>
    if entry.2.parents = ∅ then
      result.setMember (cString entry.2.name)
        (((Json.object []).setMember (ascii "child_count")
            (.uint entry.2.children.card)).setMember
          (ascii "descendant_count") (.uint entry.2.descendants.card))
    else result) (.object [])

/-- Use a pointer, after some calls of `set_ready`. -/
def dereference {Value : Type} (pointer : Option Value)
    (ready : List Response) (next : Value → Attempt NullPointer (List Response)) :
    Attempt NullPointer (List Response) :=
  match pointer with
  | none => .fail ready .used
  | some value => next value

variable {Pipe Categoriser : Type}

/-- `perform`, with the responses at the calls of `set_ready`.  The collection
is open. -/
def perform (config : CollectionConfig Pipe Categoriser) :
    CategoryRead → Attempt NullPointer (List Response)
  | taxonomy taxonomyName =>
      match config.taxonomies[taxonomyName]? with
      | none => .done [taxonomyMissing taxonomyName]
      | some hier => .done [⟨taxonomyToJson hier, 200⟩]
  | category taxonomyName catId =>
      match config.taxonomies[taxonomyName]? with
      | none => .done [taxonomyMissing taxonomyName]
      | some hier =>
          match hier.find catId with
          | none => .done [categoryMissing catId]
          | some cat => .done [⟨categoryToJson cat, 200⟩]
  | categoryParent taxonomyName catId parentId =>
      let hier := config.taxonomies[taxonomyName]?
      -- There is no `return` after this response.
      let ready := if hier.isNone then [taxonomyMissing taxonomyName] else []
      dereference hier ready fun hier =>
      match hier.find catId with
      | none => .done (ready ++ [categoryMissing catId])
      | some cat =>
          if parentId ∉ cat.parents then
            .done (ready ++ [parentMissing parentId])
          else .done (ready ++ [⟨.object [], 200⟩])
  | topCategories taxonomyName =>
      let hier := config.taxonomies[taxonomyName]?
      let ready := if hier.isNone then [taxonomyMissing taxonomyName] else []
      dereference hier ready fun hier =>
      .done (ready ++ [⟨topToJson hier, 200⟩])

/-- Something that the request names is absent. -/
def Absent (config : CollectionConfig Pipe Categoriser) : CategoryRead → Prop
  | taxonomy taxonomyName | topCategories taxonomyName =>
      config.taxonomies[taxonomyName]? = none
  | category taxonomyName catId =>
      ∀ hier, config.taxonomies[taxonomyName]? = some hier →
        hier.find catId = none
  | categoryParent taxonomyName catId parentId =>
      ∀ hier, config.taxonomies[taxonomyName]? = some hier →
        ∀ cat, hier.find catId = some cat → parentId ∉ cat.parents

/-- There is one answer, with the right status, and no null pointer is used. -/
def AnswersOnce (config : CollectionConfig Pipe Categoriser)
    (task : CategoryRead) : Prop :=
  (perform config task).thrown = none ∧
    ∃ response, (perform config task).state = [response] ∧
      (response.status = 404 ∧ task.Absent config ∨
        response.status = 200 ∧ ¬ task.Absent config)

/-- The tasks that go on without a taxonomy have one. -/
def Guarded (config : CollectionConfig Pipe Categoriser) :
    CategoryRead → Prop
  | taxonomy _ | category _ _ => True
  | categoryParent taxonomyName _ _ | topCategories taxonomyName =>
      taxonomyName ∈ config.taxonomies

variable {config : CollectionConfig Pipe Categoriser}

variable (taxonomyName : Bytes)

theorem answersOnce_taxonomy : (taxonomy taxonomyName).AnswersOnce config := by
  cases hfind : config.taxonomies[taxonomyName]? with
  | none =>
    simp [AnswersOnce, perform, Absent, hfind, done, taxonomyMissing]
  | some hier => simp [AnswersOnce, perform, Absent, hfind, done]

theorem answersOnce_category (catId : Bytes) :
    (category taxonomyName catId).AnswersOnce config := by
  cases hfind : config.taxonomies[taxonomyName]? with
  | none =>
    simp [AnswersOnce, perform, Absent, hfind, done, taxonomyMissing]
  | some hier =>
    cases hcategory : hier.find catId with
    | none =>
      simp [AnswersOnce, perform, Absent, hfind, hcategory, done, categoryMissing]
    | some cat =>
      simp [AnswersOnce, perform, Absent, hfind, hcategory, done]

theorem answersOnce_categoryParent {taxonomyName : Bytes} {hier : Taxonomy}
    (hfind : config.taxonomies[taxonomyName]? = some hier) (catId parentId : Bytes) :
    (categoryParent taxonomyName catId parentId).AnswersOnce config := by
  cases hcategory : hier.find catId with
  | none =>
    simp [AnswersOnce, perform, Absent, dereference, hfind, hcategory, done,
      categoryMissing]
  | some cat =>
    by_cases hparent : parentId ∈ cat.parents
    · simp [AnswersOnce, perform, Absent, dereference, hfind, hcategory, hparent, done]
    · simp [AnswersOnce, perform, Absent, dereference, hfind, hcategory,
        hparent, done, parentMissing]

theorem answersOnce_topCategories {taxonomyName : Bytes} {hier : Taxonomy}
    (hfind : config.taxonomies[taxonomyName]? = some hier) :
    (topCategories taxonomyName).AnswersOnce config := by
  simp [AnswersOnce, perform, Absent, dereference, hfind, done]

/-- The requests answer once, with 404 if and only if something is absent,
unless the taxonomy of one of the two unguarded tasks is. -/
theorem answersOnce_iff (config : CollectionConfig Pipe Categoriser)
    (task : CategoryRead) : task.AnswersOnce config ↔ task.Guarded config := by
  have hmem : ∀ taxonomyName, taxonomyName ∈ config.taxonomies ↔
      ∃ hier, config.taxonomies[taxonomyName]? = some hier := by
    intro taxonomyName
    rw [Std.ExtTreeMap.mem_iff_isSome_getElem?, Option.isSome_iff_exists]
  cases task with
  | taxonomy taxonomyName => exact iff_of_true (answersOnce_taxonomy _) trivial
  | category taxonomyName catId =>
      exact iff_of_true (answersOnce_category _ _) trivial
  | categoryParent taxonomyName catId parentId =>
      rw [Guarded, hmem]
      constructor
      · intro hanswers
        cases hfind : config.taxonomies[taxonomyName]? with
        | none =>
            simp [AnswersOnce, perform, dereference, hfind,
              Attempt.fail] at hanswers
        | some hier => exact ⟨hier, rfl⟩
      · rintro ⟨hier, hfind⟩
        exact answersOnce_categoryParent hfind catId parentId
  | topCategories taxonomyName =>
      rw [Guarded, hmem]
      constructor
      · intro hanswers
        cases hfind : config.taxonomies[taxonomyName]? with
        | none =>
            simp [AnswersOnce, perform, dereference, hfind,
              Attempt.fail] at hanswers
        | some hier => exact ⟨hier, rfl⟩
      · rintro ⟨hier, hfind⟩
        exact answersOnce_topCategories hfind

/-- Without the taxonomy there is an answer, and then the null pointer is
used. -/
theorem topCategories_uses_null :
    let config : CollectionConfig Empty Empty := .blank (ascii "books")
    let task := topCategories (ascii "subjects")
    perform config task =
        .fail [taxonomyMissing (ascii "subjects")] .used ∧
      ¬ task.AnswersOnce config := by
  intro config task
  have hfind : config.taxonomies[ascii "subjects"]? = none := by
    simp [config, CollectionConfig.blank]
  have hperform : perform config task =
      .fail [taxonomyMissing (ascii "subjects")] .used := by
    simp only [task, perform, hfind]
    rfl
  refine ⟨hperform, ?_⟩
  rw [AnswersOnce, hperform]
  rintro ⟨hthrown, -⟩
  cases hthrown

end CategoryRead

end Restpose.Config
