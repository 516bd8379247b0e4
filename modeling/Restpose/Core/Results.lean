import Mathlib

/-!
# Results of reads

A read returns a value or ends with an exception.  A sequence of reads ends with
the exception of the first item that has one.
-/

namespace Restpose

open List

variable {Item Error Value First : Type}

/-- A read that returns a value. -/
def Succeeds (result : Except Error Value) : Prop :=
  ∃ value, result = .ok value

/-- A read that ends with a certain kind of exception. -/
def Raises (kind : Error → Prop) (result : Except Error Value) : Prop :=
  ∃ error, result = .error error ∧ kind error

/-- The items before an item of one kind are all of another kind. -/
def Reaches (good bad : Item → Prop) (items : List Item) : Prop :=
  ∃ before item after, items = before ++ item :: after ∧
    (∀ other ∈ before, good other) ∧ bad item

section Kinds

variable {good bad : Item → Prop}

@[simp]
theorem not_reaches_nil : ¬Reaches good bad [] := by
  rintro ⟨before, item, after, heq, -⟩
  simp at heq

@[simp]
theorem reaches_cons {item : Item} {items : List Item} :
    Reaches good bad (item :: items) ↔
      bad item ∨ good item ∧ Reaches good bad items := by
  constructor
  · rintro ⟨before, found, after, heq, hbefore, hfound⟩
    cases before with
    | nil =>
      cases heq
      exact .inl hfound
    | cons first before =>
      cases heq
      exact .inr ⟨hbefore _ mem_cons_self, before, found, after, rfl,
        fun other hother => hbefore other (mem_cons_of_mem _ hother),
        hfound⟩
  · rintro (hbad | ⟨hgood, before, found, after, rfl, hbefore, hfound⟩)
    · exact ⟨[], item, items, rfl, nofun, hbad⟩
    · refine ⟨item :: before, found, after, rfl, ?_, hfound⟩
      intro other hother
      rcases mem_cons.mp hother with rfl | hother
      · exact hgood
      · exact hbefore other hother

end Kinds

variable {kind : Error → Prop}

@[simp]
theorem succeeds_ok (value : Value) :
    Succeeds (.ok value : Except Error Value) := ⟨value, rfl⟩

@[simp]
theorem not_succeeds_error (error : Error) :
    ¬Succeeds (.error error : Except Error Value) := nofun

@[simp]
theorem not_raises_ok (value : Value) :
    ¬Raises kind (.ok value : Except Error Value) := nofun

@[simp]
theorem raises_error {error : Error} :
    Raises kind (.error error : Except Error Value) ↔ kind error := by
  constructor
  · rintro ⟨found, heq, hkind⟩
    cases heq
    exact hkind
  · exact fun hkind => ⟨error, rfl, hkind⟩

variable {result : Except Error First} {convert : First → Value}

@[simp]
theorem succeeds_map : Succeeds (result.map convert) ↔ Succeeds result := by
  cases result <;> simp [Except.map]

@[simp]
theorem raises_map : Raises kind (result.map convert) ↔ Raises kind result := by
  cases result <;> simp [Except.map]

theorem succeeds_bind {next : First → Except Error Value} : Succeeds (result >>= next) ↔
      ∃ value, result = .ok value ∧ Succeeds (next value) := by
  cases result with
  | ok value | error error => simp [bind, Except.bind]

theorem raises_bind {next : First → Except Error Value} : Raises kind (result >>= next) ↔
      Raises kind result ∨ ∃ value, result = .ok value ∧ Raises kind (next value) := by
  cases result with
  | ok value | error error => simp [bind, Except.bind]

@[simp]
theorem succeeds_fmap : Succeeds (convert <$> result) ↔ Succeeds result := succeeds_map

@[simp]
theorem raises_fmap : Raises kind (convert <$> result) ↔ Raises kind result := raises_map

variable {read : Item → Except Error Value}

theorem succeeds_mapM {items : List Item} :
    Succeeds (items.mapM read) ↔ ∀ item ∈ items, Succeeds (read item) := by
  induction items with
  | nil => simp [pure, Except.pure]
  | cons item items ih =>
    rw [mapM_cons, succeeds_bind, forall_mem_cons]
    simp only [bind_pure_comp, succeeds_fmap, ih]
    exact exists_and_right

theorem raises_mapM {items : List Item} : Raises kind (items.mapM read) ↔
      Reaches (fun item => Succeeds (read item))
        (fun item => Raises kind (read item)) items := by
  induction items with
  | nil => simp [pure, Except.pure]
  | cons item items ih =>
    rw [mapM_cons, raises_bind, reaches_cons]
    simp only [bind_pure_comp, raises_fmap, ih]
    exact or_congr_right exists_and_right

/-- Reading items that were written gives what was written. -/
theorem mapM_map {Written : Type} {write : Written → Item} {value : Written → Value}
    {items : List Written} (hread : ∀ item ∈ items,
      read (write item) = .ok (value item)) :
    (items.map write).mapM read = .ok (items.map value) := by
  induction items with
  | nil => rfl
  | cons item items ih =>
    rw [map_cons, mapM_cons, hread item mem_cons_self,
      ih fun other hother => hread other (mem_cons_of_mem _ hother)]
    rfl

/-! ## Loops that may throw -/

section Loops

variable {State : Type} {step : State → Item → Except Error State}
  {state next : State}

theorem foldlM_cons_of_ok {item : Item} (items : List Item)
    (hstep : step state item = .ok next) :
    (item :: items).foldlM step state = items.foldlM step next := by
  rw [foldlM_cons, hstep]
  rfl

theorem foldlM_append_of_ok {first : List Item} (second : List Item)
    (hfirst : first.foldlM step state = .ok next) :
    (first ++ second).foldlM step state = second.foldlM step next := by
  rw [foldlM_append, hfirst]
  rfl

end Loops

end Restpose
