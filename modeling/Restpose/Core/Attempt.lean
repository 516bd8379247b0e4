import Mathlib

/-!
# Calls that may throw

A call that throws may have changed the object it was made on before.  An
attempt is the state that a call leaves behind together with the exception it
ended with.
-/

namespace Restpose

open List

variable {Error State Item Value : Type*}

/-- The state that a call leaves behind, and the exception it ended with. -/
structure Attempt (Error State : Type*) where
  state : State
  thrown : Option Error

namespace Attempt

def done (state : State) : Attempt Error State :=
  ⟨state, none⟩

def fail (state : State) (error : Error) : Attempt Error State :=
  ⟨state, some error⟩

/-- Go on after a call that did not throw. -/
def andThen (attempt : Attempt Error State)
    (next : State → Attempt Error State) : Attempt Error State :=
  match attempt.thrown with
  | none => next attempt.state
  | some _ => attempt

/-- Go on with the value of a call that changes nothing. -/
def withValue (state : State) (result : Except Error Value)
    (next : Value → Attempt Error State) : Attempt Error State :=
  match result with
  | .ok value => next value
  | .error error => fail state error

/-- What a caller gets that drops the state if there was an exception. -/
def toExcept (attempt : Attempt Error State) : Except Error State :=
  match attempt.thrown with
  | none => .ok attempt.state
  | some error => .error error

/-- A loop that the first exception ends. -/
def forEach (body : Item → State → Attempt Error State) :
    List Item → State → Attempt Error State
  | [], state => done state
  | item :: items, state => (body item state).andThen (forEach body items)

@[simp]
theorem done_andThen (state : State) (next : State → Attempt Error State) :
    (done state).andThen next = next state :=
  rfl

variable (body : Item → State → Attempt Error State)

theorem forEach_cons (item : Item) (items : List Item) (state : State) :
    forEach body (item :: items) state = (body item state).andThen (forEach body items) :=
  rfl

theorem andThen_of_none {attempt : Attempt Error State} (hnone : attempt.thrown = none)
    (next : State → Attempt Error State) :
    attempt.andThen next = next attempt.state := by
  rw [andThen, hnone]

theorem toExcept_eq_ok_iff {attempt : Attempt Error State} {state : State} :
    attempt.toExcept = .ok state ↔ attempt = .done state := by
  obtain ⟨after, thrown⟩ := attempt
  cases thrown <;> simp [toExcept, done]

theorem forEach_append (front rest : List Item) (state : State) :
    forEach body (front ++ rest) state =
      (forEach body front state).andThen (forEach body rest) := by
  induction front generalizing state with
  | nil => rfl
  | cons item front ih =>
    rw [cons_append, forEach_cons, forEach_cons]
    cases hthrown : (body item state).thrown with
    | none => rw [andThen_of_none hthrown, andThen_of_none hthrown, ih]
    | some error => simp [andThen, hthrown]

theorem thrown_andThen {attempt : Attempt Error State} (hthrown : attempt.thrown ≠ none)
    (next : State → Attempt Error State) :
    (attempt.andThen next).thrown ≠ none := by
  unfold andThen
  split
  next hnone => exact absurd hnone hthrown
  next => exact hthrown

theorem thrown_andThen_of_next {next : State → Attempt Error State}
    (hnext : ∀ state, (next state).thrown ≠ none) (attempt : Attempt Error State) :
    (attempt.andThen next).thrown ≠ none := by
  unfold andThen
  split
  next => exact hnext _
  next hsome => simp [hsome]

theorem forEach_map {Other : Type*} (convert : Other → Item)
    (body : Item → State → Attempt Error State) (items : List Other) (state : State) :
    forEach body (items.map convert) state =
      forEach (fun item => body (convert item)) items state := by
  induction items generalizing state with
  | nil => rfl
  | cons item items ih =>
    simp only [map_cons, forEach_cons]
    congr 1
    funext state
    exact ih state

variable {items : List Item}

theorem forEach_done {body : Item → State → Attempt Error State}
    {step : State → Item → State}
    (hbody : ∀ item ∈ items, ∀ state, body item state = done (step state item))
    (state : State) : forEach body items state = done (items.foldl step state) := by
  induction items generalizing state with
  | nil => rfl
  | cons item items ih =>
    rw [forEach_cons, hbody item mem_cons_self, done_andThen]
    exact ih (fun item hitem => hbody item (mem_cons_of_mem _ hitem)) (step state item)

theorem forEach_fixed {body : Item → State → Attempt Error State} {state : State}
    (hbody : ∀ item ∈ items, body item state = done state) :
    forEach body items state = done state := by
  induction items with
  | nil => rfl
  | cons item items ih =>
    rw [forEach_cons, hbody item mem_cons_self, done_andThen]
    exact ih fun other hother => hbody other (mem_cons_of_mem _ hother)

/-- A loop throws if there is an item that it cannot get over. -/
theorem thrown_forEach {body : Item → State → Attempt Error State} {item : Item}
    (hitem : item ∈ items) (hthrows : ∀ state, (body item state).thrown ≠ none)
    (state : State) : (forEach body items state).thrown ≠ none := by
  induction items generalizing state with
  | nil => cases hitem
  | cons first items ih =>
    rw [forEach_cons]
    rcases mem_cons.mp hitem with rfl | hitem
    · exact thrown_andThen (hthrows state) _
    · exact thrown_andThen_of_next (ih hitem) _

theorem withValue_map {Other : Type*} (state : State) (result : Except Error Value)
    (convert : Value → Other) (next : Other → Attempt Error State) :
    withValue state (result.map convert) next =
      withValue state result fun value => next (convert value) := by
  cases result <;> rfl

/-! ## What holds of every value -/

/-- Every value that a call returns has a property. -/
def Yields (result : Except Error Value) (post : Value → Prop) : Prop :=
  ∀ value, result = .ok value → post value

theorem yields_ok {post : Value → Prop} {value : Value} (hpost : post value) :
    Yields (.ok value : Except Error Value) post := by
  intro other hother
  cases hother
  exact hpost

theorem yields_error {post : Value → Prop} (error : Error) :
    Yields (.error error : Except Error Value) post :=
  nofun

theorem yields_ite {condition : Prop} [Decidable condition]
    {left right : Except Error Value} {post : Value → Prop} (hleft : Yields left post)
    (hright : Yields right post) : Yields (if condition then left else right) post := by
  split
  · exact hleft
  · exact hright

theorem yields_ite_of {condition : Prop} [Decidable condition]
    {left right : Except Error Value} {post : Value → Prop}
    (hleft : condition → Yields left post) (hright : ¬ condition → Yields right post) :
    Yields (if condition then left else right) post := by
  split
  next hcondition => exact hleft hcondition
  next hcondition => exact hright hcondition

theorem yields_bind {First Second : Type} {result : Except Error First}
    {next : First → Except Error Second} {post : Second → Prop}
    (hnext : ∀ value, result = .ok value → Yields (next value) post) :
    Yields (result >>= next) post := by
  cases hresult : result with
  | ok value => exact hnext value hresult
  | error error => exact yields_error error

theorem yields_mapM {Input Output : Type} {read : Input → Except Error Output}
    {inputs : List Input} {post : Output → Prop}
    (hread : ∀ input ∈ inputs, Yields (read input) post) :
    Yields (inputs.mapM read) fun outputs => ∀ output ∈ outputs, post output := by
  induction inputs with
  | nil => exact yields_ok nofun
  | cons input inputs ih =>
    rw [mapM_cons]
    refine yields_bind fun first hfirst => yields_bind fun rest hrest =>
      yields_ok (forall_mem_cons.mpr ⟨?_, ?_⟩)
    · exact hread input mem_cons_self first hfirst
    · exact ih (fun other hother =>
        hread other (mem_cons_of_mem _ hother)) rest hrest

theorem yields_length_mapM {Input Output : Type} {read : Input → Except Error Output}
    (inputs : List Input) :
    Yields (inputs.mapM read) fun outputs => outputs.length = inputs.length := by
  induction inputs with
  | nil => exact yields_ok rfl
  | cons input inputs ih =>
    rw [mapM_cons]
    exact yields_bind fun first _ => yields_bind fun rest hrest =>
      yields_ok (congrArg (· + 1) (ih rest hrest))

/-! ## What holds after every attempt -/

section Always

variable (keeps : State → Prop)

theorem state_andThen {attempt : Attempt Error State} {next : State → Attempt Error State}
    (hattempt : keeps attempt.state)
    (hnext : ∀ state, keeps state → keeps (next state).state) :
    keeps (attempt.andThen next).state := by
  unfold andThen
  split
  · exact hnext _ hattempt
  · exact hattempt

theorem state_withValue {state : State} {result : Except Error Value}
    {next : Value → Attempt Error State} (hstate : keeps state)
    (hnext : ∀ value, result = .ok value → keeps (next value).state) :
    keeps (withValue state result next).state := by
  cases hresult : result with
  | ok value => exact hnext value hresult
  | error error => exact hstate

/-- A loop keeps what its body keeps, whether or not it is ended by an
exception. -/
theorem state_forEach {body : Item → State → Attempt Error State}
    (hbody : ∀ item state, keeps state → keeps (body item state).state)
    (items : List Item) {state : State} (hstate : keeps state) :
    keeps (forEach body items state).state := by
  induction items generalizing state with
  | nil => exact hstate
  | cons item items ih =>
    exact state_andThen keeps (hbody item state hstate) fun _ hnext => ih hnext

end Always

/-! ## What holds after an attempt that succeeds -/

/-- The state has a property unless there was an exception. -/
def Ends (attempt : Attempt Error State) (post : State → Prop) : Prop :=
  attempt.thrown = none → post attempt.state

section Ends

variable {pre post : State → Prop} {attempt : Attempt Error State}

variable {state : State}

theorem ends_done (hpost : post state) : (done state : Attempt Error State).Ends post :=
  fun _ => hpost

theorem ends_fail (state : State) (error : Error) : (fail state error).Ends post := nofun

theorem Ends.andThen {next : State → Attempt Error State} (hattempt : attempt.Ends pre)
    (hnext : ∀ state, pre state → (next state).Ends post) :
    (attempt.andThen next).Ends post := by
  intro hthrown
  unfold Attempt.andThen at hthrown ⊢
  split at hthrown
  next hnone => exact hnext attempt.state (hattempt hnone) hthrown
  next error hsome => rw [hsome] at hthrown; cases hthrown

theorem ends_withValue {result : Except Error Value} {next : Value → Attempt Error State}
    (hnext : ∀ value, result = .ok value → (next value).Ends post) :
    (withValue state result next).Ends post := by
  cases hresult : result with
  | ok value => exact hnext value hresult
  | error error => exact ends_fail state error

variable {body : Item → State → Attempt Error State}

theorem ends_forEach_of_mem {items : List Item}
    (hbody : ∀ item ∈ items, ∀ state, post state → (body item state).Ends post)
    (hstate : post state) : (forEach body items state).Ends post := by
  induction items generalizing state with
  | nil => exact ends_done hstate
  | cons item items ih =>
    refine (hbody item mem_cons_self state hstate).andThen ?_
    exact fun _ hnext => ih (fun other hother =>
      hbody other (mem_cons_of_mem _ hother)) hnext

theorem ends_forEach (hbody : ∀ item state, post state → (body item state).Ends post)
    (items : List Item) (hstate : post state) :
    (forEach body items state).Ends post :=
  ends_forEach_of_mem (fun item _ => hbody item) hstate

end Ends

/-! ## Attempts in step -/

/-- Two attempts end with the same exception, and in related states whether or
not there is one. -/
structure Mirrors {Other : Type*} (related : State → Other → Prop)
    (left : Attempt Error State) (right : Attempt Error Other) : Prop where
  thrown : left.thrown = right.thrown
  state : related left.state right.state

section Mirrors

variable {Other : Type*} {related : State → Other → Prop}
  {left : Attempt Error State} {right : Attempt Error Other}

variable {state : State} {other : Other}

theorem mirrors_done (hrelated : related state other) :
    Mirrors related (done state : Attempt Error State) (done other) :=
  ⟨rfl, hrelated⟩

theorem Mirrors.andThen {next : State → Attempt Error State}
    {nextOther : Other → Attempt Error Other} (hmirrors : Mirrors related left right)
    (hnext : ∀ state other, related state other →
      Mirrors related (next state) (nextOther other)) :
    Mirrors related (left.andThen next) (right.andThen nextOther) := by
  unfold Attempt.andThen
  rw [← hmirrors.thrown]
  cases left.thrown with
  | none => exact hnext _ _ hmirrors.state
  | some error => exact hmirrors

theorem mirrors_withValue (hrelated : related state other) (result : Except Error Value)
    {next : Value → Attempt Error State} {nextOther : Value → Attempt Error Other}
    (hnext : ∀ value, Mirrors related (next value) (nextOther value)) :
    Mirrors related (withValue state result next) (withValue other result nextOther) := by
  cases result with
  | ok value => exact hnext value
  | error error => exact ⟨rfl, hrelated⟩

theorem mirrors_forEach {body : Item → State → Attempt Error State}
    {bodyOther : Item → Other → Attempt Error Other}
    (hbody : ∀ item state other, related state other →
      Mirrors related (body item state) (bodyOther item other))
    (items : List Item) (hrelated : related state other) :
    Mirrors related (forEach body items state) (forEach bodyOther items other) := by
  induction items generalizing state other with
  | nil => exact mirrors_done hrelated
  | cons item items ih =>
    exact (hbody item state other hrelated).andThen fun _ _ hnext => ih hnext

end Mirrors

end Attempt

end Restpose
