import Mathlib

/-!
# Imperative loops as total functions

Two loop forms of the source language are given meaning here: the `while` loop,
and the iterator loop over an ordered set that is read again from the program
state after every pass.  Both are total functions with a bound on the number of
passes.  Each comes with the rule its users need: a decreasing measure shows
that the bound of a `while` loop is never met, and a set that the body leaves
alone shows that an iterator loop visits every element exactly once.
-/

namespace Restpose.Loops

open Finset Nat

section While

variable {State : Type*}

/-- `while (guard state) state = body state`, for at most `fuel` passes. -/
def whileLoop (guard : State → Bool) (body : State → State) :
    ℕ → State → State
  | 0, state => state
  | fuel + 1, state =>
      if guard state then whileLoop guard body fuel (body state) else state

variable {guard : State → Bool} {body : State → State}
  (invariant : State → Prop) (measure : State → ℕ) {fuel : ℕ} {state : State}

/-- A measure that every pass decreases bounds the number of passes, so the
loop ends with its guard false and with its invariant intact. -/
theorem whileLoop_of_measure (hstep : ∀ state, invariant state → guard state = true →
      invariant (body state) ∧ measure (body state) < measure state)
    (hinvariant : invariant state) (hmeasure : measure state ≤ fuel) :
    invariant (whileLoop guard body fuel state) ∧
      guard (whileLoop guard body fuel state) = false := by
  induction fuel generalizing state with
  | zero =>
    refine ⟨hinvariant, ?_⟩
    by_contra hguard
    have hdecrease := (hstep state hinvariant (by simpa [whileLoop] using hguard)).2
    omega
  | succ fuel ih =>
    rw [whileLoop]
    by_cases hguard : guard state = true
    · rw [if_pos hguard]
      obtain ⟨hnext, hdecrease⟩ := hstep state hinvariant hguard
      exact ih hnext (by omega)
    · rw [if_neg hguard]
      exact ⟨hinvariant, by simpa using hguard⟩

/-- `while (guard state) state = body state`, without a result if the loop has
not ended after `fuel` passes. -/
def tryWhile (guard : State → Bool) (body : State → State) :
    ℕ → State → Option State
  | 0, state => if guard state then none else some state
  | fuel + 1, state =>
      if guard state then tryWhile guard body fuel (body state) else some state

theorem tryWhile_of_not_guard (body : State → State) (hguard : guard state = false)
    (fuel : ℕ) : tryWhile guard body fuel state = some state := by
  cases fuel <;> simp [tryWhile, hguard]

theorem tryWhile_eq_none
    (hstep : ∀ state, invariant state → guard state = true ∧ invariant (body state))
    (fuel : ℕ) (hinvariant : invariant state) :
    tryWhile guard body fuel state = none := by
  induction fuel generalizing state with
  | zero => rw [tryWhile, if_pos (hstep state hinvariant).1]
  | succ fuel ih =>
    rw [tryWhile, if_pos (hstep state hinvariant).1]
    exact ih (hstep state hinvariant).2

/-- The number of passes that `whileLoop` makes. -/
def whilePasses (guard : State → Bool) (body : State → State) :
    ℕ → State → ℕ
  | 0, _ => 0
  | fuel + 1, state =>
      if guard state then whilePasses guard body fuel (body state) + 1 else 0

/-- A measure that every pass decreases bounds the number of passes. -/
theorem whilePasses_le_of_measure (hstep : ∀ state, invariant state → guard state = true →
      invariant (body state) ∧ measure (body state) + 1 ≤ measure state)
    (hinvariant : invariant state) :
    whilePasses guard body fuel state ≤ measure state := by
  induction fuel generalizing state with
  | zero => exact zero_le _
  | succ fuel ih =>
    rw [whilePasses]
    by_cases hguard : guard state = true
    · rw [if_pos hguard]
      obtain ⟨hnext, hdecrease⟩ := hstep state hinvariant hguard
      exact (succ_le_succ (ih hnext)).trans hdecrease
    · rw [if_neg hguard]
      exact zero_le _

/-- A measure that every pass decreases by one, down to zero, is the number of
passes. -/
theorem whilePasses_eq_of_measure (hstep : ∀ state, invariant state → guard state = true →
      invariant (body state) ∧ measure (body state) + 1 = measure state)
    (hend : ∀ state, guard state = false → measure state = 0)
    (hinvariant : invariant state) (hfuel : measure state ≤ fuel) :
    whilePasses guard body fuel state = measure state := by
  induction fuel generalizing state with
  | zero => exact (le_zero.mp hfuel).symm
  | succ fuel ih =>
    rw [whilePasses]
    by_cases hguard : guard state = true
    · rw [if_pos hguard]
      obtain ⟨hnext, hdecrease⟩ := hstep state hinvariant hguard
      rw [ih hnext (by omega), hdecrease]
    · rw [if_neg hguard, hend state (by simpa using hguard)]

end While

section SetIteration

variable {Key State : Type*} [LinearOrder Key]

/-- Where the iterator of an ordered set stands after `++`: at the least
element above `key`, or at the end. -/
def nextAfter (elements : Finset Key) (key : Key) : Option Key :=
  (elements.filter fun element => key < element).min

/-- The passes of an iterator loop from the position `position` on.  The set
is read from the state again each time the iterator moves. -/
def iterateFrom (read : State → Finset Key) (body : Key → State → State) :
    ℕ → Option Key → State → State
  | 0, _, state => state
  | _ + 1, none, state => state
  | fuel + 1, some key, state =>
      iterateFrom read body fuel (nextAfter (read (body key state)) key)
        (body key state)

/-- `for (i = set.begin(); i != set.end(); ++i) body(*i)` over the set that
`read` finds in the current state, for at most `fuel` passes. -/
def forEach (read : State → Finset Key) (body : Key → State → State)
    (fuel : ℕ) (state : State) : State :=
  iterateFrom read body fuel (read state).min state

variable {read : State → Finset Key} {body : Key → State → State} {fuel : ℕ}
  {state : State}

private theorem iterateFrom_keeps (keeps : State → Prop)
    (hbody : ∀ key state, keeps state → keeps (body key state)) {position : Option Key}
    (hkeeps : keeps state) :
    keeps (iterateFrom read body fuel position state) := by
  induction fuel generalizing position state with
  | zero => exact hkeeps
  | succ fuel ih =>
    cases position with
    | none => exact hkeeps
    | some key => exact ih (hbody key state hkeeps)

theorem forEach_keeps (keeps : State → Prop)
    (hbody : ∀ key state, keeps state → keeps (body key state)) (hkeeps : keeps state) :
    keeps (forEach read body fuel state) :=
  iterateFrom_keeps keeps hbody hkeeps

variable [DecidableEq Key]

variable {elements : Finset Key} (invariant : Finset Key → State → Prop)

private theorem iterateFrom_invariant
    (hread : ∀ visited state, invariant visited state → read state = elements)
    (hstep : ∀ visited state key, invariant visited state → key ∈ elements →
      key ∉ visited → invariant (insert key visited) (body key state))
    {visited : Finset Key} (hsubset : visited ⊆ elements)
    (hbelow : ∀ left ∈ visited, ∀ right ∈ elements \ visited, left < right)
    (hfuel : (elements \ visited).card ≤ fuel)
    (hinvariant : invariant visited state) :
    invariant elements (iterateFrom read body fuel (elements \ visited).min state) := by
  induction fuel generalizing visited state with
  | zero =>
    have hempty : elements \ visited = ∅ := card_eq_zero.mp (le_zero.mp hfuel)
    have hvisited : visited = elements :=
      hsubset.antisymm (sdiff_eq_empty_iff_subset.mp hempty)
    rw [hvisited] at hinvariant
    exact hinvariant
  | succ fuel ih =>
    rcases (elements \ visited).eq_empty_or_nonempty with hempty | hrest
    · have hvisited : visited = elements :=
        hsubset.antisymm (sdiff_eq_empty_iff_subset.mp hempty)
      rw [hempty, min_empty]
      rw [hvisited] at hinvariant
      exact hinvariant
    · obtain ⟨key, hkey⟩ := min_of_nonempty hrest
      have hmem : key ∈ elements \ visited := mem_of_min hkey
      obtain ⟨helement, hfresh⟩ := mem_sdiff.mp hmem
      have hnext := hstep visited state key hinvariant helement hfresh
      have hremaining : elements \ insert key visited =
          elements.filter fun element => key < element := by
        ext element
        simp only [mem_sdiff, mem_insert, not_or, mem_filter]
        constructor
        · rintro ⟨hin, hne, hout⟩
          have hle : key ≤ element := min_le_of_eq (mem_sdiff.mpr ⟨hin, hout⟩) hkey
          exact ⟨hin, lt_of_le_of_ne hle (Ne.symm hne)⟩
        · rintro ⟨hin, hlt⟩
          refine ⟨hin, hlt.ne', fun hvisited => ?_⟩
          exact lt_asymm hlt (hbelow element hvisited key hmem)
      rw [hkey]
      change invariant elements (iterateFrom read body fuel
        (nextAfter (read (body key state)) key) (body key state))
      rw [hread _ _ hnext, nextAfter, ← hremaining]
      refine ih ?_ ?_ ?_ hnext
      · exact insert_subset helement hsubset
      · intro left hleft right hright
        rw [hremaining, mem_filter] at hright
        rcases mem_insert.mp hleft with rfl | hleft
        · exact hright.2
        · exact (hbelow left hleft key hmem).trans hright.2
      · have hcard : (elements \ insert key visited).card <
            (elements \ visited).card := by
          apply card_lt_card
          refine ⟨sdiff_subset_sdiff (le_refl _) (subset_insert _ _), fun hsub => ?_⟩
          have := hsub hmem
          simp at this
        omega

/-- The rule for iterator loops: an invariant indexed by the elements visited
so far, under which the set that is being iterated does not change, holds of
the whole set when the loop ends. -/
theorem forEach_invariant
    (hread : ∀ visited state, invariant visited state → read state = elements)
    (hstep : ∀ visited state key, invariant visited state → key ∈ elements →
      key ∉ visited → invariant (insert key visited) (body key state))
    (hfuel : elements.card ≤ fuel) (hinvariant : invariant ∅ state) :
    invariant elements (forEach read body fuel state) := by
  rw [forEach, hread _ _ hinvariant]
  have hrun := iterateFrom_invariant invariant hread hstep
    (empty_subset elements) (by simp) (by simpa using hfuel) hinvariant
  simpa using hrun

omit [DecidableEq Key] in
/-- A `for` loop over a set that is not part of the state. -/
def forSet (elements : Finset Key) (body : Key → State → State)
    (state : State) : State :=
  forEach (fun _ => elements) body elements.card state

theorem forSet_invariant
    (hstep : ∀ visited state key, invariant visited state → key ∈ elements →
      key ∉ visited → invariant (insert key visited) (body key state))
    (hinvariant : invariant ∅ state) : invariant elements (forSet elements body state) :=
  forEach_invariant invariant (fun _ _ _ => rfl) hstep (le_refl _) hinvariant

end SetIteration

theorem foldl_keeps {State Item Value : Type*} (read : State → Value)
    {body : State → Item → State}
    (hbody : ∀ state item, read (body state item) = read state) (items : List Item)
    (state : State) : read (items.foldl body state) = read state := by
  induction items generalizing state with
  | nil => rfl
  | cons item items ih => rw [List.foldl_cons, ih, hbody]

end Restpose.Loops
