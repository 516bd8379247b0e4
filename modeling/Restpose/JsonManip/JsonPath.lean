import Restpose.Json.Access

/-!
# Paths into JSON documents

The components of paths, how paths are read and written, and the walker that
meets the values of a document one after the other.  The walker keeps a level
for each value it is in.
-/

namespace Restpose

open List

inductive JSONPathComponent where
  | key (key : Bytes)
  | index (index : Fin (2 ^ 32))
  deriving DecidableEq

namespace JSONPathComponent

/-- `operator<`: keys come before indices. -/
instance : Ord JSONPathComponent where
  compare
    | key left, key right => compare left right
    | key _, index _ => .lt
    | index _, key _ => .gt
    | index left, index right => compare left right

instance : Std.OrientedOrd JSONPathComponent where
  eq_swap := by
    rintro (left | left) (right | right)
    · change compare left right = (compare right left).swap
      exact Std.OrientedCmp.eq_swap
    · rfl
    · rfl
    · change compare left right = (compare right left).swap
      exact Std.OrientedCmp.eq_swap

instance : Std.TransOrd JSONPathComponent where
  isLE_trans := by
    rintro (left | left) (middle | middle) (right | right) hfirst hsecond
    · change (compare left middle).isLE at hfirst
      change (compare middle right).isLE at hsecond
      change (compare left right).isLE
      exact Std.TransCmp.isLE_trans hfirst hsecond
    · rfl
    · cases hsecond
    · rfl
    · cases hfirst
    · cases hfirst
    · cases hsecond
    · change (compare left middle).isLE at hfirst
      change (compare middle right).isLE at hsecond
      change (compare left right).isLE
      exact Std.TransCmp.isLE_trans hfirst hsecond

instance : Std.LawfulEqOrd JSONPathComponent where
  eq_of_compare := by
    rintro (left | left) (right | right) heq
    · change compare left right = .eq at heq
      rw [Std.LawfulEqCmp.eq_of_compare heq]
    · cases heq
    · cases heq
    · change compare left right = .eq at heq
      rw [Std.LawfulEqCmp.eq_of_compare heq]

/-- `set_index`. -/
def ofIndex (number : ℕ) : JSONPathComponent :=
  index (Fin.ofNat _ number)

def set (value : Json) : Except Thrown JSONPathComponent :=
  if value.isString then .ok (key value.asString)
  else if value.isNumeric && !value.lessThanInt 0 then value.asUInt.map ofIndex
  else .error (.invalid
    (ascii "Path components must only be set to strings or integers"))

def get : JSONPathComponent → Json
  | key text => .ofString text
  | index number => .uint number

/-- What `JSONPath::from_json` does with an item. -/
def readItem (item : Json) : Except Thrown JSONPathComponent :=
  if item.isIntegral then
    if item.lessThanInt 0 then
      .error (.invalid (ascii "Negative index found in JSON path"))
    else item.asUInt.map ofIndex
  else if item.isString then .ok (key item.asString)
  else .error (.invalid (ascii ("Item in JSON path found which is neither " ++
    "a string nor an integer")))

end JSONPathComponent

abbrev JSONPath := List JSONPathComponent

namespace JSONPath

def toJson (path : JSONPath) : Json :=
  .array (path.map JSONPathComponent.get)

def fromJson (value : Json) : Except Thrown JSONPath := do
  liftInvalid (value.checkArray "path")
  value.items.mapM JSONPathComponent.readItem

end JSONPath

/-! ## Documents -/

namespace Json

/-- The values in an array or an object with their components, in the order in
which an iterator meets them. -/
def children : Json → List (JSONPathComponent × Json)
  | array entries => entries.zipIdx.map fun entry =>
      (JSONPathComponent.ofIndex entry.2, entry.1)
  | object entries => entries.map fun entry => (.key (cString entry.1), entry.2)
  | _ => []

/-- The walker goes into arrays and objects. -/
def isContainer (value : Json) : Bool :=
  !value.isNull && (value.isObject || value.isArray)

theorem sum_sizeOf_items (entries : List Json) :
    (entries.map sizeOf).sum < sizeOf entries := by
  induction entries with
  | nil => simp
  | cons value entries ih =>
    simp only [map_cons, sum_cons, cons.sizeOf_spec]
    omega

theorem sum_sizeOf_members (entries : List (Bytes × Json)) :
    (entries.map fun entry => sizeOf entry.2).sum < sizeOf entries := by
  induction entries with
  | nil => simp
  | cons entry entries ih =>
    obtain ⟨name, value⟩ := entry
    simp only [map_cons, sum_cons, cons.sizeOf_spec, Prod.mk.sizeOf_spec]
    omega

/-- The values in a value are smaller than it, all together. -/
theorem sum_sizeOf_children (value : Json) :
    (value.children.map fun child => sizeOf child.2).sum < sizeOf value := by
  cases value with
  | array entries =>
    have hlt := sum_sizeOf_items entries
    have heq : ((array entries).children.map fun child => sizeOf child.2) =
        entries.map sizeOf := by
      rw [children, map_map]
      change entries.zipIdx.map (sizeOf ∘ Prod.fst) = _
      rw [← map_map, zipIdx_map_fst]
    rw [heq, array.sizeOf_spec]
    omega
  | object entries =>
    have hlt := sum_sizeOf_members entries
    rw [children, map_map, object.sizeOf_spec]
    change (entries.map fun entry => sizeOf entry.2).sum < _
    omega
  | _ => simp [children]

theorem sizeOf_lt_of_mem_children {value : Json} {child : JSONPathComponent × Json}
    (hchild : child ∈ value.children) :
    sizeOf child.2 < sizeOf value := by
  have hle : sizeOf child.2 ≤ (value.children.map fun child => sizeOf child.2).sum :=
    le_sum_of_mem (mem_map_of_mem hchild)
  have hlt := sum_sizeOf_children value
  omega

/-- The values in a document with their paths.  A value comes before those in
it. -/
def positions (value : Json) : List (JSONPath × Json) :=
  ([], value) :: value.children.attach.flatMap fun ⟨child, _⟩ =>
    (positions child.2).map fun position =>
      (child.1 :: position.1, position.2)
termination_by sizeOf value
decreasing_by exact sizeOf_lt_of_mem_children ‹_›

theorem positions_eq (value : Json) :
    value.positions = ([], value) :: value.children.flatMap fun child =>
      (positions child.2).map fun position =>
        (child.1 :: position.1, position.2) := by
  rw [positions, flatMap_subtype fun _ _ => rfl, unattach_attach]

theorem positions_of_leaf {value : Json} (hleaf : value.children = []) :
    value.positions = [([], value)] := by
  rw [positions_eq, hleaf, flatMap_nil]

end Json

/-! ## Walking -/

namespace JSONWalker

inductive EventType where
  | start
  | leaf
  | ends
  deriving DecidableEq

structure Event where
  type : EventType
  component : JSONPathComponent
  value : Json

/-- `JSONWalker::Level`; `rest` are the children from the position on. -/
structure Level where
  parentValue : Json
  parentComponent : JSONPathComponent
  rest : List (JSONPathComponent × Json)
  started : Bool

def Level.new (value : Json) (component : JSONPathComponent) : Level :=
  ⟨value, component, value.children, false⟩

end JSONWalker

open JSONWalker

/-- `JSONWalker`: the stack of levels, with the last one first. -/
abbrev JSONWalker := List Level

namespace JSONWalker

def new (value : Json) : Except Thrown JSONWalker :=
  if !value.isObject && !value.isArray then
    .error (.invalid (ascii ("JSON value passed to walker was " ++
      "neither an object nor an array")))
  else .ok [.new value (.index 0)]

/-- `JSONWalker::next`, with `Level::next`. -/
def next : JSONWalker → Option (Event × JSONWalker)
  | [] => none
  | level :: below =>
      if !level.started then
        some (⟨.start, level.parentComponent, level.parentValue⟩,
          { level with started := true } :: below)
      else
        match level.rest with
        | [] => some (⟨.ends, level.parentComponent, level.parentValue⟩, below)
        | (component, value) :: rest =>
            if value.isContainer then
              -- The new level starts with the event of the value itself.
              some (⟨.start, component, value⟩,
                { Level.new value component with started := true } ::
                  { level with rest } :: below)
            else some (⟨.leaf, component, value⟩, { level with rest } :: below)

/-- A bound on the events that are left in a level. -/
noncomputable def Level.weight (level : Level) : ℕ :=
  (if level.started then 1 else 2) +
    2 * (level.rest.map fun child => sizeOf child.2).sum

variable {walker : JSONWalker}

theorem weight_next {rest : JSONWalker} {event : Event}
    (hnext : walker.next = some (event, rest)) :
    (rest.map Level.weight).sum < (walker.map Level.weight).sum := by
  match walker, hnext with
  | ⟨parentValue, parentComponent, children, false⟩ :: below, hnext =>
    cases hnext
    simp [Level.weight]
  | ⟨parentValue, parentComponent, [], true⟩ :: below, hnext =>
    cases hnext
    simp [Level.weight]
  | ⟨parentValue, parentComponent, (component, value) :: children, true⟩ :: below,
    hnext =>
    have hlt := Json.sum_sizeOf_children value
    cases hcontainer : value.isContainer with
    | true =>
      simp only [next, hcontainer] at hnext
      cases hnext
      simp only [Level.weight, Level.new, map_cons, sum_cons]
      simp
      omega
    | false =>
      simp only [next, hcontainer] at hnext
      cases hnext
      simp only [Level.weight, map_cons, sum_cons]
      simp
      omega

/-- The events until `next` answers false. -/
def walk (walker : JSONWalker) : List Event :=
  match _hnext : walker.next with
  | none => []
  | some (event, rest) => event :: walk rest
termination_by (walker.map Level.weight).sum
decreasing_by exact weight_next _hnext

theorem walk_of_next {rest : JSONWalker} {event : Event}
    (hnext : walker.next = some (event, rest)) :
    walker.walk = event :: rest.walk := by
  rw [walk]
  split
  next hnone => rw [hnone] at hnext; cases hnext
  next hsome =>
    rw [hsome] at hnext
    cases hnext
    rfl

/-- The events for a value: what is in it comes between a start and an end. -/
def tour (component : JSONPathComponent) (value : Json) : List Event :=
  if value.isContainer then
    ⟨.start, component, value⟩ ::
      (value.children.attach.flatMap fun ⟨child, _⟩ => tour child.1 child.2) ++
        [⟨.ends, component, value⟩]
  else [⟨.leaf, component, value⟩]
termination_by sizeOf value
decreasing_by exact Json.sizeOf_lt_of_mem_children ‹_›

variable (component : JSONPathComponent) {value : Json}

theorem tour_of_container (hcontainer : value.isContainer) :
    tour component value = ⟨.start, component, value⟩ ::
      (value.children.flatMap fun child => tour child.1 child.2) ++
        [⟨.ends, component, value⟩] := by
  rw [tour, if_pos hcontainer, flatMap_subtype fun _ _ => rfl, unattach_attach]

theorem tour_of_leaf (hleaf : value.isContainer = false) :
    tour component value = [⟨.leaf, component, value⟩] := by
  rw [tour, if_neg (by simp [hleaf])]

/-- A level that has started gives the events for what is left in it, and
ends. -/
theorem walk_level (size : ℕ) :
    ∀ (rest : List (JSONPathComponent × Json)) (parentValue : Json)
      (parentComponent : JSONPathComponent) (below : JSONWalker),
      (rest.map fun child => sizeOf child.2).sum < size →
      walk (⟨parentValue, parentComponent, rest, true⟩ :: below) =
        (rest.flatMap fun child => tour child.1 child.2) ++
          ⟨.ends, parentComponent, parentValue⟩ :: walk below := by
  induction size with
  | zero => exact fun _ _ _ _ hsize => absurd hsize (Nat.not_lt_zero _)
  | succ size ih =>
    intro rest parentValue parentComponent below hsize
    induction rest with
    | nil => rw [walk_of_next rfl]; rfl
    | cons child rest ihrest =>
      obtain ⟨component, value⟩ := child
      simp only [map_cons, sum_cons] at hsize
      have hlt := Json.sum_sizeOf_children value
      have hrest := ihrest (by omega)
      rw [flatMap_cons]
      cases hcontainer : value.isContainer with
      | true =>
        have hnext : next (⟨parentValue, parentComponent,
            (component, value) :: rest, true⟩ :: below) =
            some (⟨.start, component, value⟩, ⟨value, component, value.children, true⟩ ::
                ⟨parentValue, parentComponent, rest, true⟩ :: below) := by
          simp [next, hcontainer, Level.new]
        rw [walk_of_next hnext, ih value.children value component _
          (by omega), hrest, tour_of_container component hcontainer]
        simp
      | false =>
        have hnext : next (⟨parentValue, parentComponent,
            (component, value) :: rest, true⟩ :: below) =
            some (⟨.leaf, component, value⟩,
              ⟨parentValue, parentComponent, rest, true⟩ :: below) := by
          simp [next, hcontainer]
        rw [walk_of_next hnext, hrest, tour_of_leaf component hcontainer]
        rfl

theorem walk_new (hnew : new value = .ok walker) :
    walker.walk = ⟨.start, .index 0, value⟩ ::
      (value.children.flatMap fun child => tour child.1 child.2) ++
        [⟨.ends, .index 0, value⟩] := by
  unfold new at hnew
  split at hnew
  next => cases hnew
  next =>
    cases hnew
    rw [walk_of_next rfl]
    have hlevel := walk_level _ value.children value (.index 0) [] (Nat.lt_succ_self _)
    have hend : walk [] = [] := by
      rw [walk]
      rfl
    rw [hend] at hlevel
    exact congrArg _ hlevel

/-! ## The whole traversal -/

/-- The answers of `next` when it is called until it returns false. -/
inductive Answers : JSONWalker → List Event → Prop where
  | finished {walker : JSONWalker} (hnext : walker.next = none) :
      Answers walker []
  | event {walker rest : JSONWalker} {event : Event} {events : List Event}
      (hnext : walker.next = some (event, rest))
      (hrest : Answers rest events) : Answers walker (event :: events)

theorem answers_walk (walker : JSONWalker) : Answers walker walker.walk := by
  fun_induction walk walker with
  | case1 walker hnext => exact .finished hnext
  | case2 walker event rest hnext ih => exact .event hnext ih

theorem answers_iff {events : List Event} :
    Answers walker events ↔ events = walker.walk := by
  constructor
  · intro hanswers
    induction hanswers with
    | finished hnext =>
      rw [walk]
      split
      next => rfl
      next hsome =>
      rw [hnext] at hsome
      cases hsome
    | event hnext _ ih => rw [walk_of_next hnext, ih]
  · intro heq
    rw [heq]
    exact answers_walk walker

/-- Every start is ended, with its own component and value, once everything
that was started in between is ended. -/
inductive Balanced : List Event → Prop where
  | nil : Balanced []
  | leaf (component : JSONPathComponent) (value : Json) {events : List Event}
      (hrest : Balanced events) :
      Balanced (⟨.leaf, component, value⟩ :: events)
  | nested (component : JSONPathComponent) (value : Json)
      {inner events : List Event} (hinner : Balanced inner)
      (hrest : Balanced events) :
      Balanced (⟨.start, component, value⟩ ::
        inner ++ ⟨.ends, component, value⟩ :: events)

theorem Balanced.append {first second : List Event} (hfirst : Balanced first)
    (hsecond : Balanced second) : Balanced (first ++ second) := by
  induction hfirst with
  | nil => exact hsecond
  | leaf component value _ ih => exact .leaf component value ih
  | nested component value hinner _ _ ih =>
    have hnested := Balanced.nested component value hinner ih
    simpa using hnested

theorem balanced_flatMap {children : List (JSONPathComponent × Json)}
    (hchildren : ∀ child ∈ children, Balanced (tour child.1 child.2)) :
    Balanced (children.flatMap fun child => tour child.1 child.2) := by
  induction children with
  | nil => exact .nil
  | cons child children ih =>
    rw [flatMap_cons]
    apply (hchildren child mem_cons_self).append
    apply ih
    intro other hother
    exact hchildren other (mem_cons_of_mem _ hother)

theorem balanced_tour (component : JSONPathComponent) (value : Json) :
    Balanced (tour component value) := by
  cases hcontainer : value.isContainer with
  | true =>
    rw [tour_of_container component hcontainer]
    apply Balanced.nested component value _ .nil
    apply balanced_flatMap
    intro child hchild
    exact balanced_tour child.1 child.2
  | false =>
    rw [tour_of_leaf component hcontainer]
    exact .leaf component value .nil
termination_by sizeOf value
decreasing_by exact Json.sizeOf_lt_of_mem_children hchild

/-- For an object or an array, the walker returns the events of the recursive
traversal and then false. -/
theorem walker_is_traversal (value : Json)
    (hcontainer : value.isContainer = true) :
    ∃ walker, new value = .ok walker ∧
      (∀ events, Answers walker events ↔ events = tour (.index 0) value) ∧
      Balanced (tour (.index 0) value) := by
  have hnew : new value = .ok [.new value (.index 0)] := by
    unfold Json.isContainer at hcontainer
    rw [Bool.and_eq_true, Bool.or_eq_true] at hcontainer
    rcases hcontainer with ⟨-, hobject | harray⟩
    · simp [new, hobject]
    · simp [new, harray]
  refine ⟨_, hnew, ?_, balanced_tour _ value⟩
  intro events
  rw [answers_iff, walk_new hnew, tour_of_container _ hcontainer]

theorem walker_is_traversal_tags :
    let value : Json := .object [(ascii "tags", .array [.null, .int 1])]
    value.isContainer = true ∧
      ∃ walker, new value = .ok walker ∧
        (∀ events, Answers walker events ↔ events = tour (.index 0) value) ∧
        Balanced (tour (.index 0) value) :=
  ⟨rfl, walker_is_traversal _ rfl⟩

end JSONWalker

end Restpose
