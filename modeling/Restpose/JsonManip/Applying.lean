import Restpose.Core.Results
import Restpose.JsonManip.Mapping

/-!
# What a mapping gives

The walk over a document hands values to fields: those at the paths of the map
when it enters them, and those at the top that nothing was mapped from when it
leaves them.  The output collects the items of these values, but a value without
items throws away what its field has collected before.
-/

namespace Restpose

open List Json

/-! ## What the fields are given -/

namespace Mapping

/-- The targets at a path below a node, if there is one. -/
def targetsAt (node : Option MappingActions) (path : JSONPath) :
    List MappingTarget :=
  node.elim [] (KeyTree.valuesAt path)

/-- The fields that a value and the values in it are mapped to, in the order of
the walk. -/
def mapped (node : Option MappingActions) (component : JSONPathComponent)
    (value : Json) : List (Bytes × Json) :=
  value.positions.flatMap fun position =>
    (targetsAt node (component :: position.1)).map fun target =>
      (cString target.field, position.2)

/-- The field that keeps a value at the top. -/
def preserved (mapping : Mapping) (component : JSONPathComponent)
    (value : Json) : List (Bytes × Json) :=
  match mapping.defaultAction, component with
  | .preserveTop, .key key => [(cString key, value)]
  | _, _ => []

/-- The fields that a value at the top is given to. -/
def contributed (mapping : Mapping) (component : JSONPathComponent)
    (value : Json) : List (Bytes × Json) :=
  let found := mapped (some mapping.mappings) component value
  found ++ if found = [] then mapping.preserved component value else []

/-- The fields with the values that they are given, in the order of the
walk. -/
def contributions (mapping : Mapping) (input : Json) :
    List (Bytes × Json) :=
  input.children.flatMap fun child => mapping.contributed child.1 child.2

/-- The fields are given some values. -/
def appendFields (fields : List (Bytes × Json)) (output : Json) : Json :=
  fields.foldl (fun output field => appendField output field.1 field.2) output

theorem appendFields_append (first second : List (Bytes × Json)) (output : Json) :
    appendFields (first ++ second) output =
      appendFields second (appendFields first output) :=
  foldl_append

theorem appendField_cString (output : Json) (key : Bytes) (value : Json) :
    appendField output (cString key) value = appendField output key value := by
  simp only [appendField, cString_cString]

/-- The node for a component below another one. -/
def below (node : Option MappingActions) (component : JSONPathComponent) :
    Option MappingActions :=
  node.bind fun actions => actions.child? component

variable (node : Option MappingActions) (stack : List (Option MappingActions))
  (component : JSONPathComponent)

theorem subaction_cons : subaction (node :: stack) component = below node component := by
  cases node <;> rfl

theorem targetsAt_cons (path : JSONPath) : targetsAt node (component :: path) =
      targetsAt (below node component) path := by
  cases node <;> rfl

/-- A value is mapped before those in it. -/
theorem mapped_eq (value : Json) : mapped node component value =
      ((targetsAt (below node component) []).map fun target =>
        (cString target.field, value)) ++
      value.children.flatMap fun child =>
        mapped (below node component) child.1 child.2 := by
  rw [mapped, positions_eq, flatMap_cons, targetsAt_cons, flatMap_assoc]
  congr 1
  refine flatMap_congr fun child _ => ?_
  rw [mapped, flatMap_map]
  refine flatMap_congr fun position _ => ?_
  rw [targetsAt_cons]

/-! ## Mappings without categorisers -/

/-- No target of a node or below it has a categoriser. -/
def Plain (node : Option MappingActions) : Prop :=
  ∀ path, ∀ target ∈ targetsAt node path, target.categoriser = []

theorem Plain.below {node : Option MappingActions} (hplain : Plain node)
    (component : JSONPathComponent) : Plain (below node component) := by
  intro path
  rw [← targetsAt_cons]
  exact hplain (component :: path)

variable (categorise : Bytes → Bytes → Except Thrown Json)

theorem foldlM_handleTarget {targets : List MappingTarget}
    (hplain : ∀ target ∈ targets, target.categoriser = []) (value output : Json) :
    targets.foldlM (handleTarget categorise value) output =
      .ok (appendFields (targets.map fun target =>
        (cString target.field, value)) output) := by
  induction targets generalizing output with
  | nil => rfl
  | cons target targets ih =>
    have hfirst : handleTarget categorise value output target =
        .ok (appendField output (cString target.field) value) := by
      rw [handleTarget, if_pos (hplain target mem_cons_self), appendField_cString]
    rw [foldlM_cons_of_ok targets hfirst]
    exact ih (fun other hother =>
      hplain other (mem_cons_of_mem _ hother)) _

/-- `handle` gives the value to the targets of its node. -/
theorem handle_eq {node : Option MappingActions} (hplain : Plain node)
    (stack : List (Option MappingActions)) (event : JSONWalker.Event) (output : Json) :
    let found := (targetsAt (below node event.component) []).map fun target =>
      (cString target.field, event.value)
    handle categorise (node :: stack) event output =
      .ok (!found.isEmpty, appendFields found output) := by
  have hbelow := hplain.below event.component []
  unfold handle
  rw [subaction_cons]
  cases hnode : below node event.component with
  | none => rfl
  | some actions =>
    have hvalues : targetsAt (some actions) [] = actions.values := rfl
    rw [hnode, hvalues] at hbelow
    rw [hvalues]
    change (do
      let output ← actions.values.foldlM (handleTarget categorise event.value) output
      return (!actions.values.isEmpty, output)) = _
    rw [foldlM_handleTarget categorise hbelow]
    simp only [isEmpty_map]
    rfl

/-- Only values at the top are kept. -/
theorem handleDefault_cons (mapping : Mapping) (node : Option MappingActions)
    (stack : List (Option MappingActions)) (event : JSONWalker.Event) (output : Json) :
    mapping.handleDefault (node :: stack) event output =
      if stack = [] then
        appendFields (mapping.preserved event.component event.value) output
      else output := by
  obtain ⟨type, component, value⟩ := event
  cases stack with
  | cons other stack =>
    simp only [handleDefault]
    split <;> simp_all
  | nil =>
    rw [if_pos rfl]
    unfold handleDefault preserved
    cases mapping.defaultAction with
    | discard => rfl
    | preserveTop =>
      cases component with
      | index number => rfl
      | key key => exact (appendField_cString output key value).symm

theorem handleDefault_nil (mapping : Mapping) (event : JSONWalker.Event) (output : Json) :
    mapping.handleDefault [] event output = output := by
  unfold handleDefault
  cases mapping.defaultAction <;> rfl

/-- What the walk over a value leaves, below some nodes. -/
def afterTour (mapping : Mapping) (node : Option MappingActions)
    (stack : List (Option MappingActions)) (handledTop : Bool) (output : Json)
    (component : JSONPathComponent) (value : Json) : Application :=
  let found := mapped node component value
  let handled := !found.isEmpty || (!stack.isEmpty && handledTop)
  let kept := if handled || !stack.isEmpty then []
    else mapping.preserved component value
  ⟨node :: stack, handled, appendFields (found ++ kept) output⟩

variable (mapping : Mapping)

theorem handled_append {Item : Type} (first second : List Item) (handledTop : Bool) :
    (!second.isEmpty || (!first.isEmpty || handledTop)) =
      (!(first ++ second).isEmpty || handledTop) := by
  cases first <;> simp

theorem foldlM_tours {inner node : Option MappingActions}
    {stack : List (Option MappingActions)} {children : List (JSONPathComponent × Json)}
    (hchildren : ∀ child ∈ children, ∀ handledTop output,
      (JSONWalker.tour child.1 child.2).foldlM (mapping.handleEvent categorise)
          ⟨inner :: node :: stack, handledTop, output⟩ =
        .ok (mapping.afterTour inner (node :: stack) handledTop output child.1 child.2))
    (handledTop : Bool) (output : Json) :
    let found := children.flatMap fun child => mapped inner child.1 child.2
    (children.flatMap fun child => JSONWalker.tour child.1 child.2).foldlM
        (mapping.handleEvent categorise)
        ⟨inner :: node :: stack, handledTop, output⟩ =
      .ok ⟨inner :: node :: stack, !found.isEmpty || handledTop,
        appendFields found output⟩ := by
  induction children generalizing handledTop output with
  | nil => rfl
  | cons child children ih =>
    have hfirst := hchildren child mem_cons_self handledTop output
    have hrest := ih fun other hother =>
      hchildren other (mem_cons_of_mem _ hother)
    intro found
    rw [flatMap_cons, foldlM_append_of_ok _ hfirst]
    simp only [afterTour, isEmpty_cons, Bool.not_false, Bool.or_true,
      if_true, append_nil, Bool.true_and]
    refine (hrest _ _).trans ?_
    simp only [found, flatMap_cons, appendFields_append, handled_append]

theorem handleEvent_start {node : Option MappingActions}
    (stack : List (Option MappingActions)) (hplain : Plain node) (handledTop : Bool)
    (output : Json) (component : JSONPathComponent) (value : Json) :
    let found := (targetsAt (below node component) []).map fun target =>
      (cString target.field, value)
    mapping.handleEvent categorise ⟨node :: stack, handledTop, output⟩
      ⟨.start, component, value⟩ =
      .ok ⟨below node component :: node :: stack,
        !found.isEmpty || (!stack.isEmpty && handledTop),
        appendFields found output⟩ := by
  have hhandle := handle_eq categorise hplain stack ⟨.start, component, value⟩ output
  have hlength : ((node :: stack).length != 1) = !stack.isEmpty := by
    cases stack <;> simp
  simp only [handleEvent, hhandle, hlength, subaction_cons]
  rfl

theorem handleEvent_leaf {node : Option MappingActions}
    (stack : List (Option MappingActions)) (hplain : Plain node) (handledTop : Bool)
    (output : Json) (component : JSONPathComponent) (value : Json) :
    let found := (targetsAt (below node component) []).map fun target =>
      (cString target.field, value)
    let handled := !found.isEmpty || (!stack.isEmpty && handledTop)
    mapping.handleEvent categorise ⟨node :: stack, handledTop, output⟩
      ⟨.leaf, component, value⟩ =
      .ok ⟨node :: stack, handled,
        if handled then appendFields found output
        else mapping.handleDefault (node :: stack) ⟨.leaf, component, value⟩
          (appendFields found output)⟩ := by
  have hhandle := handle_eq categorise hplain stack ⟨.leaf, component, value⟩ output
  have hlength : ((node :: stack).length != 1) = !stack.isEmpty := by
    cases stack <;> simp
  simp only [handleEvent, hhandle, hlength]
  rfl

theorem handleEvent_ends (inner node : Option MappingActions)
    (stack : List (Option MappingActions)) (handledTop : Bool) (output : Json)
    (component : JSONPathComponent) (value : Json) :
    mapping.handleEvent categorise ⟨inner :: node :: stack, handledTop, output⟩
        ⟨.ends, component, value⟩ =
      .ok ⟨node :: stack, handledTop,
        if handledTop then output
        else mapping.handleDefault (node :: stack) ⟨.ends, component, value⟩ output⟩ :=
  rfl

theorem appendFields_kept (type : JSONWalker.EventType) (handled : Bool)
    (found : List (Bytes × Json)) (output : Json) (component : JSONPathComponent)
    (value : Json) :
    (if handled then appendFields found output
      else mapping.handleDefault (node :: stack) ⟨type, component, value⟩
        (appendFields found output)) =
      appendFields (found ++ if handled || !stack.isEmpty then []
        else mapping.preserved component value) output := by
  rw [handleDefault_cons, appendFields_append]
  cases handled with
  | true => rfl
  | false => cases stack <;> rfl

/-- The walk over a value gives it and what is in it to the fields. -/
theorem foldlM_tour {node : Option MappingActions} (stack : List (Option MappingActions))
    (hplain : Plain node) (handledTop : Bool) (output : Json)
    (component : JSONPathComponent) (value : Json) :
    (JSONWalker.tour component value).foldlM (mapping.handleEvent categorise)
        ⟨node :: stack, handledTop, output⟩ =
      .ok (mapping.afterTour node stack handledTop output component value) := by
  unfold afterTour
  rw [mapped_eq]
  dsimp only
  cases hcontainer : value.isContainer with
  | false =>
    have hchildren : value.children = [] := by
      cases value <;> simp_all [isContainer, children, isNull, isArray, isObject]
    rw [JSONWalker.tour_of_leaf component hcontainer,
      foldlM_cons_of_ok [] (handleEvent_leaf categorise mapping stack hplain
        handledTop output component value),
      hchildren, flatMap_nil, append_nil, appendFields_kept]
    rfl
  | true =>
    have hinner := foldlM_tours categorise mapping
      fun child (hchild : child ∈ value.children) handledTop output =>
        foldlM_tour (node :: stack) (hplain.below component) handledTop output
          child.1 child.2
    rw [JSONWalker.tour_of_container component hcontainer, cons_append,
      foldlM_cons_of_ok _ (handleEvent_start categorise mapping stack hplain
        handledTop output component value),
      foldlM_append_of_ok _ (hinner _ _),
      foldlM_cons_of_ok [] (handleEvent_ends categorise mapping _ node stack
        _ _ component value),
      ← appendFields_append, appendFields_kept, handled_append]
    rfl
termination_by sizeOf value
decreasing_by exact Json.sizeOf_lt_of_mem_children hchild

/-! ## The whole walk -/

theorem afterTour_top (hnode : node = some mapping.mappings) (handledTop : Bool)
    (output : Json) (component : JSONPathComponent) (value : Json) :
    (mapping.afterTour node [] handledTop output component value).stack = [node] ∧
      (mapping.afterTour node [] handledTop output component value).output =
        appendFields (mapping.contributed component value) output := by
  subst hnode
  refine ⟨rfl, ?_⟩
  unfold afterTour contributed
  cases mapped (some mapping.mappings) component value <;> rfl

theorem foldlM_top (hplain : Plain (some mapping.mappings))
    (children : List (JSONPathComponent × Json)) (handledTop : Bool) (output : Json) :
    ∃ handled, (children.flatMap fun child => JSONWalker.tour child.1 child.2).foldlM
          (mapping.handleEvent categorise)
          ⟨[some mapping.mappings], handledTop, output⟩ =
        .ok ⟨[some mapping.mappings], handled, appendFields (children.flatMap fun child =>
            mapping.contributed child.1 child.2) output⟩ := by
  induction children generalizing handledTop output with
  | nil => exact ⟨handledTop, rfl⟩
  | cons child children ih =>
    have hfirst := foldlM_tour categorise mapping [] hplain handledTop output
      child.1 child.2
    obtain ⟨hstack, houtput⟩ :=
      mapping.afterTour_top _ rfl handledTop output child.1 child.2
    obtain ⟨handled, hrest⟩ := ih
      (mapping.afterTour (some mapping.mappings) [] handledTop output child.1
        child.2).handledTop
      (mapping.afterTour (some mapping.mappings) [] handledTop output child.1
        child.2).output
    refine ⟨handled, ?_⟩
    rw [flatMap_cons, foldlM_append_of_ok _ hfirst, flatMap_cons, appendFields_append,
      ← houtput]
    exact hrest

/-- The output is made by giving the values to the fields. -/
theorem apply_eq (hplain : Plain (some mapping.mappings)) (input : Json)
    (hobject : input.isObject) (happlies : mapping.applies input = .ok true) :
    mapping.apply categorise input =
      .ok (some (appendFields (mapping.contributions input) (.object []))) := by
  have hcheck : liftInvalid (input.checkObject "input to mapping") = .ok () := by
    rw [checkObject, if_pos hobject]
    rfl
  have hnew : JSONWalker.new input = .ok [.new input (.index 0)] := by
    simp [JSONWalker.new, hobject]
  obtain ⟨handled, hwalk⟩ :=
    mapping.foldlM_top categorise hplain input.children false (.object [])
  have hstart : mapping.handleEvent categorise ⟨[], false, .object []⟩
    ⟨.start, .index 0, input⟩ =
      .ok ⟨[some mapping.mappings], false, .object []⟩ := rfl
  have hends : mapping.handleEvent categorise ⟨[some mapping.mappings], handled,
        appendFields (mapping.contributions input) (.object [])⟩
      ⟨.ends, .index 0, input⟩ =
      .ok ⟨[], handled, appendFields (mapping.contributions input) (.object [])⟩ := by
    simp only [handleEvent, tail_cons, handleDefault_nil, ite_self]
  have hloop : (JSONWalker.walk [.new input (.index 0)]).foldlM
      (mapping.handleEvent categorise) ⟨[], false, .object []⟩ =
      .ok ⟨[], handled, appendFields (mapping.contributions input) (.object [])⟩ := by
    rw [JSONWalker.walk_new hnew, cons_append, foldlM_cons_of_ok _ hstart,
      foldlM_append_of_ok _ hwalk]
    exact foldlM_cons_of_ok [] hends
  unfold apply
  rw [hcheck, happlies, hnew]
  change ((JSONWalker.walk [.new input (.index 0)]).foldlM
    (mapping.handleEvent categorise) ⟨[], false, .object []⟩ >>= fun state =>
      pure (some state.output)) = _
  rw [hloop]
  rfl

/-! ## What the fields collect -/

/-- The items of a value that is given to a field. -/
def contents : Json → List Json
  | .null => []
  | .array items => items
  | value => [value]

/-- The items of a field after it is given a value. -/
def collect (old : List Json) (value : Json) : List Json :=
  if contents value = [] then [] else old ++ contents value

theorem foldl_append (items old : List Json) :
    items.foldl append (.array old) = .array (old ++ items) := by
  induction items generalizing old with
  | nil => simp
  | cons item items ih => rw [List.foldl_cons, Json.append, ih]; simp [Json.items]

theorem lookup_appendField {output : Json} (key : Bytes) (value : Json)
    (harray : (output.member (cString key)).isArray) (other : Bytes) :
    (appendField output key value).members.lookup other =
      if other = cString key then
        some (.array (collect (output.member (cString key)).items value))
      else output.members.lookup other := by
  have hkept : (let old := output.member (cString key)
      if value.isArray then
        if value.size = 0 then .array [] else value.items.foldl .append old
      else old.append value) =
      array (collect (output.member (cString key)).items value) := by
    generalize output.member (cString key) = old at harray
    cases value with
    | array items =>
      cases items with
      | nil => rfl
      | cons item items =>
        change items.foldl append (.array (old.items ++ [item])) =
          .array (old.items ++ (item :: items))
        rw [foldl_append]
        simp
    | _ => rfl
  simp only [appendField, harray, setMember, members, lookup_insertMember]
  rw [← hkept]
  rfl

/-- All members are arrays. -/
def Arrays (output : Json) : Prop :=
  ∀ field, (output.member field).isArray

theorem Arrays.appendField {output : Json} (harrays : Arrays output) (key : Bytes)
    (value : Json) :
    Arrays (appendField output key value) := by
  intro field
  rw [member, lookup_appendField key value (harrays _)]
  split_ifs
  · rfl
  · exact harrays field

/-- The values that a field is given. -/
def given (fields : List (Bytes × Json)) (field : Bytes) : List Json :=
  (fields.filter fun entry => entry.1 = field).map Prod.snd

theorem lookup_appendFields {fields : List (Bytes × Json)}
    (hnames : ∀ entry ∈ fields, cString entry.1 = entry.1) {output : Json}
    (harrays : Arrays output) (field : Bytes) :
    (appendFields fields output).members.lookup field =
      if given fields field = [] then output.members.lookup field
      else some (.array ((given fields field).foldl collect
        (output.member field).items)) := by
  induction fields generalizing output with
  | nil => rfl
  | cons entry fields ih =>
    obtain ⟨name, value⟩ := entry
    have hname : cString name = name := hnames _ mem_cons_self
    have hlookup := lookup_appendField name value (harrays _) field
    rw [hname] at hlookup
    have hrest := ih (fun other hother => hnames other (mem_cons_of_mem _ hother))
      (harrays.appendField name value)
    change (appendFields fields (Mapping.appendField output name value) ).members.lookup
      field = _
    rw [hrest, member, hlookup]
    by_cases heq : field = name
    · subst heq
      have hgiven : given ((field, value) :: fields) field =
          value :: given fields field := by simp [given]
      rw [hgiven, if_pos rfl, if_neg (cons_ne_nil _ _), foldl_cons]
      split_ifs with hempty
      · rw [hempty]
        rfl
      · rfl
    · have hgiven : given ((name, value) :: fields) field =
          given fields field := by simp [given, Ne.symm heq]
      rw [hgiven, if_neg heq]
      rfl

/-- A field that is given no value has none, and any other one has the items of
all values that it is given. -/
def Concatenates (fields members : List (Bytes × Json)) : Prop :=
  ∀ field, members.lookup field =
    if given fields field = [] then none
    else some (.array ((given fields field).flatMap contents))

/-- A value without items is only given to a field that has none before. -/
def EmptyFirst (values : List Json) : Prop :=
  values.Pairwise fun earlier later => contents later = [] → contents earlier = []

theorem length_foldl_collect (values : List Json) (old : List Json) :
    (values.foldl collect old).length ≤ old.length +
      (values.flatMap contents).length := by
  induction values generalizing old with
  | nil => simp
  | cons value values ih =>
    have hrest := ih (collect old value)
    have hfirst : (collect old value).length ≤ old.length + (contents value).length := by
      unfold collect
      split_ifs <;> simp
    simp only [foldl_cons, flatMap_cons, length_append]
    omega

/-- Nothing is lost if and only if no value without items comes too late. -/
theorem foldl_collect_iff (values old : List Json) :
    values.foldl collect old = old ++ values.flatMap contents ↔
      (old ≠ [] → ∀ value ∈ values, contents value ≠ []) ∧ EmptyFirst values := by
  induction values generalizing old with
  | nil => simp [EmptyFirst]
  | cons value values ih =>
    have hsplit : EmptyFirst (value :: values) ↔
        (contents value ≠ [] → ∀ later ∈ values, contents later ≠ []) ∧
          EmptyFirst values := by
      rw [EmptyFirst, pairwise_cons]
      exact and_congr_left' ⟨fun h hne later hlater hempty =>
        hne (h later hlater hempty), fun h later hlater hempty => by
          by_contra hne
          exact h hne later hlater hempty⟩
    rw [hsplit, foldl_cons, flatMap_cons, ← append_assoc]
    by_cases hempty : contents value = []
    · have hcollect : collect old value = [] := if_pos hempty
      rw [hcollect, hempty, append_nil]
      by_cases hold : old = []
      · subst hold
        rw [ih]
        simp
      · -- The items that were there are gone.
        refine iff_of_false (fun heq => ?_) fun hall =>
          hall.1 hold value mem_cons_self hempty
        have hlength := length_foldl_collect values []
        rw [heq, length_append] at hlength
        have hpos := length_pos_of_ne_nil hold
        simp only [length_nil] at hlength
        omega
    · have hcollect : collect old value = old ++ contents value := if_neg hempty
      have hne : old ++ contents value ≠ [] := by simp [hempty]
      rw [hcollect, ih]
      simp [hne, hempty]
      tauto

/-! ## The output of a mapping -/

omit categorise mapping in
theorem appendFields_object (fields members : List (Bytes × Json)) :
    ∃ after, appendFields fields (.object members) = .object after := by
  induction fields generalizing members with
  | nil => exact ⟨members, rfl⟩
  | cons entry fields ih => exact ih _

theorem cString_contributions (input : Json) :
    ∀ entry ∈ mapping.contributions input, cString entry.1 = entry.1 := by
  intro entry hentry
  obtain ⟨child, -, hchild⟩ := mem_flatMap.mp hentry
  rcases mem_append.mp hchild with hfound | hkept
  · obtain ⟨position, -, hposition⟩ := mem_flatMap.mp hfound
    obtain ⟨target, -, rfl⟩ := mem_map.mp hposition
    exact cString_cString target.field
  · split_ifs at hkept
    · unfold preserved at hkept
      split at hkept
      · cases mem_singleton.mp hkept
        exact cString_cString _
      · cases hkept
    · cases hkept

/-- A mapping without categorisers gives every field the items of all values
that it is given if and only if no value without items is given to a field that
has items. -/
theorem apply_concatenates_iff
    (hplain : Plain (some mapping.mappings)) (input : Json)
    (hobject : input.isObject) (happlies : mapping.applies input = .ok true) :
    ∃ members, mapping.apply categorise input = .ok (some (.object members)) ∧
      (Concatenates (mapping.contributions input) members ↔
        ∀ field, EmptyFirst (given (mapping.contributions input) field)) := by
  obtain ⟨members, hmembers⟩ :=
    appendFields_object (mapping.contributions input) []
  refine ⟨members, ?_, ?_⟩
  · rw [mapping.apply_eq categorise hplain input hobject happlies, hmembers]
  refine forall_congr' fun field => ?_
  have harrays : Arrays (.object []) := fun _ => rfl
  have hlookup := lookup_appendFields (mapping.cString_contributions input)
    harrays field
  rw [hmembers] at hlookup
  change members.lookup field = _ at hlookup
  rw [hlookup]
  split_ifs with hempty
  · rw [hempty]
    exact iff_of_true rfl List.Pairwise.nil
  · have hiff := foldl_collect_iff (given (mapping.contributions input) field) []
    simp only [List.nil_append, ne_eq, not_true_eq_false, false_implies,
      true_and] at hiff
    rw [← hiff, Option.some.injEq, Json.array.injEq]
    rfl

/-- The mapping of an author and an editor to a name. -/
def nameMapping : Mapping where
  when := none
  mappings := KeyTree.addAll
    [([.key (ascii "author")], ⟨ascii "name", []⟩),
      ([.key (ascii "editor")], ⟨ascii "name", []⟩)] .empty
  defaultAction := .preserveTop

theorem plain_nameMapping : Plain (some nameMapping.mappings) := by
  intro path target htarget
  have hentries : ∀ entry ∈ nameMapping.mappings.entries, entry.2.categoriser = [] := by
    decide
  exact hentries _ (KeyTree.mem_entries_of_mem_valuesAt htarget)

/-- A book with an author and an editor. -/
def namedBook (author editor : Json) : Json :=
  .object [(ascii "author", author), (ascii "editor", editor)]

theorem contributions_namedBook {author editor : Json} (hauthor : author.children = [])
    (heditor : editor.children = []) :
    nameMapping.contributions (namedBook author editor) =
      [(ascii "name", author), (ascii "name", editor)] := by
  have hname : ∀ (component : JSONPathComponent) (value : Json), value.children = [] →
      targetsAt (some nameMapping.mappings) [component] = [⟨ascii "name", []⟩] →
      nameMapping.contributed component value = [(ascii "name", value)] := by
    intro component value hleaf htarget
    unfold contributed mapped
    rw [positions_of_leaf hleaf, flatMap_singleton, htarget]
    rfl
  change nameMapping.contributed (.key (ascii "author")) author ++
    (nameMapping.contributed (.key (ascii "editor")) editor ++ []) = _
  rw [hname _ author hauthor (by decide), hname _ editor heditor (by decide)]
  rfl

/-- An author that is null does not matter. -/
theorem apply_concatenates_editor : ∃ members,
    nameMapping.apply (fun _ _ => .ok .null) (namedBook .null (.int 1)) =
        .ok (some (.object members)) ∧
      Concatenates (nameMapping.contributions (namedBook .null (.int 1)))
        members := by
  obtain ⟨members, happly, hiff⟩ := nameMapping.apply_concatenates_iff
    (fun _ _ => .ok .null) plain_nameMapping (namedBook .null (.int 1)) rfl rfl
  refine ⟨members, happly, hiff.mpr fun field => ?_⟩
  rw [contributions_namedBook rfl rfl]
  by_cases hfield : ascii "name" = field
  · simp [given, hfield, EmptyFirst, contents]
  · simp [given, hfield, EmptyFirst]

/-- An editor that is null throws away the author. -/
theorem apply_loses_author : ∃ members,
    nameMapping.apply (fun _ _ => .ok .null) (namedBook (.int 1) .null) =
        .ok (some (.object members)) ∧
      given (nameMapping.contributions (namedBook (.int 1) .null))
        (ascii "name") = [.int 1, .null] ∧
      members.lookup (ascii "name") = some (.array []) ∧
      ¬Concatenates (nameMapping.contributions (namedBook (.int 1) .null))
        members := by
  have hcontributions : nameMapping.contributions
      (namedBook (.int 1) .null) =
      [(ascii "name", .int 1), (ascii "name", .null)] :=
    contributions_namedBook rfl rfl
  have hgiven : given [(ascii "name", .int 1), (ascii "name", .null)]
      (ascii "name") = [.int 1, .null] := by simp [given]
  have happly := nameMapping.apply_eq (fun _ _ => .ok .null) plain_nameMapping
    (namedBook (.int 1) .null) rfl rfl
  rw [hcontributions] at happly ⊢
  refine ⟨_, happly, hgiven, rfl, fun hconcatenates => ?_⟩
  have hname := hconcatenates (ascii "name")
  rw [hgiven] at hname
  have hlost : some (Json.array []) = some (.array [.int 1]) := hname
  simp at hlost

end Mapping

end Restpose
