import Restpose.Config.CollectionConfig
import Restpose.Taxonomy.Reachable

/-!
# Taxonomies as JSON

`Taxonomy::to_json` lists the parents of every category, and
`Taxonomy::from_json` enters the listed edges one after the other.  It stops at
the first edge that closes a cycle, which depends on the order of the edges;
whether there is such an edge does not, and neither does the taxonomy that all
the edges together give.
-/

namespace Restpose

open Relation List Finset Json Edit Prod

namespace Taxonomy

/-- The parent relation determines the other three. -/
theorem WellFormed.ext_parents {left right : Taxonomy}
    (hleft : left.WellFormed) (hright : right.WellFormed)
    (hnames : left.names = right.names)
    (hparents : ∀ child parent, parent ∈ left.linked .parents child ↔
      parent ∈ right.linked .parents child) : left = right := by
  have hedge : left.Edge .parents = right.Edge .parents := by
    funext child parent
    exact propext (hparents child parent)
  refine ext_linked hnames fun link name => ?_
  ext other
  cases link with
  | parents => exact hparents name other
  | children => rw [← hleft.dual, ← hright.dual, hparents]
  | ancestors => rw [hleft.ancestors_iff, hright.ancestors_iff, hedge]
  | descendants =>
    rw [hleft.mem_descendants_iff, hright.mem_descendants_iff, hedge]

/-! ## Entering edges -/

/-- The edges of a taxonomy, together with others. -/
def WithEdges (taxonomy : Taxonomy)
    (edges : Bytes → Bytes → Prop) (child parent : Bytes) :
    Prop :=
  taxonomy.Edge .parents child parent ∨ edges child parent

/-- What was added to a taxonomy: some names, and some edges. -/
structure Extended (before : Taxonomy) (keys : Bytes → Prop)
    (edges : Bytes → Bytes → Prop) (after : Taxonomy) : Prop where
  wellFormed : after.WellFormed
  names_iff : ∀ name, name ∈ after.names ↔ name ∈ before.names ∨ keys name
  parents_iff : ∀ child parent, parent ∈ after.linked .parents child ↔
    before.WithEdges edges child parent

/-- An operation that enters edges ends with all of them entered, or throws
because they close a cycle. -/
inductive Enters (before : Taxonomy) (keys : Bytes → Prop)
    (edges : Bytes → Bytes → Prop) : Outcome Edit → Prop where
  | done {edit : Edit} (hextended : Extended before keys edges edit.taxonomy) :
      Enters before keys edges ⟨edit, none⟩
  | closed {name : Bytes}
      (hcycle : TransGen (before.WithEdges edges) name name) (edit : Edit)
      (error : InvalidValueError) :
      Enters before keys edges ⟨edit, some error⟩

variable {before middle : Taxonomy} {keys keys' : Bytes → Prop}
  {edges edges' : Bytes → Bytes → Prop}

theorem Extended.withEdges (hextended : Extended before keys edges middle)
    (edges' : Bytes → Bytes → Prop) :
    middle.WithEdges edges' = before.WithEdges fun child parent =>
        edges child parent ∨ edges' child parent := by
  funext child parent
  refine propext ?_
  rw [WithEdges, Edge, hextended.parents_iff, WithEdges, WithEdges, or_assoc]

variable {outcome : Outcome Edit}

theorem Extended.enters (hextended : Extended before keys edges middle)
    (henters : Enters middle keys' edges' outcome) :
    Enters before (fun name => keys name ∨ keys' name)
      (fun child parent => edges child parent ∨ edges' child parent)
      outcome := by
  cases henters with
  | done hnext =>
    refine .done ⟨hnext.wellFormed, fun name => ?_, fun child parent => ?_⟩
    · rw [hnext.names_iff, hextended.names_iff, or_assoc]
    · rw [hnext.parents_iff, hextended.withEdges]
  | closed hcycle edit error =>
    rw [hextended.withEdges] at hcycle
    exact .closed hcycle edit error

variable {edit : Edit}

/-- A cycle stays one with more edges. -/
theorem Enters.of_closed {name : Bytes} {error : InvalidValueError}
    (hcycle : TransGen (before.WithEdges edges) name name)
    (hmore : ∀ child parent, edges child parent → edges' child parent) :
    Enters before keys edges' ⟨edit, some error⟩ := by
  refine .closed (hcycle.lift id fun child parent hedge => ?_) edit error
  exact hedge.imp_right (hmore child parent)

variable (henters : Enters before keys edges outcome)

include henters

theorem Enters.congr (hkeys : ∀ name, keys name ↔ keys' name)
    (hedges : ∀ child parent, edges child parent ↔ edges' child parent) :
    Enters before keys' edges' outcome := by
  have hkeys' : keys = keys' := funext fun name => propext (hkeys name)
  have hedges' : edges = edges' :=
    funext fun child => funext fun parent => propext (hedges child parent)
  rwa [← hkeys', ← hedges']

/-- Whether an operation throws is a matter of all the edges. -/
theorem Enters.thrown_eq_none_iff : outcome.thrown = none ↔
      ∀ name, ¬ TransGen (before.WithEdges edges) name name := by
  cases henters with
  | done hextended =>
    refine ⟨fun _ name hcycle => ?_, fun _ => rfl⟩
    refine hextended.wellFormed.acyclic name (hcycle.lift id ?_)
    exact fun child parent hedge =>
      (hextended.parents_iff child parent).mpr hedge
  | closed hcycle edit error =>
    exact ⟨nofun, fun hacyclic => absurd hcycle (hacyclic _)⟩

theorem Enters.extended (hthrown : outcome.thrown = none) :
    Extended before keys edges outcome.state.taxonomy := by
  cases henters with
  | done hextended => exact hextended
  | closed => cases hthrown

omit henters

/-! ## The loops of `from_json` -/

theorem extended_add (hwell : edit.taxonomy.WellFormed) (name : Bytes) :
    Extended edit.taxonomy (· = name) (fun _ _ => False) (edit.add name).taxonomy where
  wellFormed := wellFormed_add hwell name
  names_iff := by simp [or_comm]
  parents_iff := by simp [WithEdges, Edge]

/-- `add_parent` enters one edge. -/
theorem enters_addParent (hwell : edit.taxonomy.WellFormed) (name parent : Bytes) :
    Enters edit.taxonomy (fun other => other = name ∨ other = parent)
      (fun child other => child = name ∧ other = parent)
      (edit.addParent name parent) := by
  by_cases hloop : name = parent ∨ parent ∈ edit.taxonomy.linked .descendants name
  · obtain ⟨error, heq⟩ := addParent_of_loop hwell hloop
    rw [heq]
    have hedge : edit.taxonomy.WithEdges
        (fun child other => child = name ∧ other = parent) name parent :=
      .inr ⟨rfl, rfl⟩
    rcases hloop with rfl | hbelow
    · exact .closed (.single hedge) edit error
    · rw [hwell.mem_descendants_iff] at hbelow
      exact .closed (.head hedge (hbelow.lift id fun _ _ => .inl)) edit error
  · have hconnect := connectable_of_not_loop hwell (Edit.Grown.refl edit) hloop
    obtain ⟨-, hnames, hparents, -⟩ := hconnect.connect_spec
    rw [addParent_of_not_loop hwell hloop]
    refine .done ⟨hconnect.wellFormed_connect, fun other => ?_, fun child other => ?_⟩
    · rw [hnames]
      simp
      tauto
    · rw [hparents]
      simp [WithEdges, Edge]

/-- The inner loop enters an edge for every listed parent. -/
theorem enters_addParentItems (name : Bytes) (parents : List Bytes)
    (hwell : edit.taxonomy.WellFormed) (hname : name ∈ edit.taxonomy.names) :
    Enters edit.taxonomy (fun other => other = name ∨ other ∈ parents)
      (fun child other => child = name ∧ other ∈ parents)
      (addParentItems name (parents.map .string) edit) := by
  induction parents generalizing edit with
  | nil =>
    refine .done ⟨hwell, fun other => ?_, by simp [WithEdges, Edge]⟩
    refine ⟨.inl, fun hother => ?_⟩
    rcases hother with hold | rfl | hnone
    · exact hold
    · exact hname
    · cases hnone
  | cons parent parents ih =>
    have henters := enters_addParent hwell name parent
    simp only [List.map_cons, Edit.addParentItems, Json.checkString]
    generalize edit.addParent name parent = outcome at henters ⊢
    cases henters with
    | done hextended =>
      have hknown := (hextended.names_iff name).mpr (.inr (.inl rfl))
      refine (hextended.enters (ih hextended.wellFormed hknown)).congr ?_ ?_
      · intro other
        rw [List.mem_cons]
        tauto
      · intro child other
        rw [List.mem_cons]
        tauto
    | closed hcycle failed error =>
      refine .of_closed hcycle ?_
      rintro child other ⟨rfl, rfl⟩
      exact ⟨rfl, mem_cons_self⟩

/-- The parent relation that the members of an object describe. -/
def Described (members : List (Bytes × Json))
    (child parent : Bytes) : Prop :=
  ∃ item, (child, item) ∈ members ∧ .string parent ∈ item.items

/-- The names that come up in the members. -/
def Mentioned (members : List (Bytes × Json)) (name : Bytes) :
    Prop :=
  name ∈ members.map Prod.fst ∨ ∃ child, Described members child name

/-- Every value is `null` or an array of strings. -/
def ParentLists (members : List (Bytes × Json)) : Prop :=
  ∀ entry ∈ members, entry.2 = .null ∨
    ∃ parents : List Bytes, entry.2 = .array (parents.map .string)

theorem described_cons {name : Bytes} {item : Json} {members : List (Bytes × Json)}
    (child parent : Bytes) :
    Described ((name, item) :: members) child parent ↔
      (child = name ∧ .string parent ∈ item.items) ∨ Described members child parent := by
  simp only [Described, List.mem_cons, Prod.mk.injEq]
  constructor
  · rintro ⟨value, ⟨rfl, rfl⟩ | hrest, hparent⟩
    · exact .inl ⟨rfl, hparent⟩
    · exact .inr ⟨value, hrest, hparent⟩
  · rintro (⟨rfl, hparent⟩ | ⟨value, hrest, hparent⟩)
    · exact ⟨item, .inl ⟨rfl, rfl⟩, hparent⟩
    · exact ⟨value, .inr hrest, hparent⟩

theorem mentioned_cons {name : Bytes} {item : Json} {members : List (Bytes × Json)}
    (other : Bytes) :
    Mentioned ((name, item) :: members) other ↔
      (other = name ∨ .string other ∈ item.items) ∨
        Mentioned members other := by
  simp only [Mentioned, described_cons, List.map_cons, List.mem_cons, exists_or,
    exists_eq_left]
  tauto

theorem mem_map_string {text : Bytes} {texts : List Bytes} :
    string text ∈ texts.map string ↔ text ∈ texts := by
  simp

/-- The outer loop enters all edges that are described. -/
theorem enters_addMembers {members : List (Bytes × Json)} (hlists : ParentLists members)
    (hwell : edit.taxonomy.WellFormed) :
    Enters edit.taxonomy (Mentioned members) (Described members)
      (addMembers members edit) := by
  induction members generalizing edit with
  | nil =>
    refine .done ⟨hwell, ?_, ?_⟩
    · simp [Mentioned, Described]
    · simp [WithEdges, Edge, Described]
  | cons entry members ih =>
    obtain ⟨name, item⟩ := entry
    have hrest : ParentLists members := fun other hother =>
      hlists other (mem_cons_of_mem _ hother)
    have hadded := extended_add hwell name
    rcases hlists _ mem_cons_self with hnull | ⟨parents, harray⟩
    · subst hnull
      refine (hadded.enters (ih hrest hadded.wellFormed)).congr ?_ ?_
      · intro other
        simp [mentioned_cons, items]
      · intro child other
        simp [described_cons, items]
    · subst harray
      have hknown := (hadded.names_iff name).mpr (.inr rfl)
      have henters := hadded.enters
        (enters_addParentItems name parents hadded.wellFormed hknown)
      simp only [addMembers, isNull, checkArray, items]
      generalize addParentItems name (parents.map .string) (edit.add name) =
        outcome at henters ⊢
      cases henters with
      | done hextended =>
        refine (hextended.enters (ih hrest hextended.wellFormed)).congr ?_ ?_
        · intro other
          simp [mentioned_cons, items]
        · intro child other
          simp [described_cons, items]
      | closed hcycle failed error =>
        refine .of_closed hcycle fun child other hedge => ?_
        obtain ⟨hchild, hother⟩ := hedge.resolve_left id
        exact (described_cons child other).mpr (.inl ⟨hchild, mem_map_string.mpr hother⟩)

/-! ## The taxonomies of the server -/

section Names

theorem names_forLinked {link : Link} {name : Bytes} {body : Bytes → Edit → Edit}
    (hbody : ∀ key current, (body key current).taxonomy.names = current.taxonomy.names)
    (edit : Edit) :
    (edit.forLinked link name body).taxonomy.names = edit.taxonomy.names :=
  Loops.forEach_keeps (·.taxonomy.names = edit.taxonomy.names)
    (fun key current hcurrent => (hbody key current).trans hcurrent) rfl

theorem names_recalcAncestors (name : Bytes) (edit : Edit) :
    (recalcAncestors name edit).taxonomy.names = edit.taxonomy.names :=
  names_mutate ..

theorem names_recalcDescendants (name : Bytes) (edit : Edit) :
    (recalcDescendants name edit).taxonomy.names = edit.taxonomy.names :=
  names_mutate ..

/-- The names that a call gives. -/
def Call.names : Call → List Bytes
  | .add name => [name]
  | .remove name => [name]
  | .addParent name parent => [name, parent]
  | .removeParent name parent => [name, parent]

theorem names_remove_subset (edit : Edit) (name : Bytes) :
    (edit.remove name).taxonomy.names ⊆ edit.taxonomy.names := by
  unfold remove
  cases edit.taxonomy.find name with
  | none => exact Finset.Subset.refl _
  | some category =>
    rw [names_erase, names_forLinked names_recalcAncestors,
      names_forLinked names_recalcDescendants, detach,
      names_forLinked (fun _ _ => names_mutate ..),
      names_forLinked (fun _ _ => names_mutate ..)]
    exact erase_subset _ _

theorem names_removeParent (edit : Edit) (name parent : Bytes) :
    (edit.removeParent name parent).taxonomy.names = edit.taxonomy.names := by
  unfold removeParent
  split
  · rfl
  · split
    · rw [names_forLinked names_recalcDescendants, names_forLinked names_recalcAncestors,
        names_recalcDescendants, names_recalcAncestors, disconnect, names_mutate,
        names_mutate]
    · rfl

theorem names_addParent (hwell : edit.taxonomy.WellFormed) {child parent name : Bytes}
    (hname : name ∈ (edit.addParent child parent).state.taxonomy.names) :
    name ∈ edit.taxonomy.names ∨ name = child ∨ name = parent := by
  by_cases hloop : child = parent ∨ parent ∈ edit.taxonomy.linked .descendants child
  · obtain ⟨error, heq⟩ := addParent_of_loop hwell hloop
    rw [heq] at hname
    exact .inl hname
  · have henters := enters_addParent hwell child parent
    have hreturns : (edit.addParent child parent).thrown = none := by
      rw [addParent_of_not_loop hwell hloop]
    exact ((henters.extended hreturns).names_iff name).mp hname

/-- A call brings in no other names than its own. -/
theorem Call.names_run (hwell : edit.taxonomy.WellFormed) (call : Call) {name : Bytes}
    (hname : name ∈ (call.run edit).state.taxonomy.names) :
    name ∈ edit.taxonomy.names ∨ name ∈ call.names := by
  cases call with
  | add added =>
    rw [Call.run, Edit.names_add, Finset.mem_insert] at hname
    exact hname.symm.imp_right List.mem_singleton.mpr
  | remove removed => exact .inl (names_remove_subset edit removed hname)
  | addParent child parent =>
    simpa [Call.names] using names_addParent hwell hname
  | removeParent child parent =>
    rw [Call.run, names_removeParent] at hname
    exact .inl hname

variable {allowed : Bytes → Prop}

/-- The inner loop of `from_json` brings in no others than those listed, also
when it throws. -/
theorem names_addParentItems {child : Bytes} {items : List Json} (hchild : allowed child)
    (hitems : ∀ text, .string text ∈ items → allowed text)
    (hwell : edit.taxonomy.WellFormed)
    (hnames : ∀ name ∈ edit.taxonomy.names, allowed name) :
    ∀ name ∈ (addParentItems child items edit).state.taxonomy.names, allowed name := by
  induction items generalizing edit with
  | nil => exact hnames
  | cons item items ih =>
    unfold addParentItems
    cases item with
    | string parent =>
      have hadded := (Call.run_spec hwell (.addParent child parent)).1
      have hparent := hitems parent mem_cons_self
      have hallowed : ∀ name ∈ (edit.addParent child parent).state.taxonomy.names,
          allowed name := by
        intro name hname
        rcases names_addParent hwell hname with hold | rfl | rfl
        · exact hnames name hold
        · exact hchild
        · exact hparent
      simp only [Call.run] at hadded
      simp only [checkString]
      split
      next added heq =>
        rw [heq] at hadded hallowed
        exact ih (fun text htext => hitems text (mem_cons_of_mem _ htext)) hadded hallowed
      next => exact hallowed
    | _ => exact hnames

theorem names_addMembers {members : List (Bytes × Json)}
    (hmembers : ∀ entry ∈ members, allowed entry.1 ∧
      ∀ text, .string text ∈ entry.2.items → allowed text)
    (hwell : edit.taxonomy.WellFormed)
    (hnames : ∀ name ∈ edit.taxonomy.names, allowed name) :
    ∀ name ∈ (addMembers members edit).state.taxonomy.names, allowed name := by
  induction members generalizing edit with
  | nil => exact hnames
  | cons entry members ih =>
    obtain ⟨child, item⟩ := entry
    obtain ⟨hchild, hitems⟩ := hmembers _ mem_cons_self
    have hrest := fun other hother =>
      hmembers other (mem_cons_of_mem _ hother)
    have hadded := wellFormed_add hwell child
    have hallowed : ∀ name ∈ (edit.add child).taxonomy.names, allowed name := by
      intro name hname
      rw [names_add, mem_insert] at hname
      rcases hname with rfl | hold
      · exact hchild
      · exact hnames name hold
    unfold addMembers
    split
    next => exact ih hrest hadded hallowed
    next =>
      split
      next => exact hallowed
      next =>
        have hwell' := wellFormed_addParentItems child item.items hadded
        have hallowed' := names_addParentItems hchild hitems hadded hallowed
        split
        next added heq =>
          rw [heq] at hwell' hallowed'
          exact ih hrest hwell' hallowed'
        next => exact hallowed'

end Names

theorem notMem_names_empty (name : Bytes) : name ∉ empty.names := by
  rw [← find_eq_none_iff]
  simp [find, empty]

/-- The taxonomies that the server has.  The names in requests were checked by
`validate_catid_throw`, and those in configurations are C strings. -/
inductive Served : Taxonomy → Prop where
  | empty : Served Taxonomy.empty
  | call {taxonomy : Taxonomy} (hserved : Served taxonomy) (call : Call)
      (hvalid : ∀ name ∈ call.names, validateCatid name = none)
      (modified : Categories) :
      Served (call.run ⟨taxonomy, modified⟩).state.taxonomy
  | fromJson {taxonomy : Taxonomy} (hserved : Served taxonomy) (value : Json)
      (htexts : ∀ entry ∈ value.members, cString entry.1 = entry.1 ∧
        ∀ text, .string text ∈ entry.2.items → cString text = text) :
      Served (Taxonomy.fromJson value).state

theorem Served.reachable {taxonomy : Taxonomy} (hserved : Served taxonomy) :
    Reachable taxonomy := by
  induction hserved with
  | empty => exact .empty
  | call _ call _ modified ih => exact .call ih call modified
  | fromJson _ value _ ih => exact .fromJson ih value

theorem Served.cString_names {taxonomy : Taxonomy} (hserved : Served taxonomy) :
    ∀ name ∈ taxonomy.names, cString name = name := by
  induction hserved with
  | empty => exact fun name hname => absurd hname (notMem_names_empty name)
  | call hserved call hvalid modified ih =>
    intro name hname
    rcases call.names_run hserved.reachable.invariant hname with hold | hnew
    · exact ih name hold
    · exact cString_of_validateName (hvalid name hnew)
  | fromJson _ value htexts _ =>
    have hempty : ∀ name ∈ Taxonomy.empty.names, cString name = name :=
      fun name hname => absurd hname (notMem_names_empty name)
    unfold Taxonomy.fromJson
    split
    next => exact hempty
    next => exact names_addMembers htexts wellFormed_empty hempty

/-! ## Reading -/

theorem withEdges_empty (edges : Bytes → Bytes → Prop) :
    empty.WithEdges edges = edges := by
  funext child parent
  refine propext (or_iff_right ?_)
  rw [Edge, linked_of_notMem (notMem_names_empty child)]
  exact notMem_empty parent

section Reading

variable {members : List (Bytes × Json)}

variable (hlists : ParentLists members)

include hlists

theorem enters_fromJson : Enters empty (Mentioned members) (Described members)
      (addMembers members ⟨empty, ∅⟩) := by
  have hwell : (⟨empty, ∅⟩ : Edit).taxonomy.WellFormed := wellFormed_empty
  exact enters_addMembers hlists hwell

theorem fromJson_thrown_iff : (fromJson (.object members)).thrown = none ↔
      ∀ name, ¬ TransGen (Described members) name name := by
  have hiff := (enters_fromJson hlists).thrown_eq_none_iff
  rw [withEdges_empty] at hiff
  exact hiff

theorem extended_fromJson (hthrown : (fromJson (.object members)).thrown = none) :
    Extended empty (Mentioned members) (Described members)
      (fromJson (.object members)).state :=
  (enters_fromJson hlists).extended hthrown

theorem mem_names_fromJson (hthrown : (fromJson (.object members)).thrown = none)
    (name : Bytes) :
    name ∈ (fromJson (.object members)).state.names ↔ Mentioned members name := by
  rw [(extended_fromJson hlists hthrown).names_iff]
  exact or_iff_right (notMem_names_empty name)

theorem mem_parents_fromJson (hthrown : (fromJson (.object members)).thrown = none)
    (child parent : Bytes) :
    parent ∈ (fromJson (.object members)).state.linked .parents child ↔
      Described members child parent := by
  rw [(extended_fromJson hlists hthrown).parents_iff, withEdges_empty]

/-- It reads a taxonomy with these names and these edges. -/
theorem fromJson_eq {taxonomy : Taxonomy} (hwell : taxonomy.WellFormed)
    (hnames : ∀ name, Mentioned members name ↔ name ∈ taxonomy.names)
    (hparents : ∀ child parent, Described members child parent ↔
      parent ∈ taxonomy.linked .parents child) :
    fromJson (.object members) = ⟨taxonomy, none⟩ := by
  have hthrown : (fromJson (.object members)).thrown = none := by
    rw [fromJson_thrown_iff hlists]
    have hedge : Described members = taxonomy.Edge .parents :=
      funext fun child => funext fun parent => propext (hparents child parent)
    rw [hedge]
    exact hwell.acyclic
  have hstate : (fromJson (.object members)).state = taxonomy := by
    refine (extended_fromJson hlists hthrown).wellFormed.ext_parents hwell ?_ ?_
    · ext name
      rw [mem_names_fromJson hlists hthrown, hnames]
    · intro child parent
      rw [mem_parents_fromJson hlists hthrown, hparents]
  generalize fromJson (.object members) = outcome at hthrown hstate
  obtain ⟨state, thrown⟩ := outcome
  simp only at hthrown hstate
  rw [hthrown, hstate]

omit hlists

/-- A member with its items in another order. -/
def SameItems (entry other : Bytes × Json) : Prop :=
  entry.1 = other.1 ∧ (entry.2 = .null ∧ other.2 = .null ∨
    ∃ items items', entry.2 = .array items ∧ other.2 = .array items' ∧
      items.Perm items')

/-- The same members in another order, with the items of each in another
order. -/
def Reordered (members visited : List (Bytes × Json)) : Prop :=
  ∃ middle, members.Perm middle ∧ List.Forall₂ SameItems middle visited

theorem SameItems.mem_items_iff {entry other : Bytes × Json}
    (hsame : SameItems entry other) (item : Json) :
    item ∈ entry.2.items ↔ item ∈ other.2.items := by
  rcases hsame.2 with ⟨hnull, hnull'⟩ | ⟨items, items', harray, harray', hperm⟩
  · rw [hnull, hnull']
  · rw [harray, harray']
    exact hperm.mem_iff

variable {visited : List (Bytes × Json)}

variable (hreordered : Reordered members visited)

include hreordered

theorem Reordered.described_iff (child parent : Bytes) :
    Described members child parent ↔ Described visited child parent := by
  obtain ⟨middle, hperm, hforall⟩ := hreordered
  have hmiddle : Described members child parent ↔ Described middle child parent := by
    simp only [Described, hperm.mem_iff]
  rw [hmiddle]
  clear hperm hmiddle
  induction hforall with
  | nil => exact Iff.rfl
  | cons hsame _ ih =>
    rw [described_cons, described_cons, hsame.1, hsame.mem_items_iff]
    exact or_congr_right ih

theorem Reordered.mentioned_iff (name : Bytes) :
    Mentioned members name ↔ Mentioned visited name := by
  have hkeys : name ∈ members.map fst ↔ name ∈ visited.map fst := by
    obtain ⟨middle, hperm, hforall⟩ := hreordered
    rw [(hperm.map fst).mem_iff]
    clear hperm
    induction hforall with
    | nil => exact Iff.rfl
    | cons hsame _ ih =>
      rw [List.map_cons, List.map_cons, List.mem_cons, List.mem_cons, ih, hsame.1]
  rw [Mentioned, Mentioned, hkeys]
  exact or_congr_right (exists_congr fun child => hreordered.described_iff child name)

theorem Reordered.parentLists (hlists : ParentLists members) : ParentLists visited := by
  obtain ⟨middle, hperm, hforall⟩ := hreordered
  have hmiddle : ParentLists middle := fun entry hentry =>
    hlists entry (hperm.mem_iff.mpr hentry)
  clear hperm hlists
  induction hforall with
  | nil => exact hmiddle
  | @cons entry other _ _ hsame _ ih =>
    intro visit hvisit
    rcases mem_cons.mp hvisit with rfl | hvisit
    · rcases hsame.2 with ⟨-, hnull⟩ | ⟨items, items', harray, harray', hperm⟩
      · exact .inl hnull
      · right
        -- The items of the entry are strings, so those of the other are.
        obtain ⟨parents, hparents⟩ : items' ∈ Set.range (List.map Json.string) := by
          rw [Set.range_list_map]
          intro item hitem
          rcases hmiddle entry mem_cons_self with hnull | ⟨texts, htexts⟩
          · rw [harray] at hnull
            cases hnull
          · rw [harray, array.injEq] at htexts
            have hmem := hperm.mem_iff.mpr hitem
            rw [htexts] at hmem
            obtain ⟨text, -, htext⟩ := mem_map.mp hmem
            exact ⟨text, htext⟩
        exact ⟨parents, by rw [harray', hparents]⟩
    · exact ih (fun first hfirst => hmiddle first
        (mem_cons_of_mem _ hfirst)) visit hvisit

/-- The order of the members and items does not matter. -/
theorem Reordered.fromJson_agrees (hlists : ParentLists members) :
    ((fromJson (.object visited)).thrown = none ↔
      (fromJson (.object members)).thrown = none) ∧
      ((fromJson (.object members)).thrown = none →
        fromJson (.object visited) = fromJson (.object members)) := by
  have hlists' := hreordered.parentLists hlists
  have hdescribed : Described visited = Described members :=
    funext fun child => funext fun parent =>
      propext (hreordered.described_iff child parent).symm
  refine ⟨?_, fun hthrown => ?_⟩
  · rw [fromJson_thrown_iff hlists', fromJson_thrown_iff hlists, hdescribed]
  · have hextended := extended_fromJson hlists hthrown
    rw [fromJson_eq hlists' hextended.wellFormed ?_ ?_]
    · rw [← hthrown]
    · intro name
      rw [mem_names_fromJson hlists hthrown, hreordered.mentioned_iff]
    · intro child parent
      rw [mem_parents_fromJson hlists hthrown, hdescribed]

omit hreordered

end Reading

/-! ## Writing -/

section Writing

variable {taxonomy : Taxonomy}

/-- The members that `to_json` writes. -/
def parentMembers (taxonomy : Taxonomy) : List (Bytes × Json) :=
  taxonomy.categories.toList.map fun entry =>
    (entry.1, .array ((entry.2.parents.sort (· ≤ ·)).map .string))

theorem mem_parentMembers_iff {name : Bytes} {item : Json} :
    (name, item) ∈ taxonomy.parentMembers ↔
      ∃ category, taxonomy.find name = some category ∧
        item = .array ((category.parents.sort (· ≤ ·)).map .string) := by
  simp only [parentMembers, List.mem_map, Prod.exists, Prod.mk.injEq]
  constructor
  · rintro ⟨key, category, hentry, rfl, rfl⟩
    exact ⟨category, Std.ExtTreeMap.mem_toList_iff_getElem?_eq_some.mp hentry, rfl⟩
  · rintro ⟨category, hfind, rfl⟩
    exact ⟨name, category, Std.ExtTreeMap.mem_toList_iff_getElem?_eq_some.mpr hfind, rfl,
      rfl⟩

theorem taxonomyToJson_eq (hwell : taxonomy.WellFormed)
    (hnames : ∀ name ∈ taxonomy.names, cString name = name) :
    Config.taxonomyToJson taxonomy = .object taxonomy.parentMembers := by
  have hfind : ∀ entry ∈ taxonomy.categories.toList,
      taxonomy.find entry.1 = some entry.2 := fun entry hentry =>
    Std.ExtTreeMap.mem_toList_iff_getElem?_eq_some.mp hentry
  have hkeys : ∀ entry ∈ taxonomy.categories.toList,
      cString entry.1 = entry.1 := fun entry hentry =>
    hnames entry.1 (mem_names_iff.mpr ⟨entry.2, hfind entry hentry⟩)
  rw [Config.taxonomyToJson, Config.mapToJson_eq _ hkeys, parentMembers, object.injEq]
  refine List.map_congr_left fun entry hentry => ?_
  rw [Prod.mk.injEq, Json.array.injEq]
  refine ⟨rfl, List.map_congr_left fun parent hparent => ?_⟩
  have hknown : parent ∈ taxonomy.names := by
    apply hwell.known .parents entry.1
    rw [linked_of_find (hfind entry hentry)]
    exact (mem_sort _).mp hparent
  rw [ofString, hnames parent hknown]

theorem parentLists_parentMembers : ParentLists taxonomy.parentMembers := by
  rintro ⟨name, item⟩ hentry
  obtain ⟨category, -, rfl⟩ := mem_parentMembers_iff.mp hentry
  exact .inr ⟨_, rfl⟩

theorem described_parentMembers (child parent : Bytes) :
    Described taxonomy.parentMembers child parent ↔
      parent ∈ taxonomy.linked .parents child := by
  constructor
  · rintro ⟨item, hentry, hparent⟩
    obtain ⟨category, hfind, rfl⟩ := mem_parentMembers_iff.mp hentry
    rw [items, mem_map_string, mem_sort] at hparent
    rwa [linked_of_find hfind]
  · intro hparent
    by_cases hchild : child ∈ taxonomy.names
    · obtain ⟨category, hfind⟩ := mem_names_iff.mp hchild
      rw [linked_of_find hfind] at hparent
      refine ⟨_, mem_parentMembers_iff.mpr ⟨category, hfind, rfl⟩, ?_⟩
      rw [items, mem_map_string, mem_sort]
      exact hparent
    · rw [linked_of_notMem hchild] at hparent
      exact absurd hparent (notMem_empty parent)

theorem mentioned_parentMembers (hwell : taxonomy.WellFormed) (name : Bytes) :
    Mentioned taxonomy.parentMembers name ↔ name ∈ taxonomy.names := by
  have hkeys : name ∈ taxonomy.parentMembers.map fst ↔ name ∈ taxonomy.names := by
    simp [mem_parentMembers_iff, mem_names_iff]
  rw [Mentioned, hkeys]
  refine or_iff_left_of_imp ?_
  rintro ⟨child, hchild⟩
  exact hwell.known _ _ ((described_parentMembers child name).mp hchild)

theorem fromJson_taxonomyToJson (hwell : taxonomy.WellFormed)
    (hnames : ∀ name ∈ taxonomy.names, cString name = name) :
    fromJson (Config.taxonomyToJson taxonomy) = ⟨taxonomy, none⟩ := by
  rw [taxonomyToJson_eq hwell hnames]
  exact fromJson_eq parentLists_parentMembers hwell
    (mentioned_parentMembers hwell) described_parentMembers

/-- The taxonomies of the server are those that can be reached at all and whose
names are C strings. -/
theorem served_iff :
    Served taxonomy ↔
      Reachable taxonomy ∧ ∀ name ∈ taxonomy.names, cString name = name := by
  refine ⟨fun hserved => ⟨hserved.reachable, hserved.cString_names⟩, ?_⟩
  rintro ⟨hreachable, hnames⟩
  have hwell := hreachable.invariant
  -- Every such taxonomy is read from its own JSON.
  have hread := fromJson_taxonomyToJson hwell hnames
  rw [taxonomyToJson_eq hwell hnames] at hread
  have hserved := Served.fromJson .empty (.object taxonomy.parentMembers) ?_
  · rwa [hread] at hserved
  · rintro ⟨name, item⟩ hentry
    obtain ⟨category, hfind, rfl⟩ := mem_parentMembers_iff.mp hentry
    refine ⟨hnames name (mem_names_iff.mpr ⟨category, hfind⟩), ?_⟩
    intro text htext
    have hdescribed : Described taxonomy.parentMembers name text := ⟨_, hentry, htext⟩
    exact hnames text (hwell.known _ _
      ((described_parentMembers name text).mp hdescribed))

end Writing

/-- The JSON of taxonomies is a codec in which order does not matter: lists of
parents are accepted if and only if they describe no cycle, what they describe
is what is read, in whatever order, and every taxonomy of the server is read
back from its own JSON. -/
theorem taxonomy_codec :
    (∀ members, ParentLists members →
      ((fromJson (.object members)).thrown = none ↔
        ∀ name, ¬ TransGen (Described members) name name) ∧
      ((fromJson (.object members)).thrown = none →
        (∀ name, name ∈ (fromJson (.object members)).state.names ↔
          Mentioned members name) ∧
        ∀ child parent,
          parent ∈ (fromJson (.object members)).state.linked .parents child ↔
            Described members child parent) ∧
      ∀ visited, Reordered members visited →
        ((fromJson (.object visited)).thrown = none ↔
          (fromJson (.object members)).thrown = none) ∧
        ((fromJson (.object members)).thrown = none →
          fromJson (.object visited) = fromJson (.object members))) ∧
    ∀ taxonomy, Served taxonomy →
      fromJson (Config.taxonomyToJson taxonomy) = ⟨taxonomy, none⟩ := by
  refine ⟨fun members hlists => ⟨fromJson_thrown_iff hlists, ?_, ?_⟩, ?_⟩
  · exact fun hthrown => ⟨mem_names_fromJson hlists hthrown,
      mem_parents_fromJson hlists hthrown⟩
  · exact fun visited hreordered => hreordered.fromJson_agrees hlists
  · intro taxonomy hserved
    obtain ⟨hreachable, hnames⟩ := served_iff.mp hserved
    exact fromJson_taxonomyToJson hreachable.invariant hnames

/-- The members for a chain of two edges, the upper one last. -/
def chainMembers : List (Bytes × Json) :=
  [(ascii "c", .array [.string (ascii "b")]),
    (ascii "b", .array [.string (ascii "a")])]

theorem parentLists_chainMembers : ParentLists chainMembers := by
  intro entry hentry
  rcases mem_pair.mp hentry with rfl | rfl
  · exact .inr ⟨[ascii "b"], rfl⟩
  · exact .inr ⟨[ascii "a"], rfl⟩

theorem served_chain : Served chain :=
  .call (.call (.call .empty (.addParent (ascii "b") (ascii "a")) (by decide)
    ∅) (.addParent (ascii "c") (ascii "b")) (by decide) ∅)
    (.addParent (ascii "a") (ascii "c")) (by decide) ∅

theorem taxonomy_codec_chain :
    (fromJson (.object chainMembers)).thrown = none ∧
      (∀ name, ¬ TransGen (Described chainMembers) name name) ∧
      fromJson (Config.taxonomyToJson chain) = ⟨chain, none⟩ := by
  obtain ⟨hread, hwritten⟩ := taxonomy_codec
  obtain ⟨hiff, -, -⟩ := hread chainMembers parentLists_chainMembers
  have hthrown : (fromJson (.object chainMembers)).thrown = none := by decide
  exact ⟨hthrown, hiff.mp hthrown, hwritten chain served_chain⟩

end Taxonomy

end Restpose
