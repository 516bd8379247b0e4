import Mathlib

/-!
# Trees with keys

A node lists values and has children under keys, in the order of the keys.
Values are added at paths, which makes the nodes that are missing on the way.
A tree that was made like this is given back by adding what it lists, in the
order in which a walk over it meets the values.
-/

namespace Restpose

open List

/-- A node with its values and its children. -/
inductive KeyTree (Key Value : Type) where
  | node (values : List Value) (children : List (Key × KeyTree Key Value))

namespace KeyTree

variable {Key Value : Type}

def values : KeyTree Key Value → List Value
  | node values _ => values

def children : KeyTree Key Value → List (Key × KeyTree Key Value)
  | node _ children => children

/-- The tree without values. -/
def empty : KeyTree Key Value :=
  node [] []

/-- The child under a key. -/
def child? [DecidableEq Key] (tree : KeyTree Key Value) (key : Key) :
    Option (KeyTree Key Value) :=
  tree.children.lookup key

variable {child : KeyTree Key Value}

theorem mem_of_child? [DecidableEq Key] {tree : KeyTree Key Value} {key : Key}
    (hchild : tree.child? key = some child) : (key, child) ∈ tree.children := by
  obtain ⟨before, after, heq, -⟩ := lookup_eq_some_iff.mp hchild
  rw [heq]
  exact mem_append_right _ mem_cons_self

theorem child?_eq_none [DecidableEq Key] {tree : KeyTree Key Value} {key : Key}
    (hother : ∀ entry ∈ tree.children, entry.1 ≠ key) :
    tree.child? key = none := by
  cases hchild : tree.child? key with
  | none => rfl
  | some child => exact absurd rfl (hother _ (mem_of_child? hchild))

theorem child?_of_single [DecidableEq Key] {tree : KeyTree Key Value} {key : Key}
    (hchildren : tree.children = [(key, child)]) :
    tree.child? key = some child := by
  simp [child?, hchildren]

theorem child?_of_single_of_ne [DecidableEq Key] {tree : KeyTree Key Value}
    {key other : Key} (hchildren : tree.children = [(key, child)]) (hne : other ≠ key) :
    tree.child? other = none := by
  apply child?_eq_none
  rw [hchildren]
  intro entry hentry
  rw [mem_singleton.mp hentry]
  exact hne.symm

/-- The values at a path. -/
def valuesAt [DecidableEq Key] : List Key → KeyTree Key Value → List Value
  | [], tree => tree.values
  | key :: path, tree => (tree.child? key).elim [] (valuesAt path)

mutual

/-- The values of a tree with their paths.  A node comes before its
children. -/
def entries : KeyTree Key Value → List (List Key × Value)
  | node values children =>
      values.map (fun value => ([], value)) ++ entriesAll children

def entriesAll : List (Key × KeyTree Key Value) → List (List Key × Value)
  | [] => []
  | (key, child) :: rest =>
      (entries child).map (fun entry => (key :: entry.1, entry.2)) ++
        entriesAll rest

end

section Adding

variable [Ord Key]

/-- Change the child under a key, which is empty if there was none. -/
def alter (key : Key) (change : KeyTree Key Value → KeyTree Key Value) :
    List (Key × KeyTree Key Value) → List (Key × KeyTree Key Value)
  | [] => [(key, change empty)]
  | (other, child) :: rest =>
      match compare key other with
      | .lt => (key, change empty) :: (other, child) :: rest
      | .eq => (other, change child) :: rest
      | .gt => (other, child) :: alter key change rest

/-- Add a value at a path. -/
def add : List Key → Value → KeyTree Key Value → KeyTree Key Value
  | [], value, node values children => node (values ++ [value]) children
  | key :: path, value, node values children =>
      node values (alter key (add path value) children)

/-- Add values at paths, one after the other. -/
def addAll (entries : List (List Key × Value)) (tree : KeyTree Key Value) :
    KeyTree Key Value :=
  entries.foldl (fun tree entry => add entry.1 entry.2 tree) tree

mutual

/-- The children are in the order of their keys, and there is a value in each of
them. -/
def Pruned : KeyTree Key Value → Prop
  | node _ children =>
      (children.Pairwise fun left right => compare left.1 right.1 = .lt) ∧
        PrunedAll children

def PrunedAll : List (Key × KeyTree Key Value) → Prop
  | [] => True
  | (_, child) :: rest =>
      (entries child ≠ [] ∧ Pruned child) ∧ PrunedAll rest

end

variable {children : List (Key × KeyTree Key Value)}

theorem prunedAll_iff : PrunedAll children ↔
      ∀ entry ∈ children, entries entry.2 ≠ [] ∧ Pruned entry.2 := by
  induction children with
  | nil => simp [PrunedAll]
  | cons first rest ih =>
    obtain ⟨key, child⟩ := first
    simp [PrunedAll, ih]

omit [Ord Key] in
theorem entriesAll_eq (children : List (Key × KeyTree Key Value)) :
    entriesAll children = children.flatMap fun entry =>
      (entries entry.2).map fun found => (entry.1 :: found.1, found.2) := by
  induction children with
  | nil => rfl
  | cons first rest ih =>
    obtain ⟨key, child⟩ := first
    simp [entriesAll, ih]

variable {tree : KeyTree Key Value}

omit [Ord Key] in
/-- The values at a path are listed with it. -/
theorem mem_entries_of_mem_valuesAt [DecidableEq Key] {path : List Key} {value : Value}
    (hvalue : value ∈ valuesAt path tree) :
    (path, value) ∈ entries tree := by
  induction path generalizing tree with
  | nil =>
    obtain ⟨values, children⟩ := tree
    exact mem_append_left _ (mem_map_of_mem hvalue)
  | cons key path ih =>
    obtain ⟨values, children⟩ := tree
    rw [valuesAt] at hvalue
    cases hchild : (node values children).child? key with
    | none =>
      rw [hchild] at hvalue
      cases hvalue
    | some child =>
      rw [hchild] at hvalue
      rw [entries, entriesAll_eq]
      refine mem_append_right _ (mem_flatMap.mpr ⟨(key, child), mem_of_child? hchild, ?_⟩)
      exact mem_map.mpr ⟨(path, value), ih hvalue, rfl⟩

/-! ## What adding keeps -/

variable {key : Key}

/-- A child after a change is the changed one or one of the others. -/
theorem mem_alter [Std.LawfulEqOrd Key] {change : KeyTree Key Value → KeyTree Key Value}
    {entry : Key × KeyTree Key Value} (hentry : entry ∈ alter key change children) :
    entry ∈ children ∨ entry = (key, change empty) ∨
      ∃ child, (key, child) ∈ children ∧ entry = (key, change child) := by
  induction children with
  | nil => exact .inr (.inl (mem_singleton.mp hentry))
  | cons first rest ih =>
    obtain ⟨other, child⟩ := first
    simp only [alter] at hentry
    cases horder : compare key other with
    | lt =>
      simp only [horder] at hentry
      rcases mem_cons.mp hentry with rfl | hentry
      · exact .inr (.inl rfl)
      · exact .inl hentry
    | eq =>
      have heq : key = other := Std.LawfulEqCmp.eq_of_compare horder
      subst heq
      simp only [horder] at hentry
      rcases mem_cons.mp hentry with rfl | hentry
      · exact .inr (.inr ⟨child, mem_cons_self, rfl⟩)
      · exact .inl (mem_cons_of_mem _ hentry)
    | gt =>
      simp only [horder] at hentry
      rcases mem_cons.mp hentry with rfl | hentry
      · exact .inl mem_cons_self
      · rcases ih hentry with hrest | hempty | ⟨found, hfound, rfl⟩
        · exact .inl (mem_cons_of_mem _ hrest)
        · exact .inr (.inl hempty)
        · exact .inr (.inr ⟨found, mem_cons_of_mem _ hfound, rfl⟩)

theorem pairwise_alter [Std.TransOrd Key] [Std.LawfulEqOrd Key] (key : Key)
    (change : KeyTree Key Value → KeyTree Key Value)
    (hordered : children.Pairwise fun left right => compare left.1 right.1 = .lt) :
    (alter key change children).Pairwise fun left right =>
      compare left.1 right.1 = .lt := by
  induction children with
  | nil => simp [alter]
  | cons first rest ih =>
    obtain ⟨other, child⟩ := first
    obtain ⟨hfirst, hrest⟩ := pairwise_cons.mp hordered
    simp only [alter]
    cases horder : compare key other with
    | lt =>
      refine pairwise_cons.mpr ⟨fun entry hentry => ?_, hordered⟩
      rcases mem_cons.mp hentry with rfl | hentry
      · exact horder
      · exact Std.TransCmp.lt_trans horder (hfirst entry hentry)
    | eq => exact pairwise_cons.mpr ⟨hfirst, hrest⟩
    | gt =>
      refine pairwise_cons.mpr ⟨fun entry hentry => ?_, ih hrest⟩
      rcases mem_alter hentry with hentry | rfl | ⟨found, -, rfl⟩
      · exact hfirst entry hentry
      all_goals exact Std.OrientedCmp.gt_iff_lt.mp horder

theorem entriesAll_alter_ne_nil (key : Key)
    {change : KeyTree Key Value → KeyTree Key Value}
    (hchange : ∀ tree, entries (change tree) ≠ [])
    (children : List (Key × KeyTree Key Value)) :
    entriesAll (alter key change children) ≠ [] := by
  induction children with
  | nil => simp [alter, entriesAll, hchange]
  | cons first rest ih =>
    obtain ⟨other, child⟩ := first
    simp only [alter]
    cases horder : compare key other with
    | lt | eq => simp [entriesAll, hchange]
    | gt => simp [entriesAll, ih]

theorem entries_add_ne_nil (path : List Key) (value : Value) (tree : KeyTree Key Value) :
    entries (add path value tree) ≠ [] := by
  induction path generalizing tree with
  | nil =>
    obtain ⟨values, children⟩ := tree
    simp [add, entries]
  | cons key path ih =>
    obtain ⟨values, children⟩ := tree
    simp [add, entries, entriesAll_alter_ne_nil key ih children]

theorem pruned_empty : Pruned (empty : KeyTree Key Value) := by
  simp [empty, Pruned, PrunedAll]

theorem Pruned.add [Std.TransOrd Key] [Std.LawfulEqOrd Key] (path : List Key)
    (value : Value) {tree : KeyTree Key Value} (hpruned : tree.Pruned) :
    (add path value tree).Pruned := by
  induction path generalizing tree with
  | nil =>
    obtain ⟨values, children⟩ := tree
    exact hpruned
  | cons key path ih =>
    obtain ⟨values, children⟩ := tree
    obtain ⟨hordered, hall⟩ := hpruned
    rw [prunedAll_iff] at hall
    refine ⟨pairwise_alter key _ hordered, prunedAll_iff.mpr ?_⟩
    intro entry hentry
    rcases mem_alter hentry with hentry | rfl | ⟨found, hfound, rfl⟩
    · exact hall entry hentry
    · exact ⟨entries_add_ne_nil path value _, ih pruned_empty⟩
    · exact ⟨entries_add_ne_nil path value _, ih (hall _ hfound).2⟩

theorem Pruned.addAll [Std.TransOrd Key] [Std.LawfulEqOrd Key]
    (entries : List (List Key × Value)) {tree : KeyTree Key Value}
    (hpruned : tree.Pruned) :
    (addAll entries tree).Pruned := by
  induction entries generalizing tree with
  | nil => exact hpruned
  | cons entry entries ih => exact ih (hpruned.add entry.1 entry.2)

/-- What a tree lists after a value was added is that value or was listed
before. -/
theorem mem_entries_add [Std.LawfulEqOrd Key] {path : List Key} {value : Value}
    {entry : List Key × Value} (hentry : entry ∈ entries (add path value tree)) :
    entry = (path, value) ∨ entry ∈ entries tree := by
  induction path generalizing tree entry with
  | nil =>
    obtain ⟨values, children⟩ := tree
    simp only [add, entries, map_append, append_assoc] at hentry ⊢
    simp only [mem_append, map_cons, map_nil, mem_singleton] at hentry ⊢
    tauto
  | cons key path ih =>
    obtain ⟨values, children⟩ := tree
    rw [add, entries, entriesAll_eq] at hentry
    rw [entries, entriesAll_eq]
    rcases mem_append.mp hentry with hvalue | hchild
    · exact .inr (mem_append_left _ hvalue)
    obtain ⟨⟨found, child⟩, hfound, hentry⟩ := mem_flatMap.mp hchild
    obtain ⟨below, hbelow, rfl⟩ := mem_map.mp hentry
    rcases mem_alter hfound with hold | hnew | ⟨old, hold, hnew⟩
    · exact .inr (mem_append_right _ (mem_flatMap.mpr ⟨_, hold, hentry⟩))
    · cases hnew
      rcases ih hbelow with rfl | hnone
      · exact .inl rfl
      · simp [empty, entries, entriesAll] at hnone
    · cases hnew
      rcases ih hbelow with rfl | hlisted
      · exact .inl rfl
      · exact .inr (mem_append_right _ (mem_flatMap.mpr
          ⟨_, hold, mem_map.mpr ⟨below, hlisted, rfl⟩⟩))

theorem mem_entries_addAll [Std.LawfulEqOrd Key] {added : List (List Key × Value)}
    {entry : List Key × Value} (hentry : entry ∈ entries (addAll added tree)) :
    entry ∈ added ∨ entry ∈ entries tree := by
  induction added generalizing tree with
  | nil => exact .inr hentry
  | cons first added ih =>
    rcases ih hentry with hadded | htree
    · exact .inl (mem_cons_of_mem _ hadded)
    · rcases mem_entries_add htree with rfl | htree
      · exact .inl mem_cons_self
      · exact .inr htree

/-! ## Trees are given back by their values -/

variable (change : KeyTree Key Value → KeyTree Key Value)

theorem alter_last [Std.OrientedOrd Key]
    (hlast : ∀ entry ∈ children, compare entry.1 key = .lt) :
    alter key change children = children ++ [(key, change empty)] := by
  induction children with
  | nil => rfl
  | cons first rest ih =>
    obtain ⟨other, child⟩ := first
    have hgt : compare key other = .gt :=
      Std.OrientedCmp.gt_iff_lt.mpr (hlast _ mem_cons_self)
    simp only [alter, hgt, cons_append]
    rw [ih fun entry hentry => hlast entry (mem_cons_of_mem _ hentry)]

theorem alter_of_last [Std.OrientedOrd Key]
    (hlast : ∀ entry ∈ children, compare entry.1 key = .lt) (child : KeyTree Key Value) :
    alter key change (children ++ [(key, child)]) = children ++
      [(key, change child)] := by
  induction children with
  | nil => simp [alter]
  | cons first rest ih =>
    obtain ⟨other, found⟩ := first
    have hgt : compare key other = .gt :=
      Std.OrientedCmp.gt_iff_lt.mpr (hlast _ mem_cons_self)
    simp only [cons_append, alter, hgt]
    rw [ih fun entry hentry => hlast entry (mem_cons_of_mem _ hentry)]

theorem addAll_last [Std.OrientedOrd Key] (found : List (List Key × Value))
    (values : List Value) (hlast : ∀ entry ∈ children, compare entry.1 key = .lt)
    (child : KeyTree Key Value) :
    addAll (found.map fun entry => (key :: entry.1, entry.2))
        (node values (children ++ [(key, child)])) =
      node values (children ++ [(key, addAll found child)]) := by
  induction found generalizing child with
  | nil => rfl
  | cons entry found ih =>
    rw [map_cons, addAll, foldl_cons, add, alter_of_last _ hlast]
    exact ih (add entry.1 entry.2 child)

theorem addAll_new [Std.OrientedOrd Key] {found : List (List Key × Value)}
    (hfound : found ≠ []) (values : List Value)
    (hlast : ∀ entry ∈ children, compare entry.1 key = .lt) :
    addAll (found.map fun entry => (key :: entry.1, entry.2)) (node values children) =
      node values (children ++ [(key, addAll found empty)]) := by
  cases found with
  | nil => exact absurd rfl hfound
  | cons entry found =>
    rw [map_cons, addAll, foldl_cons, add, alter_last _ hlast]
    exact addAll_last found values hlast (add entry.1 entry.2 empty)

theorem addAll_append (first second : List (List Key × Value))
    (tree : KeyTree Key Value) :
    addAll (first ++ second) tree = addAll second (addAll first tree) :=
  foldl_append

theorem addAll_values (values before : List Value)
    (children : List (Key × KeyTree Key Value)) :
    addAll (values.map fun value => ([], value)) (node before children) =
      node (before ++ values) children := by
  induction values generalizing before with
  | nil => simp [addAll]
  | cons value values ih =>
    have hrest := ih (before ++ [value])
    rw [append_assoc] at hrest
    exact hrest

mutual

/-- Adding what a tree lists gives the tree. -/
theorem addAll_entries [Std.TransOrd Key] : ∀ {tree : KeyTree Key Value}, tree.Pruned →
      addAll (entries tree) empty = tree
  | node values children, hpruned => by
      rw [entries, addAll_append, empty, addAll_values]
      exact addAll_entriesAll values [] children hpruned.1 hpruned.2

theorem addAll_entriesAll [Std.TransOrd Key] (values : List Value)
    (before : List (Key × KeyTree Key Value)) :
    ∀ children : List (Key × KeyTree Key Value),
      ((before ++ children).Pairwise fun left right =>
        compare left.1 right.1 = .lt) →
      PrunedAll children →
      addAll (entriesAll children) (node values before) = node values (before ++ children)
  | [], _, _ => by simp [entriesAll, addAll]
  | (key, child) :: rest, hordered, hpruned => by
      obtain ⟨⟨hentries, hchild⟩, hrest⟩ := hpruned
      have hlast : ∀ entry ∈ before, compare entry.1 key = .lt :=
        fun entry hentry => (pairwise_append.mp hordered).2.2 entry hentry
          (key, child) mem_cons_self
      have happend : before ++ (key, child) :: rest = before ++ [(key, child)] ++
        rest := by simp
      rw [happend] at hordered ⊢
      rw [entriesAll, addAll_append, addAll_new hentries values hlast,
        addAll_entries hchild]
      exact addAll_entriesAll values (before ++ [(key, child)]) rest hordered hrest

end

end Adding

end KeyTree

end Restpose
