import Restpose.Core.Loops
import Restpose.Json.Value

/-!
# The hierarchy of categories

A taxonomy maps category names to categories.  Each category stores its direct
parents and children and, redundantly, all its ancestors and descendants.  The
operations below keep the redundant sets up to date edge by edge and report in
`modified` the names of the categories they touched, as `taxonomy.cc` does.
-/

namespace Restpose

/-- `typedef std::set<std::string> Categories`. -/
abbrev Categories := Finset Bytes

/-- A category in the hierarchy. -/
structure Category where
  name : Bytes
  parents : Categories
  children : Categories
  ancestors : Categories
  descendants : Categories
  deriving DecidableEq

/-- The four sets a category keeps. -/
inductive Link where
  | parents
  | children
  | ancestors
  | descendants
  deriving DecidableEq

namespace Category

/-- `Category(name)`, with all sets empty. -/
def create (name : Bytes) : Category :=
  ⟨name, ∅, ∅, ∅, ∅⟩

def linked (category : Category) : Link → Categories
  | .parents => category.parents
  | .children => category.children
  | .ancestors => category.ancestors
  | .descendants => category.descendants

def relink (category : Category) : Link → Categories → Category
  | .parents, value => { category with parents := value }
  | .children, value => { category with children := value }
  | .ancestors, value => { category with ancestors := value }
  | .descendants, value => { category with descendants := value }

@[simp]
theorem linked_create (name : Bytes) (link : Link) : (create name).linked link = ∅ := by
  cases link <;> rfl

@[simp]
theorem linked_relink (category : Category) (link other : Link) (value : Categories) :
    (category.relink link value).linked other =
      if other = link then value else category.linked other := by
  cases link <;> cases other <;> rfl

@[simp]
theorem name_relink (category : Category) (link : Link) (value : Categories) :
    (category.relink link value).name = category.name := by
  cases link <;> rfl

theorem ext_linked {left right : Category} (hname : left.name = right.name)
    (hlinked : ∀ link, left.linked link = right.linked link) : left = right := by
  cases left
  cases right
  simp only [mk.injEq]
  exact ⟨hname, hlinked .parents, hlinked .children, hlinked .ancestors,
    hlinked .descendants⟩

/-- `if (changed) modified.insert(name)`. -/
def note (category : Category) (changed : Bool) (modified : Categories) :
    Categories :=
  if changed then insert category.name modified else modified

/-- A member function that updates a category in place and notes in
`modified` whether it did.  None of them renames the category. -/
structure Mutator where
  run : Category → Categories → Category × Categories
  name_run : ∀ category modified, (run category modified).1.name = category.name

/-- Insert a name into one of the sets, as `std::set::insert` does: the second
component of its result says whether the name was new. -/
def insertLink (link : Link) (member : Bytes) : Mutator where
  run := fun category modified =>
    (category.relink link (insert member (category.linked link)),
      category.note (decide (member ∉ category.linked link)) modified)
  name_run := by simp

/-- Insert a name into a direct set and into the closure that includes it. -/
def insertBoth (direct closure : Link) (member : Bytes) : Mutator where
  run := fun category modified =>
    ((category.relink direct (insert member (category.linked direct))).relink
        closure (insert member (category.linked closure)),
      category.note (decide (member ∉ category.linked direct) ||
        decide (member ∉ category.linked closure)) modified)
  name_run := by simp

/-- Erase a name from one of the sets; `std::set::erase` returns how many
elements it removed. -/
def eraseLink (link : Link) (member : Bytes) : Mutator where
  run := fun category modified =>
    (category.relink link ((category.linked link).erase member),
      category.note (decide (member ∈ category.linked link)) modified)
  name_run := by simp

/-- Replace one of the sets, noting whether it differs from the old one. -/
def setLink (link : Link) (value : Categories) : Mutator where
  run := fun category modified =>
    (category.relink link value,
      category.note (decide (category.linked link ≠ value)) modified)
  name_run := by simp

def addParent : Bytes → Mutator :=
  insertBoth .parents .ancestors

def addChild : Bytes → Mutator :=
  insertBoth .children .descendants

def addAncestor : Bytes → Mutator :=
  insertLink .ancestors

def addDescendant : Bytes → Mutator :=
  insertLink .descendants

def removeParent : Bytes → Mutator :=
  eraseLink .parents

def removeChild : Bytes → Mutator :=
  eraseLink .children

def setAncestors : Categories → Mutator :=
  setLink .ancestors

def setDescendants : Categories → Mutator :=
  setLink .descendants

end Category

/-- The categories by name.  Every entry carries the name it is stored
under. -/
structure Taxonomy where
  categories : StdMap Category
  named : ∀ (name : Bytes) (category : Category),
    categories[name]? = some category → category.name = name

/-- A taxonomy in the middle of an operation, with the caller's set of
modified names. -/
structure Edit where
  taxonomy : Taxonomy
  modified : Categories

namespace Taxonomy

/-- The empty taxonomy. -/
def empty : Taxonomy where
  categories := ∅
  named := by simp

def find (taxonomy : Taxonomy) (name : Bytes) : Option Category :=
  taxonomy.categories[name]?

/-- One of the sets of a named category, empty if there is no such category. -/
def linked (taxonomy : Taxonomy) (link : Link) (name : Bytes) :
    Categories :=
  ((taxonomy.find name).map fun category => category.linked link).getD ∅

/-- The names of all categories. -/
def names (taxonomy : Taxonomy) : Finset Bytes :=
  taxonomy.categories.keySet

end Taxonomy

namespace Edit

/-- Run a mutator on `categories.find(name)->second`.  Looking up an unknown
name is undefined in the source; the model then changes nothing. -/
def mutate (edit : Edit) (name : Bytes) (mutator : Category.Mutator) :
    Edit where
  taxonomy :=
    { categories := edit.taxonomy.categories.modify name fun category =>
        (mutator.run category edit.modified).1
      named := by
        intro other category hfind
        rw [Std.ExtTreeMap.getElem?_modify] at hfind
        split at hfind
        · obtain ⟨old, hold, rfl⟩ := Option.map_eq_some_iff.mp hfind
          rw [mutator.name_run]
          have hsame : name = other := by simpa using ‹compare name other = .eq›
          rw [← hsame]
          exact edit.taxonomy.named name old hold
        · exact edit.taxonomy.named other category hfind }
  modified :=
    match edit.taxonomy.find name with
    | none => edit.modified
    | some category => (mutator.run category edit.modified).2

end Edit

/-- The local variables of the loop that recalculates a closure. -/
structure Recalc where
  closure : Categories
  seen : Categories
  stack : Categories

namespace Taxonomy

/-- One pass of the `while` loop of `recalc_ancestors` and
`recalc_descendants`: expand the first element of the stack.  The set `seen`
is filled and never consulted. -/
def recalcPass (taxonomy : Taxonomy) (edge : Link) (state : Recalc) : Recalc :=
  match state.stack.min with
  | none => state
  | some key =>
      match taxonomy.find key with
      | none => { state with stack := state.stack.erase key }
      | some category =>
          { closure := insert category.name state.closure
            seen := insert category.name state.seen
            stack := state.stack.erase key ∪ category.linked edge }

/-- The whole loop, started on the direct links of `name`. -/
def recalcLoop (taxonomy : Taxonomy) (edge : Link) (name : Bytes) :
    Recalc :=
  Loops.whileLoop (fun state => decide state.stack.Nonempty)
    (taxonomy.recalcPass edge) (2 ^ taxonomy.categories.size)
    ⟨∅, ∅, taxonomy.linked edge name⟩

end Taxonomy

namespace Edit

/-- Recalculate a closure of a category by following `edge`, and store it
with `store`. -/
def recalc (edge : Link) (store : Categories → Category.Mutator)
    (name : Bytes) (edit : Edit) : Edit :=
  edit.mutate name (store (edit.taxonomy.recalcLoop edge name).closure)

def recalcAncestors : Bytes → Edit → Edit :=
  recalc .parents Category.setAncestors

def recalcDescendants : Bytes → Edit → Edit :=
  recalc .children Category.setDescendants

/-- A `for` loop over one of the sets of the category `name`. -/
def forLinked (link : Link) (name : Bytes)
    (body : Bytes → Edit → Edit) (edit : Edit) : Edit :=
  Loops.forEach (fun current => current.taxonomy.linked link name) body
    edit.taxonomy.categories.size edit

def add (edit : Edit) (name : Bytes) : Edit :=
  match edit.taxonomy.find name with
  | some _ => edit
  | none =>
      { taxonomy :=
          { categories := edit.taxonomy.categories.insert name
              (Category.create name)
            named := by
              intro other category hfind
              rw [Std.ExtTreeMap.getElem?_insert] at hfind
              split at hfind
              · have hsame : name = other := by
                  simpa using ‹compare name other = .eq›
                rw [← hsame, ← Option.some.inj hfind]
                rfl
              · exact edit.taxonomy.named other category hfind }
        modified := insert name edit.modified }

/-- `categories.erase(name); modified.insert(name)`. -/
def erase (edit : Edit) (name : Bytes) : Edit where
  taxonomy :=
    { categories := edit.taxonomy.categories.erase name
      named := by
        intro other category hfind
        rw [Std.ExtTreeMap.getElem?_erase] at hfind
        split at hfind
        · contradiction
        · exact edit.taxonomy.named other category hfind }
  modified := insert name edit.modified

/-- The first two loops of `Taxonomy::remove`: the category disappears from
the direct links of its neighbours. -/
def detach (edit : Edit) (name : Bytes) : Edit :=
  edit
    |>.forLinked .parents name (fun parent current =>
        current.mutate parent (Category.removeChild name))
    |>.forLinked .children name (fun child current =>
        current.mutate child (Category.removeParent name))

def remove (edit : Edit) (name : Bytes) : Edit :=
  match edit.taxonomy.find name with
  | none => edit
  | some _ =>
      edit.detach name
        |>.forLinked .ancestors name recalcDescendants
        |>.forLinked .descendants name recalcAncestors
        |>.erase name

/-- The error of `Taxonomy::add_parent` on an edge that would close a loop. -/
def loopError (name parent : Bytes) : InvalidValueError :=
  ⟨ascii "Attempt to create loop in taxonomy: '" ++ parent ++
    ascii "' is a descendant of '" ++ name ++
    ascii "' - can't add it as a parent"⟩

/-- The tests of `Taxonomy::add_parent` against a loop: some ancestor of the
new parent, or the parent itself, is a descendant of the category. -/
def wouldLoop (edit : Edit) (name parent : Bytes) : Bool :=
  decide (∃ ancestor ∈ edit.taxonomy.linked .ancestors parent,
      ancestor ∈ edit.taxonomy.linked .descendants name) ||
    decide (parent ∈ edit.taxonomy.linked .descendants name)

/-- The body of the nested loops of `Taxonomy::add_parent`. -/
def relate (descendant ancestor : Bytes) (edit : Edit) : Edit :=
  (edit.mutate descendant (Category.addAncestor ancestor)).mutate ancestor
    (Category.addDescendant descendant)

/-- The four calls of `Taxonomy::add_parent` that enter the edge itself. -/
def attach (edit : Edit) (name parent : Bytes) : Edit :=
  edit
    |>.mutate name (Category.addParent parent)
    |>.mutate name (Category.addAncestor parent)
    |>.mutate parent (Category.addChild name)
    |>.mutate parent (Category.addDescendant name)

/-- The part of `Taxonomy::add_parent` after the tests. -/
def connect (edit : Edit) (name parent : Bytes) : Edit :=
  edit.attach name parent
    |>.forLinked .descendants name (fun descendant =>
        forLinked .ancestors name (fun ancestor => relate descendant ancestor))
    |>.forLinked .ancestors parent (fun ancestor =>
        forLinked .descendants parent (fun descendant current =>
          (current.mutate ancestor (Category.addDescendant descendant)).mutate
            descendant (Category.addAncestor ancestor)))

def addParent (edit : Edit) (name parent : Bytes) : Outcome Edit :=
  if name = parent then
    ⟨edit, some ⟨ascii "Cannot set category as parent of itself"⟩⟩
  else
    let added := (edit.add name).add parent
    if added.wouldLoop name parent then ⟨added, some (loopError name parent)⟩
    else ⟨added.connect name parent, none⟩

/-- The two calls of `Taxonomy::remove_parent` that take the edge out. -/
def disconnect (edit : Edit) (name parent : Bytes) : Edit :=
  edit
    |>.mutate parent (Category.removeChild name)
    |>.mutate name (Category.removeParent parent)

def removeParent (edit : Edit) (name parent : Bytes) : Edit :=
  if name = parent then edit
  else
    match edit.taxonomy.find name, edit.taxonomy.find parent with
    | some _, some _ =>
        edit.disconnect name parent
          |>.recalcAncestors name
          |>.recalcDescendants parent
          |>.forLinked .descendants name recalcAncestors
          |>.forLinked .ancestors parent recalcDescendants
    | _, _ => edit

/-- The inner loop of `Taxonomy::from_json`, over the parents listed for one
category. -/
def addParentItems (name : Bytes) : List Json → Edit → Outcome Edit
  | [], edit => ⟨edit, none⟩
  | item :: items, edit =>
      match item.checkString "category parent" with
      | .error error => ⟨edit, some error⟩
      | .ok parent =>
          match edit.addParent name parent with
          | ⟨added, none⟩ => addParentItems name items added
          | failed => failed

/-- The outer loop of `Taxonomy::from_json`. -/
def addMembers : List (Bytes × Json) → Edit → Outcome Edit
  | [], edit => ⟨edit, none⟩
  | (name, item) :: rest, edit =>
      if item.isNull then addMembers rest (edit.add name)
      else
        match item.checkArray "list of category parents" with
        | .error error => ⟨edit.add name, some error⟩
        | .ok () =>
            match addParentItems name item.items (edit.add name) with
            | ⟨added, none⟩ => addMembers rest added
            | failed => failed

end Edit

namespace Taxonomy

/-- `Taxonomy::from_json`.  The old categories are gone even when it throws. -/
def fromJson (value : Json) : Outcome Taxonomy :=
  match value.checkObject "taxonomy" with
  | .error error => ⟨empty, some error⟩
  | .ok () =>
      let outcome := Edit.addMembers value.members ⟨empty, ∅⟩
      ⟨outcome.state.taxonomy, outcome.thrown⟩

end Taxonomy

end Restpose
