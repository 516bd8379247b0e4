import Restpose.Taxonomy.AddParent
import Restpose.Taxonomy.Remove

/-!
# Reachable taxonomies

A taxonomy starts empty and changes by calls of its four editing operations and
by being read from JSON.  The representation invariant holds in every taxonomy
reached that way, whether or not the calls threw, and every call reports the
categories it changed.
-/

namespace Restpose

open Relation Edit

namespace Taxonomy

/-- The calls that edit a taxonomy. -/
inductive Call where
  | add (name : Bytes)
  | remove (name : Bytes)
  | addParent (name parent : Bytes)
  | removeParent (name parent : Bytes)
  deriving DecidableEq

/-- What a call does, with the state it leaves behind when it throws. -/
def Call.run (edit : Edit) : Call → Outcome Edit
  | .add name => ⟨edit.add name, none⟩
  | .remove name => ⟨edit.remove name, none⟩
  | .addParent name parent => edit.addParent name parent
  | .removeParent name parent => ⟨edit.removeParent name parent, none⟩

variable {edit : Edit}

theorem Call.run_spec (hwell : edit.taxonomy.WellFormed) (call : Call) :
    (call.run edit).state.taxonomy.WellFormed ∧
      Edit.Exact edit (call.run edit).state := by
  cases call with
  | add name =>
    exact ⟨wellFormed_add hwell name, ((Edit.Grown.refl edit).add name).exact⟩
  | remove name => exact remove_spec hwell name
  | addParent name parent =>
    have hspec := addParent_spec hwell (Edit.Grown.refl edit) name parent
    exact ⟨hspec.1, hspec.2.exact⟩
  | removeParent name parent => exact removeParent_spec hwell name parent

theorem wellFormed_addParentItems (name : Bytes) (items : List Json)
    (hwell : edit.taxonomy.WellFormed) :
    (addParentItems name items edit).state.taxonomy.WellFormed := by
  induction items generalizing edit with
  | nil => exact hwell
  | cons item items ih =>
    unfold addParentItems
    split
    next => exact hwell
    next parent _ =>
    have hadded := (Call.run_spec hwell (.addParent name parent)).1
    simp only [Call.run] at hadded
    split
    next added heq =>
      rw [heq] at hadded
      exact ih hadded
    next => exact hadded

theorem wellFormed_addMembers (members : List (Bytes × Json))
    (hwell : edit.taxonomy.WellFormed) :
    (addMembers members edit).state.taxonomy.WellFormed := by
  induction members generalizing edit with
  | nil => exact hwell
  | cons entry rest ih =>
    obtain ⟨name, item⟩ := entry
    have hadded := wellFormed_add hwell name
    unfold addMembers
    split
    next => exact ih hadded
    next =>
    split
    next => exact hadded
    next =>
      have hitems := wellFormed_addParentItems name item.items hadded
      split
      next added heq =>
        rw [heq] at hitems
        exact ih hitems
      next => exact hitems

theorem wellFormed_fromJson (value : Json) : (fromJson value).state.WellFormed := by
  unfold fromJson
  split
  next => exact wellFormed_empty
  next => exact wellFormed_addMembers value.members wellFormed_empty

/-- The taxonomies reached from the empty one.  A call may find any names in
its caller's `modified`, and may throw. -/
inductive Reachable : Taxonomy → Prop where
  | empty : Reachable Taxonomy.empty
  | call {taxonomy : Taxonomy} (hreachable : Reachable taxonomy) (call : Call)
      (modified : Categories) :
      Reachable (call.run ⟨taxonomy, modified⟩).state.taxonomy
  | fromJson {taxonomy : Taxonomy} (hreachable : Reachable taxonomy)
      (value : Json) : Reachable (Taxonomy.fromJson value).state

theorem Reachable.invariant {taxonomy : Taxonomy} (hreachable : Reachable taxonomy) :
    taxonomy.WellFormed := by
  induction hreachable with
  | empty => exact wellFormed_empty
  | call _ call modified ih => exact (call.run_spec ih).1
  | fromJson _ value _ => exact wellFormed_fromJson value

/-- In every reachable taxonomy all names in the four sets are known, the
parent and child relations mirror each other, there is no cycle, and the
stored closures are the transitive closures. -/
theorem reachable_relations {taxonomy : Taxonomy}
    (hreachable : Reachable taxonomy) :
    (∀ link name, taxonomy.linked link name ⊆ taxonomy.names) ∧
      (∀ child parent, parent ∈ taxonomy.linked .parents child ↔
        child ∈ taxonomy.linked .children parent) ∧
      (∀ name, ¬ TransGen (taxonomy.Edge .parents) name name) ∧
      (∀ name other, other ∈ taxonomy.linked .ancestors name ↔
        TransGen (taxonomy.Edge .parents) name other) ∧
      ∀ name other, other ∈ taxonomy.linked .descendants name ↔
        TransGen (taxonomy.Edge .children) name other := by
  have hwell := hreachable.invariant
  exact ⟨hwell.known, hwell.dual, hwell.acyclic, hwell.ancestors_iff,
    hwell.descendants_iff⟩

/-- A chain of two edges, with an attempt to close it. -/
def chain : Taxonomy :=
  let first := Call.run ⟨empty, ∅⟩ (.addParent (ascii "b") (ascii "a"))
  let second := Call.run ⟨first.state.taxonomy, ∅⟩
    (.addParent (ascii "c") (ascii "b"))
  (Call.run ⟨second.state.taxonomy, ∅⟩
    (.addParent (ascii "a") (ascii "c"))).state.taxonomy

theorem reachable_chain : Reachable chain := .call (.call (.call .empty _ ∅) _ ∅) _ ∅

theorem reachable_relations_chain :
    ascii "a" ∈ chain.linked .ancestors (ascii "c") ∧
      TransGen (chain.Edge .parents) (ascii "c") (ascii "a") ∧
      ¬ TransGen (chain.Edge .parents) (ascii "a") (ascii "a") := by
  obtain ⟨_, _, hacyclic, hancestors, _⟩ := reachable_relations reachable_chain
  have hstored : ascii "a" ∈ chain.linked .ancestors (ascii "c") := by decide
  exact ⟨hstored, (hancestors _ _).mp hstored, hacyclic _⟩

/-- `add_parent` throws on exactly the edges that would close a cycle, and then
leaves the taxonomy and the names its caller collected as they were. -/
theorem addParent_throws_iff {taxonomy : Taxonomy}
    (hreachable : Reachable taxonomy) (modified : Categories)
    (name parent : Bytes) :
    ((Edit.addParent ⟨taxonomy, modified⟩ name parent).thrown ≠ none ↔
        name = parent ∨ TransGen (taxonomy.Edge .children) name parent) ∧
      ((Edit.addParent ⟨taxonomy, modified⟩ name parent).thrown ≠ none →
        (Edit.addParent ⟨taxonomy, modified⟩ name parent).state =
          ⟨taxonomy, modified⟩) := by
  have hwell : (⟨taxonomy, modified⟩ : Edit).taxonomy.WellFormed :=
    hreachable.invariant
  rw [← hreachable.invariant.descendants_iff]
  by_cases hloop : name = parent ∨
      parent ∈ taxonomy.linked .descendants name
  · obtain ⟨error, heq⟩ := Edit.addParent_of_loop hwell hloop
    rw [heq]
    exact ⟨⟨fun _ => hloop, fun _ => nofun⟩, fun _ => rfl⟩
  · rw [Edit.addParent_of_not_loop hwell hloop]
    exact ⟨⟨fun hthrown => absurd rfl hthrown, fun hthen => absurd hthen hloop⟩,
      fun hthrown => absurd rfl hthrown⟩

theorem addParent_throws_iff_chain :
    (Edit.addParent ⟨chain, ∅⟩ (ascii "a") (ascii "c")).thrown ≠ none ∧
      TransGen (chain.Edge .children) (ascii "a") (ascii "c") ∧
      (Edit.addParent ⟨chain, ∅⟩ (ascii "a") (ascii "c")).state =
        ⟨chain, ∅⟩ := by
  obtain ⟨hiff, hstate⟩ :=
    addParent_throws_iff reachable_chain ∅ (ascii "a") (ascii "c")
  have hthrown :
      (Edit.addParent ⟨chain, ∅⟩ (ascii "a") (ascii "c")).thrown ≠ none := by
    decide
  exact ⟨hthrown, (hiff.mp hthrown).resolve_left (by decide), hstate hthrown⟩

/-- A call reports in `modified` the names of the categories it created or
removed, or whose sets it changed, and no others. -/
theorem modified_exact {taxonomy : Taxonomy} (hreachable : Reachable taxonomy)
    (call : Call) (name : Bytes) :
    name ∈ (call.run ⟨taxonomy, ∅⟩).state.modified ↔
      Edit.Changed taxonomy (call.run ⟨taxonomy, ∅⟩).state.taxonomy name := by
  have hwell : (⟨taxonomy, ∅⟩ : Edit).taxonomy.WellFormed :=
    hreachable.invariant
  have hexact := (call.run_spec hwell).2 name
  simpa using hexact

theorem modified_exact_chain :
    (Call.run ⟨chain, ∅⟩ (.removeParent (ascii "c") (ascii "b"))).state.modified
        = {ascii "a", ascii "b", ascii "c"} ∧
      Edit.Changed chain (Call.run ⟨chain, ∅⟩
        (.removeParent (ascii "c") (ascii "b"))).state.taxonomy (ascii "a") := by
  have hmodified : (Call.run ⟨chain, ∅⟩
      (.removeParent (ascii "c") (ascii "b"))).state.modified =
        {ascii "a", ascii "b", ascii "c"} := by
    decide
  refine ⟨hmodified, ?_⟩
  rw [← modified_exact reachable_chain, hmodified]
  exact Finset.mem_insert_self _ _

end Taxonomy

end Restpose
