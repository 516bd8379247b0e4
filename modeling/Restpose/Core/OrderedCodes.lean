import Mathlib

/-!
# Codes that keep an order

A code keeps an order if the comparison of two encoded values, each followed by
anything, is that of the values, and only if they are equal that of what
follows.  Such codes can be put one after the other: the texts compare as the
values do, one after the other.
-/

namespace Restpose

open List

variable {Symbol Value Kind : Type} [Ord Symbol]

/-- A code for some values that keeps an order on them. -/
def OrderedCode (valid : Value → Prop) (order : Value → Value → Ordering)
    (encode : Value → List Symbol) : Prop :=
  ∀ left right, valid left → valid right → ∀ first second,
    compare (encode left ++ first) (encode right ++ second) =
      (order left right).then (compare first second)

/-- Values of several kinds, one after the other. -/
def encodeAll (encode : Kind → Value → List Symbol) :
    List Kind → List Value → List Symbol
  | kind :: kinds, value :: values =>
      encode kind value ++ encodeAll encode kinds values
  | _, _ => []

/-- The comparison of values of several kinds: the first that are different
decide. -/
def compareAll (order : Kind → Value → Value → Ordering) :
    List Kind → List Value → List Value → Ordering
  | kind :: kinds, left :: lefts, right :: rights =>
      (order kind left right).then (compareAll order kinds lefts rights)
  | _, _, _ => .eq

/-- All values are valid for their kinds. -/
def ValidAll (valid : Kind → Value → Prop) (kinds : List Kind)
    (values : List Value) : Prop :=
  List.Forall₂ valid kinds values

/-- Codes that keep their orders keep the order of sequences. -/
theorem compare_encodeAll {valid : Kind → Value → Prop}
    {order : Kind → Value → Value → Ordering} {encode : Kind → Value → List Symbol}
    (hcodes : ∀ kind, OrderedCode (valid kind) (order kind) (encode kind))
    {kinds : List Kind} {lefts rights : List Value} (hlefts : ValidAll valid kinds lefts)
    (hrights : ValidAll valid kinds rights) :
    compare (encodeAll encode kinds lefts) (encodeAll encode kinds rights) =
      compareAll order kinds lefts rights := by
  induction hlefts generalizing rights with
  | nil =>
    cases hrights with
    | nil => rfl
  | @cons kind left kinds lefts hleft _ ih =>
    cases hrights with
    | @cons _ right _ rights hright hrest =>
      rw [encodeAll, encodeAll, compareAll, hcodes kind left right hleft hright, ih hrest]

theorem OrderedCode.cons [Std.ReflOrd Symbol] {valid : Value → Prop}
    {order : Value → Value → Ordering} {encode : Value → List Symbol}
    (hcode : OrderedCode valid order encode) (symbol : Symbol) :
    OrderedCode valid order fun value => symbol :: encode value := by
  intro left right hleft hright first second
  have hcons : compare (symbol :: (encode left ++ first))
    (symbol :: (encode right ++ second)) =
      (compare symbol symbol).then
        (compare (encode left ++ first) (encode right ++ second)) :=
    List.compareLex_cons_cons
  rw [List.cons_append, List.cons_append, hcons, Std.ReflOrd.compare_self,
    Ordering.eq_then, hcode left right hleft hright]

/-! ## Codes that are followed by something -/

section Followed

variable {Letter : Type} [LinearOrder Letter]
  {first second left right : List Letter}

theorem append_lt_append_iff : first ++ left < first ++ right ↔ left < right := by
  induction first with
  | nil => rfl
  | cons letter first ih =>
    rw [cons_append, cons_append, cons_lt_cons_iff, ih]
    simp

/-- A text that another one does not begin with compares with it whatever
follows. -/
theorem append_lt_append_of_not_begins (hlt : first < second)
    (hbegins : ¬first <+: second) : first ++ left < second ++ right := by
  induction first generalizing second with
  | nil => exact absurd nil_prefix hbegins
  | cons letter first ih =>
    cases second with
    | nil => exact absurd hlt (not_lt_nil _)
    | cons other second =>
      rw [cons_append, cons_append, cons_lt_cons_iff]
      rcases cons_lt_cons_iff.mp hlt with hletter | ⟨hletter, hrest⟩
      · exact Or.inl hletter
      · apply Or.inr
        refine ⟨hletter, ih hrest fun hprefixes => hbegins ?_⟩
        rw [hletter]
        exact cons_prefix_cons.mpr ⟨rfl, hprefixes⟩

/-- Texts that are followed by something compare in the right order, unless one
begins with the other and what follows compares otherwise. -/
theorem append_lt_append_iff_of_le (hle : first ≤ second) :
    first ++ left < second ++ right ↔
      ∀ rest, second = first ++ rest → left < rest ++ right := by
  by_cases hbegins : first <+: second
  · obtain ⟨rest, rfl⟩ := hbegins
    rw [append_assoc, append_lt_append_iff]
    constructor
    · intro hlt other hother
      rwa [← append_cancel_left hother]
    · intro hall
      exact hall rest rfl
  · have hne : first ≠ second := by
      rintro rfl
      exact hbegins prefix_rfl
    apply iff_of_true
    · exact append_lt_append_of_not_begins (lt_of_le_of_ne hle hne) hbegins
    · rintro rest rfl
      exact absurd (prefix_append first rest) hbegins

end Followed

end Restpose
