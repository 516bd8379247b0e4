import Restpose.Schema.Schema

/-!
# Merging schemas

The fields of another schema are taken over one by one in the order of their
names.  The first one that has another configuration already ends this.
-/

namespace Restpose.Config

open List Attempt Std.ExtTreeMap

namespace Schema

variable [Libraries]

/-- Merging a field leaves a field that is there alone, and otherwise adds
one. -/
theorem ends_mergeField (entry : Bytes × FieldConfig) (schema : Schema) :
    (mergeField entry schema).Ends fun after =>
      (∃ known, schema.fields[entry.1]? = some known ∧ after = schema) ∨
        (schema.fields[entry.1]? = none ∧ ∃ config,
          after = schema.set entry.1 (some config)) := by
  unfold mergeField
  cases hfield : schema.fields[entry.1]? with
  | none =>
    refine ends_withValue fun config _ => ends_done ?_
    exact .inr ⟨rfl, config, rfl⟩
  | some known =>
    dsimp only
    split_ifs
    · exact ends_done (.inl ⟨known, rfl, rfl⟩)
    · exact ends_fail _ _

/-- What merging some fields does to the fields of a schema. -/
structure Merged (entries : List (Bytes × FieldConfig))
    (before after : Schema) : Prop where
  has : ∀ entry ∈ entries, ∃ config, after.fields[entry.1]? = some config
  keeps : ∀ (name : Bytes) (config : FieldConfig),
    before.fields[name]? = some config → after.fields[name]? = some config
  others : ∀ name, (∀ entry ∈ entries, entry.1 ≠ name) →
    after.fields[name]? = before.fields[name]?
  same : (∀ entry ∈ entries, ∃ config,
    before.fields[entry.1]? = some config) → after = before

variable {entry : Bytes × FieldConfig}
  {entries : List (Bytes × FieldConfig)}

omit [Libraries] in
theorem Merged.cons_known {before after : Schema} (hmerged : Merged entries before after)
    {known : FieldConfig} (hknown : before.fields[entry.1]? = some known) :
    Merged (entry :: entries) before after where
  has := by
    intro other hother
    rcases mem_cons.mp hother with rfl | hother
    · exact ⟨known, hmerged.keeps _ known hknown⟩
    · exact hmerged.has other hother
  keeps := hmerged.keeps
  others := fun name hname => hmerged.others name fun other hother =>
    hname other (mem_cons_of_mem _ hother)
  same := fun hall => hmerged.same fun other hother =>
    hall other (mem_cons_of_mem _ hother)

omit [Libraries] in
theorem Merged.cons_new {before after : Schema} {config : FieldConfig}
    (hmerged : Merged entries (before.set entry.1 (some config)) after)
    (hnone : before.fields[entry.1]? = none) :
    Merged (entry :: entries) before after where
  has := by
    intro other hother
    rcases mem_cons.mp hother with rfl | hother
    · exact ⟨config, hmerged.keeps _ config (by simp [set])⟩
    · exact hmerged.has other hother
  keeps := by
    intro name known hknown
    refine hmerged.keeps name known ?_
    have hne : name ≠ entry.1 := by
      rintro rfl
      rw [hnone] at hknown
      cases hknown
    rw [set, StdMap.find_insert, if_neg hne, hknown]
  others := by
    intro name hname
    have hne : name ≠ entry.1 := (hname entry mem_cons_self).symm
    rw [hmerged.others name fun other hother =>
      hname other (mem_cons_of_mem _ hother), set, StdMap.find_insert,
      if_neg hne]
  same := by
    intro hall
    obtain ⟨known, hknown⟩ := hall entry mem_cons_self
    rw [hnone] at hknown
    cases hknown

theorem ends_forEach_mergeField (entries : List (Bytes × FieldConfig)) (schema : Schema) :
    (forEach mergeField entries schema).Ends (Merged entries schema) := by
  induction entries generalizing schema with
  | nil =>
    exact ends_done ⟨nofun, fun _ _ hfield => hfield, fun _ _ => rfl, fun _ => rfl⟩
  | cons entry entries ih =>
    refine (ends_mergeField entry schema).andThen fun middle hmiddle => ?_
    intro hthrown
    have hrest := ih middle hthrown
    rcases hmiddle with ⟨known, hknown, rfl⟩ | ⟨hnone, config, rfl⟩
    · exact hrest.cons_known hknown
    · exact hrest.cons_new hnone

/-- `InvalidValueError` for a field that has another configuration. -/
def conflictError (name : Bytes) : Thrown :=
  .invalid (ascii "Cannot change configuration in schema for field \"" ++
    name ++ ascii "\".")

/-- The first field of another schema that cannot be merged is one that has
another configuration. -/
def ConflictAt (schema other : Schema) (name : Bytes) : Prop :=
  ∃ before config after known,
    other.fields.toList = before ++ (name, config) :: after ∧
    (Attempt.forEach mergeField before schema).thrown = none ∧
    schema.fields[name]? = some known ∧
    (config.toJson .null).serialise ≠ (known.toJson .null).serialise

/-- The merge stops at the conflict, with the fields before it merged. -/
theorem mergeFrom_eq_fail {schema other : Schema} {name : Bytes}
    {before after : List (Bytes × FieldConfig)} {config known : FieldConfig}
    (hlist : other.fields.toList = before ++ (name, config) :: after)
    (hbefore : (forEach mergeField before schema).thrown = none)
    (hknown : (forEach mergeField before schema).state.fields[name]? = some known)
    (hne : (config.toJson .null).serialise ≠ (known.toJson .null).serialise) :
    schema.mergeFrom other = .fail (forEach mergeField before schema).state
        (conflictError name) := by
  have hstops : ∀ state : Schema, state.fields[name]? = some known →
      mergeField (name, config) state = .fail state (conflictError name) := by
    intro state hstate
    simp only [mergeField, hstate, hne, if_false]
    rfl
  rw [mergeFrom, hlist, forEach_append, andThen_of_none hbefore, forEach_cons,
    hstops _ hknown]
  rfl

/-- A conflict leaves the schema as it was if and only if it has all the fields
that come before. -/
theorem mergeFrom_of_conflictAt {schema other : Schema} {name : Bytes}
    (hconflict : ConflictAt schema other name) :
    (schema.mergeFrom other).thrown = some (conflictError name) ∧
      ((schema.mergeFrom other).state = schema ↔
        ∀ (earlier : Bytes) (config : FieldConfig),
          other.fields[earlier]? = some config →
          compare earlier name = .lt →
          ∃ known, schema.fields[earlier]? = some known) := by
  obtain ⟨before, config, after, known, hlist, hbefore, hknown, hne⟩ := hconflict
  have hmerged := ends_forEach_mergeField before schema hbefore
  have hordered : (before ++ (name, config) :: after).Pairwise
      fun left right => compare left.1 right.1 = .lt := by
    rw [← hlist]
    exact ordered_keys_toList
  obtain ⟨-, hlast, hcross⟩ := pairwise_append.mp hordered
  have hearlier : ∀ entry ∈ before, compare entry.1 name = .lt :=
    fun entry hentry => hcross entry hentry (name, config) mem_cons_self
  have hframe := hmerged.others name fun entry hentry heq => by
    have hlt := hearlier entry hentry
    rw [heq] at hlt
    simp at hlt
  rw [mergeFrom_eq_fail hlist hbefore (hframe.trans hknown) hne]
  refine ⟨rfl, ?_⟩
  have hmem : ∀ (entry : Bytes × FieldConfig), entry ∈ before ↔
      other.fields[entry.1]? = some entry.2 ∧ compare entry.1 name = .lt := by
    rintro ⟨earlier, given⟩
    rw [← mem_toList_iff_getElem?_eq_some, hlist, mem_append, mem_cons]
    constructor
    · exact fun hentry => ⟨.inl hentry, hearlier _ hentry⟩
    · rintro ⟨hentry | hentry | hentry, hlt⟩
      · exact hentry
      · cases hentry
        simp at hlt
      · have hgt := (pairwise_cons.mp hlast).1 _ hentry
        rw [Std.OrientedCmp.gt_iff_lt.mpr hgt] at hlt
        cases hlt
  constructor
  · intro hsame earlier given hgiven hlt
    obtain ⟨found, hfound⟩ := hmerged.has (earlier, given) ((hmem _).mpr ⟨hgiven, hlt⟩)
    exact ⟨found, hsame ▸ hfound⟩
  · intro hall
    refine hmerged.same fun entry hentry => ?_
    obtain ⟨hgiven, hlt⟩ := (hmem entry).mp hentry
    exact hall entry.1 entry.2 hgiven hlt

end Schema

end Restpose.Config
