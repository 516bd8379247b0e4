import Restpose.Config.CollectionConfig
import Restpose.Ngramcat.Stored
import Restpose.Schema.FieldRoundTrip

/-!
# Categorisers

A categoriser has a profile for each category that it can choose.  It is a part
of a configuration, and is read back from its JSON if its limits are accepted
there and its profiles can be written.
-/

namespace Restpose.Ngramcat

open Json Attempt Config List

/-- `Categoriser`, without the set of labels that only `add_target_profile`
uses. -/
structure Categoriser where
  profiles : List (Bytes × NGramProfile)
  accuracyThreshold : Double
  maxNgramLength : ℕ
  maxNgrams : ℕ
  maxCandidates : ℕ

namespace Categoriser

/-- `def_accuracy_threshold`, which is 1.03. -/
def defAccuracyThreshold : Double := 0x3ff07ae147ae147b

/-- `Categoriser()`. -/
def new : Categoriser :=
  ⟨[], defAccuracyThreshold, 5, 400, 3⟩

/-! ## Reading and writing -/

/-- One pass of the loop of `to_json`. -/
def writeProfile (value : Json) (entry : Bytes × NGramProfile) :
    Option Json :=
  entry.2.toJson.map (value.setMember (cString entry.1))

/-- The object that is written for the profiles. -/
def written (categoriser : Categoriser) (profiles : Json) : Json :=
  assign (.object []) [("profiles", profiles),
    ("accuracy_threshold", .real categoriser.accuracyThreshold),
    ("max_ngram_length", .uint categoriser.maxNgramLength),
    ("max_ngrams", .uint categoriser.maxNgrams),
    ("max_candidates", .uint categoriser.maxCandidates),
    ("type", literal "ngram_rank")]

/-- `to_json`, which has no result if the list of a profile is written to outside
of its end. -/
def toJson (categoriser : Categoriser) : Option Json :=
  (categoriser.profiles.foldlM writeProfile (.object [])).map
    categoriser.written

/-- The values that an iterator meets, with `memberName`. -/
def namedItems : Json → List (Bytes × Json)
  | .object members => members
  | .array items => items.map (Prod.mk [])
  | _ => []

/-- One pass of the loop of `from_json`. -/
def readProfile (entry : Bytes × Json) :
    Except Thrown (Bytes × NGramProfile) :=
  (NGramProfile.fromJson entry.2).map (Prod.mk entry.1)

def checkType (value : Json) : Except Thrown Unit :=
  match value with
  | .string text =>
      if cString text = ascii "ngram_rank" then .ok ()
      else .error (.invalid (ascii "Unknown categoriser type"))
  | _ => .error (.invalid (ascii "Unknown categoriser type"))

def readProfiles (value : Json) :
    Except Thrown (List (Bytes × NGramProfile)) :=
  if value.isNull then
    .error (.invalid (ascii "Missing profiles property in categoriser"))
  else (namedItems value).mapM readProfile

/-- `from_json`, which adds to the profiles that are there. -/
def fromJson [Libraries] (categoriser : Categoriser) (value : Json) :
    Except Thrown Categoriser := do
  liftInvalid (value.checkObject "categoriser")
  checkType (value.member (ascii "type"))
  let accuracyThreshold ←
    value.getDoubleMember "accuracy_threshold" defAccuracyThreshold
  let maxNgramLength ← value.getUInt64MemberOr "max_ngram_length" 100 5
  let maxNgrams ← value.getUInt64MemberOr "max_ngrams" 65536 400
  let maxCandidates ← value.getUInt64MemberOr "max_candidates" 4294967295 3
  let profiles ← readProfiles (value.member (ascii "profiles"))
  return ⟨categoriser.profiles ++ profiles, accuracyThreshold,
    maxNgramLength % 2 ^ 32, maxNgrams % 2 ^ 32, maxCandidates % 2 ^ 32⟩

/-- Categorisers as parts of a configuration.  A write outside of a list, which
has no result, is shown as `null`, which is not read. -/
instance [Libraries] : Config.Part Categoriser where
  fromJson := new.fromJson
  toJson := fun categoriser => categoriser.toJson.getD .null

/-! ## Profiles that were written -/

/-- The condition for a categoriser to be read back. -/
def Writable (categoriser : Categoriser) : Prop :=
  categoriser.maxNgramLength ≤ 100 ∧ categoriser.maxNgrams ≤ 65536 ∧
    ∀ entry ∈ categoriser.profiles, entry.2.toJson.isSome = true

/-- A label and a profile that were read. -/
def Stored (entry : Bytes × NGramProfile) : Prop :=
  cString entry.1 = entry.1 ∧ ∀ value, entry.2.toJson = some value →
    NGramProfile.fromJson value = .ok entry.2

/-- The members of the object that profiles were written to. -/
structure WrittenProfiles (members : List (Bytes × Json)) : Prop where
  ordered : members.Pairwise fun left right => compare left.1 right.1 = .lt
  profiles : ∀ member ∈ members, cString member.1 = member.1 ∧
    ∃ profile : NGramProfile, profile.toJson = some member.2 ∧
      NGramProfile.fromJson member.2 = .ok profile

section Profiles

variable {entries : List (Bytes × NGramProfile)}
  {members : List (Bytes × Json)}

theorem foldlM_writeProfile (hentries : ∀ entry ∈ entries, Stored entry)
    (hlists : ∀ entry ∈ entries, entry.2.toJson.isSome = true)
    (hmembers : WrittenProfiles members) :
    ∃ after, entries.foldlM writeProfile (.object members) = some (.object after) ∧
      WrittenProfiles after := by
  induction entries generalizing members with
  | nil => exact ⟨members, rfl, hmembers⟩
  | cons entry entries ih =>
    obtain ⟨profile, hprofile⟩ := Option.isSome_iff_exists.mp (hlists entry mem_cons_self)
    obtain ⟨hlabel, hread⟩ := hentries entry mem_cons_self
    have hmore : WrittenProfiles (insertMember entry.1 profile members) := by
      refine ⟨pairwise_insertMember _ _ hmembers.ordered, ?_⟩
      intro member hmember
      rcases mem_insertMember hmember with rfl | hold
      · exact ⟨hlabel, entry.2, hprofile, hread _ hprofile⟩
      · exact hmembers.profiles member hold
    obtain ⟨after, hafter, hall⟩ := ih
      (fun other hother => hentries other (mem_cons_of_mem _ hother))
      (fun other hother => hlists other (mem_cons_of_mem _ hother)) hmore
    refine ⟨after, ?_, hall⟩
    rw [foldlM_cons, writeProfile, hprofile, hlabel]
    exact hafter

theorem isSome_of_foldlM {value after : Json}
    (hwritten : entries.foldlM writeProfile value = some after) :
    ∀ entry ∈ entries, entry.2.toJson.isSome = true := by
  induction entries generalizing value with
  | nil => simp
  | cons entry entries ih =>
    rw [foldlM_cons, writeProfile] at hwritten
    cases hprofile : entry.2.toJson with
    | none => rw [hprofile] at hwritten; cases hwritten
    | some profile =>
      rw [hprofile] at hwritten
      intro other hother
      rcases mem_cons.mp hother with rfl | hother
      · rw [hprofile]
        rfl
      · exact ih hwritten other hother

theorem mapM_readProfile
    (hmembers : ∀ member ∈ members, cString member.1 = member.1 ∧
      ∃ profile : NGramProfile, profile.toJson = some member.2 ∧
        NGramProfile.fromJson member.2 = .ok profile) :
    ∃ again, members.mapM readProfile = .ok again ∧ ∀ before : List (Bytes × Json),
      (before ++ members).Pairwise (fun left right => compare left.1 right.1 = .lt) →
      again.foldlM writeProfile (.object before) =
        some (.object (before ++ members)) := by
  induction members with
  | nil => exact ⟨[], rfl, fun before _ => by simp⟩
  | cons member members ih =>
    obtain ⟨hlabel, profile, hprofile, hread⟩ := hmembers member mem_cons_self
    obtain ⟨again, hagain, hwrite⟩ := ih fun other hother =>
      hmembers other (mem_cons_of_mem _ hother)
    refine ⟨(member.1, profile) :: again, ?_, ?_⟩
    · rw [mapM_cons, readProfile, hread, hagain]
      rfl
    · intro before hordered
      have hlast : ∀ entry ∈ before, compare entry.1 member.1 = .lt := fun entry hentry =>
        (pairwise_append.mp hordered).2.2 entry hentry member mem_cons_self
      have hrest := hwrite (before ++ [member]) (by simpa using hordered)
      rw [foldlM_cons, writeProfile, hprofile, hlabel]
      simpa [setMember, Json.members, insertMember_last _ hlast] using hrest

end Profiles

/-! ## Categorisers that were read -/

theorem cString_of_mem_namedItems {value : Json} (hparsed : value.Parsed)
    {entry : Bytes × Json} (hentry : entry ∈ namedItems value) :
    cString entry.1 = entry.1 := by
  cases hparsed with
  | object _ hnames _ => exact hnames entry hentry
  | array _ =>
    obtain ⟨item, -, rfl⟩ := mem_map.mp hentry
    rfl
  | _ => cases hentry

theorem stored_readProfile {member : Bytes × Json} {entry : Bytes × NGramProfile}
    (hlabel : cString member.1 = member.1) (hread : readProfile member = .ok entry) :
    Stored entry := by
  rw [readProfile] at hread
  cases hprofile : NGramProfile.fromJson member.2 with
  | error error => rw [hprofile] at hread; cases hread
  | ok profile =>
    rw [hprofile] at hread
    cases hread
    refine ⟨hlabel, ?_⟩
    intro value hvalue
    have hcases := toJson_of_fromJson hprofile
    split_ifs at hcases
    · obtain ⟨again, hagain, hsame⟩ := hcases
      cases hvalue.symm.trans hagain
      exact hsame
    · cases hcases.symm.trans hvalue

theorem member_written (categoriser : Categoriser) (profiles : Json) :
    let value := categoriser.written profiles
    value.isObject = true ∧ value.member (ascii "type") = literal "ngram_rank" ∧
      value.member (ascii "accuracy_threshold") = .real categoriser.accuracyThreshold ∧
      value.member (ascii "max_ngram_length") = .uint categoriser.maxNgramLength ∧
      value.member (ascii "max_ngrams") = .uint categoriser.maxNgrams ∧
      value.member (ascii "max_candidates") = .uint categoriser.maxCandidates ∧
      value.member (ascii "profiles") = profiles := by
  refine ⟨rfl, ?_⟩
  simp +decide only [written, assign_cons, assign_nil, member_setMember, if_true,
    if_false, and_self]

variable [Libraries] {categoriser : Categoriser}

theorem yields_fromJson {value : Json} (hparsed : value.Parsed) :
    Yields (new.fromJson value) fun categoriser =>
      (∀ entry ∈ categoriser.profiles, Stored entry) ∧
        categoriser.maxCandidates < 2 ^ 32 := by
  refine yields_bind fun _ _ => yields_bind fun _ _ => yields_bind fun _ _ => ?_
  refine yields_bind fun _ _ => yields_bind fun _ _ => yields_bind fun _ _ => ?_
  refine yields_bind fun profiles hprofiles => yields_ok ⟨?_, Nat.mod_lt _ (by decide)⟩
  have hall : Yields (readProfiles (value.member (ascii "profiles"))) fun profiles =>
      ∀ entry ∈ profiles, Stored entry := by
    unfold readProfiles
    refine yields_ite (yields_error _) (yields_mapM ?_)
    intro member hmember entry
    exact stored_readProfile (cString_of_mem_namedItems (hparsed.member _) hmember)
  exact hall profiles hprofiles

section Written

variable (categoriser) (profiles : Json)

theorem limits_of_fromJson_written :
    Yields (new.fromJson (categoriser.written profiles)) fun _ =>
    categoriser.maxNgramLength ≤ 100 ∧ categoriser.maxNgrams ≤ 65536 := by
  obtain ⟨-, -, -, hlength, hngrams, -⟩ := member_written categoriser profiles
  refine yields_bind fun _ _ => yields_bind fun _ _ => yields_bind fun _ _ => ?_
  refine yields_bind fun _ hfirst => yields_bind fun _ hsecond => ?_
  intro _ _
  constructor
  · by_contra hlong
    obtain ⟨error, herror⟩ := getUInt64MemberOr_of_gt 5 hlength (not_le.mp hlong)
    cases herror.symm.trans hfirst
  · by_contra hmany
    obtain ⟨error, herror⟩ := getUInt64MemberOr_of_gt 400 hngrams (not_le.mp hmany)
    cases herror.symm.trans hsecond

variable {categoriser}

theorem fromJson_written (hlength : categoriser.maxNgramLength ≤ 100)
    (hngrams : categoriser.maxNgrams ≤ 65536)
    (hcandidates : categoriser.maxCandidates < 2 ^ 32) (members : List (Bytes × Json)) :
    new.fromJson (categoriser.written (.object members)) =
      (members.mapM readProfile).map fun profiles => { categoriser with profiles } := by
  obtain ⟨hobject, htype, haccuracy, hfirst, hsecond, hthird, hprofiles⟩ :=
    member_written categoriser (.object members)
  have hreal : (categoriser.written (.object members)).getDoubleMember
    "accuracy_threshold"
      defAccuracyThreshold = .ok categoriser.accuracyThreshold := by
    rw [getDoubleMember, haccuracy]
    rfl
  simp only [fromJson, checkObject, hobject, if_true, liftInvalid, htype, hreal,
    getUInt64MemberOr_of_member 5 hfirst hlength,
    getUInt64MemberOr_of_member 400 hsecond hngrams,
    getUInt64MemberOr_of_member 3 hthird (Nat.le_of_lt_succ hcandidates), hprofiles,
    Nat.mod_eq_of_lt hcandidates, bind, Except.bind]
  have hsmall : categoriser.maxNgramLength % 2 ^ 32 = categoriser.maxNgramLength := by
    omega
  have hfew : categoriser.maxNgrams % 2 ^ 32 = categoriser.maxNgrams := by omega
  rw [hsmall, hfew]
  rfl

end Written

theorem survives_of_writable (hprofiles : ∀ entry ∈ categoriser.profiles, Stored entry)
    (hcandidates : categoriser.maxCandidates < 2 ^ 32)
    (hwritable : categoriser.Writable) :
    Survives Part.fromJson Part.toJson categoriser := by
  obtain ⟨hlength, hngrams, hlists⟩ := hwritable
  obtain ⟨members, hwritten, hmembers⟩ :=
    foldlM_writeProfile hprofiles hlists ⟨.nil, nofun⟩
  obtain ⟨again, hagain, hwrite⟩ := mapM_readProfile hmembers.profiles
  have hread := fromJson_written hlength hngrams hcandidates members
  rw [hagain] at hread
  have hsame := hwrite [] hmembers.ordered
  have hvalue : categoriser.toJson = some (categoriser.written (.object members)) := by
    rw [toJson, hwritten]
    rfl
  refine ⟨{ categoriser with profiles := again }, ?_, ?_⟩
  · change new.fromJson (categoriser.toJson.getD .null) = _
    rw [hvalue]
    exact hread
  · change ((again.foldlM writeProfile (.object [])).map _).getD _ =
      categoriser.toJson.getD _
    rw [hsame, hvalue]
    rfl

theorem writable_of_fromJson {again : Categoriser}
    (hread : Part.fromJson (Part.toJson categoriser) = .ok again) :
    categoriser.Writable := by
  change new.fromJson (categoriser.toJson.getD .null) = .ok again at hread
  cases hprofiles : categoriser.profiles.foldlM writeProfile (.object []) with
  | none =>
    rw [toJson, hprofiles] at hread
    cases hread
  | some profiles =>
    rw [toJson, hprofiles] at hread
    obtain ⟨hlength, hngrams⟩ :=
      limits_of_fromJson_written categoriser profiles again hread
    exact ⟨hlength, hngrams, isSome_of_foldlM hprofiles⟩

end Categoriser

end Restpose.Ngramcat
