import Restpose.Core.Positions
import Restpose.Search.RangeSource

/-!
# Calls of range sources

The matcher moves a range source over the documents that have a value in its
slot.  The source keeps an iterator over these documents, which may be left
without a position by an unsuccessful check.
-/

namespace Restpose.Search

open Indexing Positions List Prod

/-! ## Iterators -/

/-- A document with the values of its slot. -/
abbrev StreamEntry := ℕ × Finset Bytes

/-- `*it`: the string that was written for the values. -/
def StreamEntry.text (entry : StreamEntry) : Bytes :=
  DocumentValue.serialise ⟨.vintLengths, entry.2⟩

/-- The lengths of the values can be read. -/
def StreamEntry.Readable (entry : StreamEntry) : Prop :=
  ∀ val ∈ entry.2, val.length < lengthLimit

/-- `Xapian::ValueIterator`: the entries from the position on.  Without a
position, the next move goes to the first of them. -/
structure ValueIterator where
  rest : List StreamEntry
  positioned : Bool

namespace ValueIterator

/-- `valuestream_end`. -/
def atEnd : ValueIterator :=
  ⟨[], true⟩

/-- The entries that `++it` moves to. -/
def upcoming (it : ValueIterator) : List StreamEntry :=
  if it.positioned then it.rest.tail else it.rest

/-- The entries that `it.skip_to(did)` moves to. -/
def since (it : ValueIterator) (did : ℕ) : List StreamEntry :=
  it.rest.dropWhile fun entry => entry.1 < did

/-- `it.check(did)`.  If the document has no value, the iterator may move to the
next one that has, or to the end, or lose its position; `answer` says which. -/
def check (it : ValueIterator) (did : ℕ) (answer : Bool) :
    Bool × ValueIterator :=
  let found := match it.since did with
    | [] => answer
    | entry :: _ => decide (entry.1 = did) || answer
  (found, ⟨it.since did, found⟩)

end ValueIterator

/-! ## The source -/

/-- What goes wrong in a call. -/
inductive Fault where
  | thrown (error : SourceError)
  /-- The value at the end position is read. -/
  | readsEnd
  deriving DecidableEq

/-- The loop of `check_range`.  Each pass reads at least one byte. -/
def checkRangeFrom (startVal endVal : Bytes) :
    ℕ → Bytes → Except Fault Bool
  | 0, _ => .ok false
  | fuel + 1, text =>
      if text = [] then .ok false
      else
        match decodeLength text true with
        | .error error => .error (.thrown error)
        | .ok (length, rest) =>
            let val := rest.take length
            if startVal ≤ val ∧ val ≤ endVal then .ok true
            else checkRangeFrom startVal endVal fuel (rest.drop length)

/-- The members of `MultiValueRangeSource` that calls change. -/
structure SourceState where
  started : Bool
  it : ValueIterator

def SourceState.init : SourceState :=
  ⟨false, .atEnd⟩

/-- The calls of the matcher.  `heavy` says that the weight asked for is above
that of the source. -/
inductive Call where
  | next (heavy : Bool)
  | skipTo (did : ℕ) (heavy : Bool)
  | check (did : ℕ) (heavy answer : Bool)

/-- What the matcher learns from a call: the document that the source is at, that
it is at its end, or that a checked document is not there. -/
inductive Report where
  | document (did : ℕ)
  | ended
  | absent
  deriving DecidableEq

namespace MultiValueRangeSource

variable (source : MultiValueRangeSource) (stream : List StreamEntry)

def checkRange (text : Bytes) : Except Fault Bool :=
  checkRangeFrom source.startVal source.endVal (text.length + 1) text

/-- The loop that moves to the next entry in the range. -/
def scan : List StreamEntry → Except Fault (List StreamEntry)
  | [] => .ok []
  | entry :: rest => do
      if ← source.checkRange entry.text then return entry :: rest
      else scan rest

/-- `get_docid` and `at_end` after a move. -/
def reportAt (rest : List StreamEntry) : Report × SourceState :=
  (match rest with
    | [] => .ended
    | entry :: _ => .document entry.1, ⟨true, ⟨rest, true⟩⟩)

/-- The iterator after the start of a call. -/
def startIt (state : SourceState) : ValueIterator :=
  if state.started then state.it else ⟨stream, true⟩

def nextCall (state : SourceState) (heavy : Bool) :
    Except Fault (Report × SourceState) :=
  let rest := if state.started then state.it.upcoming else stream
  if heavy then .ok (reportAt [])
  else do
    let rest ← source.scan rest
    return reportAt rest

def skipToCall (state : SourceState) (did : ℕ) (heavy : Bool) :
    Except Fault (Report × SourceState) :=
  if !state.started && stream.isEmpty then .ok (reportAt [])
  else if heavy then .ok (reportAt [])
  else do
    let rest ← source.scan ((startIt stream state).since did)
    return reportAt rest

/-- `check_range(*it)` as the answer to a check. -/
def checkAt (it : ValueIterator) : Except Fault (Report × SourceState) :=
  match it.rest with
  | [] => .error .readsEnd
  | entry :: _ => do
      if ← source.checkRange entry.text then
        return (.document entry.1, ⟨true, it⟩)
      else return (.absent, ⟨true, it⟩)

def checkCall (state : SourceState) (did : ℕ) (heavy answer : Bool) :
    Except Fault (Report × SourceState) :=
  if !state.started && stream.isEmpty then .ok (reportAt [])
  else if heavy then .ok (reportAt [])
  else
    let (found, it) := (startIt stream state).check did answer
    if !found then .ok (.absent, ⟨true, it⟩)
    else source.checkAt it

/-- A call of the matcher. -/
def perform (state : SourceState) : Call → Except Fault (Report × SourceState)
  | .next heavy => source.nextCall stream state heavy
  | .skipTo did heavy => source.skipToCall stream state did heavy
  | .check did heavy answer => source.checkCall stream state did heavy answer

/-! ## Ranges -/

/-- The document has a value in the range. -/
def InRange (entry : StreamEntry) : Prop :=
  ∃ val ∈ entry.2, source.startVal ≤ val ∧ val ≤ source.endVal

instance : DecidablePred source.InRange := fun entry =>
  inferInstanceAs (Decidable (∃ val ∈ entry.2, _))

variable {source stream}

/-- The loop finds a value in the range if there is one. -/
theorem checkRangeFrom_flatMap (startVal endVal : Bytes) :
    ∀ (vals : List Bytes) (fuel : ℕ), vals.length < fuel →
      (∀ val ∈ vals, val.length < lengthLimit) →
      checkRangeFrom startVal endVal fuel (vals.flatMap withLength) =
        .ok (decide (∃ val ∈ vals, startVal ≤ val ∧ val ≤ endVal))
  | _, 0, hfuel, _ => absurd hfuel (Nat.not_lt_zero _)
  | [], _ + 1, _, _ => by simp [checkRangeFrom]
  | val :: vals, fuel + 1, hfuel, hlengths => by
      have htext : (val :: vals).flatMap withLength =
          encodeLength val.length ++ (val ++ vals.flatMap withLength) := by
        simp [withLength]
      have hnonempty : encodeLength val.length ++
          (val ++ vals.flatMap withLength) ≠ [] := by
        simp [encodeLength_ne_nil]
      rw [htext, checkRangeFrom, if_neg hnonempty,
        decodeLength_text (hlengths val (List.mem_cons_self ..))]
      simp only [List.take_left, List.drop_left]
      split_ifs with hval
      · simp [hval]
      · rw [checkRangeFrom_flatMap startVal endVal vals fuel
          (Nat.lt_of_succ_lt_succ hfuel)
          fun later hlater => hlengths later (List.mem_cons_of_mem _ hlater)]
        simp only [List.mem_cons, exists_eq_or_imp, hval, false_or]

theorem length_le_length_flatMap (vals : List Bytes) :
    vals.length ≤ (vals.flatMap withLength).length := by
  induction vals with
  | nil => exact le_rfl
  | cons val vals ih =>
    have hlength := length_pos_of_ne_nil (encodeLength_ne_nil val.length)
    simp only [flatMap_cons, withLength, length_append, length_cons]
    omega

theorem checkRange_text {entry : StreamEntry} (hreadable : entry.Readable) :
    source.checkRange entry.text = .ok (decide (source.InRange entry)) := by
  have hmem : ∀ val, val ∈ entry.2.sort (· ≤ ·) ↔ val ∈ entry.2 := fun val =>
    Finset.mem_sort _
  have hloop := checkRangeFrom_flatMap source.startVal source.endVal
    (entry.2.sort (· ≤ ·)) (entry.text.length + 1)
    (Nat.lt_succ_of_le (length_le_length_flatMap _))
    fun val hval => hreadable val ((hmem val).mp hval)
  refine hloop.trans (congrArg Except.ok (decide_eq_decide.mpr ?_))
  simp only [hmem, InRange]

/-- The scan stops at the first entry in the range. -/
theorem scan_eq {entries : List StreamEntry}
    (hreadable : ∀ entry ∈ entries, entry.Readable) :
    source.scan entries = .ok
      (entries.dropWhile fun entry => !decide (source.InRange entry)) := by
  induction entries with
  | nil => rfl
  | cons entry entries ih =>
    have hentries := ih fun later hlater =>
      hreadable later (mem_cons_of_mem _ hlater)
    rw [scan, checkRange_text (hreadable entry (mem_cons_self ..))]
    by_cases hrange : source.InRange entry
    · simp [hrange, bind, Except.bind, pure, Except.pure]
    · simp [hrange, bind, Except.bind, hentries]

end MultiValueRangeSource

/-! ## Positions and reports -/

namespace Call

/-- The first document that the call asks about, for a source that has got to a
position. -/
def target (position : ℕ) : Call → ℕ
  | .next _ => position + 1
  | .skipTo did _ => did
  | .check did _ _ => did

def heavy : Call → Bool
  | .next heavy => heavy
  | .skipTo _ heavy => heavy
  | .check _ heavy _ => heavy

def isCheck : Call → Bool
  | .check .. => true
  | _ => false

/-- Calls do not go back. -/
def Allowed (call : Call) (position : ℕ) : Prop :=
  position ≤ call.target position

/-- The iterator does not answer a check with the end of its stream. -/
def Safe (stream : List StreamEntry) : Call → Prop
  | .check did heavy answer =>
      heavy = true ∨ answer = false ∨ stream = [] ∨
        ∃ entry ∈ stream, did ≤ entry.1
  | _ => True

end Call

/-- The position after a call that did not get to the end. -/
def Report.position (target : ℕ) : Report → ℕ
  | .document did => did
  | _ => target

namespace MultiValueRangeSource

variable (source : MultiValueRangeSource) (stream : List StreamEntry)

/-- The first document in the range from a bound on. -/
def firstSince (bound : ℕ) : Option StreamEntry :=
  (since Prod.fst bound stream).find? fun entry => source.InRange entry

/-- The report is right about the documents in the range. -/
inductive Exact (position : ℕ) (call : Call) : Report → Prop where
  | document {entry : StreamEntry}
      (hfirst : source.firstSince stream (call.target position) = some entry) :
      Exact position call (.document entry.1)
  | absent (hcheck : call.isCheck = true)
      (habsent : ∀ entry ∈ stream, source.InRange entry →
        entry.1 ≠ call.target position) :
      Exact position call .absent
  | ended
      (hfirst : source.firstSince stream (call.target position) = none) :
      Exact position call .ended
  | heavy (hheavy : call.heavy = true) : Exact position call .ended

/-- What holds of the iterator before a call.  After a check it can stand at a
later document, but only if that is not in the range. -/
structure Follows (state : SourceState) (position : ℕ) : Prop where
  fresh : state.started = false → position = 0
  nonempty : state.started = true → stream ≠ []
  rest : state.started = true →
    state.it.rest = since Prod.fst position stream
  upcoming : state.started = true →
    state.it.upcoming <:+ stream ∧
      state.it.upcoming.find? (fun entry => source.InRange entry) =
        source.firstSince stream (position + 1)

/-- The outcome of a call at a position is right. -/
def Right (position : ℕ) (call : Call) (outcome : Report × SourceState) :
    Prop :=
  source.Exact stream position call outcome.1 ∧
    (outcome.1 ≠ .ended →
      source.Follows stream outcome.2
        (outcome.1.position (call.target position)))

variable {source stream}

section Steps

variable {state next : SourceState} {position did : ℕ} {call : Call}
  {entries rest : List StreamEntry} {entry : StreamEntry}

theorem follows_init : source.Follows stream .init 0 where
  fresh _ := rfl
  nonempty := nofun
  rest := nofun
  upcoming := nofun

theorem Follows.start_rest (hfollows : source.Follows stream state position) :
    (startIt stream state).rest = since fst position stream := by
  unfold startIt
  split_ifs with hstarted
  · exact hfollows.rest hstarted
  · rw [hfollows.fresh (by simpa using hstarted)]
    exact (since_of_forall fun _ _ => Nat.zero_le _).symm

theorem Follows.stream_ne_nil (hfollows : source.Follows stream state position)
    (hstart : ¬(!state.started && stream.isEmpty) = true) : stream ≠ [] := by
  rintro rfl
  cases hstarted : state.started with
  | false => exact hstart (by simp [hstarted])
  | true => exact hfollows.nonempty hstarted rfl

theorem Follows.start_since (hincreasing : Increasing fst stream)
    (hfollows : source.Follows stream state position) (hallowed : position ≤ did) :
    (startIt stream state).since did = since fst did stream := by
  unfold ValueIterator.since
  rw [hfollows.start_rest, (hincreasing.since position).dropWhile_eq,
    since_since hallowed]

theorem follows_of_suffix (hincreasing : Increasing fst stream)
    (hsuffix : entry :: rest <:+ stream) :
    source.Follows stream ⟨true, ⟨entry :: rest, true⟩⟩ entry.1 where
  fresh := nofun
  nonempty _ := hsuffix.ne_nil (cons_ne_nil _ _)
  rest _ := hincreasing.eq_since hsuffix
  upcoming _ := by
    refine ⟨(suffix_cons entry rest).trans hsuffix, ?_⟩
    rw [firstSince, hincreasing.since_succ (hincreasing.eq_since hsuffix).symm,
      if_pos rfl]
    rfl

/-- A scan of what follows the position ends at the right document. -/
theorem right_of_scan (hincreasing : Increasing fst stream) (hsuffix : entries <:+ stream)
    (hfirst : entries.find? (fun entry => source.InRange entry) =
      source.firstSince stream (call.target position)) :
    source.Right stream position call (reportAt (entries.dropWhile fun entry =>
        !decide (source.InRange entry))) := by
  rw [find?_eq_head?_dropWhile_not] at hfirst
  have hrest := (dropWhile_suffix fun entry =>
    !decide (source.InRange entry)).trans hsuffix
  cases hscan : entries.dropWhile fun entry =>
      !decide (source.InRange entry) with
  | nil =>
    rw [hscan] at hfirst
    exact ⟨.ended hfirst.symm, fun hreport => absurd rfl hreport⟩
  | cons entry rest =>
    rw [hscan] at hfirst hrest
    exact ⟨.document hfirst.symm, fun _ => follows_of_suffix hincreasing hrest⟩

theorem right_of_heavy (hheavy : call.heavy = true) :
    source.Right stream position call (reportAt []) :=
  ⟨.heavy hheavy, fun hreport => absurd rfl hreport⟩

theorem right_of_empty (hempty : stream = []) :
    source.Right stream position call (reportAt []) := by
  refine ⟨.ended ?_, fun hreport => absurd rfl hreport⟩
  rw [hempty]
  rfl

theorem right_of_absent (source : MultiValueRangeSource) (position did : ℕ)
    (heavy answer : Bool) (hincreasing : Increasing fst stream) (hnonempty : stream ≠ [])
    (habsent : ∀ entry ∈ stream, entry.1 ≠ did) :
    source.Right stream position (.check did heavy answer)
      (.absent, ⟨true, ⟨since fst did stream, false⟩⟩) := by
  have hfirst : source.firstSince stream (did + 1) =
      (since fst did stream).find? fun entry => source.InRange entry := by
    rw [firstSince, since_succ_of_forall_ne habsent]
  have hfollows : source.Follows stream ⟨true, ⟨since fst did stream, false⟩⟩ did :=
    ⟨nofun, fun _ => hnonempty, fun _ => rfl, fun _ =>
      ⟨hincreasing.since_suffix did, hfirst.symm⟩⟩
  exact ⟨.absent rfl fun entry hentry _ => habsent entry hentry, fun _ => hfollows⟩

variable {answer : Bool}

variable (hincreasing : Increasing fst stream)

include hincreasing

theorem right_of_outside {heavy : Bool} (hsince : since fst did stream = entry :: rest)
    (hrange : ¬source.InRange entry) :
    source.Right stream position (.check did heavy answer)
      (.absent, ⟨true, ⟨entry :: rest, true⟩⟩) := by
  have hsuffix : entry :: rest <:+ stream := hsince ▸ hincreasing.since_suffix did
  have hfirst : rest.find? (fun entry => source.InRange entry) =
      source.firstSince stream (did + 1) := by
    rw [firstSince, hincreasing.since_succ hsince]
    split_ifs
    · rfl
    · rw [find?_cons_of_neg (by simpa using hrange)]
  have hfollows : source.Follows stream ⟨true, ⟨entry :: rest, true⟩⟩ did :=
    ⟨nofun, fun _ => hsuffix.ne_nil (cons_ne_nil _ _), fun _ => hsince.symm,
      fun _ => ⟨(suffix_cons entry rest).trans hsuffix, hfirst⟩⟩
  refine ⟨.absent rfl fun other hother hinside hdid => ?_, fun _ => hfollows⟩
  exact hrange (hincreasing.eq_of_since hsince hother hdid ▸ hinside)

/-! ### Calls -/

/-- A check of a document that the iterator finds, or finds a later one for. -/
theorem checkAt_right (hreadable : ∀ entry ∈ stream, entry.Readable)
    (hsince : since fst did stream = entry :: rest) (position : ℕ) (heavy answer : Bool) :
    ∃ outcome, source.checkAt ⟨entry :: rest, true⟩ = .ok outcome ∧
      source.Right stream position (.check did heavy answer) outcome := by
  have hsuffix : entry :: rest <:+ stream := hsince ▸ hincreasing.since_suffix did
  have hentry : entry ∈ stream := hsuffix.mem (mem_cons_self ..)
  simp only [checkAt, checkRange_text (hreadable entry hentry)]
  by_cases hrange : source.InRange entry
  · have hfirst : source.firstSince stream did = some entry := by
      rw [firstSince, hsince, List.find?_cons_of_pos (by simpa using hrange)]
    refine ⟨(.document entry.1, ⟨true, ⟨entry :: rest, true⟩⟩), ?_,
      .document hfirst, fun _ => follows_of_suffix hincreasing hsuffix⟩
    simp [hrange, bind, Except.bind, pure, Except.pure]
  · refine ⟨(.absent, ⟨true, ⟨entry :: rest, true⟩⟩), ?_,
      right_of_outside hincreasing hsince hrange⟩
    simp [hrange, bind, Except.bind, pure, Except.pure]

variable (hfollows : source.Follows stream state position)

include hfollows

theorem checkCall_readsEnd (hallowed : position ≤ did) {heavy : Bool}
    (hsafe : ¬(Call.check did heavy answer).Safe stream) :
    source.checkCall stream state did heavy answer = .error .readsEnd := by
  simp only [Call.Safe, not_or, not_exists, not_and, Bool.not_eq_true,
    Bool.not_eq_false] at hsafe
  obtain ⟨rfl, rfl, hnonempty, hnone⟩ := hsafe
  have hsince : since fst did stream = [] :=
    eq_nil_iff_forall_not_mem.mpr fun entry hentry =>
      hnone entry (mem_since.mp hentry).1 (mem_since.mp hentry).2
  have hstart : ¬(!state.started && stream.isEmpty) = true := by
    simp [hnonempty]
  unfold checkCall ValueIterator.check
  rw [if_neg hstart, hfollows.start_since hincreasing hallowed, hsince]
  rfl

theorem perform_readsEnd (hallowed : call.Allowed position)
    (hsafe : ¬call.Safe stream) :
    source.perform stream state call = .error .readsEnd := by
  cases call with
  | next heavy | skipTo did heavy => exact absurd trivial hsafe
  | check did heavy answer =>
    exact checkCall_readsEnd hincreasing hfollows hallowed hsafe

variable (hreadable : ∀ entry ∈ stream, entry.Readable)

include hreadable

theorem nextCall_right (hpositive : ∀ entry ∈ stream, 0 < entry.1)
    (heavy : Bool) :
    ∃ outcome, source.nextCall stream state heavy = .ok outcome ∧
      source.Right stream position (.next heavy) outcome := by
  unfold nextCall
  cases heavy with
  | true => exact ⟨_, rfl, right_of_heavy rfl⟩
  | false =>
    have hupcoming : (if state.started then state.it.upcoming else stream) <:+ stream ∧
        (if state.started then state.it.upcoming else stream).find?
          (fun entry => source.InRange entry) =
            source.firstSince stream (position + 1) := by
      split_ifs with hstarted
      · exact hfollows.upcoming hstarted
      · rw [hfollows.fresh (by simpa using hstarted), firstSince,
          since_of_forall hpositive]
        exact ⟨suffix_rfl, rfl⟩
    obtain ⟨hsuffix, hfirst⟩ := hupcoming
    simp only [Bool.false_eq_true, if_false]
    rw [scan_eq fun entry hentry => hreadable entry (hsuffix.mem hentry)]
    exact ⟨_, rfl, right_of_scan hincreasing hsuffix hfirst⟩

theorem skipToCall_right (hallowed : position ≤ did) (heavy : Bool) :
    ∃ outcome, source.skipToCall stream state did heavy = .ok outcome ∧
      source.Right stream position (.skipTo did heavy) outcome := by
  unfold skipToCall
  split_ifs with hempty hheavy
  · simp only [Bool.and_eq_true, List.isEmpty_iff] at hempty
    exact ⟨_, rfl, right_of_empty hempty.2⟩
  · exact ⟨_, rfl, right_of_heavy hheavy⟩
  · have hsuffix := hincreasing.since_suffix did
    rw [hfollows.start_since hincreasing hallowed,
      scan_eq fun entry hentry => hreadable entry (hsuffix.mem hentry)]
    exact ⟨_, rfl, right_of_scan hincreasing hsuffix rfl⟩

theorem checkCall_right (hallowed : position ≤ did) {heavy : Bool}
    (hsafe : (Call.check did heavy answer).Safe stream) :
    ∃ outcome, source.checkCall stream state did heavy answer = .ok outcome ∧
      source.Right stream position (.check did heavy answer) outcome := by
  unfold checkCall
  split_ifs with hstart hheavy
  · simp only [Bool.and_eq_true, List.isEmpty_iff] at hstart
    exact ⟨_, rfl, right_of_empty hstart.2⟩
  · exact ⟨_, rfl, right_of_heavy hheavy⟩
  · have hnonempty := hfollows.stream_ne_nil hstart
    have habsent := right_of_absent source position did heavy answer hincreasing hnonempty
    unfold ValueIterator.check
    rw [hfollows.start_since hincreasing hallowed]
    cases hsince : since fst did stream with
    | nil =>
      have hnone : ∀ entry ∈ stream, ¬did ≤ entry.1 :=
        fun entry hentry hdid => not_mem_nil
          (hsince ▸ mem_since.mpr ⟨hentry, hdid⟩)
      rw [hsince] at habsent
      rcases hsafe with hweight | rfl | hstream | ⟨entry, hentry, hdid⟩
      · exact absurd hweight hheavy
      · exact ⟨_, rfl, habsent fun entry hentry hdid =>
          hnone entry hentry hdid.ge⟩
      · exact absurd hstream hnonempty
      · exact absurd hdid (hnone entry hentry)
    | cons entry rest =>
      cases hfound : decide (entry.1 = did) || answer with
      | false =>
        simp only [Bool.or_eq_false_iff, decide_eq_false_iff_not] at hfound
        rw [hsince] at habsent
        refine ⟨_, by simp [hfound], habsent fun other hother hdid => ?_⟩
        exact hfound.1 (hincreasing.eq_of_since hsince hother hdid ▸ hdid)
      | true =>
        simp only [hfound]
        exact checkAt_right hincreasing hreadable hsince position heavy answer

/-- A call that is allowed goes right if the iterator does not answer it with
its end. -/
theorem perform_right (hpositive : ∀ entry ∈ stream, 0 < entry.1)
    (hallowed : call.Allowed position) (hsafe : call.Safe stream) :
    ∃ outcome, source.perform stream state call = .ok outcome ∧
      source.Right stream position call outcome := by
  cases call with
  | next heavy =>
    exact nextCall_right hincreasing hfollows hreadable hpositive heavy
  | skipTo did heavy =>
    exact skipToCall_right hincreasing hfollows hreadable hallowed heavy
  | check did heavy answer =>
    exact checkCall_right hincreasing hfollows hreadable hallowed hsafe

end Steps

end MultiValueRangeSource

end Restpose.Search
