import Restpose.Search.RangeCalls

/-!
# Runs of range sources

A matcher that does not go back learns from its calls which documents are in
the range, as long as no check gets the end of the stream as its answer.
-/

namespace Restpose.Search

open Positions List Prod

/-- A call with the position before it and its report. -/
structure LogEntry where
  position : ℕ
  call : Call
  report : Report

/-- The document that was reported. -/
def LogEntry.reported (entry : LogEntry) : Option ℕ :=
  match entry.report with
  | .document did => some did
  | _ => none

namespace MultiValueRangeSource

variable (source : MultiValueRangeSource) (stream : List StreamEntry)

/-- What the matcher can do with a source until it gets to the end. -/
inductive Run : List LogEntry → SourceState → ℕ → Prop where
  | init : Run [] .init 0
  | call {log : List LogEntry} {state next : SourceState} {position : ℕ}
      {call : Call} {report : Report} (hrun : Run log state position)
      (hallowed : call.Allowed position)
      (hperform : source.perform stream state call = .ok (report, next))
      (hreport : report ≠ .ended) :
      Run (log ++ [⟨position, call, report⟩]) next
        (report.position (call.target position))

/-- The log is right about the documents in the range: the reported ones are in
the range and in order, and the others were skipped by the caller. -/
structure ExactLog (log : List LogEntry) (position : ℕ) : Prop where
  reports : ∀ entry ∈ log,
    source.Exact stream entry.position entry.call entry.report
  increasing : (log.filterMap LogEntry.reported).Pairwise (· ≤ ·)
  passed : ∀ did ∈ log.filterMap LogEntry.reported, did ≤ position
  complete : ∀ entry ∈ stream, source.InRange entry → entry.1 ≤ position →
    entry.1 ∈ log.filterMap LogEntry.reported ∨
      ∃ logged ∈ log, logged.position < entry.1 ∧
        entry.1 < logged.call.target logged.position

variable {source stream} {log : List LogEntry} {state : SourceState}
  {position : ℕ} {call : Call} {report : Report}

variable (hincreasing : Increasing Prod.fst stream)

include hincreasing

/-- The first document in the range comes before the others. -/
theorem firstSince_spec {bound : ℕ} {entry : StreamEntry}
    (hfirst : source.firstSince stream bound = some entry) :
    bound ≤ entry.1 ∧ ∀ other ∈ stream, source.InRange other →
      bound ≤ other.1 → entry.1 ≤ other.1 := by
  obtain ⟨hrange, before, after, hsince, hbefore⟩ := find?_eq_some_iff_append.mp hfirst
  have hsorted := hincreasing.since bound
  rw [hsince] at hsorted
  have hmem : ∀ other, other ∈ before ++ entry :: after ↔
      other ∈ stream ∧ bound ≤ other.1 := fun other => by
    rw [← hsince]
    exact mem_since
  refine ⟨((hmem entry).mp (by simp)).2, fun other hother hinside hbound => ?_⟩
  rcases mem_append.mp ((hmem other).mpr ⟨hother, hbound⟩) with hearlier | hlater
  · exact absurd hinside (by simpa using hbefore other hearlier)
  · rcases mem_cons.mp hlater with rfl | hlater
    · exact le_rfl
    · exact ((pairwise_cons.mp (pairwise_append.mp hsorted).2.1).1 other hlater).le

/-- A call does not go past a document in the range without a report. -/
theorem Exact.reported (hexact : source.Exact stream position call report)
    (hreport : report ≠ .ended) {entry : StreamEntry} (hentry : entry ∈ stream)
    (hrange : source.InRange entry) (htarget : call.target position ≤ entry.1)
    (hpassed : entry.1 ≤ report.position (call.target position)) :
    report = .document entry.1 := by
  cases hexact with
  | document hfirst =>
    have hleast := (firstSince_spec hincreasing hfirst).2 entry hentry hrange htarget
    exact congrArg Report.document (le_antisymm hleast hpassed)
  | absent hcheck habsent =>
    exact absurd (le_antisymm hpassed htarget) (habsent entry hentry hrange)
  | ended hfirst | heavy hheavy => exact absurd rfl hreport

theorem Exact.target_le_position (hexact : source.Exact stream position call report) :
    call.target position ≤ report.position (call.target position) := by
  cases hexact with
  | document hfirst => exact (firstSince_spec hincreasing hfirst).1
  | absent hcheck habsent | ended hfirst | heavy hheavy => exact le_rfl

omit hincreasing

theorem exactLog_nil (hpositive : ∀ entry ∈ stream, 0 < entry.1) :
    source.ExactLog stream [] 0 where
  reports := nofun
  increasing := List.Pairwise.nil
  passed := nofun
  complete entry hentry _ hposition :=
    absurd hposition (Nat.not_le_of_lt (hpositive entry hentry))

theorem mem_reported_append {entry : LogEntry} {did : ℕ} :
    did ∈ (log ++ [entry]).filterMap LogEntry.reported ↔
      did ∈ log.filterMap LogEntry.reported ∨ entry.report = .document did := by
  have hreported : entry.reported = some did ↔ entry.report = .document did := by
    unfold LogEntry.reported
    split <;> simp_all
  simp [hreported]

theorem ExactLog.append (hincreasing : Increasing fst stream)
    (hlog : source.ExactLog stream log position) (hallowed : call.Allowed position)
    (hexact : source.Exact stream position call report) (hreport : report ≠ .ended) :
    source.ExactLog stream (log ++ [⟨position, call, report⟩])
      (report.position (call.target position)) := by
  have hforward : position ≤ report.position (call.target position) :=
    hallowed.trans (hexact.target_le_position hincreasing)
  refine ⟨?_, ?_, ?_, ?_⟩
  · intro entry hentry
    rcases mem_append.mp hentry with hentry | hentry
    · exact hlog.reports entry hentry
    · rw [mem_singleton.mp hentry]
      exact hexact
  · rw [filterMap_append, pairwise_append]
    refine ⟨hlog.increasing, ?_, ?_⟩
    · cases report with
      | document did => exact pairwise_singleton _ _
      | ended | absent => exact List.Pairwise.nil
    · intro earlier hearlier did hdid
      cases report with
      | document last =>
        rw [mem_singleton.mp hdid]
        exact (hlog.passed earlier hearlier).trans hforward
      | ended | absent => cases hdid
  · intro did hdid
    rcases mem_reported_append.mp hdid with hdid | hdid
    · exact (hlog.passed did hdid).trans hforward
    · change report = .document did at hdid
      rw [hdid]
      exact le_rfl
  · intro entry hentry hrange hpassed
    by_cases hearlier : entry.1 ≤ position
    · rcases hlog.complete entry hentry hrange hearlier with hreported
        | ⟨logged, hlogged, hskipped⟩
      · exact .inl (mem_reported_append.mpr (.inl hreported))
      · exact .inr ⟨logged, mem_append_left _ hlogged, hskipped⟩
    by_cases htarget : call.target position ≤ entry.1
    · exact .inl (mem_reported_append.mpr (.inr
        (hexact.reported hincreasing hreport hentry hrange htarget hpassed)))
    · exact .inr ⟨_, mem_append_right _ (mem_singleton_self _),
        not_le.mp hearlier, not_le.mp htarget⟩

/-- After a run the log is right and the iterator stands where the position
says. -/
theorem Run.exact (hincreasing : Increasing fst stream)
    (hpositive : ∀ entry ∈ stream, 0 < entry.1)
    (hreadable : ∀ entry ∈ stream, entry.Readable)
    (hrun : source.Run stream log state position) :
    source.ExactLog stream log position ∧ source.Follows stream state position := by
  induction hrun with
  | init => exact ⟨exactLog_nil hpositive, follows_init⟩
  | @call log before next position call report hrun hallowed hperform hreport ih =>
    obtain ⟨hlog, hfollows⟩ := ih
    have hsafe : call.Safe stream := by
      by_contra hunsafe
      rw [perform_readsEnd hincreasing hfollows hallowed hunsafe] at hperform
      cases hperform
    obtain ⟨outcome, hright, hexact, hnext⟩ := perform_right hincreasing
      hfollows hreadable hpositive hallowed hsafe
    cases hperform.symm.trans hright
    exact ⟨hlog.append hincreasing hallowed hexact hreport, hnext hreport⟩

/-- At any time of any run the log is right.  The next call is answered, and
answered right, if and only if the iterator does not answer it with the end of
its stream; otherwise the value at the end is read. -/
theorem perform_exact_iff (source : MultiValueRangeSource)
    {stream : List StreamEntry} (hincreasing : Increasing Prod.fst stream)
    (hpositive : ∀ entry ∈ stream, 0 < entry.1)
    (hreadable : ∀ entry ∈ stream, entry.Readable)
    {log : List LogEntry} {state : SourceState} {position : ℕ}
    (hrun : source.Run stream log state position) (call : Call)
    (hallowed : call.Allowed position) :
    source.ExactLog stream log position ∧
      ((∃ report next,
          source.perform stream state call = .ok (report, next) ∧
            source.Exact stream position call report) ↔ call.Safe stream) ∧
      (source.perform stream state call = .error .readsEnd ↔
        ¬call.Safe stream) := by
  obtain ⟨hlog, hfollows⟩ := hrun.exact hincreasing hpositive hreadable
  refine ⟨hlog, ?_⟩
  by_cases hsafe : call.Safe stream
  · obtain ⟨⟨report, next⟩, hperform, hexact, -⟩ := perform_right hincreasing
      hfollows hreadable hpositive hallowed hsafe
    exact ⟨iff_of_true ⟨report, next, hperform, hexact⟩ hsafe,
      iff_of_false (by simp [hperform]) (not_not_intro hsafe)⟩
  · have hperform := perform_readsEnd hincreasing hfollows hallowed hsafe
    exact ⟨iff_of_false (by simp [hperform]) hsafe,
      iff_of_true hperform hsafe⟩

/-! ## Streams of a few documents -/

/-- A source that has everything from "a" to "b" in its range. -/
def letters : MultiValueRangeSource :=
  ⟨7, 0, ascii "a", ascii "b"⟩

/-- The first document has the value "a". -/
def oneLetter : List StreamEntry :=
  [(1, {ascii "a"})]

/-- Three documents in the range and one that is not. -/
def fewLetters : List StreamEntry :=
  [(1, {ascii "a"}), (3, {ascii "x"}), (4, {ascii "x", ascii "ab"}),
    (7, {ascii "b"})]

theorem increasing_fewLetters : Increasing fst fewLetters := by
  unfold Increasing
  decide

theorem readable_fewLetters : ∀ entry ∈ fewLetters, entry.Readable := by
  unfold StreamEntry.Readable
  decide

/-- The matcher moves to the first document and then past the second. -/
theorem run_fewLetters : letters.Run fewLetters
    [⟨0, .next false, .document 1⟩, ⟨1, .skipTo 2 false, .document 4⟩]
    ⟨true, ⟨fewLetters.drop 2, true⟩⟩ 4 := by
  have hscan : ∀ count, letters.scan (fewLetters.drop count) =
      .ok ((fewLetters.drop count).dropWhile fun entry =>
        !decide (letters.InRange entry)) :=
    fun count => scan_eq fun entry hentry =>
      readable_fewLetters entry (mem_of_mem_drop hentry)
  have hnext : letters.perform fewLetters .init (.next false) =
      .ok (.document 1, ⟨true, ⟨fewLetters, true⟩⟩) := by
    change (letters.scan (fewLetters.drop 0) >>= fun rest => _) = _
    rw [hscan]
    rfl
  have hskip : letters.perform fewLetters ⟨true, ⟨fewLetters, true⟩⟩ (.skipTo 2 false) =
      .ok (.document 4, ⟨true, ⟨fewLetters.drop 2, true⟩⟩) := by
    change (letters.scan (fewLetters.drop 1) >>= fun rest => _) = _
    rw [hscan]
    rfl
  have hfirst : (Call.next false).Allowed 0 := Nat.zero_le 1
  have hsecond : (Call.skipTo 2 false).Allowed 1 := Nat.le_succ 1
  exact .call (.call .init hfirst hnext (by decide)) hsecond hskip (by decide)

/-- After the run, a check of the last document finds it. -/
theorem perform_exact_last :
    letters.ExactLog fewLetters
        [⟨0, .next false, .document 1⟩, ⟨1, .skipTo 2 false, .document 4⟩] 4 ∧
      ∃ report next, letters.perform fewLetters
          ⟨true, ⟨fewLetters.drop 2, true⟩⟩ (.check 7 false true) =
            .ok (report, next) ∧
        letters.Exact fewLetters 4 (.check 7 false true) report := by
  obtain ⟨hlog, hanswered, -⟩ := perform_exact_iff letters
    increasing_fewLetters (by decide) readable_fewLetters run_fewLetters
    (.check 7 false true) (show 4 ≤ 7 by decide)
  exact ⟨hlog, hanswered.mpr (.inr (.inr (.inr ⟨(7, {ascii "b"}), by decide, le_rfl⟩)))⟩

/-- A check of the second document, which the iterator answers with its end. -/
theorem perform_check_readsEnd :
    (Call.check 2 false true).Allowed 0 ∧
      letters.Run oneLetter [] .init 0 ∧
      letters.perform oneLetter .init (.check 2 false true) =
        .error .readsEnd :=
  ⟨Nat.zero_le 2, .init, rfl⟩

end MultiValueRangeSource

end Restpose.Search
