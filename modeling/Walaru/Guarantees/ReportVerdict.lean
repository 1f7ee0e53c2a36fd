import Walaru.Source.Core.JsonText
import Walaru.Source.Gradle.Report

/-!
# The verdict of a Gradle report

A report says that all tests passed when no entry is failed, and an entry has the status of the
last finish of its name among the events that count. The report is therefore honest exactly
when the files are, or when some name finished last with a failure before the limit.
-/
namespace Walaru.Gradle
open Lib Lib.Text

def testName (event : Json) : String := (event.getStr "testName").getD ""

def testId (event : Json) : Option String := event.getStr "testId"

def isStart (event : Json) : Bool := event.getStr "type" = some "TEST_START"

def isFinish (event : Json) : Bool := event.getStr "type" = some "TEST_FINISH"

def reportsFailed (event : Json) : Bool := isFinish event && event.getStr "status" = some "failed"

/-- The event of a line, also of one without a test name. -/
def parsedEvent (env : Environment) (line : List UInt8) : Option Json :=
  if isBlank (Utf8.decodeLossy line).toList then none
  else
    match env.parseText (Utf8.decodeLossy line) with
    | some (.object fields) => some (.object fields)
    | _ => none

def named (event : Json) : Bool := !isBlank (testName event).toList

/-- The lines of a source, behind a line that is being read. -/
def sourceLines : List UInt8 → List UInt8 → List (List UInt8)
  | line, [] => if line = [] then [] else [line]
  | line, byte :: rest => if byte = 10 then line :: sourceLines [] rest else sourceLines (line ++ [byte]) rest

def fileEvents (env : Environment) (source : EventFile) : List Json :=
  source.content.elim [] fun bytes => (sourceLines [] bytes).filterMap (parsedEvent env)

/-- The events with a test name, as far as the limit. -/
def counted (env : Environment) (files : List EventFile) : List Json :=
  (((sortedFiles files).flatMap (fileEvents env)).filter named).take maxEvents

def observeEvent (env : Environment) (state : ReportState) (event : Json) : ReportState :=
  ⟨observeTest (testName event) (TestEvidence.observe env event) state.tests, state.eventCount + 1⟩

theorem eventCount_foldl (env : Environment) (events : List Json) (state : ReportState) :
    (events.foldl (observeEvent env) state).eventCount = state.eventCount + events.length := by
  induction events generalizing state with
  | nil => rfl
  | cons event events ih =>
    rw [List.foldl_cons, ih, List.length_cons]
    change state.eventCount + 1 + _ = _
    omega

theorem consume_cases {env : Environment} {state next : ReportState} {line : List UInt8} {more : Bool}
    (read : consume env state line = some (next, more)) :
    (∃ event, (parsedEvent env line).filter named = some event ∧ next = observeEvent env state event ∧
        more = decide (state.eventCount + 1 < maxEvents)) ∨
      ((parsedEvent env line).filter named = none ∧ next = state ∧ more = true) := by
  unfold consume at read
  unfold parsedEvent
  dsimp only at read
  by_cases empty : isBlank (Utf8.decodeLossy line).toList = true
  · rw [if_pos empty] at read ⊢
    cases read
    exact .inr ⟨rfl, rfl, rfl⟩
  · rw [if_neg empty] at read ⊢
    cases parsed : env.parseText (Utf8.decodeLossy line) with
    | none =>
      rw [parsed] at read
      cases read
    | some event =>
      rw [parsed] at read
      cases event with
      | object fields =>
        dsimp only at read ⊢
        by_cases unnamed : isBlank (testName (.object fields)).toList = true
        · rw [if_pos (show isBlank ((Json.getStr "testName" (.object fields)).getD "").toList = true from
            unnamed)] at read
          cases read
          refine .inr ⟨?_, rfl, rfl⟩
          rw [Option.filter_some, if_neg]
          unfold named
          rw [unnamed]
          decide
        · rw [if_neg (show ¬isBlank ((Json.getStr "testName" (.object fields)).getD "").toList = true from
            unnamed)] at read
          cases read
          refine .inl ⟨.object fields, ?_, rfl, rfl⟩
          rw [Option.filter_some, if_pos]
          unfold named
          rw [Bool.eq_false_iff.mpr unnamed]
          rfl
      | null => cases read; exact .inr ⟨rfl, rfl, rfl⟩
      | bool value => cases read; exact .inr ⟨rfl, rfl, rfl⟩
      | number value => cases read; exact .inr ⟨rfl, rfl, rfl⟩
      | string value => cases read; exact .inr ⟨rfl, rfl, rfl⟩
      | array items => cases read; exact .inr ⟨rfl, rfl, rfl⟩

/-- The counted events of some lines, from a state on. -/
def lineEvents (env : Environment) (lines : List (List UInt8)) : List Json :=
  (lines.filterMap (parsedEvent env)).filter named

theorem lineEvents_cons_some {env : Environment} {line : List UInt8} {event : Json}
    (lines : List (List UInt8)) (here : (parsedEvent env line).filter named = some event) :
    lineEvents env (line :: lines) = event :: lineEvents env lines := by
  obtain ⟨parsed, holds⟩ := Option.filter_eq_some_iff.mp here
  unfold lineEvents
  rw [List.filterMap_cons_some parsed, List.filter_cons_of_pos holds]

theorem lineEvents_cons_none {env : Environment} {line : List UInt8} (lines : List (List UInt8))
    (here : (parsedEvent env line).filter named = none) :
    lineEvents env (line :: lines) = lineEvents env lines := by
  unfold lineEvents
  cases parsed : parsedEvent env line with
  | none => rw [List.filterMap_cons_none parsed]
  | some event =>
    rw [parsed, Option.filter_some] at here
    rw [List.filterMap_cons_some parsed, List.filter_cons_of_neg]
    intro holds
    rw [if_pos holds] at here
    cases here

theorem boundedLines_eq {env : Environment} {line rest : List UInt8} {state final : ReportState}
    (room : state.eventCount < maxEvents)
    (read : boundedLines (consume env) line rest state = some final) :
    final = ((lineEvents env (sourceLines line rest)).take (maxEvents - state.eventCount)).foldl
      (observeEvent env) state := by
  induction rest generalizing line state with
  | nil =>
    unfold boundedLines at read
    unfold sourceLines
    split at read
    · rename_i empty
      rw [if_pos empty]
      cases read
      exact (congrArg (fun events => List.foldl (observeEvent env) final events) List.take_nil).symm
    · rename_i occupied
      rw [if_neg occupied]
      obtain ⟨⟨next, more⟩, consumed, rfl⟩ := Option.map_eq_some_iff.mp read
      rcases consume_cases consumed with ⟨event, here, rfl, -⟩ | ⟨here, rfl, -⟩
      · obtain ⟨k, many⟩ : ∃ k, maxEvents - state.eventCount = k + 1 :=
          ⟨maxEvents - state.eventCount - 1, by omega⟩
        rw [lineEvents_cons_some [] here, many, List.take_succ_cons]
        exact (congrArg (fun events => List.foldl (observeEvent env) (observeEvent env state event) events)
          List.take_nil).symm
      · rw [lineEvents_cons_none [] here]
        exact (congrArg (fun events => List.foldl (observeEvent env) next events) List.take_nil).symm
  | cons byte rest ih =>
    unfold boundedLines at read
    unfold sourceLines
    by_cases newline : byte = 10
    · rw [if_pos newline] at read ⊢
      cases consumed : consume env state line with
      | none =>
        rw [consumed] at read
        cases read
      | some step =>
        obtain ⟨next, more⟩ := step
        rw [consumed] at read
        rcases consume_cases consumed with ⟨event, here, rfl, enough⟩ | ⟨here, rfl, rfl⟩
        · rw [lineEvents_cons_some _ here]
          by_cases last : state.eventCount + 1 < maxEvents
          · rw [enough, decide_eq_true last] at read
            have rest_ := ih (show (observeEvent env state event).eventCount < maxEvents from last) read
            obtain ⟨k, many⟩ : ∃ k, maxEvents - state.eventCount = k + 1 :=
              ⟨maxEvents - state.eventCount - 1, by omega⟩
            rw [rest_, many, List.take_succ_cons, List.foldl_cons]
            have fewer : maxEvents - (observeEvent env state event).eventCount = k := by
              change maxEvents - (state.eventCount + 1) = k
              omega
            rw [fewer]
          · rw [enough, decide_eq_false last] at read
            cases read
            have one : maxEvents - state.eventCount = 1 := by omega
            rw [one]
            rfl
        · rw [lineEvents_cons_none _ here]
          exact ih room read
    · rw [if_neg newline] at read ⊢
      split at read
      · exact ih room read
      · cases read

theorem readFiles_eq {env : Environment} {files : List EventFile} {state final : ReportState}
    (room : state.eventCount ≤ maxEvents) (read : readFiles env files state = some final) :
    final = (((files.flatMap (fileEvents env)).filter named).take (maxEvents - state.eventCount)).foldl
      (observeEvent env) state := by
  induction files generalizing state with
  | nil =>
    cases read
    rw [List.flatMap_nil, List.filter_nil, List.take_nil, List.foldl_nil]
  | cons source files ih =>
    unfold readFiles at read
    rw [List.flatMap_cons, List.filter_append]
    cases content : source.content with
    | none =>
      rw [content] at read
      have silent : fileEvents env source = [] := by
        unfold fileEvents
        rw [content]
        rfl
      rw [silent, List.filter_nil, List.nil_append]
      exact ih room read
    | some bytes =>
      rw [content] at read
      dsimp only at read
      by_cases full : maxEvents ≤ state.eventCount
      · rw [if_pos full] at read
        have none_ : maxEvents - state.eventCount = 0 := by omega
        have rest := ih room read
        rw [none_, List.take_zero] at rest ⊢
        exact rest
      · rw [if_neg full] at read
        cases lines : boundedLines (consume env) [] bytes state with
        | none =>
          rw [lines] at read
          cases read
        | some next =>
          rw [lines] at read
          have own := boundedLines_eq (by omega) lines
          have events : (fileEvents env source).filter named = lineEvents env (sourceLines [] bytes) := by
            unfold fileEvents
            rw [content]
            rfl
          have count := congrArg ReportState.eventCount own
          rw [eventCount_foldl, List.length_take] at count
          have rest := ih (by omega) read
          rw [rest, List.take_append, List.foldl_append, events, ← own]
          congr 2
          omega

def HasFailed (name : String) (tests : List TestEvidence) : Prop :=
  ∃ test ∈ tests, test.name = name ∧ test.status = "failed"

/-- The last finish of the name among the events is a failure. -/
def FailedLast (name : String) (events : List Json) : Prop :=
  ∃ before finish after, events = before ++ finish :: after ∧ reportsFailed finish = true ∧
    testName finish = name ∧ ∀ later ∈ after, ¬(testName later = name ∧ isFinish later = true)

theorem observe_name (env : Environment) (event : Json) (test : TestEvidence) :
    (test.observe env event).name = test.name := by
  unfold TestEvidence.observe
  split
  · rfl
  · split
    · rfl
    · split <;> rfl

theorem observe_status (env : Environment) (event : Json) (test : TestEvidence) :
    (test.observe env event).status = if isFinish event then finishStatus event else test.status := by
  unfold TestEvidence.observe isFinish
  cases event.getStr "type" with
  | none => rfl
  | some type =>
    by_cases finish : type = "TEST_FINISH"
    · dsimp only
      rw [if_pos finish, finish]
      rfl
    · dsimp only
      have other : decide (some type = some "TEST_FINISH") = false :=
        decide_eq_false fun same => finish (Option.some.inj same)
      rw [if_neg finish, other]
      split <;> rfl

theorem finishStatus_failed (event : Json) :
    finishStatus event = "failed" ↔ event.getStr "status" = some "failed" := by
  unfold finishStatus
  cases event.getStr "status" with
  | none => exact ⟨fun same => absurd same (by decide), nofun⟩
  | some status =>
    by_cases successful : status = "successful"
    · subst successful
      exact ⟨fun same => absurd same (by decide), fun same => absurd same (by decide)⟩
    · by_cases aborted : status = "aborted"
      · subst aborted
        exact ⟨fun same => absurd same (by decide), fun same => absurd same (by decide)⟩
      · split
        · exact absurd (Option.some.inj ‹_›) successful
        · exact absurd (Option.some.inj ‹_›) aborted
        · rename_i none_
          cases none_
        · rename_i same
          cases same
          exact Option.some_inj.symm

theorem names_observeTest {name : String} {observe : TestEvidence → TestEvidence}
    (keeps : ∀ test, (observe test).name = test.name) (tests : List TestEvidence)
    (distinct : (tests.map TestEvidence.name).Nodup) :
    ((observeTest name observe tests).map TestEvidence.name).Nodup ∧
      ∀ other, other ∈ (observeTest name observe tests).map TestEvidence.name ↔
        other = name ∨ other ∈ tests.map TestEvidence.name := by
  induction tests with
  | nil =>
    unfold observeTest
    rw [List.map_singleton, keeps]
    refine ⟨List.pairwise_singleton _ _, fun other => ?_⟩
    rw [List.mem_singleton, List.map_nil, or_iff_left List.not_mem_nil]
    rfl
  | cons test tests ih =>
    rw [List.map_cons, List.nodup_cons] at distinct
    obtain ⟨restDistinct, members⟩ := ih distinct.2
    unfold observeTest
    split
    · rename_i here
      rw [List.map_cons, keeps, List.map_cons, List.nodup_cons]
      refine ⟨distinct, fun other => ?_⟩
      rw [List.mem_cons, here, or_self_left]
    · rename_i elsewhere
      rw [List.map_cons, List.nodup_cons, List.map_cons]
      refine ⟨⟨?_, restDistinct⟩, fun other => ?_⟩
      · rw [members]
        exact fun inside => inside.elim elsewhere distinct.1
      · rw [List.mem_cons, members, List.mem_cons]
        exact or_left_comm

theorem hasFailed_cons {name : String} {test : TestEvidence} {tests : List TestEvidence} :
    HasFailed name (test :: tests) ↔ (test.name = name ∧ test.status = "failed") ∨ HasFailed name tests := by
  unfold HasFailed
  constructor
  · rintro ⟨other, inside, holds⟩
    rcases List.mem_cons.mp inside with rfl | rest
    · exact .inl holds
    · exact .inr ⟨other, rest, holds⟩
  · rintro (holds | ⟨other, rest, holds⟩)
    · exact ⟨test, List.mem_cons_self, holds⟩
    · exact ⟨other, List.mem_cons_of_mem _ rest, holds⟩

/-- An event changes the entry of its own name, and only by a finish. -/
theorem hasFailed_observeTest (env : Environment) (event : Json) (name : String) {tests : List TestEvidence}
    (distinct : (tests.map TestEvidence.name).Nodup) :
    HasFailed name (observeTest (testName event) (TestEvidence.observe env event) tests) ↔
      if testName event = name ∧ isFinish event = true then reportsFailed event = true
      else HasFailed name tests := by
  have reports : isFinish event = true → (finishStatus event = "failed" ↔ reportsFailed event = true) := by
    intro finish
    unfold reportsFailed
    rw [finishStatus_failed, finish, Bool.true_and, decide_eq_true_iff]
  induction tests with
  | nil =>
    unfold observeTest
    rw [hasFailed_cons, observe_name, observe_status]
    have none_ : ∀ name, ¬HasFailed name [] := fun name ⟨_, inside, _⟩ => List.not_mem_nil inside
    change ((testName event = name ∧ (if isFinish event = true then finishStatus event else "unknown") = "failed") ∨
      HasFailed name []) ↔ _
    by_cases finish : isFinish event = true
    · rw [if_pos finish, reports finish, or_iff_left (none_ name)]
      by_cases here : testName event = name
      · rw [if_pos ⟨here, finish⟩]
        exact and_iff_right here
      · rw [if_neg fun both => here both.1]
        exact iff_of_false (fun both => here both.1) (none_ name)
    · rw [if_neg finish, if_neg fun both => finish both.2]
      refine or_iff_right fun both => absurd both.2 (by decide)
  | cons test tests ih =>
    rw [List.map_cons, List.nodup_cons] at distinct
    unfold observeTest
    split
    · rename_i own
      rw [hasFailed_cons, hasFailed_cons, observe_name, observe_status, own]
      by_cases finish : isFinish event = true
      · rw [if_pos finish, reports finish]
        by_cases here : testName event = name
        · rw [if_pos ⟨here, finish⟩]
          refine ⟨fun either => ?_, fun failed => .inl ⟨here, failed⟩⟩
          rcases either with ⟨-, failed⟩ | ⟨other, inside, same, -⟩
          · exact failed
          · exact absurd (List.mem_map.mpr ⟨other, inside, same.trans (here.symm.trans own.symm)⟩) distinct.1
        · rw [if_neg fun both => here both.1]
          exact or_congr_left (iff_of_false (fun both => here both.1) fun both => here both.1)
      · rw [if_neg finish, if_neg fun both => finish both.2]
    · rename_i elsewhere
      rw [hasFailed_cons, hasFailed_cons]
      refine (or_congr_right (ih distinct.2)).trans ?_
      by_cases here : testName event = name ∧ isFinish event = true
      · rw [if_pos here, if_pos here]
        exact or_iff_right fun both => elsewhere (both.1.trans here.1.symm)
      · rw [if_neg here, if_neg here]

theorem failedLast_concat {name : String} {events : List Json} {event : Json} :
    FailedLast name (events ++ [event]) ↔
      if testName event = name ∧ isFinish event = true then reportsFailed event = true
      else FailedLast name events := by
  have finishes : ∀ event, reportsFailed event = true → isFinish event = true := by
    intro event failed
    unfold reportsFailed at failed
    exact (Bool.and_eq_true_iff.mp failed).1
  constructor
  · rintro ⟨before, finish, after, whole, failed, own, quiet⟩
    rcases List.eq_nil_or_concat after with rfl | ⟨after, last, rfl⟩
    · obtain ⟨rfl, same⟩ := List.append_inj' whole rfl
      cases same
      rwa [if_pos ⟨own, finishes _ failed⟩]
    · rw [List.concat_eq_append] at whole quiet
      have split : events ++ [event] = (before ++ finish :: after) ++ [last] := by
        rw [whole, List.append_assoc, List.cons_append]
      obtain ⟨rfl, same⟩ := List.append_inj' split rfl
      cases same
      rw [if_neg (quiet event (List.mem_append_right _ List.mem_cons_self))]
      exact ⟨before, finish, after, rfl, failed, own, fun later inside =>
        quiet later (List.mem_append_left _ inside)⟩
  · intro last
    by_cases here : testName event = name ∧ isFinish event = true
    · rw [if_pos here] at last
      exact ⟨events, event, [], rfl, last, here.1, nofun⟩
    · rw [if_neg here] at last
      obtain ⟨before, finish, after, rfl, failed, own, quiet⟩ := last
      refine ⟨before, finish, after ++ [event], by rw [List.append_assoc, List.cons_append], failed, own, ?_⟩
      intro later inside
      rcases List.mem_append.mp inside with earlier | now
      · exact quiet later earlier
      · rw [List.mem_singleton.mp now]
        exact here

/-- Behind any events, an entry is failed exactly when its name finished last with a failure. -/
theorem hasFailed_iff (env : Environment) (events : List Json) :
    ((events.foldl (observeEvent env) ⟨[], 0⟩).tests.map TestEvidence.name).Nodup ∧
      ∀ name, HasFailed name (events.foldl (observeEvent env) ⟨[], 0⟩).tests ↔ FailedLast name events := by
  induction events using List.reverseRecOn with
  | nil =>
    refine ⟨List.nodup_nil, fun name => iff_of_false ?_ ?_⟩
    · exact fun ⟨_, inside, _⟩ => List.not_mem_nil inside
    · rintro ⟨before, finish, after, whole, -⟩
      exact absurd whole.symm (List.append_ne_nil_of_right_ne_nil _ (List.cons_ne_nil _ _))
  | append_singleton events event ih =>
    obtain ⟨distinct, failed⟩ := ih
    rw [List.foldl_append]
    refine ⟨(names_observeTest (observe_name env event) _ distinct).1, fun name => ?_⟩
    rw [failedLast_concat, ← failed]
    exact hasFailed_observeTest env event name distinct

def failedCount (report : Report) : Option Nat := (report.json.get "summary").bind (Json.getU64 "failed")

/-- Both texts state that all tests passed, and no failed test is counted. -/
structure StatesAllPassed (report : Report) : Prop where
  markdown : "All observed tests passed." ∈ report.markdown
  html : "<section class=pass><h2>All observed tests passed</h2></section>" ∈ report.html.cards
  count : failedCount report = some 0

/-- No finish in the files reports a failure. -/
def NoFailure (env : Environment) (files : List EventFile) : Prop :=
  ∀ source ∈ files, ∀ event ∈ fileEvents env source, reportsFailed event = false

/-- Each start in a file is followed by a finish of the same test. -/
def AllFinished (env : Environment) (files : List EventFile) : Prop :=
  ∀ source ∈ files, ∀ before start after, fileEvents env source = before ++ start :: after →
    isStart start = true → ∃ finish ∈ after, isFinish finish = true ∧ testId finish = testId start

theorem failedTests_eq_nil {tests : List TestEvidence} :
    failedTests tests = [] ↔ ∀ name, ¬HasFailed name tests := by
  unfold failedTests HasFailed
  rw [List.filter_eq_nil_iff]
  constructor
  · rintro none_ name ⟨test, inside, -, failed⟩
    exact none_ test inside (decide_eq_true failed)
  · intro none_ test inside failed
    exact none_ test.name ⟨test, inside, rfl, of_decide_eq_true failed⟩

theorem generate_state {env : Environment} {files : List EventFile} {report : Report}
    (generated : generate env files = some report) :
    ∃ tests count, report = ⟨payload tests count, markdown tests count, html tests count⟩ ∧
      ∀ name, HasFailed name tests ↔ FailedLast name (counted env files) := by
  obtain ⟨state, read, rfl⟩ := Option.map_eq_some_iff.mp generated
  have counts := readFiles_eq (Nat.zero_le maxEvents) read
  rw [Nat.sub_zero] at counts
  refine ⟨state.tests, state.eventCount, rfl, fun name => ?_⟩
  rw [counts]
  exact (hasFailed_iff env (counted env files)).2 name

theorem failedCount_payload (tests : List TestEvidence) (count : Nat) (lines : List String) (page : Page) :
    failedCount ⟨payload tests count, lines, page⟩ = some (failedTests tests).length := rfl

/-- A report states that all tests passed exactly when no name finished last with a failure. -/
theorem statesAllPassed_iff {env : Environment} {files : List EventFile} {report : Report}
    (generated : generate env files = some report) :
    StatesAllPassed report ↔ ∀ name, ¬FailedLast name (counted env files) := by
  obtain ⟨tests, count, rfl, failed⟩ := generate_state generated
  have verdict : failedTests tests = [] ↔ ∀ name, ¬FailedLast name (counted env files) := by
    rw [failedTests_eq_nil]
    exact forall_congr' fun name => not_congr (failed name)
  rw [← verdict]
  constructor
  · intro states
    have zero_ := states.count
    rw [failedCount_payload, Option.some_inj] at zero_
    exact List.eq_nil_of_length_eq_zero zero_
  · intro none_
    refine ⟨?_, ?_, ?_⟩
    · unfold markdown
      dsimp only
      rw [none_, if_pos rfl]
      exact List.mem_append_left _ (List.mem_append_right _ (List.mem_cons_of_mem _ List.mem_cons_self))
    · unfold html
      dsimp only
      rw [none_, if_pos rfl]
      exact List.mem_cons_self
    · rw [failedCount_payload, none_]
      rfl

/-- A report hides no failure exactly when there is none to hide, or some name finished last with a
failure among the events that count. -/
theorem report_honest_iff {env : Environment} {files : List EventFile} {report : Report}
    (generated : generate env files = some report) :
    (StatesAllPassed report → NoFailure env files ∧ AllFinished env files) ↔
      (NoFailure env files ∧ AllFinished env files) ∨ ∃ name, FailedLast name (counted env files) := by
  rw [statesAllPassed_iff generated]
  constructor
  · intro honest
    by_cases failed : ∃ name, FailedLast name (counted env files)
    · exact .inr failed
    · exact .inl (honest fun name here => failed ⟨name, here⟩)
  · rintro (honest | ⟨name, failed⟩) none_
    · exact honest
    · exact absurd failed (none_ name)

instance (report : Report) : Decidable (StatesAllPassed report) :=
  decidable_of_iff ("All observed tests passed." ∈ report.markdown ∧
    "<section class=pass><h2>All observed tests passed</h2></section>" ∈ report.html.cards ∧
      failedCount report = some 0)
    ⟨fun ⟨markdown, html, count⟩ => ⟨markdown, html, count⟩,
      fun states => ⟨states.markdown, states.html, states.count⟩⟩

/-- The text is a line within the limit, which the parser reads as an event with a test name. -/
structure EventText (env : Environment) (text : String) (event : Json) : Prop where
  oneLine : 10 ∉ utf8 text
  short : (utf8 text).length ≤ maxEventBytes
  shown : isBlank text.toList = false
  parsed : env.parseText text = some event
  object : ∃ fields, event = .object fields
  named : named event = true

theorem consume_text {env : Environment} {text : String} {event : Json}
    (line : EventText env text event) (state : ReportState) :
    consume env state (utf8 text) =
      some (observeEvent env state event, decide (state.eventCount + 1 < maxEvents)) := by
  obtain ⟨fields, rfl⟩ := line.object
  have present : isBlank ((Json.getStr "testName" (.object fields)).getD "").toList = false := by
    have name := line.named
    rwa [named, Bool.not_eq_true'] at name
  have read : Utf8.decodeLossy (utf8 text) = text := Utf8.decodeLossy_encode text
  simp only [consume, read, line.shown, Bool.false_eq_true, if_false, line.parsed, present]
  rfl

theorem parsedEvent_text {env : Environment} {text : String} {event : Json}
    (line : EventText env text event) : parsedEvent env (utf8 text) = some event := by
  obtain ⟨fields, rfl⟩ := line.object
  have read : Utf8.decodeLossy (utf8 text) = text := Utf8.decodeLossy_encode text
  simp only [parsedEvent, read, line.shown, Bool.false_eq_true, if_false, line.parsed]

/-- The consumer is given a line whole. -/
theorem boundedLines_line {consume : ReportState → List UInt8 → Option (ReportState × Bool)}
    {before line : List UInt8} {state next : ReportState} (oneLine : 10 ∉ line)
    (short : before.length + line.length ≤ maxEventBytes)
    (taken : consume state (before ++ line) = some (next, true)) (rest : List UInt8) :
    boundedLines consume before (line ++ 10 :: rest) state = boundedLines consume [] rest next := by
  induction line generalizing before with
  | nil =>
    rw [List.append_nil] at taken
    rw [List.nil_append, boundedLines, if_pos rfl, taken]
  | cons byte line ih =>
    obtain ⟨other, later⟩ := not_or.mp (mt List.mem_cons.mpr oneLine)
    rw [List.length_cons] at short
    rw [List.cons_append, boundedLines, if_neg (Ne.symm other), if_pos (by omega)]
    refine ih later ?_ ?_
    · rw [List.length_append, List.length_singleton]
      omega
    · rwa [List.append_assoc, List.singleton_append]

theorem sourceLines_line {before line : List UInt8} (oneLine : 10 ∉ line) (rest : List UInt8) :
    sourceLines before (line ++ 10 :: rest) = (before ++ line) :: sourceLines [] rest := by
  induction line generalizing before with
  | nil => rw [List.nil_append, sourceLines, if_pos rfl, List.append_nil]
  | cons byte line ih =>
    obtain ⟨other, later⟩ := not_or.mp (mt List.mem_cons.mpr oneLine)
    rw [List.cons_append, sourceLines, if_neg (Ne.symm other), ih later, List.append_assoc,
      List.singleton_append]

/-- The content of a file with these lines. -/
def textBytes (texts : List String) : List UInt8 := texts.flatMap fun text => utf8 text ++ [10]

theorem boundedLines_texts {env : Environment} {texts : List String} {events : List Json}
    (lines : List.Forall₂ (EventText env) texts events) (state : ReportState)
    (room : state.eventCount + events.length < maxEvents) :
    boundedLines (consume env) [] (textBytes texts) state =
      some (events.foldl (observeEvent env) state) := by
  induction lines generalizing state with
  | nil => rfl
  | @cons text event texts events line _ ih =>
    rw [List.length_cons] at room
    have taken := consume_text line state
    rw [decide_eq_true (by omega)] at taken
    have whole : textBytes (text :: texts) = utf8 text ++ 10 :: textBytes texts := by
      simp [textBytes]
    have short : ([] : List UInt8).length + (utf8 text).length ≤ maxEventBytes := by
      rw [List.length_nil, Nat.zero_add]
      exact line.short
    rw [whole, boundedLines_line line.oneLine short taken]
    refine ih _ ?_
    change state.eventCount + 1 + events.length < maxEvents
    omega

theorem fileEvents_texts {env : Environment} {texts : List String} {events : List Json}
    (lines : List.Forall₂ (EventText env) texts events) (path : String) :
    fileEvents env ⟨path, some (textBytes texts)⟩ = events := by
  change (sourceLines [] (textBytes texts)).filterMap (parsedEvent env) = events
  induction lines with
  | nil => rfl
  | @cons text event texts events line _ ih =>
    have whole : textBytes (text :: texts) = utf8 text ++ 10 :: textBytes texts := by
      simp [textBytes]
    rw [whole, sourceLines_line line.oneLine, List.nil_append,
      List.filterMap_cons_some (parsedEvent_text line), ih]

/-- The report over these events. -/
def reportOf (env : Environment) (events : List Json) : Report :=
  let state := events.foldl (observeEvent env) ⟨[], 0⟩
  ⟨payload state.tests state.eventCount, markdown state.tests state.eventCount,
    html state.tests state.eventCount⟩

theorem generate_texts {env : Environment} {texts : List String} {events : List Json}
    (lines : List.Forall₂ (EventText env) texts events) (room : events.length < maxEvents)
    (path : String) :
    generate env [⟨path, some (textBytes texts)⟩] = some (reportOf env events) := by
  have read := boundedLines_texts lines ⟨[], 0⟩ (by rwa [Nat.zero_add])
  have sorted : sortedFiles [⟨path, some (textBytes texts)⟩] = [⟨path, some (textBytes texts)⟩] :=
    List.mergeSort_singleton _
  have unread : ¬ maxEvents ≤ (⟨[], 0⟩ : ReportState).eventCount := by decide
  simp only [generate, sorted, readFiles, if_neg unread, read]
  rfl

def plainEnvironment : Environment where
  parseText line := parseJson FloatReader.nearest line.toList
  toJson _ := ""
  toText _ := ""
  toInt _ := 0
  sourcePath _ := none

def failedLine : String :=
  "\x7b\"type\":\"TEST_FINISH\",\"testId\":\"1\",\"testName\":\"T\",\"status\":\"failed\"\x7d\n"

def passedLine : String :=
  "\x7b\"type\":\"TEST_FINISH\",\"testId\":\"2\",\"testName\":\"T\",\"status\":\"successful\"\x7d\n"

def startedLine : String :=
  "\x7b\"type\":\"TEST_START\",\"testId\":\"3\",\"testName\":\"U\"\x7d\n"

def failedText : String :=
  "\x7b\"type\":\"TEST_FINISH\",\"testId\":\"1\",\"testName\":\"T\",\"status\":\"failed\"\x7d"

def passedText : String :=
  "\x7b\"type\":\"TEST_FINISH\",\"testId\":\"2\",\"testName\":\"T\",\"status\":\"successful\"\x7d"

def startedText : String :=
  "\x7b\"type\":\"TEST_START\",\"testId\":\"3\",\"testName\":\"U\"\x7d"

def failedEvent : Json :=
  .object [("status", .string "failed"), ("testId", .string "1"), ("testName", .string "T"),
    ("type", .string "TEST_FINISH")]

def passedEvent : Json :=
  .object [("status", .string "successful"), ("testId", .string "2"), ("testName", .string "T"),
    ("type", .string "TEST_FINISH")]

def startedEvent : Json :=
  .object [("testId", .string "3"), ("testName", .string "U"), ("type", .string "TEST_START")]

theorem eventText_plain {text : String} {fields : List (String × Json)}
    (checked : 10 ∉ utf8 text ∧ (utf8 text).length ≤ maxEventBytes ∧ isBlank text.toList = false ∧
      parseJson FloatReader.nearest text.toList = some (.object fields) ∧
      named (.object fields) = true) : EventText plainEnvironment text (.object fields) where
  oneLine := checked.1
  short := checked.2.1
  shown := checked.2.2.1
  parsed := checked.2.2.2.1
  object := ⟨fields, rfl⟩
  named := checked.2.2.2.2

theorem plainTexts : EventText plainEnvironment failedText failedEvent ∧
    EventText plainEnvironment passedText passedEvent ∧
      EventText plainEnvironment startedText startedEvent :=
  ⟨eventText_plain (by decide +kernel), eventText_plain (by decide +kernel),
    eventText_plain (by decide +kernel)⟩

theorem utf8_lines :
    utf8 (failedLine ++ passedLine) = textBytes [failedText, passedText] ∧
      utf8 (passedLine ++ failedLine ++ startedLine) =
        textBytes [passedText, failedText, startedText] := by
  have failed : failedLine = failedText ++ "\n" := by decide +kernel
  have passed : passedLine = passedText ++ "\n" := by decide +kernel
  have started : startedLine = startedText ++ "\n" := by decide +kernel
  have newline : String.utf8EncodeChar '\n' = [10] := by decide +kernel
  rw [failed, passed, started]
  simp [textBytes, utf8, newline]

/-- A test passes and then fails, and another one never finishes. -/
def mixedFile : List EventFile :=
  [⟨"events.jsonl", some (utf8 (passedLine ++ failedLine ++ startedLine))⟩]

/-- The last finish of the name is its failure, so the report is honest. -/
theorem report_honest_iff_demo :
    ∃ report, generate plainEnvironment mixedFile = some report ∧
      (StatesAllPassed report →
        NoFailure plainEnvironment mixedFile ∧ AllFinished plainEnvironment mixedFile) := by
  obtain ⟨failed, passed, started⟩ := plainTexts
  have lines : List.Forall₂ (EventText plainEnvironment) [passedText, failedText, startedText]
      [passedEvent, failedEvent, startedEvent] := .cons passed (.cons failed (.cons started .nil))
  have file : mixedFile =
      [⟨"events.jsonl", some (textBytes [passedText, failedText, startedText])⟩] := by
    rw [mixedFile, utf8_lines.2]
  have events : counted plainEnvironment mixedFile = [passedEvent, failedEvent, startedEvent] := by
    rw [file, counted, sortedFiles, List.mergeSort_singleton, List.flatMap_singleton,
      fileEvents_texts lines]
    decide +kernel
  have generated := generate_texts lines (by decide) "events.jsonl"
  rw [← file] at generated
  refine ⟨_, generated, (report_honest_iff generated).mpr (.inr ⟨"T", ?_⟩)⟩
  rw [events]
  exact ⟨[_], _, [_], rfl, by decide, by decide, by decide⟩

/-- The second invocation of a test passes: the report states that all tests passed. -/
theorem failed_invocation_hidden :
    ∃ report, generate plainEnvironment
        [⟨"events.jsonl", some (utf8 (failedLine ++ passedLine))⟩] = some report ∧
      StatesAllPassed report ∧
      ¬NoFailure plainEnvironment [⟨"events.jsonl", some (utf8 (failedLine ++ passedLine))⟩] := by
  obtain ⟨failed, passed, -⟩ := plainTexts
  have lines : List.Forall₂ (EventText plainEnvironment) [failedText, passedText]
      [failedEvent, passedEvent] := .cons failed (.cons passed .nil)
  rw [utf8_lines.1]
  refine ⟨_, generate_texts lines (by decide) _, by decide +kernel, fun none_ => ?_⟩
  have silent := none_ _ List.mem_cons_self failedEvent
  rw [fileEvents_texts lines] at silent
  exact absurd (silent List.mem_cons_self) (by decide)

end Walaru.Gradle
