import TestInfra.JenkinsLog.Chunks
import TestInfra.Lib.PyText

set_option autoImplicit false

/-! # Several logs in one process

The main loop of `jenkins_log_parser.py` parses the console log of one run after the other and records
`job_details` for each. A log is read by `process_install_steps` up to the end of the installation and by
`process_test_cases` from there on. The state machine lives in globals of the module; of these the loop sets
only `job_details` (and the counter `test_num`, which is only printed) before each log.

`records_independent` says when this is harmless: the records are those of fresh processes as long as every
log begins with the other globals at their initial values, and from any other state some log is recorded
wrongly. -/

namespace TestInfra.JenkinsLog

open Raises Raises.Prog

/-! ## The installation -/

/-- `text in line`. -/
def contains (text : String) (line : Line) : Bool := decide (text.toList <:+: line)

/-- The lines that open the installation. -/
def startsInstall (line : Line) : Bool :=
  contains "Starting server installation" line || contains " scripts/new_install.py " line ||
    contains "Trying to check is this url alive" line

/-- `desc_set_log.match(line)` and `desc_log[1].split(" ")`. -/
def descriptionWords (line : Line) : Option (List Line) :=
  (dropText "[description-setter] Description set: " line).map (·.splitOn ' ')

/-- `install_block` and `install_logs`. -/
structure Install where
  block : Bool
  logs : Line
deriving DecidableEq, Repr

/-- `install_logs += line + "\n"`. -/
def Install.note (st : Install) (line : Line) : Install := { st with logs := st.logs ++ line ++ ['\n'] }

/-- How the loop over the lines of a chunk ends. -/
inductive Scan where
  | more (st : Install)
  /-- At `TOTAL INSTALL TIME`, with the lines from there on. -/
  | complete (st : Install) (lines : List Line)
  /-- `desc_log[3]` is out of range. -/
  | raised (st : Install)
deriving DecidableEq, Repr

/-- `for l_idx, line in enumerate(chunk)` of `process_install_steps`. -/
def scanLines : List Line → Install → Scan
  | [], st => .more st
  | line :: rest, st =>
      if startsInstall line then scanLines rest (Install.note { st with block := true } line)
      else if contains "TOTAL INSTALL TIME" line then
        .complete { st.note line with block := false } (line :: rest)
      else if ((descriptionWords line).map List.length).getD 4 < 4 then .raised st
      else scanLines rest (if st.block then st.note line else st)

/-- How the installation ends. -/
inductive Installed where
  /-- The chunks ran out; `last` is the last line read. -/
  | unfinished (st : Install) (last : Line)
  | complete (st : Install) (lines : List Line) (chunks : List Line)
  | raised (st : Install)
deriving DecidableEq, Repr

/-- `for chunk in chunks` of `process_install_steps`. -/
def scanChunks : List Line → Line → Install → Installed
  | [], last, st => .unfinished st last
  | chunk :: rest, _, st =>
      match scanLines (chunk.splitOn '\n') st with
      | .more st => scanChunks rest ((chunk.splitOn '\n').getLastD []) st
      | .complete st lines => .complete st lines rest
      | .raised st => .raised st

/-- `(text)[\t :]+\d+\.\d+\.\d+\.\d+` at the start of the text. -/
def addressAtStart (text : String) (line : Line) : Bool :=
  Option.isSome do
    let rest ← dropText text line
    let rest ← dropMany (fun c => c = '\t' || c = ' ' || c = ':') rest
    let rest ← dropMany Char.isDigit rest
    let rest ← dropMany Char.isDigit (← dropText "." rest)
    let rest ← dropMany Char.isDigit (← dropText "." rest)
    dropMany Char.isDigit (← dropText "." rest)

/-- `install_failed_pattern` or `install_not_started_pattern` occurs in the logs. -/
def listsFailures (logs : Line) : Bool :=
  logs.tails.any (addressAtStart "FAILED ON") || logs.tails.any (addressAtStart "NOT STARTED ON:")

/-- `install_logs == "" or install_failed_ips or install_not_started_ips`, after `strip`. -/
def installFailed (logs : Line) : Bool :=
  PyText.strip logs = [] || listsFailures (PyText.strip logs)

/-! ## The main loop -/

/-- A console log: its chunks, and whether the stream raises behind them. A chunk that cannot be decoded raises
    as well, and with it nothing behind it is read. -/
structure Console where
  chunks : List Line
  raises : Bool

/-- The globals of the process. -/
structure Process where
  installBlock : Bool
  parser : Parser

/-- `job_details["run_note"] = "install_failed"`. -/
def Process.failInstall (g : Process) (failed : Bool) : Process :=
  if failed then
    { g with parser := { g.parser with details := { g.parser.details with runNote := some "install_failed" } } }
  else g

/-- `process_test_cases`; what it raises is caught in the main loop. -/
def Process.test (clock : Clock) (remaining : Line) (chunks : List Line) (g : Process) : Process :=
  { g with parser := (Parser.processTestCases clock remaining chunks g.parser).2 }

/-- `stream_and_process` with the handlers around it. -/
def Process.stream (clock : Clock) (console : Console) (g : Process) : Process :=
  match scanChunks console.chunks [] ⟨g.installBlock, []⟩ with
  | .raised st => { g with installBlock := st.block }
  | .unfinished st last =>
      if console.raises then { g with installBlock := st.block }
      else Process.test clock last [] (Process.failInstall { g with installBlock := st.block } true)
  | .complete st lines chunks =>
      Process.test clock (PyText.join '\n' lines) chunks
        (Process.failInstall { g with installBlock := st.block } (installFailed st.logs))

/-- The new `job_details` of a run. -/
def newDetails : JobDetails := ⟨[], none, none, none⟩

/-- A run of the main loop: its log, and whether its results go to the analyzer. -/
structure Run where
  console : Console
  toAnalyzer : Bool

/-- The globals behind the log of a run. -/
def Process.parse (clock : Clock) (run : Run) (g : Process) : Process :=
  Process.stream clock run.console { g with parser := { g.parser with details := newDetails } }

/-- `run_note` is `PASS` when the tests are, all of them, and there is one. -/
def noteOf (run : Run) (details : JobDetails) : Option String :=
  if run.toAnalyzer ∧ details.tests ≠ [] ∧ ∀ e ∈ details.tests, e = .pass then some "PASS"
  else details.runNote

/-- What is recorded for a run: `tests` and `run_note`. -/
def Process.record (clock : Clock) (run : Run) (g : Process) : List TestEntry × Option String :=
  let details := (g.parse clock run).parser.details
  (details.tests, noteOf run details)

/-- The records of a sequence of runs. -/
def Process.records (clock : Clock) : Process → List Run → List (List TestEntry × Option String)
  | _, [] => []
  | g, run :: rest => g.record clock run :: (g.parse clock run).records clock rest

/-- The globals behind a sequence of runs. -/
def Process.parseAll (clock : Clock) (g : Process) (runs : List Run) : Process :=
  runs.foldl (fun g run => g.parse clock run) g

/-- A process that has just started. -/
def freshProcess : Process := ⟨false, ⟨false, false, none, 0, newDetails⟩⟩

/-! ## Independence -/

/-- The globals the main loop leaves alone have their initial values. -/
structure Clean (g : Process) : Prop where
  installBlock : g.installBlock = false
  daemonKilled : g.parser.daemonKilled = false
  testCaseStarted : g.parser.testCaseStarted = false
  testResult : g.parser.testResult = none
  testReportStage : g.parser.testReportStage = 0

/-- Every log of the sequence begins in a clean state. -/
def CleanBefore (clock : Clock) : Process → List Run → Prop
  | _, [] => True
  | g, run :: rest => Clean g ∧ CleanBefore clock (g.parse clock run) rest

theorem Clean.record_eq {g : Process} (h : Clean g) (clock : Clock) (run : Run) :
    g.record clock run = freshProcess.record clock run := by
  have hg : { g with parser := { g.parser with details := newDetails } } = freshProcess := by
    obtain ⟨block, killed, started, result, stage, details⟩ := g
    obtain ⟨rfl, rfl, rfl, rfl, rfl⟩ := h
    rfl
  rw [Process.record, Process.parse, hg]
  rfl

theorem records_of_cleanBefore (clock : Clock) {g : Process} {runs : List Run}
    (h : CleanBefore clock g runs) : g.records clock runs = runs.map (freshProcess.record clock) := by
  induction runs generalizing g with
  | nil => rfl
  | cons run rest ih =>
      rw [Process.records, h.1.record_eq, ih h.2]
      rfl

/-! ## Logs that tell the globals -/

namespace Parser

/-- A line that means nothing by itself. -/
structure Plain (line : Line) : Prop where
  not_blank : isBlank line = false
  not_daemon : endsDaemon line = false
  not_start : startsTest line = false
  no_timestamp : timestamp line = none
  not_abort : abortsBuild line = false

instance (line : Line) : Decidable (Plain line) :=
  decidable_of_iff
    (isBlank line = false ∧ endsDaemon line = false ∧ startsTest line = false ∧ timestamp line = none ∧
      abortsBuild line = false)
    ⟨fun ⟨hblank, hdaemon, hstart, htime, habort⟩ => ⟨hblank, hdaemon, hstart, htime, habort⟩,
      fun h => ⟨h.not_blank, h.not_daemon, h.not_start, h.no_timestamp, h.not_abort⟩⟩

theorem Plain.processTestLine_eq {line : Line} (h : Plain line) (clock : Clock) (s : Parser) :
    processTestLine clock line s = processContent line s := by
  rw [processTestLine_of_other clock s h.not_blank h.not_daemon h.not_start]
  simp [recordTimestamp, h.no_timestamp, Prog.seq]

/-- A line inside a report raises as long as there is no test. -/
theorem processReportLine_of_no_test {line : Line} (hdashes : onlyDashes line = false) {s : Parser}
    (hs : s.details.tests = []) : processReportLine line s = (.error .indexError, s) := by
  simp [processReportLine, hdashes, editBacktrace, hs, Prog.seq]

def totalLine : Line := "TOTAL INSTALL TIME".toList

def ranLine : Line := "Ran 1 test in 1.0s".toList

theorem plain_lines : Plain totalLine ∧ Plain ranLine ∧ Plain reportDelimiter := by
  decide +kernel

/-- What the patterns find in the lines. -/
theorem line_patterns :
    (completesTest totalLine = false ∧ completesTest ranLine = true ∧ completesTest reportDelimiter = false) ∧
      (onlyDashes totalLine = false ∧ onlyDashes reportDelimiter = false ∧ totalLine ≠ reportDelimiter) ∧
        isBlank testStart = false ∧ endsDaemon testStart = false ∧ startsTest testStart = true := by
  decide +kernel

/-- The line at the end of the installation passes, unless the state says that a report is open. -/
theorem processTestLine_totalLine (clock : Clock) {s : Parser} (hs : s.details.tests = []) :
    processTestLine clock totalLine s
      = (if s.testCaseStarted = true ∧ s.testReportStage ≠ 0 then .error .indexError else .ok (), s) := by
  obtain ⟨⟨hcomplete, -, -⟩, ⟨hdashes, -, hdelimiter⟩, -⟩ := line_patterns
  have hreport : processReportLine totalLine s = (.error .indexError, s) :=
    processReportLine_of_no_test hdashes hs
  rw [plain_lines.1.processTestLine_eq]
  simp only [processContent, hcomplete, plain_lines.1.not_abort, hdelimiter, and_false, if_false,
    Bool.false_eq_true, hreport, Nat.pos_iff_ne_zero]
  by_cases hstarted : s.testCaseStarted = true <;> by_cases hstage : s.testReportStage = 0 <;>
    simp [hstarted, hstage]

theorem processTestLine_ranLine (clock : Clock) (s : Parser) :
    processTestLine clock ranLine s
      = (.ok (), { (if s.testResult = none then s.appendTest .pass else s) with
          testCaseStarted := false, testResult := none }) := by
  obtain ⟨⟨-, hcomplete, -⟩, -⟩ := line_patterns
  rw [plain_lines.2.1.processTestLine_eq]
  simp only [processContent, hcomplete, if_true]

theorem processTestLine_reportDelimiter (clock : Clock) {s : Parser} (hs : s.details.tests = []) :
    processTestLine clock reportDelimiter s
      = if s.testCaseStarted = false then (.ok (), s)
        else if s.testReportStage = 0 then
          (.ok (), { s.appendTest (.fail []) with testReportStage := 1, testResult := some .failed })
        else (.error .indexError, s) := by
  obtain ⟨⟨-, -, hcomplete⟩, ⟨-, hdashes, -⟩, -⟩ := line_patterns
  have hreport : processReportLine reportDelimiter s = (.error .indexError, s) :=
    processReportLine_of_no_test hdashes hs
  rw [plain_lines.2.2.processTestLine_eq]
  simp only [processContent, hcomplete, plain_lines.2.2.not_abort, and_true, if_false,
    Bool.false_eq_true, hreport, Nat.pos_iff_ne_zero]
  by_cases hstarted : s.testCaseStarted = true <;> by_cases hstage : s.testReportStage = 0 <;>
    simp [hstarted, hstage]

theorem processTestLine_testStart (clock : Clock) (s : Parser) :
    processTestLine clock testStart s = (.ok (), { s with testCaseStarted := true }) := by
  obtain ⟨-, -, hblank, hdaemon, hstart⟩ := line_patterns
  simp [processTestLine, hblank, hdaemon, hstart]

/-- Lines are processed one after the other. -/
theorem feed_cons_of_ok {clock : Clock} {line : Line} {s s' : Parser}
    (h : processTestLine clock line s = (.ok (), s')) (hs' : s'.daemonKilled = false) (rest : List Line) :
    feed clock (line :: rest) s = feed clock rest s' := by
  rw [feed_cons, h, goOn_of_running hs']

theorem feed_cons_of_error {clock : Clock} {line : Line} {s s' : Parser} {e : PyError}
    (h : processTestLine clock line s = (.error e, s')) (rest : List Line) :
    feed clock (line :: rest) s = (.error e, s') := by
  rw [feed_cons, h]
  rfl

/-- Behind the line at the end of the installation: the lines that follow, or nothing more. -/
theorem feed_totalLine (clock : Clock) {s : Parser} (hs : s.details.tests = []) (rest : List Line) :
    (feed clock (totalLine :: rest) s).2
      = if s.daemonKilled = true ∨ (s.testCaseStarted = true ∧ s.testReportStage ≠ 0) then s
        else (feed clock rest s).2 := by
  have hline := processTestLine_totalLine clock hs
  by_cases hopen : s.testCaseStarted = true ∧ s.testReportStage ≠ 0
  · rw [if_pos hopen] at hline
    rw [feed_cons_of_error hline, if_pos (.inr hopen)]
  · rw [if_neg hopen] at hline
    by_cases hkilled : s.daemonKilled = true
    · rw [feed_cons, hline, goOn_of_stopped (.inr hkilled), if_pos (.inl hkilled)]
    · rw [feed_cons_of_ok hline (by simpa using hkilled), if_neg (not_or.2 ⟨hkilled, hopen⟩)]

end Parser

open TestInfra.JenkinsLog.Parser

/-- A log that begins with the end of the installation. -/
def probe (lines : List Line) : Run := ⟨⟨[PyText.join '\n' (totalLine :: lines)], false⟩, false⟩

/-- None of the lines has a line break in it, and the first one ends the installation. -/
theorem line_install :
    (∀ line ∈ [totalLine, ranLine, reportDelimiter, testStart], '\n' ∉ line) ∧
      startsInstall totalLine = false ∧ contains "TOTAL INSTALL TIME" totalLine = true ∧
        installFailed ([] ++ totalLine ++ ['\n']) = false := by
  decide +kernel

theorem no_newline {lines : List Line} (h : lines ⊆ [totalLine, ranLine, reportDelimiter, testStart]) :
    ∀ line ∈ lines, '\n' ∉ line :=
  fun line hline => line_install.1 line (h hline)

theorem splitOn_probe {lines : List Line} (h : ∀ line ∈ lines, '\n' ∉ line) :
    (PyText.join '\n' (totalLine :: lines)).splitOn '\n' = totalLine :: lines := by
  refine List.splitOn_intercalate '\n' ?_ (List.cons_ne_nil _ _)
  intro line hline
  rcases List.mem_cons.1 hline with rfl | hline
  · exact line_install.1 totalLine List.mem_cons_self
  · exact h line hline

/-- The globals as a log begins. -/
def Process.begun (g : Process) : Parser := { g.parser with details := newDetails }

/-- Such a log is read line by line. -/
theorem parse_probe (clock : Clock) (g : Process) {lines : List Line} (h : ∀ line ∈ lines, '\n' ∉ line) :
    g.parse clock (probe lines) = ⟨false, (feed clock (totalLine :: lines) g.begun).2⟩ := by
  obtain ⟨-, hstarts, htotal, hinstalled⟩ := line_install
  have hscan : scanChunks (probe lines).console.chunks [] ⟨g.installBlock, []⟩
      = .complete ⟨false, [] ++ totalLine ++ ['\n']⟩ (totalLine :: lines) [] := by
    simp [probe, scanChunks, splitOn_probe h, scanLines, hstarts, htotal, Install.note]
  simp only [Process.parse, Process.stream, hscan, Process.failInstall, hinstalled,
    Bool.false_eq_true, if_false, Process.test, processTestCases, splitOn_probe h, unlessKilled_eq]
  have hskip : processChunks clock (.text (PyText.join '\n' (totalLine :: lines))) [] = skip := rfl
  rw [hskip, goOn_skip]
  rfl

/-- What is recorded of such a log: its tests as the lines leave them. -/
theorem record_probe (clock : Clock) (g : Process) {lines : List Line} (h : ∀ line ∈ lines, '\n' ∉ line) :
    (g.record clock (probe lines)).1 = (feed clock (totalLine :: lines) g.begun).2.details.tests := by
  rw [Process.record, parse_probe clock g h]

/-- The log of a test that passes. -/
def passLog : Run := probe [ranLine]

/-- A report outside a test. -/
def strayLog : Run := probe [reportDelimiter]

/-- A test that fails. -/
def failLog : Run := probe [testStart, reportDelimiter]

/-- An address that failed before the installation began. -/
def earlyFailureLog : Run := ⟨⟨["FAILED ON: 1.1.1.1\nTOTAL INSTALL TIME".toList], false⟩, false⟩

/-- A pass is not recorded when a verdict is left over, or nothing is read. -/
theorem record_passLog (clock : Clock) {g : Process}
    (h : g.parser.daemonKilled = true ∨ g.parser.testResult ≠ none) : (g.record clock passLog).1 = [] := by
  rw [passLog, record_probe clock g (no_newline (by simp)), feed_totalLine clock rfl]
  split
  · rfl
  · next hrun =>
      have hresult : g.begun.testResult ≠ none := h.resolve_left fun hk => hrun (.inl hk)
      rw [feed_singleton, processTestLine_ranLine, if_neg hresult]
      rfl

/-- A line of `=` outside a test is taken for a report when a test is left open. -/
theorem record_strayLog (clock : Clock) {g : Process} (hkilled : g.parser.daemonKilled = false)
    (hstage : g.parser.testReportStage = 0) :
    (g.record clock strayLog).1 = if g.parser.testCaseStarted then [.fail []] else [] := by
  have hrun : ¬ (g.begun.daemonKilled = true ∨ (g.begun.testCaseStarted = true ∧ g.begun.testReportStage ≠ 0)) := by
    simp [Process.begun, hkilled, hstage]
  rw [strayLog, record_probe clock g (no_newline (by simp)), feed_totalLine clock rfl, if_neg hrun, feed_singleton,
    processTestLine_reportDelimiter clock rfl]
  cases hstarted : g.parser.testCaseStarted <;>
    simp [Process.begun, hstarted, hstage, newDetails, appendTest]

/-- A failure is not recorded when a report is left open. -/
theorem record_failLog (clock : Clock) {g : Process} (hstage : g.parser.testReportStage ≠ 0) :
    (g.record clock failLog).1 = [] := by
  rw [failLog, record_probe clock g (no_newline (by simp)), feed_totalLine clock rfl]
  split
  · rfl
  · next hrun =>
      have hkilled : g.begun.daemonKilled = false := by
        rw [not_or] at hrun
        simpa using hrun.1
      rw [feed_cons_of_ok (processTestLine_testStart clock g.begun) hkilled, feed_singleton,
        processTestLine_reportDelimiter clock rfl]
      simp [Process.begun, hstage, newDetails]

/-- The lines of the early failure are logged if an installation is open. -/
theorem scan_earlyFailureLog : ∀ block : Bool,
    scanChunks earlyFailureLog.console.chunks [] ⟨block, []⟩
        = .complete ⟨false, (if block then "FAILED ON: 1.1.1.1\n".toList else []) ++ totalLine ++ ['\n']⟩
            [totalLine] [] ∧
      installFailed ((if block then "FAILED ON: 1.1.1.1\n".toList else []) ++ totalLine ++ ['\n']) = block := by
  decide +kernel

/-- What fails before the installation counts when an installation is left open. -/
theorem record_earlyFailureLog (clock : Clock) (g : Process) :
    (g.record clock earlyFailureLog).2 = if g.installBlock then some "install_failed" else none := by
  obtain ⟨hscan, hfailed⟩ := scan_earlyFailureLog g.installBlock
  have hlines : (PyText.join '\n' [totalLine]).splitOn '\n' = [totalLine] := splitOn_probe fun _ h => nomatch h
  simp only [Process.record, Process.parse, Process.stream, hscan, hfailed, Process.test, processTestCases, hlines,
    unlessKilled_eq]
  have hskip : processChunks clock (.text (PyText.join '\n' [totalLine])) [] = skip := rfl
  have hline : ∀ s : Parser, s.details.tests = [] → (feed clock [totalLine] s).2 = s := by
    intro s hs
    rw [feed_singleton, processTestLine_totalLine clock hs]
  rw [hskip, goOn_skip]
  cases g.installBlock
  · rw [Process.failInstall, if_neg Bool.false_ne_true, hline _ rfl]
    rfl
  · rw [Process.failInstall, if_pos rfl, hline _ rfl]
    rfl

theorem clean_freshProcess : Clean freshProcess := ⟨rfl, rfl, rfl, rfl, rfl⟩

/-- A pass is recorded and leaves the state as it was. -/
theorem parse_passLog (clock : Clock) :
    freshProcess.parse clock passLog = ⟨false, freshProcess.begun.appendTest .pass⟩ := by
  rw [passLog, parse_probe clock _ (no_newline (by simp)), feed_totalLine clock rfl,
    if_neg (by simp [Process.begun, freshProcess]), feed_singleton, processTestLine_ranLine]
  rfl

/-- A failure is recorded and leaves its report open. -/
theorem parse_failLog (clock : Clock) :
    freshProcess.parse clock failLog =
      ⟨false, { ({ freshProcess.begun with testCaseStarted := true }).appendTest (.fail []) with
        testReportStage := 1, testResult := some .failed }⟩ := by
  rw [failLog, parse_probe clock _ (no_newline (by simp)), feed_totalLine clock rfl,
    if_neg (by simp [Process.begun, freshProcess]), feed_cons_of_ok (processTestLine_testStart clock _) rfl,
    feed_singleton, processTestLine_reportDelimiter clock rfl]
  rfl

theorem record_passLog_fresh (clock : Clock) : (freshProcess.record clock passLog).1 = [.pass] := by
  rw [Process.record, parse_passLog]
  rfl

/-- From a state that is not clean some log is recorded as it would not be alone. -/
theorem exists_record_ne (clock : Clock) {g : Process} (h : ¬ Clean g) :
    ∃ run, g.record clock run ≠ freshProcess.record clock run := by
  by_cases hverdict : g.parser.daemonKilled = true ∨ g.parser.testResult ≠ none
  · refine ⟨passLog, ?_⟩
    intro heq
    have hwrong := record_passLog clock hverdict
    rw [heq, record_passLog_fresh] at hwrong
    cases hwrong
  obtain ⟨hkilled, hresult⟩ := not_or.1 hverdict
  rw [Bool.not_eq_true] at hkilled
  rw [not_not] at hresult
  by_cases hstage : g.parser.testReportStage = 0
  · by_cases hstarted : g.parser.testCaseStarted = true
    · refine ⟨strayLog, ?_⟩
      intro heq
      have hwrong := record_strayLog clock hkilled hstage
      rw [heq, hstarted, record_strayLog clock (g := freshProcess) rfl rfl] at hwrong
      cases hwrong
    · refine ⟨earlyFailureLog, fun heq => h ⟨?_, hkilled, by simpa using hstarted, hresult, hstage⟩⟩
      have hwrong := record_earlyFailureLog clock g
      rw [heq, record_earlyFailureLog] at hwrong
      by_contra hblock
      rw [Bool.not_eq_false] at hblock
      rw [hblock] at hwrong
      cases hwrong
  · refine ⟨failLog, ?_⟩
    intro heq
    have hfresh : (freshProcess.record clock failLog).1 = [.fail []] := by
      rw [Process.record, parse_failLog]
      rfl
    have hwrong := record_failLog clock hstage
    rw [heq, hfresh] at hwrong
    cases hwrong

/-- **Logs are parsed independently exactly from a clean state**: a sequence of logs that each begin in a clean
    state is recorded as if every log were parsed alone; and behind any logs, every further log is recorded as
    if it were parsed alone if and only if they left the state clean. -/
theorem records_independent (clock : Clock) :
    (∀ runs, CleanBefore clock freshProcess runs →
        freshProcess.records clock runs = runs.map (freshProcess.record clock)) ∧
      ∀ previous, (∀ run, (freshProcess.parseAll clock previous).record clock run
          = freshProcess.record clock run) ↔ Clean (freshProcess.parseAll clock previous) := by
  refine ⟨fun runs => records_of_cleanBefore clock, fun previous => ⟨?_, ?_⟩⟩
  · intro h
    by_contra hclean
    obtain ⟨run, hrun⟩ := exists_record_ne clock hclean
    exact hrun (h run)
  · intro hclean run
    exact hclean.record_eq clock run

/-- Two tests that pass, one log each. -/
theorem records_independent_pass :
    CleanBefore noDates freshProcess [passLog, passLog] ∧
      freshProcess.records noDates [passLog, passLog]
        = [passLog, passLog].map (freshProcess.record noDates) := by
  have hclean : Clean (freshProcess.parse noDates passLog) := by
    rw [parse_passLog]
    exact ⟨rfl, rfl, rfl, rfl, rfl⟩
  have hbefore : CleanBefore noDates freshProcess [passLog, passLog] := ⟨clean_freshProcess, hclean, trivial⟩
  exact ⟨hbefore, (records_independent noDates).1 _ hbefore⟩

/-- A log that ends inside a test, and behind it the log of another one that passes: the report of the first
    is still open. -/
theorem records_depend :
    freshProcess.records noDates [failLog, passLog] ≠ [failLog, passLog].map (freshProcess.record noDates) := by
  intro h
  have hsame : (freshProcess.parse noDates failLog).record noDates passLog =
      freshProcess.record noDates passLog := by
    simp only [Process.records, List.map_cons, List.map_nil, List.cons.injEq, and_true, true_and] at h
    exact h
  have hresult : (freshProcess.parse noDates failLog).parser.testResult ≠ none := by
    rw [parse_failLog]
    exact Option.some_ne_none _
  have hlost := record_passLog noDates (Or.inr hresult)
  rw [hsame, record_passLog_fresh] at hlost
  cases hlost

end TestInfra.JenkinsLog
