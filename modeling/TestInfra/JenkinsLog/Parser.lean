import TestInfra.Lib.Raises
import Mathlib.Data.List.Infix

set_option autoImplicit false

/-! # The log parser

`regression_automation/jenkins_log_parser.py` reads the console log of a test run as a stream of chunks
and keeps a verdict for every test in `job_details`. `process_test_line` is a state machine over lines:
a test starts with its parameters, a failure report stands between a line of 70 `=` and the second line of
70 `-` after it, and `Ran 1 test in ..` ends the test.

Texts are lists of characters. The logs are ASCII, so a chunk can be decoded wherever it is cut, and
`strip` and `\d` mean the ASCII characters. What is printed is left out, and with it `test_num`. -/

namespace TestInfra.JenkinsLog

open Raises Raises.Prog

abbrev Line := List Char

/-! ## What is read off a line -/

/-- The ASCII characters `str.strip` removes. -/
def isSpace (c : Char) : Bool :=
  c = ' ' || (9 ≤ c.toNat && c.toNat ≤ 13) || (28 ≤ c.toNat && c.toNat ≤ 31)

/-- `line.strip() == ''`. -/
def isBlank (line : Line) : Bool := line.all isSpace

def daemonEnd : Line := "- End of the daemon log -".toList

/-- `"- End of the daemon log -" in line`. -/
def endsDaemon (line : Line) : Bool := decide (daemonEnd <:+: line)

def testStart : Line := "Test Input params:".toList

/-- `line.startswith("Test Input params:")`. -/
def startsTest (line : Line) : Bool := testStart.isPrefixOf line

/-- The characters a pattern is made of. -/
inductive Pat where
  | char (c : Char)
  | digit

def Pat.accepts : Pat → Char → Bool
  | char c, x => x = c
  | digit, x => x.isDigit

/-- What is left of the text after a match of the pattern at its start. -/
def dropPat : List Pat → Line → Option Line
  | [], line => some line
  | _ :: _, [] => none
  | p :: ps, c :: line => if p.accepts c then dropPat ps line else none

/-- What is left after one or more of the characters, as many as there are. -/
def dropMany (accepts : Char → Bool) : Line → Option Line
  | [] => none
  | c :: line => if accepts c then some (line.dropWhile accepts) else none

def dropText (text : String) : Line → Option Line := dropPat (text.toList.map .char)

/-- `[0-9]{4}-[0-9]{2}-[0-9]{2} [0-9]{2}:[0-9]{2}:[0-9]{2},`. -/
def datePat : List Pat :=
  let two : List Pat := [.digit, .digit]
  two ++ two ++ [.char '-'] ++ two ++ [.char '-'] ++ two ++ [.char ' '] ++ two ++ [.char ':'] ++ two ++
    [.char ':'] ++ two ++ [.char ',']

/-- `test_timestamp_pattern`: the timestamp at the start of the line, with a space after it. -/
def timestamp (line : Line) : Option Line := do
  let rest ← dropPat datePat line
  let rest ← dropMany Char.isDigit rest
  let _ ← dropText " " rest
  pure (line.take (line.length - rest.length))

/-- `test_complete_line_pattern.match(line)`. -/
def completesTest (line : Line) : Bool :=
  Option.isSome do
    let rest ← dropText "Ran 1 test in " line
    let rest ← dropMany Char.isDigit rest
    let rest ← dropText "." rest
    let rest ← dropMany Char.isDigit rest
    dropText "s" rest

/-- `build_aborted_pattern` at the start of the text; the last `.` of the pattern is any character. -/
def abortsAtStart (line : Line) : Bool :=
  Option.isSome do
    let rest ← dropText "Build timed out (after " line
    let rest ← dropMany Char.isDigit rest
    let rest ← dropText " " rest
    let rest ← dropMany Char.isAlpha rest
    let rest ← dropText "). Marking the build as aborted" rest
    dropMany (fun c => c ≠ '\n') rest

/-- `build_aborted_pattern.findall(line)`. -/
def abortsBuild (line : Line) : Bool := line.tails.any abortsAtStart

/-- `test_report_delimiter`. -/
def reportDelimiter : Line := List.replicate 70 '='

/-- `'-' * 70`. -/
def dashes : Line := List.replicate 70 '-'

/-- `line.replace("-", "") == ""`. -/
def onlyDashes (line : Line) : Bool := line.all (· = '-')

/-! ## The state -/

/-- An element of `job_details["tests"]`; only a failure has a `backtrace`. -/
inductive TestEntry where
  | pass
  | fail (backtrace : Line)
  | na
deriving DecidableEq, Repr

/-- The values of `test_result`. -/
inductive Verdict where
  | failed
  | abort
deriving DecidableEq, Repr

/-- The fields of `job_details` the parser writes. -/
structure JobDetails where
  tests : List TestEntry
  runNote : Option String
  firstTimestamp : Option Int
  lastTimestamp : Option Int
deriving DecidableEq, Repr

/-- The globals of the module. -/
structure Parser where
  daemonKilled : Bool
  testCaseStarted : Bool
  testResult : Option Verdict
  testReportStage : Nat
  details : JobDetails
deriving DecidableEq, Repr

inductive PyError where
  | valueError
  | keyError
  | indexError
deriving DecidableEq, Repr

/-- `int(datetime.strptime(s, "%Y-%m-%d %H:%M:%S.%f").timestamp())`, which depends on the time zone;
    `none` when it raises `ValueError`. -/
abbrev Clock := Line → Option Int

namespace Parser

/-- `job_details["tests"].append(..)`. -/
def appendTest (e : TestEntry) (s : Parser) : Parser :=
  { s with details := { s.details with tests := s.details.tests ++ [e] } }

/-- `job_details["tests"][-1]["backtrace"] = f(..)`. -/
def editBacktrace (f : Line → Line) : Prog Parser PyError := fun s =>
  match s.details.tests.getLast? with
  | none => (.error .indexError, s)
  | some (.fail backtrace) =>
      (.ok (), { s with details :=
        { s.details with tests := s.details.tests.dropLast ++ [.fail (f backtrace)] } })
  | some _ => (.error .keyError, s)

/-- `datetime_str`. -/
def datetimeStr (text : Line) : Line := text.map fun c => if c = ',' then '.' else c

/-- The two blocks about the timestamps: the first one is kept, every other one becomes the last one. -/
def recordTimestamp (clock : Clock) (line : Line) : Prog Parser PyError := fun s =>
  match timestamp line with
  | none => (.ok (), s)
  | some text =>
      match clock (datetimeStr text) with
      | none => (.error .valueError, s)
      | some t =>
          if s.details.firstTimestamp = none then
            (.ok (), { s with details := { s.details with firstTimestamp := some t } })
          else (.ok (), { s with details := { s.details with lastTimestamp := some t } })

/-- The block under `if test_report_stage > 0`. -/
def processReportLine (line : Line) : Prog Parser PyError :=
  let note : Prog Parser PyError :=
    if onlyDashes line then skip else editBacktrace fun b => b ++ line ++ ['\n']
  note.seq fun s =>
    if line ≠ dashes then (.ok (), s)
    else if s.testReportStage = 1 then (.ok (), { s with testReportStage := 2 })
    else if s.testReportStage = 2 then
      editBacktrace (fun b => if b.length > 1000 then b.drop (b.length - 1000) else b)
        { s with testReportStage := 0 }
    else (.ok (), s)

/-- `process_test_line` after the blocks about the timestamps. -/
def processContent (line : Line) : Prog Parser PyError := fun s =>
  if completesTest line then
    let s := if s.testResult = none then s.appendTest .pass else s
    (.ok (), { s with testCaseStarted := false, testResult := none })
  else if abortsBuild line then
    let s := { s with details := { s.details with runNote := some "build_aborted" } }
    (.ok (), { s.appendTest .na with testCaseStarted := false, testResult := some .abort })
  else if s.testCaseStarted then
    if s.testReportStage = 0 ∧ line = reportDelimiter then
      (.ok (), { s.appendTest (.fail []) with testReportStage := 1, testResult := some .failed })
    else if s.testReportStage > 0 then processReportLine line s
    else (.ok (), s)
  else (.ok (), s)

/-- `process_test_line`. -/
def processTestLine (clock : Clock) (line : Line) : Prog Parser PyError := fun s =>
  if isBlank line then (.ok (), s)
  else if endsDaemon line then (.ok (), { s with daemonKilled := true })
  else if startsTest line then (.ok (), { s with testCaseStarted := true })
  else ((recordTimestamp clock line).seq (processContent line)) s

/-- `p`, and unless it raised or killed the daemon `q`. -/
def unlessKilled (p q : Prog Parser PyError) : Prog Parser PyError :=
  p.seq fun s => if s.daemonKilled then (.ok (), s) else q s

/-- `for line in lines: process_test_line(line); if daemon_killed: return`. -/
def feed (clock : Clock) : List Line → Prog Parser PyError
  | [] => skip
  | line :: rest => unlessKilled (processTestLine clock line) (feed clock rest)

/-- What `remaining_lines` holds: a text at first, a list of one line later. -/
inductive Remaining where
  | text (s : Line)
  | lastLine (line : Line)

/-- `remaining_lines[-1]`. -/
def Remaining.last : Remaining → Except PyError Line
  | text s =>
      match s.getLast? with
      | some c => .ok [c]
      | none => .error .indexError
  | lastLine line => .ok line

/-- `[remaining_lines[-1] + chunk[0]] + chunk[1:]`. -/
def glue (last : Line) (chunk : Line) : List Line :=
  (last ++ (chunk.splitOn '\n').headD []) :: (chunk.splitOn '\n').tail

/-- The loop over the chunks. -/
def processChunks (clock : Clock) : Remaining → List Line → Prog Parser PyError
  | _, [] => skip
  | remaining, chunk :: rest => fun s =>
      match remaining.last with
      | .error e => (.error e, s)
      | .ok last =>
          let lines := glue last chunk
          unlessKilled (feed clock lines)
            (processChunks clock (.lastLine (lines.getLastD [])) rest) s

/-- `process_test_cases`. -/
def processTestCases (clock : Clock) (remaining : Line) (chunks : List Line) : Prog Parser PyError :=
  unlessKilled (feed clock (remaining.splitOn '\n')) (processChunks clock (.text remaining) chunks)

end Parser

end TestInfra.JenkinsLog
