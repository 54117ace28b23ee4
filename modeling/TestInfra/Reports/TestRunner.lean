import TestInfra.Reports.XUnit
import TestInfra.TestInput.Groups
import TestInfra.Lib.PyInt

set_option autoImplicit false

/-! # The loop over the tests

`testrunner.main` runs the tests of its list one after the other, each with its own parameters overwritten by those of
the run, writes the reports again after every test, and stops behind a test that fails with `stop-on-failure`.

A test can do anything, to its parameters as well: `Env.run` is what comes of it. Collecting the logs of a failed test
is left out. A time is written with `str`, in the reports as everywhere. -/

namespace TestInfra.TestRunner

open PyText TestInput Reports

/-! ## Parameters -/

/-- A value of `TestInputSingleton.input.test_params`: one of the parameters, or the number of the case. -/
inductive Value where
  | param (value : ParamValue)
  | number (n : ℤ)
deriving DecidableEq, Repr

/-- What comes of a test: the tracebacks of its failures and errors, the parameters as it has left them, the time. -/
structure Outcome (τ : Type) where
  failures : List Text
  errors : List Text
  testParams : Dict Text Value
  timeTaken : τ

structure Env (τ : Type) where
  /-- `repr(text)`. -/
  repr : Text → Text
  /-- Whether `float(text)` is other than zero; `none` is the `ValueError`. -/
  float : Text → Option Bool
  /-- `time.strftime(..)` when the case with this number begins. -/
  localtime : ℕ → Text
  /-- The test of this name is loaded and run with these parameters; `none` when this raises. -/
  run : Text → Dict Text Value → Option (Outcome τ)

section Params

variable {τ : Type} (env : Env τ)

/-- `str` of a list of these texts. -/
def listText (words : List Text) : Text := '[' :: List.intercalate ", ".toList words ++ [']']

/-- `str(value)`. -/
def Value.str : Value → Text
  | .param (.str text) => text
  | .param (.words texts) => listText (texts.map env.repr)
  | .param (.ints numbers) => listText (numbers.map intText)
  | .number n => intText n

/-- `bool(value)`. -/
def Value.truthy : Value → Bool
  | .param (.str text) => text ≠ []
  | .param (.words texts) => texts ≠ []
  | .param (.ints numbers) => numbers ≠ []
  | .number n => n ≠ 0

/-- `bool(TestInput._parse_param(value))`; `none` when `int` raises a `TypeError`, for a list. -/
def Value.parseParam : Value → Option Bool
  | .param (.str text) =>
      match readInt text with
      | some n => some (n ≠ 0)
      | none =>
          match env.float text with
          | some nonzero => some nonzero
          | none =>
              if text.map Char.toLower = "false".toList then some false
              else if text.map Char.toLower = "true".toList then some true
              else some (text ≠ [])
  | .number n => some (n ≠ 0)
  | _ => none

/-- `input.param(name, default)`, as a condition. -/
def param (testParams : Dict Text Value) (name : Text) (default : Bool) : Option Bool :=
  match testParams.get? name with
  | none => some default
  | some value => value.parseParam env

/-- The parameters as they are put behind the name of a test. -/
def paramsText (testParams : Dict Text Value) : Text :=
  testParams.items.flatMap fun (key, value) =>
    if key ≠ [] && value.truthy then ',' :: key ++ ':' :: value.str env else []

/-- The parameters of the run. -/
def globals (testParams : Dict Text ParamValue) : Dict Text Value :=
  testParams.items.foldl (fun d p => d.set p.1 (.param p.2)) ∅

/-- The parameters that the test is run with. -/
def testInput (testParams : Dict Text ParamValue) (name : Text) (caseNumber : ℕ) : Dict Text Value :=
  let params : Dict Text Value := (pairs name).items.foldl (fun d p => d.set p.1 (.param (.str p.2))) ∅
  (params.update (globals testParams)).set "case_number".toList (.number caseNumber)

/-- The name under which the test is loaded: a long name is cut, and what is behind the first comma goes. -/
def loadedName (caseNumber : ℕ) (name : Text) : Text :=
  SplitText.upTo ',' (if name.length > 240 then name.take 220 ++ env.localtime caseNumber else name)

end Params

/-! ## The loop -/

section Loop

variable {τ : Type}

/-- `result.failures or result.errors`. -/
def Outcome.failed (result : Outcome τ) : Bool := result.failures ≠ [] || result.errors ≠ []

/-- What `add_test` is told: of the failures and of the errors the first. -/
def Outcome.status (env : Env τ) (result : Outcome τ) : Status :=
  if result.failed then
    .fail ⟨"membase.error".toList, listText ((result.failures.take 1 ++ result.errors.take 1).map env.repr)⟩
  else .pass

/-- `input.param(name, default)`, which is read after a test that failed. -/
def Outcome.readFailed (env : Env τ) (result : Outcome τ) (name : Text) (default : Bool) : Option Bool :=
  if result.failed then param env result.testParams name default else some false

/-- A failed test is reported with a message, and only that. -/
theorem Outcome.error_status (env : Env τ) (result : Outcome τ) :
    (∀ error ∈ (result.status env).error, error.message ≠ []) ∧
      (result.status env).error.isSome = result.failed := by
  rw [Outcome.status]
  cases result.failed with
  | true => exact ⟨fun error herror => by cases herror; exact List.cons_ne_nil _ _, rfl⟩
  | false => exact ⟨fun error herror => (nomatch herror), rfl⟩

structure State (τ : Type) where
  xunit : List (XUnitTestSuite τ)
  /-- The names of the tests, and whether they failed. -/
  results : List (Text × Bool)
  caseNumber : ℕ
  /-- `TestInputSingleton.input.test_params`. -/
  input : Dict Text Value
  /-- The folder of the reports. -/
  disk : Disk

def State.start (testParams : Dict Text ParamValue) : State τ := ⟨[], [], 1, globals testParams, ∅⟩

variable [Zero τ] [Add τ] (env : Env τ) (str : τ → Text) (path : Text) (testParams : Dict Text ParamValue)

/-- The body of `for name in names`, and whether the loop is left; `none` when it raises. -/
def turn (s : State τ) (name : Text) : Option (State τ × Bool) := do
  if ← skipped testParams (pairs name) then return (s, false)
  let loaded := loadedName env s.caseNumber name
  let result ← env.run loaded (testInput testParams name s.caseNumber)
  -- what is collected does not matter, but reading the parameter can raise
  let _ ← result.readFailed env "get-cbcollect-info".toList true
  let xunit := addTest s.xunit ⟨loaded, result.timeTaken, result.status env, paramsText env result.testParams⟩
  let stop ← result.readFailed env "stop-on-failure".toList false
  return ({ xunit := xunit
            results := s.results ++ [(loaded, result.failed)]
            caseNumber := s.caseNumber + 1
            input := result.testParams
            disk := write str path xunit s.disk }, stop)

/-- `for name in names`. -/
def loop : List Text → State τ → Option (State τ)
  | [], s => some s
  | name :: names, s => do
      let (s', stop) ← turn env str path testParams s name
      if stop then return s'
      loop names s'

/-- The exit code is 1. -/
def State.exits (s : State τ) : Bool := (s.input.get? "makefile".toList).isSome && s.results.any Prod.snd

/-- `main` from the list of tests on: the reports, and whether the exit code is 1. -/
def main (names : List Text) : Option (Disk × Bool) :=
  (loop env str path testParams names (.start testParams)).map fun s => (s.disk, s.exits)

end Loop

/-! ## What has run -/

section Ran

variable {τ : Type}

/-- A test that has run: its number, its name in the list and what came of it. -/
structure Ran (τ : Type) where
  number : ℕ
  listed : Text
  result : Outcome τ

/-- The test as it is reported. -/
def Ran.test (env : Env τ) (r : Ran τ) : Test τ :=
  ⟨loadedName env r.number r.listed, r.result.timeTaken, r.result.status env, paramsText env r.result.testParams⟩

/-- The loop is left behind the test. -/
def Ran.Stops (env : Env τ) (r : Ran τ) : Prop :=
  r.result.failed = true ∧ param env r.result.testParams "stop-on-failure".toList false = some true

theorem Outcome.stops_iff {env : Env τ} {number : ℕ} {name : Text} {stop : Bool} (result : Outcome τ)
    (h : result.readFailed env "stop-on-failure".toList false = some stop) :
    stop = true ↔ Ran.Stops env ⟨number, name, result⟩ := by
  rw [Outcome.readFailed] at h
  cases hfailed : result.failed with
  | true =>
      rw [hfailed, if_pos rfl] at h
      rw [Ran.Stops, hfailed, h, Option.some.injEq]
      exact (and_iff_right rfl).symm
  | false =>
      rw [hfailed, if_neg Bool.false_ne_true] at h
      cases h
      simp [Ran.Stops, hfailed]

/-- The parameters after the tests. -/
def lastParams (testParams : Dict Text ParamValue) (ran : List (Ran τ)) : Dict Text Value :=
  (ran.getLast?.map fun r => r.result.testParams).getD (globals testParams)

/-- From this number on the tests that have run are the selected ones of the list, in order, up to its end or to the
    first one that stops the loop. -/
structure Executes (env : Env τ) (testParams : Dict Text ParamValue) (number : ℕ) (names : List Text)
    (ran : List (Ran τ)) : Prop where
  numbered : ran.map Ran.number = List.range' number ran.length
  runs : ∀ r ∈ ran,
    env.run (loadedName env r.number r.listed) (testInput testParams r.listed r.number) = some r.result
  goesOn : ∀ r ∈ ran.dropLast, ¬ r.Stops env
  selected : ∃ front back, names = front ++ back ∧ selectTests testParams front = some (ran.map Ran.listed) ∧
    (back ≠ [] → ∃ last ∈ ran.getLast?, last.Stops env)

theorem plain_tests (env : Env τ) (ran : List (Ran τ)) : Plain (ran.map (Ran.test env)) := by
  intro test htest
  obtain ⟨r, -, rfl⟩ := List.mem_map.1 htest
  exact SplitText.not_mem_upTo ',' _

variable {env : Env τ} {testParams : Dict Text ParamValue}

theorem Executes.nil (number : ℕ) : Executes env testParams number [] [] where
  numbered := rfl
  runs := by simp
  goesOn := by simp
  selected := ⟨[], [], rfl, rfl, fun h => absurd rfl h⟩

theorem Executes.skip {number : ℕ} {name : Text} {names : List Text} {ran : List (Ran τ)}
    (hskip : skipped testParams (pairs name) = some true) (h : Executes env testParams number names ran) :
    Executes env testParams number (name :: names) ran where
  numbered := h.numbered
  runs := h.runs
  goesOn := h.goesOn
  selected := by
    obtain ⟨front, back, rfl, hselect, hback⟩ := h.selected
    refine ⟨name :: front, back, rfl, ?_, hback⟩
    rw [selectTests, hskip, hselect]
    rfl

theorem selectTests_cons_of_run {name : Text} {front selected : List Text}
    (hskip : skipped testParams (pairs name) = some false) (h : selectTests testParams front = some selected) :
    selectTests testParams (name :: front) = some (name :: selected) := by
  rw [selectTests, hskip, h]
  rfl

theorem Executes.stop {r : Ran τ} (names : List Text) (hskip : skipped testParams (pairs r.listed) = some false)
    (hrun : env.run (loadedName env r.number r.listed) (testInput testParams r.listed r.number) = some r.result)
    (hstops : r.Stops env) : Executes env testParams r.number (r.listed :: names) [r] where
  numbered := rfl
  runs := by simpa using hrun
  goesOn := by simp
  selected := ⟨[r.listed], names, rfl, selectTests_cons_of_run hskip rfl, fun _ => ⟨r, rfl, hstops⟩⟩

theorem Executes.cons {r : Ran τ} {names : List Text} {ran : List (Ran τ)}
    (hskip : skipped testParams (pairs r.listed) = some false)
    (hrun : env.run (loadedName env r.number r.listed) (testInput testParams r.listed r.number) = some r.result)
    (hgoes : ¬ r.Stops env) (h : Executes env testParams (r.number + 1) names ran) :
    Executes env testParams r.number (r.listed :: names) (r :: ran) where
  numbered := by rw [List.map_cons, h.numbered, List.length_cons, List.range'_succ]
  runs := List.forall_mem_cons.2 ⟨hrun, h.runs⟩
  goesOn := by
    rcases ran with _ | ⟨r', ran⟩
    · simp
    · rw [List.dropLast_cons_of_ne_nil (List.cons_ne_nil r' ran)]
      exact List.forall_mem_cons.2 ⟨hgoes, h.goesOn⟩
  selected := by
    obtain ⟨front, back, rfl, hselect, hback⟩ := h.selected
    refine ⟨r.listed :: front, back, rfl, selectTests_cons_of_run hskip hselect, fun hne => ?_⟩
    obtain ⟨last, hlast, hstops⟩ := hback hne
    refine ⟨last, ?_, hstops⟩
    rcases ran with _ | ⟨r', ran⟩
    · cases hlast
    · rwa [List.getLast?_cons_cons]

end Ran

/-! ## One turn and the whole loop -/

section Runs

variable {τ : Type} [Zero τ] [Add τ] {env : Env τ} {str : τ → Text} {path : Text} {testParams : Dict Text ParamValue}

/-- The state is what these tests leave behind. -/
structure State.Reflects (env : Env τ) (str : τ → Text) (path : Text) (testParams : Dict Text ParamValue)
    (ran : List (Ran τ)) (s : State τ) : Prop where
  xunit : s.xunit = addTests (ran.map (Ran.test env))
  results : s.results.map Prod.snd = ran.map fun r => r.result.failed
  caseNumber : s.caseNumber = ran.length + 1
  input : s.input = lastParams testParams ran
  disk : s.disk.items = reportFiles str path (ran.map (Ran.test env))

theorem State.reflects_start :
    (State.start testParams : State τ).Reflects env str path testParams [] :=
  ⟨rfl, rfl, rfl, rfl, rfl⟩

/-- One more test. -/
theorem State.Reflects.concat {ran : List (Ran τ)} {s : State τ} (h : s.Reflects env str path testParams ran)
    (r : Ran τ) :
    State.Reflects env str path testParams (ran ++ [r])
      { xunit := addTest s.xunit (r.test env)
        results := s.results ++ [(loadedName env s.caseNumber r.listed, r.result.failed)]
        caseNumber := s.caseNumber + 1
        input := r.result.testParams
        disk := write str path (addTest s.xunit (r.test env)) s.disk } := by
  have hxunit : addTest s.xunit (r.test env) = addTests ((ran ++ [r]).map (Ran.test env)) := by
    rw [h.xunit, List.map_append, addTests, addTests, List.foldl_append]
    rfl
  refine ⟨hxunit, ?_, ?_, ?_, ?_⟩
  · rw [List.map_append, h.results, List.map_append]
    rfl
  · rw [h.caseNumber, List.length_append, List.length_singleton]
  · rw [lastParams, List.getLast?_concat]
    rfl
  · rw [hxunit, List.map_append]
    exact write_items str path (List.map_append ▸ plain_tests env (ran ++ [r])) h.disk

/-- What a turn does: nothing for a test that is skipped, otherwise the test is run and reported. -/
theorem turn_cases {s t : State τ} {name : Text} {stop : Bool}
    (h : turn env str path testParams s name = some (t, stop)) :
    (skipped testParams (pairs name) = some true ∧ t = s ∧ stop = false) ∨
    (skipped testParams (pairs name) = some false ∧ ∃ r : Ran τ, r.number = s.caseNumber ∧ r.listed = name ∧
      env.run (loadedName env r.number r.listed) (testInput testParams r.listed r.number) = some r.result ∧
      (stop = true ↔ r.Stops env) ∧
      t = { xunit := addTest s.xunit (r.test env)
            results := s.results ++ [(loadedName env s.caseNumber r.listed, r.result.failed)]
            caseNumber := s.caseNumber + 1
            input := r.result.testParams
            disk := write str path (addTest s.xunit (r.test env)) s.disk }) := by
  rw [turn] at h
  obtain ⟨skip, hskip, h⟩ := Option.bind_eq_some_iff.1 h
  cases skip with
  | true =>
      cases h
      exact .inl ⟨hskip, rfl, rfl⟩
  | false =>
      obtain ⟨result, hresult, h⟩ := Option.bind_eq_some_iff.1 h
      obtain ⟨-, -, h⟩ := Option.bind_eq_some_iff.1 h
      obtain ⟨stops, hstops, h⟩ := Option.bind_eq_some_iff.1 h
      cases h
      exact .inr ⟨hskip, ⟨s.caseNumber, name, result⟩, rfl, rfl, hresult, result.stops_iff hstops, rfl⟩

theorem loop_spec {names : List Text} {ran : List (Ran τ)} {s t : State τ} (hs : s.Reflects env str path testParams ran)
    (h : loop env str path testParams names s = some t) :
    ∃ more, Executes env testParams s.caseNumber names more ∧ t.Reflects env str path testParams (ran ++ more) := by
  induction names generalizing ran s with
  | nil =>
      cases h
      exact ⟨[], .nil _, by rwa [List.append_nil]⟩
  | cons name names ih =>
      rw [loop] at h
      obtain ⟨⟨s', stop⟩, hturn, h⟩ := Option.bind_eq_some_iff.1 h
      rcases turn_cases hturn with ⟨hskip, rfl, rfl⟩ | ⟨hskip, r, hnumber, rfl, hrun, hstop, rfl⟩
      · obtain ⟨more, hmore, ht⟩ := ih hs h
        exact ⟨more, hmore.skip hskip, ht⟩
      · have hconcat := hs.concat r
        cases stop with
        | true =>
            cases h
            exact ⟨[r], hnumber ▸ .stop names hskip hrun (hstop.1 rfl), hconcat⟩
        | false =>
            obtain ⟨more, hmore, ht⟩ := ih hconcat h
            have hgoes : ¬ r.Stops env := fun hstops => Bool.false_ne_true (hstop.2 hstops)
            refine ⟨r :: more, ?_, by rwa [List.append_cons]⟩
            exact hnumber ▸ .cons hskip hrun hgoes (hnumber ▸ hmore)

theorem State.Reflects.exits_iff {ran : List (Ran τ)} {s : State τ} (h : s.Reflects env str path testParams ran) :
    s.exits = true ↔ "makefile".toList ∈ (lastParams testParams ran).keys ∧ ∃ r ∈ ran, r.result.failed = true := by
  have hany : s.results.any Prod.snd = true ↔ ∃ r ∈ ran, r.result.failed = true := by
    have hmem : true ∈ s.results.map Prod.snd ↔ true ∈ ran.map fun r => r.result.failed := by rw [h.results]
    simpa [List.any_eq_true] using hmem
  rw [State.exits, Bool.and_eq_true, hany, h.input, Dict.mem_keys_iff]

/-- What is left at the end of `main` reflects the tests that have run. -/
theorem exists_reflects {names : List Text} {disk : Disk} {exit : Bool}
    (h : main env str path testParams names = some (disk, exit)) :
    ∃ (ran : List (Ran τ)) (s : State τ), Executes env testParams 1 names ran ∧
      s.Reflects env str path testParams ran ∧ s.disk = disk ∧ s.exits = exit := by
  obtain ⟨s, hloop, heq⟩ := Option.map_eq_some_iff.1 h
  obtain ⟨hdisk, hexit⟩ := Prod.mk.inj heq
  obtain ⟨ran, hran, hs⟩ := loop_spec State.reflects_start hloop
  exact ⟨ran, s, hran, hs, hdisk, hexit⟩

/-- **The reports of a run**: when `main` comes to its end, the selected tests of the list have run in order, up to
    the first one that stops the run; there is one file for each of their classes, with all of its tests in the order
    in which they ran and the number of those that failed; and the exit code is 1 exactly when one of them failed and
    the last one was left with `makefile`. -/
theorem main_reports {names : List Text} {disk : Disk} {exit : Bool}
    (h : main env str path testParams names = some (disk, exit)) :
    ∃ ran, Executes env testParams 1 names ran ∧ disk.items = reportFiles str path (ran.map (Ran.test env)) ∧
      (exit = true ↔
        "makefile".toList ∈ (lastParams testParams ran).keys ∧ ∃ r ∈ ran, r.result.failed = true) := by
  obtain ⟨ran, s, hran, hs, rfl, rfl⟩ := exists_reflects h
  exact ⟨ran, hran, hs.disk, hs.exits_iff⟩

/-- A test that fails and stops the run. -/
def failing : Env ℕ where
  repr := id
  float := fun _ => none
  localtime := fun _ => []
  run := fun _ testParams => some ⟨["boom".toList], [], testParams, 3⟩

/-- A time as it is written. -/
def seconds (n : ℕ) : Text := (toString n).toList

def makefileParams : Dict Text ParamValue := (∅ : Dict Text ParamValue).set "makefile".toList (.str "1".toList)

/-- The second test does not run, and the exit code is 1. -/
theorem main_reports_failing :
    ∃ disk, main failing seconds "report".toList makefileParams ["m.T.a,stop-on-failure=True".toList, "m.T.b".toList]
        = some (disk, true) ∧
      ∃ ran : List (Ran ℕ), Executes failing makefileParams 1
          ["m.T.a,stop-on-failure=True".toList, "m.T.b".toList] ran ∧
        disk.items = reportFiles seconds "report".toList (ran.map (Ran.test failing)) ∧
        (true = true ↔ "makefile".toList ∈ (lastParams makefileParams ran).keys ∧
          ∃ r ∈ ran, r.result.failed = true) := by
  have hexit : (main failing seconds "report".toList makefileParams
      ["m.T.a,stop-on-failure=True".toList, "m.T.b".toList]).map Prod.snd = some true := by decide +kernel
  obtain ⟨⟨disk, exit⟩, hmain, rfl⟩ := Option.map_eq_some_iff.1 hexit
  exact ⟨disk, hmain, main_reports hmain⟩

end Runs

end TestInfra.TestRunner
