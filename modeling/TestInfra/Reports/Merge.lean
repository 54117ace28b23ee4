import TestInfra.Lib.Dict
import TestInfra.Lib.PyText
import Mathlib.Data.List.Infix
import Mathlib.Data.Char
import Mathlib.Data.List.Lex

set_option autoImplicit false

/-! # Merging test reports

`scripts/merge_reports.py` reads the XML reports of several runs and keeps, suite by suite, one entry per test.
Two test cases are the same test when their names agree up to the fields of the run (`filter_fields`) and the
order of their parameters (`compare_with_sort`). A later report overwrites an earlier one, under the name the
test was first stored with.

The reports are taken in the order they are read; finding and sorting the files is left out. -/

namespace TestInfra.Reports

open PyText

/-! ## Names of tests -/

/-- `FILTER_TEST_FIELDS`. -/
def filterTestFields : List Text :=
  ["logs_folder", "conf_file", "cluster_name", "ini", "case_number", "num_nodes", "spec", "last_case_fail",
    "teardown_run", "is_container", "total_testcases", "get-cbcollect-info"].map String.toList

/-- `filter_test_params`: the fields with `mark` behind them, and the names of the run parameters. -/
def filterTestParams (mark : Char) (runParams : Text) : List Text :=
  filterTestFields.map (· ++ [mark]) ++ (runParams.splitOn ',').map fun param => (param.splitOn '=').headD []

/-- `filter_word`: the word starts with one of the filter words. -/
def filterWord (filterWords : List Text) (fw : Text) : Bool :=
  filterWords.any fun word => word ≠ [] && word.isPrefixOf fw

/-- `fw.replace(":", "=", 1)`. -/
def replaceFirst : Text → Text
  | [] => []
  | c :: rest => if c = ':' then '=' :: rest else c :: replaceFirst rest

/-- `filter_fields`. -/
def filterFields (testname runParams : Text) : Text :=
  let testwords := testname.splitOn ','
  if "logs_folder:".toList <:+: testname then
    -- every word but those equal to the last one brings its comma along
    rstrip (· = ',') <| (testwords.filter fun fw => !filterWord (filterTestParams ':' runParams) fw).flatMap fun fw =>
      if fw ≠ testwords.getLastD [] then replaceFirst fw ++ [','] else replaceFirst fw
  else join ',' (testwords.filter fun fw => !filterWord (filterTestParams '=' runParams) fw)

/-- The form `compare_with_sort` compares names in: the first word and the sorted others. -/
def canonical (key : Text) : Text :=
  let words := key.splitOn ','
  words.headD [] ++ ',' :: join ',' (words.tail.mergeSort fun a b => decide (a ≤ b))

/-! ## Reports -/

/-- A `testcase` element. `errors` are its `error` elements, each with its text if it has one. -/
structure TestCase where
  name : Text
  time : Text
  errors : List (Option Text)
deriving DecidableEq, Repr

/-- A `testsuite` element. -/
structure SuiteElement where
  name : Text
  errors : Text
  failures : Text
  skips : Text
  time : Text
  tests : Text
  testcases : List TestCase
deriving DecidableEq, Repr

/-- The `testsuite` elements of a file. -/
abbrev Report := List SuiteElement

/-- A value of `tests`. -/
structure Entry where
  name : Text
  time : Text
  error : Text
deriving DecidableEq, Repr

/-- A value of `testsuites`. -/
structure Testsuite where
  name : Text
  errors : Text
  failures : Text
  skips : Text
  time : Text
  testcount : Text
  tests : Dict Text Entry

/-- `testcase['error']`; `none` when the first `error` element has no text and `nodeValue` raises. -/
def TestCase.errorText (tc : TestCase) : Option Text :=
  match tc.errors with
  | [] => some []
  | error :: _ => error

/-- `compare_with_sort`: the key the test is stored under. -/
def compareWithSort (tests : Dict Text Entry) (key : Text) : Option Text :=
  tests.keys.find? fun k => canonical key = canonical k

/-- The body of `for tc in testcaseelem`. -/
def addCase (runParams : Text) (tests : Dict Text Entry) (tc : TestCase) : Option (Dict Text Entry) := do
  let filtered := filterFields tc.name runParams
  let error ← tc.errorText
  pure (tests.set ((compareWithSort tests filtered).getD filtered) ⟨tc.name, tc.time, error⟩)

/-- The tests of a suite, none when the suite has not been seen. -/
def testsOf (testsuites : Dict Text Testsuite) (name : Text) : Dict Text Entry :=
  match testsuites.get? name with
  | none => ∅
  | some suite => suite.tests

/-- The body of `for ts in testsuitelem`. -/
def addSuite (runParams : Text) (testsuites : Dict Text Testsuite) (ts : SuiteElement) :
    Option (Dict Text Testsuite) := do
  let tests ← ts.testcases.foldlM (addCase runParams) (testsOf testsuites ts.name)
  pure (testsuites.set ts.name ⟨ts.name, ts.errors, ts.failures, ts.skips, ts.time, ts.tests, tests⟩)

/-- The loops of `merge_reports` over the files and their suites. -/
def mergeReports (runParams : Text) (reports : List Report) : Option (Dict Text Testsuite) :=
  reports.foldlM (fun testsuites report => report.foldlM (addSuite runParams) testsuites) ∅

/-! ## What is kept -/

/-- The name under which `merge_reports` knows a test case. -/
def TestCase.canonicalName (runParams : Text) (tc : TestCase) : Text :=
  canonical (filterFields tc.name runParams)

/-- What the entry of a test case says about it. -/
def TestCase.verdict (tc : TestCase) : Text × Option Text := (tc.name, tc.errorText)

/-- The last case with a canonical name. -/
def lastCase (runParams : Text) (cases : List TestCase) (c : Text) : Option TestCase :=
  cases.reverse.find? fun tc => tc.canonicalName runParams = c

/-- The entries of `tests` for a canonical name. -/
def entriesFor (tests : Dict Text Entry) (c : Text) : List (Text × Entry) :=
  tests.items.filter fun e => canonical e.1 = c

/-- `tests` is what the cases leave behind: the last one of every canonical name, once. -/
def Latest (runParams : Text) (cases : List TestCase) (tests : Dict Text Entry) : Prop :=
  ∀ c, (entriesFor tests c).map (fun e => (e.2.name, some e.2.error))
    = (lastCase runParams cases c).toList.map TestCase.verdict

theorem lastCase_append (runParams : Text) (cases : List TestCase) (tc : TestCase) (c : Text) :
    lastCase runParams (cases ++ [tc]) c
      = if tc.canonicalName runParams = c then some tc else lastCase runParams cases c := by
  rw [lastCase, lastCase, List.reverse_append, List.reverse_singleton, List.singleton_append, List.find?_cons]
  split
  · next h => rw [if_pos (of_decide_eq_true h)]
  · next h => rw [if_neg (of_decide_eq_false h)]

/-- There are never two keys with one canonical form. -/
theorem Latest.eq_of_canonical {runParams : Text} {cases : List TestCase} {tests : Dict Text Entry}
    (h : Latest runParams cases tests) {j k : Text} (hj : j ∈ tests.keys) (hk : k ∈ tests.keys)
    (heq : canonical j = canonical k) : j = k := by
  obtain ⟨⟨j, v⟩, hv, rfl⟩ := List.mem_map.1 hj
  obtain ⟨⟨k, w⟩, hw, rfl⟩ := List.mem_map.1 hk
  have hlen : (entriesFor tests (canonical k)).length ≤ 1 := by
    have := congrArg List.length (h (canonical k))
    rw [List.length_map, List.length_map] at this
    rw [this]
    exact Option.length_toList_le
  have hvmem : (j, v) ∈ entriesFor tests (canonical k) := List.mem_filter.2 ⟨hv, decide_eq_true heq⟩
  have hwmem : (k, w) ∈ entriesFor tests (canonical k) := List.mem_filter.2 ⟨hw, decide_eq_true rfl⟩
  rcases hentries : entriesFor tests (canonical k) with _ | ⟨e, _ | ⟨e', rest⟩⟩
  · rw [hentries] at hvmem
    cases hvmem
  · rw [hentries, List.mem_singleton] at hvmem hwmem
    exact congrArg Prod.fst (hvmem.trans hwmem.symm)
  · rw [hentries] at hlen
    simp at hlen

/-- One more case: it replaces the entry of its test, or becomes a new one. -/
theorem Latest.addCase {runParams : Text} {cases : List TestCase} {tests : Dict Text Entry}
    (h : Latest runParams cases tests) {tc : TestCase} {error : Text} (herror : tc.errorText = some error) :
    ∃ tests', addCase runParams tests tc = some tests' ∧ Latest runParams (cases ++ [tc]) tests' := by
  have hkey : ∃ key, (compareWithSort tests (filterFields tc.name runParams)).getD
        (filterFields tc.name runParams) = key ∧ canonical key = tc.canonicalName runParams ∧
      ∀ j ∈ tests.keys, canonical j = tc.canonicalName runParams → j = key := by
    cases hfind : compareWithSort tests (filterFields tc.name runParams) with
    | none =>
        refine ⟨_, rfl, rfl, ?_⟩
        intro j hj hcanon
        have hno := List.find?_eq_none.1 hfind j hj
        exact absurd (decide_eq_true hcanon.symm) hno
    | some k =>
        have hcanon : canonical (filterFields tc.name runParams) = canonical k := by
          simpa using List.find?_some hfind
        refine ⟨k, rfl, hcanon.symm, ?_⟩
        intro j hj hj'
        exact h.eq_of_canonical hj (List.mem_of_find?_eq_some hfind) (hj'.trans hcanon)
  obtain ⟨key, hget, hcanon, honly⟩ := hkey
  refine ⟨tests.set key ⟨tc.name, tc.time, error⟩, ?_, ?_⟩
  · rw [Reports.addCase, herror, hget]
    rfl
  · intro c
    rw [lastCase_append]
    by_cases hc : tc.canonicalName runParams = c
    · subst hc
      have hone : entriesFor (tests.set key ⟨tc.name, tc.time, error⟩) (tc.canonicalName runParams)
          = [(key, ⟨tc.name, tc.time, error⟩)] :=
        Dict.filter_items_set_of_only (p := fun k => canonical k = tc.canonicalName runParams)
          (decide_eq_true hcanon) (fun j hj hp => honly j hj (of_decide_eq_true hp)) _
      rw [hone, if_pos rfl]
      simp [TestCase.verdict, herror]
    · have hsame : entriesFor (tests.set key ⟨tc.name, tc.time, error⟩) c = entriesFor tests c :=
        Dict.filter_items_set_of_neg (p := fun k => canonical k = c) (decide_eq_false (hcanon ▸ hc)) _ _
      rw [hsame, if_neg hc]
      exact h c

/-- The `error` elements have a text. -/
def TestCase.HasErrorText (tc : TestCase) : Prop := ∀ error ∈ tc.errors, error.isSome

theorem TestCase.HasErrorText.errorText {tc : TestCase} (h : tc.HasErrorText) :
    ∃ error, tc.errorText = some error := by
  rw [TestCase.errorText]
  split
  · exact ⟨[], rfl⟩
  · next error rest heq =>
      exact Option.isSome_iff_exists.1 (h error (by rw [heq]; exact List.mem_cons_self))

theorem Latest.addCases {runParams : Text} {cases : List TestCase} {tests : Dict Text Entry}
    (h : Latest runParams cases tests) (more : List TestCase) (hmore : ∀ tc ∈ more, tc.HasErrorText) :
    ∃ tests', more.foldlM (Reports.addCase runParams) tests = some tests' ∧
      Latest runParams (cases ++ more) tests' := by
  induction more generalizing cases tests with
  | nil => exact ⟨tests, rfl, by rw [List.append_nil]; exact h⟩
  | cons tc rest ih =>
      obtain ⟨error, herror⟩ := (hmore tc List.mem_cons_self).errorText
      obtain ⟨tests', hadd, hlatest⟩ := h.addCase herror
      obtain ⟨tests'', hrest, hlatest'⟩ := ih hlatest fun t ht => hmore t (List.mem_cons_of_mem _ ht)
      refine ⟨tests'', ?_, ?_⟩
      · rw [List.foldlM_cons, hadd]
        exact hrest
      · rw [List.append_assoc] at hlatest'
        exact hlatest'

/-- The cases of one suite name, in the order of the elements. -/
def casesIn (name : Text) (elements : List SuiteElement) : List TestCase :=
  (elements.filter fun ts => ts.name = name).flatMap SuiteElement.testcases

theorem casesIn_append (name : Text) (elements more : List SuiteElement) :
    casesIn name (elements ++ more) = casesIn name elements ++ casesIn name more := by
  rw [casesIn, List.filter_append, List.flatMap_append]
  rfl

theorem casesIn_singleton (name : Text) (ts : SuiteElement) :
    casesIn name [ts] = if ts.name = name then ts.testcases else [] := by
  by_cases h : ts.name = name <;> simp [casesIn, h]

theorem testsOf_set (testsuites : Dict Text Testsuite) (name : Text) (suite : Testsuite) (other : Text) :
    testsOf (testsuites.set name suite) other
      = if other = name then suite.tests else testsOf testsuites other := by
  rw [testsOf, testsOf, Dict.get?_set]
  by_cases h : other = name
  · rw [if_pos h, if_pos h]
  · rw [if_neg h, if_neg h]

/-- Every suite keeps the latest of its cases. -/
def AllLatest (runParams : Text) (elements : List SuiteElement) (testsuites : Dict Text Testsuite) : Prop :=
  ∀ name, Latest runParams (casesIn name elements) (testsOf testsuites name)

theorem AllLatest.addSuite {runParams : Text} {elements : List SuiteElement}
    {testsuites : Dict Text Testsuite} (h : AllLatest runParams elements testsuites) {ts : SuiteElement}
    (hts : ∀ tc ∈ ts.testcases, tc.HasErrorText) :
    ∃ testsuites', addSuite runParams testsuites ts = some testsuites' ∧
      AllLatest runParams (elements ++ [ts]) testsuites' := by
  obtain ⟨tests, hadd, hlatest⟩ := (h ts.name).addCases ts.testcases hts
  refine ⟨_, by rw [Reports.addSuite, hadd]; rfl, ?_⟩
  intro name
  rw [testsOf_set, casesIn_append, casesIn_singleton]
  by_cases hname : name = ts.name
  · subst hname
    rw [if_pos rfl, if_pos rfl]
    exact hlatest
  · rw [if_neg hname, if_neg (Ne.symm hname), List.append_nil]
    exact h name

theorem AllLatest.addReport {runParams : Text} {elements : List SuiteElement}
    {testsuites : Dict Text Testsuite} (h : AllLatest runParams elements testsuites) (report : Report)
    (hreport : ∀ ts ∈ report, ∀ tc ∈ ts.testcases, tc.HasErrorText) :
    ∃ testsuites', report.foldlM (Reports.addSuite runParams) testsuites = some testsuites' ∧
      AllLatest runParams (elements ++ report) testsuites' := by
  induction report generalizing elements testsuites with
  | nil => exact ⟨testsuites, rfl, by rw [List.append_nil]; exact h⟩
  | cons ts rest ih =>
      obtain ⟨suites, hadd, hall⟩ := h.addSuite (hreport ts List.mem_cons_self)
      obtain ⟨suites', hrest, hall'⟩ := ih hall fun t ht => hreport t (List.mem_cons_of_mem _ ht)
      refine ⟨suites', ?_, ?_⟩
      · rw [List.foldlM_cons, hadd]
        exact hrest
      · rw [List.append_assoc] at hall'
        exact hall'

theorem AllLatest.addReports {runParams : Text} {elements : List SuiteElement}
    {testsuites : Dict Text Testsuite} (h : AllLatest runParams elements testsuites) (reports : List Report)
    (hreports : ∀ report ∈ reports, ∀ ts ∈ report, ∀ tc ∈ ts.testcases, tc.HasErrorText) :
    ∃ testsuites', reports.foldlM (fun suites report => report.foldlM (Reports.addSuite runParams) suites)
        testsuites = some testsuites' ∧ AllLatest runParams (elements ++ reports.flatten) testsuites' := by
  induction reports generalizing elements testsuites with
  | nil => exact ⟨testsuites, rfl, by rw [List.flatten_nil, List.append_nil]; exact h⟩
  | cons report rest ih =>
      obtain ⟨suites, hadd, hall⟩ := h.addReport report (hreports report List.mem_cons_self)
      obtain ⟨suites', hrest, hall'⟩ := ih hall fun r hr => hreports r (List.mem_cons_of_mem _ hr)
      refine ⟨suites', ?_, ?_⟩
      · rw [List.foldlM_cons, hadd]
        exact hrest
      · rw [List.append_assoc, ← List.flatten_cons] at hall'
        exact hall'

/-- A test that failed, and a run of the same test with its parameters in another order that passed. -/
def rerunReports : List Report :=
  let suite (tc : TestCase) : SuiteElement := ⟨"s".toList, [], [], [], [], [], [tc]⟩
  [[suite ⟨"t,x=1,y=2,ini=a".toList, "3".toList, [some "boom".toList]⟩],
    [suite ⟨"t,y=2,x=1,ini=b".toList, "4".toList, []⟩]]

end TestInfra.Reports
