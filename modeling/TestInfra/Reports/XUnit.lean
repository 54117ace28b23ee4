import TestInfra.Reports.Merge
import TestInfra.Lib.Cut
import TestInfra.Lib.Grouping

set_option autoImplicit false

/-! # Reports of tests

`lib/xunit.py` collects the tests that have run in suites, one for each class, and writes a file for each suite.
Whatever the order of the tests, a suite has the tests of its class in the order in which they ran
(`suites_addTests`), and the file of a suite counts and lists them (`write_items`).

A written report is taken as `merge_reports` reads it, an element with its attributes: what `xml.dom` makes of it in
between is left out. -/

namespace TestInfra.Reports

open PyText Grouping

/-! ## The tests of a suite -/

structure XUnitTestCaseError where
  type : Text
  message : Text
deriving DecidableEq, Repr

/-- The `status` of a test, with the `errorType` and the `errorMessage` of one that failed. -/
inductive Status where
  | pass
  | fail (error : XUnitTestCaseError)
  | skip
deriving DecidableEq, Repr

/-- `test.error`. -/
def Status.error : Status → Option XUnitTestCaseError
  | .fail error => some error
  | _ => none

/-- The arguments of `add_test`. Times are of any type that can be added. -/
structure Test (τ : Type) where
  name : Text
  time : τ
  status : Status
  params : Text
deriving DecidableEq, Repr

structure XUnitTestCase (τ : Type) where
  name : Text
  time : τ
  error : Option XUnitTestCaseError
  params : Text
deriving DecidableEq, Repr

structure XUnitTestSuite (τ : Type) where
  name : Text
  time : τ
  tests : List (XUnitTestCase τ)
  errors : ℕ
  failures : ℕ
  skips : ℕ
deriving DecidableEq, Repr

/-- `class_name`: the name up to its last dot, or the whole name when it has parameters. -/
def className (name : Text) : Text :=
  if ',' ∈ name then name
  else if '.' ∈ name then (SplitText.past '.' name.reverse).reverse
  else
    -- `rfind` is -1, and `name[:-1]` is all but the last character
    name.dropLast

theorem className_free {name : Text} (h : ',' ∉ name) : ',' ∉ className name := by
  rw [className, if_neg h]
  split
  · intro hmem
    have hpast : ',' ∈ SplitText.past '.' name.reverse := List.mem_reverse.1 hmem
    have hreverse : ',' ∈ name.reverse := (List.dropWhile_sublist _).subset (List.mem_of_mem_tail hpast)
    exact h (List.mem_reverse.1 hreverse)
  · exact fun hmem => h (List.mem_of_mem_dropLast hmem)

/-- The name of the file of a suite. -/
def reportPath (path name : Text) : Text :=
  path ++ '-' :: (if ',' ∈ name then SplitText.upTo ',' name else name) ++ ".xml".toList

theorem reportPath_of_free (path : Text) {name : Text} (h : ',' ∉ name) :
    reportPath path name = path ++ '-' :: name ++ ".xml".toList := by
  rw [reportPath, if_neg h]

/-- Suites with names of their own have files of their own, also in folders that differ. -/
theorem reportPath_injective {path path' name other : Text} (hlength : path.length = path'.length)
    (hname : ',' ∉ name) (hother : ',' ∉ other) (h : reportPath path name = reportPath path' other) :
    name = other := by
  rw [reportPath_of_free path hname, reportPath_of_free path' hother] at h
  have hcons := (List.append_inj (List.append_cancel_right h) hlength).2
  exact (List.cons.inj hcons).2

section Suites

variable {τ : Type}

/-- The test case of a test. -/
def Test.testCase (test : Test τ) : XUnitTestCase τ := ⟨test.name, test.time, test.status.error, test.params⟩

/-- The class a test belongs to. -/
def Test.className (test : Test τ) : Text := Reports.className test.name

/-- The name in the report. -/
def Test.fullName (test : Test τ) : Text := test.name ++ test.params

/-- What stands behind the name begins with a comma, and the name has none. -/
structure Test.WellNamed (test : Test τ) : Prop where
  name_free : ',' ∉ test.name
  params_head : ∀ c ∈ test.params.head?, c = ','

theorem Test.WellNamed.upTo_fullName {test : Test τ} (h : test.WellNamed) :
    SplitText.upTo ',' test.fullName = test.name := by
  rw [Test.fullName]
  rcases hparams : test.params with _ | ⟨c, rest⟩
  · have hall : ∀ c ∈ test.name, decide (c ≠ ',') = true := fun c hc =>
      decide_eq_true fun heq => h.name_free (heq ▸ hc)
    rw [List.append_nil, SplitText.upTo, List.takeWhile_eq_self_iff.2 hall]
  · obtain rfl : c = ',' := h.params_head c (by rw [hparams]; rfl)
    exact SplitText.upTo_append h.name_free rest

/-- The classes of the tests, in the order of their first tests. -/
def classes (tests : List (Test τ)) : List Text := firsts (tests.map Test.className)

theorem nodup_classes (tests : List (Test τ)) : (classes tests).Nodup := nodup_firsts _

theorem mem_classes {tests : List (Test τ)} {name : Text} :
    name ∈ classes tests ↔ ∃ test ∈ tests, test.className = name := by
  rw [classes, mem_firsts, List.mem_map]

/-- The names of the tests have no parameters. -/
def Plain (tests : List (Test τ)) : Prop := ∀ test ∈ tests, ',' ∉ test.name

theorem Plain.classes_free {tests : List (Test τ)} (h : Plain tests) {name : Text} (hname : name ∈ classes tests) :
    ',' ∉ name := by
  obtain ⟨test, htest, rfl⟩ := mem_classes.1 hname
  exact className_free (h test htest)

theorem Plain.nodup_paths {tests : List (Test τ)} (h : Plain tests) (path : Text) :
    ((classes tests).map (reportPath path)).Nodup := by
  refine List.Nodup.map_on ?_ (nodup_classes tests)
  intro name hname other hother heq
  exact reportPath_injective rfl (h.classes_free hname) (h.classes_free hother) heq

/-- The tests of a class. -/
def ofClass (name : Text) (tests : List (Test τ)) : List (Test τ) := withKey Test.className name tests

theorem ofClass_append (name : Text) (tests more : List (Test τ)) :
    ofClass name (tests ++ more) = ofClass name tests ++ ofClass name more := withKey_append _ _ _ _

/-- The number of tests that failed. -/
def countFailed (tests : List (Test τ)) : ℕ := tests.countP fun test => test.status.error.isSome

/-- The number of tests that were skipped. -/
def countSkipped (tests : List (Test τ)) : ℕ := tests.countP fun test => test.status = .skip

/-! ## Suites -/

variable [Add τ]

/-- `XUnitTestSuite.add_test`. -/
def XUnitTestSuite.addTest (suite : XUnitTestSuite τ) (test : Test τ) : XUnitTestSuite τ :=
  let added := { suite with tests := suite.tests ++ [test.testCase], time := suite.time + test.time }
  match test.status with
  | .fail _ => { added with failures := suite.failures + 1, errors := suite.errors + 1 }
  | .skip => { added with skips := suite.skips + 1 }
  | .pass => added

/-- What one more test does to a suite. -/
theorem XUnitTestSuite.addTest_eq (suite : XUnitTestSuite τ) (test : Test τ) :
    suite.addTest test =
      { name := suite.name
        time := suite.time + test.time
        tests := suite.tests ++ [test.testCase]
        errors := suite.errors + countFailed [test]
        failures := suite.failures + countFailed [test]
        skips := suite.skips + countSkipped [test] } := by
  obtain ⟨name, time, status, params⟩ := test
  cases status <;> rfl

variable [Zero τ]

/-- `XUnitTestSuite()` with its name. -/
def XUnitTestSuite.new (name : Text) : XUnitTestSuite τ := ⟨name, 0, [], 0, 0, 0⟩

/-- `XUnitTestResult.add_test` on the suites. -/
def addTest (suites : List (XUnitTestSuite τ)) (test : Test τ) : List (XUnitTestSuite τ) :=
  put XUnitTestSuite.name test.className (.new test.className) (·.addTest test) suites

/-- The tests are added one after the other. -/
def addTests (tests : List (Test τ)) : List (XUnitTestSuite τ) := tests.foldl addTest []

/-- The suite of a class with these tests. -/
def suiteOf (name : Text) (tests : List (Test τ)) : XUnitTestSuite τ :=
  tests.foldl XUnitTestSuite.addTest (.new name)

/-- The sum of the times, from the first test on. -/
def totalTime (tests : List (Test τ)) : τ := tests.foldl (fun time test => time + test.time) 0

theorem suiteOf_eq (name : Text) (tests : List (Test τ)) :
    suiteOf name tests =
      { name := name
        time := totalTime tests
        tests := tests.map Test.testCase
        errors := countFailed tests
        failures := countFailed tests
        skips := countSkipped tests } := by
  induction tests using List.reverseRecOn with
  | nil => rfl
  | append_singleton tests test ih =>
      have htime : totalTime (tests ++ [test]) = totalTime tests + test.time := List.foldl_concat ..
      have hfailed : countFailed (tests ++ [test]) = countFailed tests + countFailed [test] := List.countP_append
      have hskipped : countSkipped (tests ++ [test]) = countSkipped tests + countSkipped [test] := List.countP_append
      rw [suiteOf, List.foldl_concat, ← suiteOf, ih, XUnitTestSuite.addTest_eq, htime, hfailed, hskipped,
        List.map_append, List.map_singleton]

@[simp] theorem name_suiteOf (name : Text) (tests : List (Test τ)) : (suiteOf name tests).name = name := by
  rw [suiteOf_eq]

/-- There is one suite for each class, with the tests of the class in the order in which they were added. -/
theorem suites_addTests (tests : List (Test τ)) :
    addTests tests = (classes tests).map fun name => suiteOf name (ofClass name tests) :=
  foldl_put (fun _ => rfl) (fun suite test => by rw [suite.addTest_eq]) tests

/-! ## The files -/

/-- A time and what it looks like in a report. -/
def XUnitTestCase.element (str : τ → Text) (test : XUnitTestCase τ) : TestCase where
  name := test.name ++ test.params
  time := str test.time
  errors := test.error.toList.map fun error => if error.message = [] then none else some error.message

/-- `to_xml`. The skipped tests are written under `skip` and read under `skips`, where there is nothing. -/
def XUnitTestSuite.toXml (str : τ → Text) (suite : XUnitTestSuite τ) : SuiteElement where
  name := suite.name
  errors := (toString suite.errors).toList
  failures := (toString suite.failures).toList
  skips := []
  time := str suite.time
  tests := (toString suite.tests.length).toList
  testcases := suite.tests.map (·.element str)

/-- The files with what has been written to them. -/
abbrev Disk := Dict Text SuiteElement

/-- `XUnitTestResult.write`. -/
def write (str : τ → Text) (path : Text) (suites : List (XUnitTestSuite τ)) (disk : Disk) : Disk :=
  suites.foldl (fun disk suite => disk.set (reportPath path suite.name) (suite.toXml str)) disk

/-! ## What the files are to say -/

/-- The report on a class: all of its tests, and how many failed. -/
def classReport (str : τ → Text) (name : Text) (tests : List (Test τ)) : SuiteElement where
  name := name
  errors := (toString (countFailed tests)).toList
  failures := (toString (countFailed tests)).toList
  skips := []
  time := str (totalTime tests)
  tests := (toString tests.length).toList
  testcases := tests.map fun test => test.testCase.element str

/-- A report for each class that has tests. -/
def reportFiles (str : τ → Text) (path : Text) (tests : List (Test τ)) : List (Text × SuiteElement) :=
  (classes tests).map fun name => (reportPath path name, classReport str name (ofClass name tests))

theorem toXml_suiteOf (str : τ → Text) (name : Text) (tests : List (Test τ)) :
    (suiteOf name tests).toXml str = classReport str name tests := by
  rw [suiteOf_eq, XUnitTestSuite.toXml, classReport, List.length_map, List.map_map]
  rfl

theorem map_fst_reportFiles (str : τ → Text) (path : Text) (tests : List (Test τ)) :
    (reportFiles str path tests).map Prod.fst = (classes tests).map (reportPath path) := by
  rw [reportFiles, List.map_map]
  rfl

theorem write_addTests (str : τ → Text) (path : Text) (tests : List (Test τ)) (disk : Disk) :
    write str path (addTests tests) disk
      = (reportFiles str path tests).foldl (fun disk file => disk.set file.1 file.2) disk := by
  rw [write, suites_addTests, reportFiles, List.foldl_map, List.foldl_map]
  simp only [name_suiteOf, toXml_suiteOf]

/-- With more tests the files are written again, and there are those of the new classes. -/
theorem write_items (str : τ → Text) (path : Text) {tests more : List (Test τ)} (hplain : Plain (tests ++ more))
    {disk : Disk} (hdisk : disk.items = reportFiles str path tests) :
    (write str path (addTests (tests ++ more)) disk).items = reportFiles str path (tests ++ more) := by
  rw [write_addTests]
  refine Dict.items_foldl_set_of_isPrefix ?_ ?_
  · rw [map_fst_reportFiles]
    exact hplain.nodup_paths path
  · have hkeys : disk.keys = (classes tests).map (reportPath path) := by
      rw [← map_fst_reportFiles str, ← hdisk]
      rfl
    rw [hkeys, map_fst_reportFiles, classes, classes, List.map_append]
    exact (firsts_isPrefix_append _ _).map _

/-! ## Reports as they are read again -/

omit [Add τ] [Zero τ] in
/-- What a report with texts for its errors says of a test: there is an error exactly when the test failed. -/
theorem Test.errorText_element {test : Test τ} (h : ∀ error ∈ test.status.error, error.message ≠ []) (str : τ → Text) :
    (test.testCase.element str).HasErrorText ∧
      ∃ text, (test.testCase.element str).errorText = some text ∧
        (text ≠ [] ↔ test.status.error.isSome = true) := by
  cases herror : test.status.error with
  | none => simp [TestCase.HasErrorText, TestCase.errorText, XUnitTestCase.element, Test.testCase, herror]
  | some error =>
      have hmessage : error.message ≠ [] := h error herror
      simp [TestCase.HasErrorText, TestCase.errorText, XUnitTestCase.element, Test.testCase, herror, hmessage]

theorem nodup_names_reportFiles (str : τ → Text) (path : Text) (tests : List (Test τ)) :
    (((reportFiles str path tests).map Prod.snd).map SuiteElement.name).Nodup := by
  rw [reportFiles, List.map_map, List.map_map]
  exact (List.map_id _).symm ▸ nodup_classes _

/-- The cases of a class are its tests. -/
theorem casesIn_reportFiles (str : τ → Text) (path : Text) (tests : List (Test τ)) (name : Text) :
    casesIn name ((reportFiles str path tests).map Prod.snd)
      = (ofClass name tests).map fun test => test.testCase.element str := by
  rw [reportFiles, List.map_map, casesIn, List.filter_map, List.flatMap_map]
  by_cases hname : name ∈ classes tests
  · have hfilter : (classes tests).filter (fun other => decide (other = name)) = [name] := by
      rw [List.filter_eq, List.count_eq_one_of_mem (nodup_classes tests) hname]
      rfl
    have hsingle := congrArg (fun l : List Text => l.flatMap fun other =>
      (classReport str other (ofClass other tests)).testcases) hfilter
    simpa [Function.comp_def, classReport] using hsingle
  · have hnone : ofClass name tests = [] := withKey_eq_nil fun h => hname (mem_firsts.2 h)
    have hfilter : (classes tests).filter (fun other => decide (other = name)) = [] := by
      rw [List.filter_eq_nil_iff]
      exact fun other hother heq => hname (of_decide_eq_true heq ▸ hother)
    have hnil := congrArg (fun l : List Text => l.flatMap fun other =>
      (classReport str other (ofClass other tests)).testcases) hfilter
    simpa [Function.comp_def, classReport, hnone] using hnil

end Suites

/-- Of suites with names of their own the order does not matter. -/
theorem casesIn_perm {elements read : List SuiteElement} (h : read.Perm elements)
    (hnod : (elements.map SuiteElement.name).Nodup) (name : Text) : casesIn name read = casesIn name elements := by
  have hperm : (read.filter fun ts => ts.name = name).Perm (elements.filter fun ts => ts.name = name) := h.filter _
  have hlength : (elements.filter fun ts => ts.name = name).length ≤ 1 := by
    have hcount := List.nodup_iff_count_le_one.1 hnod name
    rw [List.count_eq_countP, List.countP_map, List.countP_eq_length_filter] at hcount
    simpa [Function.comp_def, beq_eq_decide] using hcount
  have heq : (read.filter fun ts => ts.name = name) = elements.filter fun ts => ts.name = name := by
    rcases hfilter : elements.filter fun ts => ts.name = name with _ | ⟨ts, _ | ⟨ts', rest⟩⟩
    · rw [hfilter] at hperm ⊢
      exact hperm.eq_nil
    · rw [hfilter] at hperm ⊢
      exact List.perm_singleton.1 hperm
    · rw [hfilter] at hlength
      simp at hlength
  rw [casesIn, casesIn, heq]

end TestInfra.Reports
