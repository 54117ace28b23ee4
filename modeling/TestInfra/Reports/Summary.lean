import TestInfra.Reports.TestRunner
import TestInfra.Lib.Raises

set_option autoImplicit false

/-! # Merged reports

What `merge_reports` has merged, it writes again, as the reports of one suite after the other. Merging these reports
once more changes nothing (`mergeReports_summary`). Of the reports of any number of runs of the test runner, the
merged one says of each test what its last run said (`mergeReports_runs`).

Moving the old folder of the logs away is left out; the new one is empty. -/

namespace TestInfra.Reports

open PyText Grouping

/-! ## The summaries -/

section Summary

variable {τ : Type}

/-- The test that is added for an entry; `none` when `float` does not read the time. -/
def Entry.test (float : Text → Option τ) (entry : Entry) : Option (Test τ) :=
  (float entry.time).map fun time =>
    { name := SplitText.upTo ',' entry.name
      time := time
      status := if entry.error ≠ [] then .fail ⟨"membase.error".toList, entry.error⟩ else .pass
      params := entry.name.dropWhile (· ≠ ',') }

/-- `for testname in tests.keys()`. -/
def Testsuite.summaryTests (float : Text → Option τ) (suite : Testsuite) : Option (List (Test τ)) :=
  suite.tests.items.mapM fun e => e.2.test float

variable [Zero τ] [Add τ] (float : Text → Option τ) (str : τ → Text) (output : ℕ → Text)

/-- The body of `for tskey in testsuites.keys()`. The folder is named for the time. -/
def writeSummary (disk : Disk) (entry : (Text × Testsuite) × ℕ) : Option Disk :=
  (entry.1.2.summaryTests float).map fun tests => write str (output entry.2) (addTests tests) disk

/-- The merged reports. -/
def writeSummaries (testsuites : Dict Text Testsuite) : Option Disk :=
  testsuites.items.zipIdx.foldlM (writeSummary float str output) ∅

end Summary

/-! ## What an entry becomes -/

section Entries

variable {τ : Type} {float : Text → Option τ}

/-- The test of an entry has its name and its error. -/
theorem Entry.test_spec {entry : Entry} {test : Test τ} (h : entry.test float = some test) (str : τ → Text) :
    test.WellNamed ∧ test.fullName = entry.name ∧ (test.testCase.element str).HasErrorText ∧
      (test.testCase.element str).verdict = (entry.name, some entry.error) := by
  obtain ⟨time, -, rfl⟩ := Option.map_eq_some_iff.1 h
  have hname : SplitText.upTo ',' entry.name ++ entry.name.dropWhile (· ≠ ',') = entry.name :=
    List.takeWhile_append_dropWhile
  refine ⟨⟨SplitText.not_mem_upTo ',' _, ?_⟩, hname, ?_, ?_⟩
  · intro c hc
    have hdrop := List.head?_dropWhile_not (· ≠ ',') entry.name
    rw [Option.mem_def.1 hc] at hdrop
    simpa using hdrop
  · by_cases herror : entry.error = [] <;>
      simp [TestCase.HasErrorText, Test.testCase, XUnitTestCase.element, Status.error, herror]
  · refine Prod.ext hname ?_
    by_cases herror : entry.error = [] <;>
      simp [TestCase.verdict, TestCase.errorText, Test.testCase, XUnitTestCase.element, Status.error, herror]

/-- The tests of a suite that has been merged. -/
def Testsuite.summary (float : Text → Option τ) (suite : Testsuite) : List (Test τ) :=
  (suite.summaryTests float).getD []

/-- The cases of a summary say what the entries say. -/
theorem Testsuite.map_verdict_summary {suite : Testsuite}
    (h : suite.summaryTests float = some (suite.summary float)) (str : τ → Text) :
    ((suite.summary float).map fun test => test.testCase.element str).map TestCase.verdict
      = suite.tests.items.map fun e => (e.2.name, some e.2.error) := by
  rw [List.map_map]
  exact Raises.map_eq_of_mapM h fun e _ test htest => (Entry.test_spec htest str).2.2.2

theorem Testsuite.hasErrorText_summary {suite : Testsuite}
    (h : suite.summaryTests float = some (suite.summary float)) (str : τ → Text) :
    ∀ tc ∈ (suite.summary float).map fun test => test.testCase.element str, tc.HasErrorText := by
  intro tc htc
  obtain ⟨test, htest, rfl⟩ := List.mem_map.1 htc
  obtain ⟨e, -, hentry⟩ := Raises.exists_of_mem_mapM h htest
  exact (Entry.test_spec hentry str).2.2.1

/-- Every test of a summary is that of an entry. -/
theorem Testsuite.exists_of_mem_summary {suite : Testsuite}
    (h : suite.summaryTests float = some (suite.summary float)) {test : Test τ} (htest : test ∈ suite.summary float) :
    ∃ e ∈ suite.tests.items, e.2.test float = some test :=
  Raises.exists_of_mem_mapM h htest

theorem plain_summary {suite : Testsuite} (h : suite.summaryTests float = some (suite.summary float)) :
    Plain (suite.summary float) := by
  intro test htest
  obtain ⟨e, -, hentry⟩ := suite.exists_of_mem_summary h htest
  exact (Entry.test_spec hentry fun _ => []).1.name_free

/-- The entries of a suite are of its class. -/
def OwnClass (name : Text) (suite : Testsuite) : Prop :=
  ∀ e ∈ suite.tests.items, className (SplitText.upTo ',' e.2.name) = name

theorem OwnClass.className {name : Text} {suite : Testsuite} (hown : OwnClass name suite)
    (h : suite.summaryTests float = some (suite.summary float)) :
    ∀ test ∈ suite.summary float, test.className = name := by
  intro test htest
  obtain ⟨e, he, hentry⟩ := suite.exists_of_mem_summary h htest
  obtain ⟨hwell, hname, -⟩ := Entry.test_spec hentry fun _ => []
  rw [Test.className, ← hwell.upTo_fullName, hname]
  exact hown e he

theorem OwnClass.ofClass {name : Text} {suite : Testsuite} (hown : OwnClass name suite)
    (h : suite.summaryTests float = some (suite.summary float)) (other : Text) :
    ofClass other (suite.summary float) = if name = other then suite.summary float else [] := by
  have hclass := hown.className h
  split
  · next heq => exact List.filter_eq_self.2 fun test htest => decide_eq_true ((hclass test htest).trans heq)
  · next hne =>
      refine List.filter_eq_nil_iff.2 fun test htest heq => hne ?_
      exact (hclass test htest).symm.trans (of_decide_eq_true heq)

end Entries

/-! ## The files of the summaries -/

section Files

variable {τ : Type} [Zero τ] [Add τ] {float : Text → Option τ} {str : τ → Text} {output : ℕ → Text}

/-- The files of one suite. -/
def summaryFiles (float : Text → Option τ) (str : τ → Text) (output : ℕ → Text)
    (entry : (Text × Testsuite) × ℕ) : List (Text × SuiteElement) :=
  reportFiles str (output entry.2) (entry.1.2.summary float)

theorem foldlM_writeSummary {entries : List ((Text × Testsuite) × ℕ)} {disk disk' : Disk}
    (h : entries.foldlM (writeSummary float str output) disk = some disk') :
    (∀ entry ∈ entries, entry.1.2.summaryTests float = some (entry.1.2.summary float)) ∧
      disk' =
        (entries.flatMap (summaryFiles float str output)).foldl (fun disk file => disk.set file.1 file.2) disk := by
  induction entries generalizing disk with
  | nil =>
      cases h
      exact ⟨by simp, rfl⟩
  | cons entry entries ih =>
      rw [List.foldlM_cons] at h
      obtain ⟨next, hnext, h⟩ := Option.bind_eq_some_iff.1 h
      obtain ⟨tests, htests, rfl⟩ := Option.map_eq_some_iff.1 hnext
      have hsummary : entry.1.2.summary float = tests := by rw [Testsuite.summary, htests]; rfl
      obtain ⟨hall, rfl⟩ := ih h
      refine ⟨List.forall_mem_cons.2 ⟨by rw [htests, hsummary], hall⟩, ?_⟩
      rw [List.flatMap_cons, List.foldl_append, summaryFiles, hsummary, write_addTests]

/-- The only file that a suite has is named for it. -/
theorem path_of_mem_summaryFiles {entry : (Text × Testsuite) × ℕ} (hown : OwnClass entry.1.1 entry.1.2)
    (h : entry.1.2.summaryTests float = some (entry.1.2.summary float)) {path : Text}
    (hpath : path ∈ (summaryFiles float str output entry).map Prod.fst) :
    path = reportPath (output entry.2) entry.1.1 ∧ ',' ∉ entry.1.1 := by
  rw [summaryFiles, map_fst_reportFiles] at hpath
  obtain ⟨name, hname, rfl⟩ := List.mem_map.1 hpath
  obtain ⟨test, htest, rfl⟩ := mem_classes.1 hname
  have hclass := hown.className h test htest
  rw [← hclass]
  exact ⟨rfl, (plain_summary h).classes_free hname⟩

section Written

variable {testsuites : Dict Text Testsuite} {disk : Disk}

/-- What tells the name of its suite is in one list only. -/
theorem nodup_flatMap_suites {β : Type*} {g : (Text × Testsuite) × ℕ → List β}
    (hnod : ∀ entry ∈ testsuites.items.zipIdx, (g entry).Nodup)
    (hname : ∀ entry ∈ testsuites.items.zipIdx, ∀ entry' ∈ testsuites.items.zipIdx, ∀ x ∈ g entry, x ∈ g entry' →
      entry.1.1 = entry'.1.1) : (testsuites.items.zipIdx.flatMap g).Nodup := by
  have hkeys : ((testsuites.items.zipIdx.map Prod.fst).map Prod.fst).Nodup := by
    rw [List.zipIdx_map_fst]
    exact testsuites.nodup
  rw [List.map_map, List.nodup_iff_pairwise_ne] at hkeys
  refine List.nodup_flatMap.2 ⟨hnod, (List.pairwise_map.1 hkeys).imp_of_mem fun hmem hmem' hne => ?_⟩
  intro x hx hx'
  exact hne (hname _ hmem _ hmem' x hx hx')

section OfClasses

variable (hown : ∀ e ∈ testsuites.items, OwnClass e.1 e.2)
  (hall : ∀ e ∈ testsuites.items, e.2.summaryTests float = some (e.2.summary float))

include hown hall

/-- Every class has one report. -/
theorem nodup_names_summaryFiles :
    (((testsuites.items.zipIdx.flatMap (summaryFiles float str output)).map Prod.snd).map SuiteElement.name).Nodup := by
  rw [List.map_map, List.map_flatMap]
  refine nodup_flatMap_suites (fun entry _ => ?_) fun entry hmem entry' hmem' name hname hname' => ?_
  · rw [← List.map_map]
    exact nodup_names_reportFiles str _ _
  · have hclass : ∀ entry ∈ testsuites.items.zipIdx,
        name ∈ (summaryFiles float str output entry).map (SuiteElement.name ∘ Prod.snd) → name = entry.1.1 := by
      intro entry hmem hname
      rw [summaryFiles, reportFiles, List.map_map] at hname
      obtain ⟨other, hother, rfl⟩ := List.mem_map.1 hname
      obtain ⟨test, htest, rfl⟩ := mem_classes.1 hother
      have he := List.fst_mem_of_mem_zipIdx hmem
      exact (hown entry.1 he).className (hall entry.1 he) test htest
    exact (hclass entry hmem hname).symm.trans (hclass entry' hmem' hname')

/-- No report is written over another one. -/
theorem nodup_paths_summaryFiles (hlength : ∀ i j, (output i).length = (output j).length) :
    ((testsuites.items.zipIdx.flatMap (summaryFiles float str output)).map Prod.fst).Nodup := by
  rw [List.map_flatMap]
  refine nodup_flatMap_suites (fun entry hmem => ?_) fun entry hmem entry' hmem' path hpath hpath' => ?_
  · rw [summaryFiles, map_fst_reportFiles]
    exact (plain_summary (hall _ (List.fst_mem_of_mem_zipIdx hmem))).nodup_paths _
  · have he := List.fst_mem_of_mem_zipIdx hmem
    have he' := List.fst_mem_of_mem_zipIdx hmem'
    obtain ⟨hpath, hfree⟩ := path_of_mem_summaryFiles (hown _ he) (hall _ he) hpath
    obtain ⟨hpath', hfree'⟩ := path_of_mem_summaryFiles (hown _ he') (hall _ he') hpath'
    exact reportPath_injective (hlength _ _) hfree hfree' (hpath.symm.trans hpath')

end OfClasses

theorem summaryTests_of_writeSummaries (h : writeSummaries float str output testsuites = some disk) :
    ∀ e ∈ testsuites.items, e.2.summaryTests float = some (e.2.summary float) := by
  intro e he
  rw [← List.zipIdx_map_fst 0 testsuites.items] at he
  obtain ⟨entry, hentry, rfl⟩ := List.mem_map.1 he
  exact (foldlM_writeSummary h).1 entry hentry

theorem items_writeSummaries (hlength : ∀ i j, (output i).length = (output j).length)
    (hown : ∀ e ∈ testsuites.items, OwnClass e.1 e.2)
    (h : writeSummaries float str output testsuites = some disk) :
    disk.items = testsuites.items.zipIdx.flatMap (summaryFiles float str output) := by
  rw [(foldlM_writeSummary h).2]
  refine Dict.items_foldl_set ?_ fun _ _ => List.not_mem_nil
  exact nodup_paths_summaryFiles hown (summaryTests_of_writeSummaries h) hlength

theorem casesIn_flatMap {α : Type*} (name : Text) (f : α → List SuiteElement) (l : List α) :
    casesIn name (l.flatMap f) = l.flatMap fun a => casesIn name (f a) := by
  induction l with
  | nil => rfl
  | cons a l ih => rw [List.flatMap_cons, casesIn_append, ih, List.flatMap_cons]

/-- The cases of a class in the summaries are those of its suite. -/
theorem casesIn_summaries (hown : ∀ e ∈ testsuites.items, OwnClass e.1 e.2)
    (hall : ∀ e ∈ testsuites.items, e.2.summaryTests float = some (e.2.summary float)) (name : Text) :
    casesIn name ((testsuites.items.zipIdx.flatMap (summaryFiles float str output)).map Prod.snd)
      = ((testsuites.get? name).map fun suite =>
          (suite.summary float).map fun test => test.testCase.element str).getD [] := by
  have hcases : ∀ e ∈ testsuites.items, ∀ i, casesIn name ((summaryFiles float str output (e, i)).map Prod.snd)
      = if e.1 = name then (e.2.summary float).map fun test => test.testCase.element str else [] := by
    intro e he i
    rw [summaryFiles, casesIn_reportFiles, (hown e he).ofClass (hall e he)]
    split <;> rfl
  have hzip : ∀ entry ∈ testsuites.items.zipIdx,
      casesIn name ((summaryFiles float str output entry).map Prod.snd)
        = if entry.1.1 = name then (entry.1.2.summary float).map fun test => test.testCase.element str else [] :=
    fun entry hmem => hcases entry.1 (List.fst_mem_of_mem_zipIdx hmem) entry.2
  let shown (e : Text × Testsuite) : List TestCase :=
    if e.1 = name then (e.2.summary float).map fun test => test.testCase.element str else []
  rw [List.map_flatMap, casesIn_flatMap, List.flatMap_congr hzip, ← List.flatMap_map Prod.fst shown,
    List.zipIdx_map_fst, testsuites.flatMap_items_of_key fun e _ hne => if_neg hne]
  simp

end Written

end Files

/-! ## Merging once more -/

section Again

variable {runParams : Text}

theorem lastCase_eq_getLast? (runParams : Text) (cases : List TestCase) (c : Text) :
    lastCase runParams cases c = (cases.filter fun tc => tc.canonicalName runParams = c).getLast? :=
  List.getLast?_filter.symm

theorem toList_getLast? {α : Type*} {l : List α} (h : l.length ≤ 1) : l.getLast?.toList = l := by
  rcases l with _ | ⟨a, _ | ⟨b, rest⟩⟩
  · rfl
  · rfl
  · simp at h

/-- A suite has one entry for each canonical name that it has, which is that of its name and of its key. -/
theorem Latest.entry {cases : List TestCase} {tests : Dict Text Entry} (h : Latest runParams cases tests)
    {e : Text × Entry} (he : e ∈ tests.items) :
    entriesFor tests (canonical e.1) = [e] ∧ canonical (filterFields e.2.name runParams) = canonical e.1 ∧
      ∃ tc ∈ cases, tc.name = e.2.name := by
  have hmem : e ∈ entriesFor tests (canonical e.1) := List.mem_filter.2 ⟨he, decide_eq_true rfl⟩
  have hlatest := h (canonical e.1)
  cases hlast : lastCase runParams cases (canonical e.1) with
  | none =>
      rw [hlast] at hlatest
      rw [List.map_eq_nil_iff.1 hlatest] at hmem
      cases hmem
  | some tc =>
      rw [hlast] at hlatest
      obtain ⟨e', hone⟩ : ∃ e', entriesFor tests (canonical e.1) = [e'] := by
        rw [← List.length_eq_one_iff, ← List.length_map fun e : Text × Entry => (e.2.name, some e.2.error), hlatest]
        rfl
      rw [hone, List.mem_singleton] at hmem
      subst hmem
      rw [hone] at hlatest
      have hname : e.2.name = tc.name := congrArg Prod.fst (List.cons.inj hlatest).1
      rw [lastCase] at hlast
      have hcanonical : tc.canonicalName runParams = canonical e.1 := by simpa using List.find?_some hlast
      refine ⟨hone, ?_, tc, List.mem_reverse.1 (List.mem_of_find?_eq_some hlast), hname.symm⟩
      rwa [hname]

/-- Cases that say what the entries of a suite say leave the same entries behind. -/
theorem Latest.again {cases more : List TestCase} {tests again : Dict Text Entry}
    (h : Latest runParams cases tests) (hagain : Latest runParams more again)
    (hmore : more.map TestCase.verdict = tests.items.map fun e => (e.2.name, some e.2.error)) (c : Text) :
    (entriesFor again c).map (fun e => (e.2.name, some e.2.error))
      = (entriesFor tests c).map fun e => (e.2.name, some e.2.error) := by
  have hfilter : (more.filter fun tc => tc.canonicalName runParams = c).map TestCase.verdict
      = (entriesFor tests c).map fun e => (e.2.name, some e.2.error) := by
    have hleft : (more.filter fun tc => tc.canonicalName runParams = c).map TestCase.verdict
        = (more.map TestCase.verdict).filter fun v => canonical (filterFields v.1 runParams) = c := by
      rw [List.filter_map]
      rfl
    have hright : ((tests.items.map fun e => (e.2.name, some e.2.error)).filter fun v =>
          canonical (filterFields v.1 runParams) = c)
        = (tests.items.filter fun e => canonical (filterFields e.2.name runParams) = c).map
            fun e => (e.2.name, some e.2.error) := by
      rw [List.filter_map]
      rfl
    rw [hleft, hmore, hright, entriesFor]
    congr 1
    refine List.filter_congr fun e he => ?_
    rw [(h.entry he).2.1]
  have hone : ((entriesFor tests c).map fun e => (e.2.name, some e.2.error)).length ≤ 1 := by
    rw [h c, List.length_map]
    exact Option.length_toList_le
  rw [hagain c, lastCase_eq_getLast?, ← Option.toList_map, ← List.getLast?_map, hfilter]
  exact toList_getLast? hone

/-- The test cases of a report are of its class. -/
def SuiteElement.OwnClass (ts : SuiteElement) : Prop :=
  ∀ tc ∈ ts.testcases, className (SplitText.upTo ',' tc.name) = ts.name

theorem className_of_mem_casesIn {elements : List SuiteElement} (h : ∀ ts ∈ elements, ts.OwnClass) {name : Text}
    {tc : TestCase} (htc : tc ∈ casesIn name elements) : className (SplitText.upTo ',' tc.name) = name := by
  obtain ⟨ts, hts, hmem⟩ := List.mem_flatMap.1 htc
  obtain ⟨hts, hname⟩ := List.mem_filter.1 hts
  rw [h ts hts tc hmem, of_decide_eq_true hname]

theorem mem_casesIn {elements : List SuiteElement} {ts : SuiteElement} (hts : ts ∈ elements) {tc : TestCase}
    (htc : tc ∈ ts.testcases) : tc ∈ casesIn ts.name elements :=
  List.mem_flatMap.2 ⟨ts, List.mem_filter.2 ⟨hts, decide_eq_true rfl⟩, htc⟩

theorem testsOf_of_mem_items {testsuites : Dict Text Testsuite} {e : Text × Testsuite} (he : e ∈ testsuites.items) :
    testsOf testsuites e.1 = e.2.tests := by
  rw [testsOf, (Dict.get?_eq_some_iff testsuites e.1 e.2).2 he]

/-- Merged from reports on classes, the suites are of their classes. -/
theorem AllLatest.ownClass {elements : List SuiteElement} {testsuites : Dict Text Testsuite}
    (h : AllLatest runParams elements testsuites) (hown : ∀ ts ∈ elements, ts.OwnClass) :
    ∀ e ∈ testsuites.items, OwnClass e.1 e.2 := by
  intro e he entry hentry
  have hlatest := h e.1
  rw [testsOf_of_mem_items he] at hlatest
  obtain ⟨-, -, tc, htc, hname⟩ := hlatest.entry hentry
  rw [← hname]
  exact className_of_mem_casesIn hown htc

variable {τ : Type} [Zero τ] [Add τ] {float : Text → Option τ} {str : τ → Text} {output : ℕ → Text}

/-- **The merged reports can be merged again**: what `merge_reports` has written for reports on classes, read in any
    order, gives the same tests with the same errors once more. -/
theorem mergeReports_summary {reports : List Report} {testsuites : Dict Text Testsuite} {disk : Disk}
    (htext : ∀ report ∈ reports, ∀ ts ∈ report, ∀ tc ∈ ts.testcases, tc.HasErrorText)
    (hown : ∀ report ∈ reports, ∀ ts ∈ report, ts.OwnClass)
    (hlength : ∀ i j, (output i).length = (output j).length)
    (hmerge : mergeReports runParams reports = some testsuites)
    (hwrite : writeSummaries float str output testsuites = some disk)
    {read : List SuiteElement} (hread : read.Perm (disk.items.map Prod.snd)) :
    ∃ again, mergeReports runParams (read.map fun ts => [ts]) = some again ∧
      ∀ name c, (entriesFor (testsOf again name) c).map (fun e => (e.2.name, some e.2.error))
        = (entriesFor (testsOf testsuites name) c).map fun e => (e.2.name, some e.2.error) := by
  have hempty : AllLatest runParams [] ∅ := fun name c => rfl
  obtain ⟨testsuites', hmerge', hlatest⟩ := hempty.addReports reports htext
  obtain rfl : testsuites = testsuites' := Option.some.inj (hmerge.symm.trans hmerge')
  rw [List.nil_append] at hlatest
  have hsuites := hlatest.ownClass (List.forall_mem_flatten.2 hown)
  have hall := summaryTests_of_writeSummaries hwrite
  rw [items_writeSummaries hlength hsuites hwrite] at hread
  have hcases : ∀ name, casesIn name read = ((testsuites.get? name).map fun suite =>
      (suite.summary float).map fun test => test.testCase.element str).getD [] := fun name => by
    rw [casesIn_perm hread (nodup_names_summaryFiles hsuites hall), casesIn_summaries hsuites hall]
  have hreadText : ∀ ts ∈ read, ∀ tc ∈ ts.testcases, tc.HasErrorText := by
    intro ts hts tc htc
    have hmem : tc ∈ casesIn ts.name read := mem_casesIn hts htc
    rw [hcases] at hmem
    cases hget : testsuites.get? ts.name with
    | none => simp [hget] at hmem
    | some suite =>
        rw [hget] at hmem
        have he := (Dict.get?_eq_some_iff _ _ _).1 hget
        exact suite.hasErrorText_summary (hall _ he) str tc hmem
  have hflatten : (read.map fun ts => [ts]).flatten = read := List.flatMap_singleton' read
  have hreportText : ∀ report ∈ read.map fun ts => [ts], ∀ ts ∈ report, ∀ tc ∈ ts.testcases, tc.HasErrorText := by
    intro report hreport ts hts
    obtain ⟨ts', hts', rfl⟩ := List.mem_map.1 hreport
    rw [List.mem_singleton.1 hts]
    exact hreadText ts' hts'
  obtain ⟨again, hagain, hlatest'⟩ := hempty.addReports (read.map fun ts => [ts]) hreportText
  refine ⟨again, hagain, fun name c => (hlatest name).again (hlatest' name) ?_ c⟩
  rw [List.nil_append, hflatten, hcases, testsOf]
  cases hget : testsuites.get? name with
  | none => rfl
  | some suite => exact suite.map_verdict_summary (hall _ ((Dict.get?_eq_some_iff _ _ _).1 hget)) str

/-- When every time can be read, the summaries are written. -/
theorem exists_writeSummaries (hfloat : ∀ text, ∃ time, float text = some time) (testsuites : Dict Text Testsuite) :
    ∃ disk, writeSummaries float str output testsuites = some disk := by
  have htests : ∀ suite : Testsuite, ∃ tests, suite.summaryTests float = some tests := by
    intro suite
    obtain ⟨tests, htests, -⟩ := Raises.exists_mapM (f := fun e : Text × Entry => e.2.test float)
      (R := fun _ _ => True) (l := suite.tests.items) fun e _ => by
        obtain ⟨time, htime⟩ := hfloat e.2.time
        exact ⟨_, congrArg (Option.map _) htime, trivial⟩
    exact ⟨tests, htests⟩
  have hstep : ∀ disk, True → ∀ entry ∈ testsuites.items.zipIdx,
      (True → ∃ disk', writeSummary float str output disk entry = some disk' ∧ True) ∧
        (¬ True → writeSummary float str output disk entry = none) := by
    intro disk _ entry _
    obtain ⟨tests, htests⟩ := htests entry.1.2
    exact ⟨fun _ => ⟨_, congrArg (Option.map _) htests, trivial⟩, fun hnot => absurd trivial hnot⟩
  obtain ⟨disk, hdisk, -⟩ := (Raises.foldlM_isSome_iff hstep trivial).1 fun _ _ => trivial
  exact ⟨disk, hdisk⟩

/-- A test that failed in one run and passed in the next one, and a failed test of another class. -/
def failedThenPassed : List Report :=
  [[⟨"m.T".toList, "1".toList, "1".toList, [], "0".toList, "1".toList,
      [⟨"m.T.a,x:1".toList, "0".toList, [some "boom".toList]⟩]⟩,
    ⟨"m.U".toList, "1".toList, "1".toList, [], "0".toList, "1".toList,
      [⟨"m.U.b,x:1".toList, "0".toList, [some "boom".toList]⟩]⟩],
    [⟨"m.T".toList, "0".toList, "0".toList, [], "0".toList, "1".toList,
      [⟨"m.T.a,x:1".toList, "0".toList, []⟩]⟩]]

theorem mergeReports_summary_passed :
    ∃ testsuites disk again, mergeReports [] failedThenPassed = some testsuites ∧
      writeSummaries (fun _ => some 0) TestRunner.seconds (fun _ => "merged".toList) testsuites = some disk ∧
      mergeReports [] ((disk.items.map Prod.snd).map fun ts => [ts]) = some again ∧
      ∀ name c, (entriesFor (testsOf again name) c).map (fun e => (e.2.name, some e.2.error))
        = (entriesFor (testsOf testsuites name) c).map fun e => (e.2.name, some e.2.error) := by
  have htext : ∀ report ∈ failedThenPassed, ∀ ts ∈ report, ∀ tc ∈ ts.testcases, tc.HasErrorText := by
    simp [failedThenPassed, TestCase.HasErrorText]
  have hown : ∀ report ∈ failedThenPassed, ∀ ts ∈ report, ts.OwnClass := by
    unfold SuiteElement.OwnClass
    decide
  have hempty : AllLatest [] [] ∅ := fun name c => rfl
  obtain ⟨testsuites, hmerge, -⟩ := hempty.addReports failedThenPassed htext
  obtain ⟨disk, hwrite⟩ : ∃ disk, writeSummaries (fun _ => some 0) TestRunner.seconds (fun _ => "merged".toList)
      testsuites = some disk := exists_writeSummaries (fun _ => ⟨0, rfl⟩) testsuites
  obtain ⟨again, hagain, hsame⟩ := mergeReports_summary htext hown (fun _ _ => rfl) hmerge hwrite (.refl _)
  exact ⟨testsuites, disk, again, hmerge, hwrite, hagain, hsame⟩

end Again

/-! ## The reports of several runs -/

section Runs

open TestRunner

variable {τ : Type} [Zero τ] [Add τ] {str : τ → Text}

/-- A run of the test runner that has come to its end. -/
structure Finished (str : τ → Text) where
  env : TestRunner.Env τ
  path : Text
  testParams : Dict Text TestInput.ParamValue
  names : List Text
  disk : Disk
  exit : Bool
  ended : TestRunner.main env str path testParams names = some (disk, exit)

/-- The tests that have run in these runs, as they are reported. -/
def reported (runs : List (Finished str)) (tested : List (List (Ran τ))) : List (Test τ) :=
  (runs.zip tested).flatMap fun p => p.2.map (Ran.test p.1.env)

/-- The reports of the runs, the files of each in any order, have the tests that have run. -/
theorem exists_tested {runs : List (Finished str)} {read : List (List SuiteElement)}
    (hread : List.Forall₂ (fun run files => files.Perm (run.disk.items.map Prod.snd)) runs read) :
    ∃ tested, List.Forall₂ (fun run ran => Executes run.env run.testParams 1 run.names ran) runs tested ∧
      ∀ name, casesIn name read.flatten
        = (ofClass name (reported runs tested)).map fun test => test.testCase.element str := by
  induction hread with
  | nil => exact ⟨[], .nil, fun _ => rfl⟩
  | @cons run files runs read hfiles _ ih =>
      obtain ⟨tested, hall, hcases⟩ := ih
      obtain ⟨ran, s, hran, hs, hdisk, -⟩ := exists_reflects run.ended
      rw [← hdisk, hs.disk] at hfiles
      have hreported : reported (run :: runs) (ran :: tested) = ran.map (Ran.test run.env) ++ reported runs tested := by
        rw [reported, List.zip_cons_cons, List.flatMap_cons, ← reported]
      refine ⟨ran :: tested, .cons hran hall, fun name => ?_⟩
      rw [List.flatten_cons, casesIn_append, casesIn_perm hfiles (nodup_names_reportFiles str _ _),
        casesIn_reportFiles, hcases, hreported, ofClass_append, List.map_append]

theorem message_of_reported {runs : List (Finished str)} {tested : List (List (Ran τ))} {test : Test τ}
    (h : test ∈ reported runs tested) : ∀ error ∈ test.status.error, error.message ≠ [] := by
  obtain ⟨p, -, htest⟩ := List.mem_flatMap.1 h
  obtain ⟨r, -, rfl⟩ := List.mem_map.1 htest
  exact (r.result.error_status p.1.env).1

/-- The last of the tests with a class and a canonical name. -/
def lastTest (runParams name c : Text) (tests : List (Test τ)) : Option (Test τ) :=
  (ofClass name tests).reverse.find? fun test => canonical (filterFields test.fullName runParams) = c

/-- **Merged reports say what happened last**: of the reports of any number of runs, the files of each in any order,
    `merge_reports` keeps for every class and every canonical name the last test that has run with it, under its full
    name, with an error exactly when it failed, and nothing when no such test has run. -/
theorem mergeReports_runs (runParams : Text) {runs : List (Finished str)} {read : List (List SuiteElement)}
    (hread : List.Forall₂ (fun run files => files.Perm (run.disk.items.map Prod.snd)) runs read) :
    ∃ tested, List.Forall₂ (fun run ran => Executes run.env run.testParams 1 run.names ran) runs tested ∧
      ∃ testsuites, mergeReports runParams (read.flatten.map fun ts => [ts]) = some testsuites ∧
        ∀ name c, (entriesFor (testsOf testsuites name) c).map (fun e => (e.2.name, decide (e.2.error ≠ [])))
          = (lastTest runParams name c (reported runs tested)).toList.map fun test =>
              (test.fullName, test.status.error.isSome) := by
  obtain ⟨tested, hall, hcases⟩ := exists_tested hread
  have hflatten : (read.flatten.map fun ts => [ts]).flatten = read.flatten := List.flatMap_singleton' _
  have htext : ∀ report ∈ read.flatten.map fun ts => [ts], ∀ ts ∈ report, ∀ tc ∈ ts.testcases, tc.HasErrorText := by
    intro report hreport ts hts tc htc
    obtain ⟨ts', hts', rfl⟩ := List.mem_map.1 hreport
    rw [List.mem_singleton.1 hts] at htc
    have hmem := mem_casesIn hts' htc
    rw [hcases] at hmem
    obtain ⟨test, htest, rfl⟩ := List.mem_map.1 hmem
    exact (Test.errorText_element (message_of_reported (List.mem_filter.1 htest).1) str).1
  have hempty : AllLatest runParams [] ∅ := fun name c => rfl
  obtain ⟨testsuites, hmerge, hlatest⟩ := hempty.addReports (read.flatten.map fun ts => [ts]) htext
  refine ⟨tested, hall, testsuites, hmerge, fun name c => ?_⟩
  have hlatest := hlatest name
  rw [List.nil_append, hflatten, hcases] at hlatest
  have hlast : lastCase runParams ((ofClass name (reported runs tested)).map fun test => test.testCase.element str) c
      = (lastTest runParams name c (reported runs tested)).map fun test => test.testCase.element str := by
    rw [lastCase, ← List.map_reverse, List.find?_map]
    rfl
  have hentries := hlatest c
  rw [hlast] at hentries
  cases htest : lastTest runParams name c (reported runs tested) with
  | none =>
      rw [htest] at hentries
      rw [List.map_eq_nil_iff.1 hentries]
      rfl
  | some test =>
      have hmem : test ∈ reported runs tested :=
        (List.mem_filter.1 (List.mem_reverse.1 (List.mem_of_find?_eq_some htest))).1
      obtain ⟨-, text, htext, hfailed⟩ := Test.errorText_element (message_of_reported hmem) str
      rw [htest] at hentries
      obtain ⟨e, he, hverdict⟩ := List.map_eq_singleton_iff.1 hentries
      rw [TestCase.verdict, htext, Prod.mk.injEq, Option.some.injEq] at hverdict
      obtain ⟨hname, rfl⟩ := hverdict
      have hbool : decide (e.2.error ≠ []) = test.status.error.isSome := by
        rw [Bool.eq_iff_iff, decide_eq_true_iff]
        exact hfailed
      rw [he, List.map_singleton, hname, hbool]
      rfl

/-- A run of two tests that ends behind the first. -/
def failedRun : Finished seconds where
  env := failing
  path := "report".toList
  testParams := makefileParams
  names := ["m.T.a,stop-on-failure=True".toList, "m.T.b".toList]
  disk := ((TestRunner.main failing seconds "report".toList makefileParams
    ["m.T.a,stop-on-failure=True".toList, "m.T.b".toList]).get (by decide +kernel)).1
  exit := true
  ended := by
    have hexit : ((TestRunner.main failing seconds "report".toList makefileParams
        ["m.T.a,stop-on-failure=True".toList, "m.T.b".toList]).get (by decide +kernel)).2 = true := by decide +kernel
    rw [← hexit, Option.some_get]

theorem mergeReports_runs_twice :
    ∃ tested, List.Forall₂ (fun (run : Finished seconds) ran => Executes run.env run.testParams 1 run.names ran)
        [failedRun, failedRun] tested ∧
      ∃ testsuites, mergeReports [] ([failedRun.disk.items.map Prod.snd,
          failedRun.disk.items.map Prod.snd].flatten.map fun ts => [ts]) = some testsuites ∧
        ∀ name c, (entriesFor (testsOf testsuites name) c).map (fun e => (e.2.name, decide (e.2.error ≠ [])))
          = (lastTest [] name c (reported [failedRun, failedRun] tested)).toList.map fun test =>
              (test.fullName, test.status.error.isSome) :=
  mergeReports_runs [] (.cons (.refl _) (.cons (.refl _) .nil))

end Runs

end TestInfra.Reports
