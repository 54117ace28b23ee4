import TestInfra.Rerun.FindRerunJob
import TestInfra.Lib.SplitOn
import TestInfra.Lib.Utf8

set_option autoImplicit false

/-! # The reports of an earlier run

`scripts/rerun_jobs.py` merges the reports of a job with those of the latest earlier run that was installed
(`merge_xmls`), and asks the next run to repeat what failed in such a run (`get_rerun_parameters`). Both go back
through the runs. `get_rerun_parameters` has a `valid_job`; `merge_xmls` keeps whatever run it looked at last, which
is the first one when no installation succeeded. And where Jenkins has no reports of a run, `merge_xmls` raises unless
the URL of the run has two last parts to ask AWS with. -/

namespace TestInfra.Rerun

open PyText

/-! ## What Jenkins and AWS answer -/

structure Env where
  /-- `get_js(url, "tree=artifacts[*]")`: the relative paths of the artifacts, `none` without an answer. -/
  getJs : Option Text → Option (List Text)
  /-- `download_url_data`. -/
  downloadUrlData : Text → Option (List UInt8)
  /-- The names in the archive; `none` when it cannot be read. -/
  namelist : List UInt8 → Option (List Text)

def awsLink : Text := "http://cb-logs-qe.s3-website-us-west-2.amazonaws.com".toList

/-- The link to the archive; `none` when the URL has no two last parts and this raises. -/
def archiveLink (build : Text) (jobUrl : Option Text) : Option Text := do
  match ((rstrip (· = '/') (← jobUrl)).splitOn '/').reverse with
  | number :: name :: _ =>
      pure (awsLink ++ '/' :: build ++ "/jenkins_logs/".toList ++ name ++ '/' :: number ++ "/archive.zip".toList)
  | _ => none

/-- The archive; an empty answer is none. -/
def Env.archive (env : Env) (link : Text) : Option (List UInt8) :=
  (env.downloadUrlData link).filter (· ≠ [])

/-- `file.startswith(..) and file.endswith(".xml")`. -/
def isReport (folder file : Text) : Bool := folder.isPrefixOf file && ".xml".toList.isSuffixOf file

/-- `'Old_Report_{0}'.format(file.split('/')[-1])`. -/
def oldReport (file : Text) : Text := "Old_Report_".toList ++ (file.splitOn '/').getLastD []

/-- `get_from_aws`: `none` when it raises, `some none` when it returns `None`. -/
def getFromAws (env : Env) (build : Text) (jobUrl : Option Text) : Option (Option (List Text)) := do
  let link ← archiveLink build jobUrl
  pure do
    let names ← env.namelist (← env.archive link)
    pure ((names.filter (isReport "archive/logs/".toList)).map oldReport)

/-! ## `merge_xmls` -/

def currentReports : Text := "logs/**/*.xml".toList

/-- The reports that are downloaded from Jenkins; one that is not text is left out. -/
def downloaded (env : Env) (jobUrl : Option Text) (paths : List Text) : List Text :=
  (paths.filter (isReport "logs/".toList)).filterMap fun path =>
    ((env.downloadUrlData (shown jobUrl ++ "artifact/".toList ++ path)).bind Utf8.decode).map fun _ => oldReport path

/-- The reports of an earlier run; `none` when this raises. -/
def oldReports (env : Env) (build : Text) (job : Job) : Option (List Text) :=
  let fromAws := (getFromAws env build job.jobUrl).map (·.getD [])
  match env.getJs job.jobUrl with
  | none => fromAws
  | some paths =>
      if paths = [] then fromAws
      else if downloaded env job.jobUrl paths = [] then fromAws
      else some (downloaded env job.jobUrl paths)

/-- `while not valid_run and num_runs > 0`: the last value of `job`; `none` when there is no such run. -/
def scan (jobs : List Job) : ℕ → Option Job → Option (Option Job)
  | 0, job => some job
  | n + 1, _ => do
      let job ← jobs[n]?
      if job.installFailure then scan jobs n (some job) else some (some job)

/-- `merge_xmls`: the reports it hands to `merge_reports`; `none` when it raises. -/
def mergeXmls (env : Env) (rerunDocument : Option RunDocument) : Option (List Text) :=
  match rerunDocument with
  | none => some [currentReports]
  | some doc => do
      match ← scan doc.jobs (doc.numRuns - 1) none with
      | none => some [currentReports]
      | some job => (oldReports env doc.build job).map (· ++ [currentReports])

/-! ## `get_rerun_parameters` -/

/-- The loop: `valid_job`; `none` when it raises. -/
def scanValid (env : Env) (build : Text) (jobs : List Job) : ℕ → Option (Option Job)
  | 0 => some none
  | n + 1 => do
      let job ← jobs[n]?
      if job.installFailure then scanValid env build jobs n
      else if (env.getJs job.jobUrl).getD [] = [] then do
        let link ← archiveLink build job.jobUrl
        if (env.archive link).isNone then scanValid env build jobs n else some (some job)
      else some (some job)

/-- `"-d failed={}".format(job_url)`. -/
def failedParams (job : Job) : Text := "-d failed=".toList ++ shown job.jobUrl

/-- `get_rerun_parameters` with a document; its first branch is never taken. -/
def getRerunParameters (env : Env) (doc : RunDocument) : Option (Option Text) :=
  (scanValid env doc.build doc.jobs doc.numRuns).map (·.map failedParams)

/-! ## The run they go back to -/

/-- The latest of these runs that was installed. -/
def latestValid (jobs : List Job) : Option Job := jobs.reverse.find? fun job => !job.installFailure

theorem latestValid_append (jobs : List Job) (job : Job) :
    latestValid (jobs ++ [job]) = if job.installFailure then latestValid jobs else some job := by
  rw [latestValid, List.reverse_append, List.reverse_singleton, List.singleton_append, List.find?_cons]
  cases job.installFailure <;> rfl

theorem latestValid_eq_none_iff {jobs : List Job} :
    latestValid jobs = none ↔ ∀ job ∈ jobs, job.installFailure = true := by
  rw [latestValid, List.find?_eq_none]
  simp

theorem take_succ_eq {jobs : List Job} {n : ℕ} (h : n < jobs.length) :
    jobs.take (n + 1) = jobs.take n ++ [jobs[n]] := by
  rw [List.take_add_one, List.getElem?_eq_getElem h]
  rfl

/-- `merge_xmls` ends at the latest run that was installed, or at the first run, or where it started. -/
theorem scan_eq {jobs : List Job} {n : ℕ} (hn : n ≤ jobs.length) (job : Option Job) :
    scan jobs n job = some ((latestValid (jobs.take n)).or ((jobs.take n).head?.or job)) := by
  induction n generalizing job with
  | zero => rfl
  | succ n ih =>
      have hlt : n < jobs.length := hn
      rw [scan, List.getElem?_eq_getElem hlt, Option.bind_eq_bind, Option.bind_some, ih (Nat.le_of_lt hlt),
        take_succ_eq hlt, latestValid_append]
      cases hfail : jobs[n].installFailure with
      | false => rfl
      | true =>
          rw [if_pos rfl, if_pos rfl, List.head?_append]
          cases (jobs.take n).head? <;> rfl

/-- Jenkins or AWS has the artifacts of the run. -/
def Env.Available (env : Env) (build : Text) (job : Job) : Prop :=
  (env.getJs job.jobUrl).getD [] ≠ [] ∨ ∃ link, archiveLink build job.jobUrl = some link ∧ (env.archive link).isSome

/-- `get_rerun_parameters` ends at the latest run that was installed. -/
theorem scanValid_eq {env : Env} {build : Text} {jobs : List Job} {n : ℕ} (hn : n ≤ jobs.length)
    (h : ∀ job ∈ jobs.take n, env.Available build job) :
    scanValid env build jobs n = some (latestValid (jobs.take n)) := by
  induction n with
  | zero => rfl
  | succ n ih =>
      have hlt : n < jobs.length := hn
      rw [take_succ_eq hlt, List.forall_mem_append] at h
      have hlast := h.2 _ (List.mem_singleton_self _)
      rw [scanValid, List.getElem?_eq_getElem hlt, Option.bind_eq_bind, Option.bind_some, ih (Nat.le_of_lt hlt) h.1,
        take_succ_eq hlt, latestValid_append]
      cases hfail : jobs[n].installFailure with
      | true => rfl
      | false =>
          rcases hlast with hjenkins | ⟨link, hlink, haws⟩
          · simp [hjenkins]
          · obtain ⟨zip, hzip⟩ := Option.isSome_iff_exists.1 haws
            simp [hlink, hzip]

/-! ## Which runs are merged -/

/-- The earlier runs, without the current one. -/
def RunDocument.earlier (doc : RunDocument) : RunDocument :=
  { doc with numRuns := doc.numRuns - 1, jobs := doc.jobs.dropLast }

/-- `merge_xmls` returns, and the current reports are merged with those of the latest earlier run that was installed,
    if there is one. -/
def MergesLatest (env : Env) (doc : RunDocument) : Prop :=
  match latestValid doc.earlier.jobs with
  | some job => ∃ reports, oldReports env doc.build job = some reports ∧
      mergeXmls env (some doc) = some (reports ++ [currentReports])
  | none => mergeXmls env (some doc) = some [currentReports]

/-- What `get_rerun_parameters` finds among the earlier runs is the run that `merge_xmls` takes the reports of. -/
def FindsTheSame (env : Env) (doc : RunDocument) : Prop :=
  (∀ job ∈ doc.earlier.jobs, env.Available doc.build job) →
    ∀ params, getRerunParameters env doc.earlier = some (some params) →
      ∃ job, scan doc.jobs (doc.numRuns - 1) none = some (some job) ∧ params = failedParams job

/-- The URL has the form for asking AWS: a slash that is not at its end. -/
def HasParts (jobUrl : Option Text) : Prop := ∃ url, jobUrl = some url ∧ '/' ∈ rstrip (· = '/') url

/-- Reports of the run can be downloaded from Jenkins, or AWS can be asked for them. -/
def Env.Reachable (env : Env) (job : Job) : Prop :=
  (∃ paths, env.getJs job.jobUrl = some paths ∧ downloaded env job.jobUrl paths ≠ []) ∨ HasParts job.jobUrl

/-- Neither Jenkins nor AWS has reports of the run, and its URL has the form for asking AWS. -/
def Env.NoReports (env : Env) (build : Text) (job : Job) : Prop :=
  (∀ paths, env.getJs job.jobUrl = some paths → downloaded env job.jobUrl paths = []) ∧
    ∃ link, archiveLink build job.jobUrl = some link ∧
      ∀ zip, env.archive link = some zip → ∀ names, env.namelist zip = some names →
        ∀ name ∈ names, isReport "archive/logs/".toList name = false

/-- The link is made exactly where the URL has the two parts. -/
theorem archiveLink_isSome_iff {build : Text} {jobUrl : Option Text} :
    (archiveLink build jobUrl).isSome = true ↔ HasParts jobUrl := by
  rcases jobUrl with _ | url
  · simp [archiveLink, HasParts]
  · have hlength := SplitOn.length_splitOn '/' (rstrip (· = '/') url)
    have hmem : '/' ∈ rstrip (· = '/') url ↔ 2 ≤ ((rstrip (· = '/') url).splitOn '/').length := by
      rw [hlength, ← List.count_pos_iff]
      omega
    simp only [HasParts, Option.some.injEq, exists_eq_left', hmem, archiveLink, Option.bind_eq_bind, Option.bind_some]
    rw [← List.length_reverse]
    rcases ((rstrip (· = '/') url).splitOn '/').reverse with _ | ⟨number, _ | ⟨name, rest⟩⟩
    · simp
    · simp
    · simp

theorem isSome_getFromAws (env : Env) (build : Text) (jobUrl : Option Text) :
    (getFromAws env build jobUrl).isSome = (archiveLink build jobUrl).isSome := by
  rw [getFromAws]
  cases archiveLink build jobUrl <;> rfl

/-- The reports of a run are looked for without an exception exactly where it can be reached. -/
theorem oldReports_isSome_iff {env : Env} {build : Text} {job : Job} :
    (oldReports env build job).isSome = true ↔ env.Reachable job := by
  have hlink : (archiveLink build job.jobUrl).isSome = true ↔ HasParts job.jobUrl := archiveLink_isSome_iff
  rw [Env.Reachable, ← hlink, ← isSome_getFromAws env]
  unfold oldReports
  rcases env.getJs job.jobUrl with _ | paths
  · simp
  · by_cases hpaths : paths = []
    · subst hpaths
      simp [downloaded]
    · by_cases hdown : downloaded env job.jobUrl paths = []
      · simp [hpaths, hdown]
      · simp [hpaths, hdown]

theorem getFromAws_eq_nil_iff {env : Env} {build : Text} {jobUrl : Option Text} :
    (getFromAws env build jobUrl).map (·.getD []) = some [] ↔
      ∃ link, archiveLink build jobUrl = some link ∧
        ∀ zip, env.archive link = some zip → ∀ names, env.namelist zip = some names →
          ∀ name ∈ names, isReport "archive/logs/".toList name = false := by
  rw [getFromAws]
  rcases archiveLink build jobUrl with _ | link
  · simp
  rcases hzip : env.archive link with _ | zip
  · simp [hzip]
  rcases hnames : env.namelist zip with _ | names
  · simp [hzip, hnames]
  · simp [hzip, hnames, List.filter_eq_nil_iff]

theorem oldReports_eq_nil_iff {env : Env} {build : Text} {job : Job} :
    oldReports env build job = some [] ↔ env.NoReports build job := by
  rw [Env.NoReports, ← getFromAws_eq_nil_iff, oldReports]
  rcases env.getJs job.jobUrl with _ | paths
  · simp
  · by_cases hpaths : paths = []
    · subst hpaths
      simp [downloaded]
    · by_cases hdown : downloaded env job.jobUrl paths = []
      · simp [hpaths, hdown]
      · simp [hpaths, hdown]

theorem earlier_jobs_eq {doc : RunDocument} (hruns : doc.numRuns = doc.jobs.length) :
    doc.earlier.jobs = doc.jobs.take (doc.numRuns - 1) ∧ doc.earlier.numRuns = doc.earlier.jobs.length := by
  rw [RunDocument.earlier, hruns, List.length_dropLast]
  exact ⟨List.dropLast_eq_take, rfl⟩

/-- Where `merge_xmls` ends: at the run it should take, or, when there is none, at the first. -/
theorem scan_earlier {doc : RunDocument} (hruns : doc.numRuns = doc.jobs.length) :
    scan doc.jobs (doc.numRuns - 1) none = some ((latestValid doc.earlier.jobs).or doc.earlier.jobs.head?) := by
  rw [scan_eq (by omega), ← (earlier_jobs_eq hruns).1, Option.or_none]

theorem mergesLatest_iff {env : Env} {doc : RunDocument} (hruns : doc.numRuns = doc.jobs.length) :
    MergesLatest env doc ↔
      (∃ job, latestValid doc.earlier.jobs = some job ∧ env.Reachable job) ∨ doc.earlier.jobs = [] ∨
        latestValid doc.earlier.jobs = none ∧ ∃ first ∈ doc.earlier.jobs.head?, env.NoReports doc.build first := by
  rw [MergesLatest, mergeXmls, scan_earlier hruns]
  rcases hvalid : latestValid doc.earlier.jobs with _ | job
  · rcases hjobs : doc.earlier.jobs with _ | ⟨first, rest⟩
    · simp
    · simp only [← oldReports_eq_nil_iff]
      rcases oldReports env doc.build first with _ | logs
      · simp
      · simp
  · have hne : doc.earlier.jobs ≠ [] := by
      intro hnil
      rw [hnil] at hvalid
      cases hvalid
    have hreachable : (oldReports env doc.build job).isSome = true ↔ env.Reachable job := oldReports_isSome_iff
    rcases hreports : oldReports env doc.build job with _ | logs
    · rw [hreports] at hreachable
      simp [hne, hreports, ← hreachable]
    · rw [hreports] at hreachable
      simp [hreports, ← hreachable]

theorem findsTheSame {env : Env} {doc : RunDocument} (hruns : doc.numRuns = doc.jobs.length) :
    FindsTheSame env doc := by
  intro havailable params hparams
  have hcount := (earlier_jobs_eq hruns).2
  have hall : doc.earlier.jobs.take doc.earlier.numRuns = doc.earlier.jobs := by rw [hcount, List.take_length]
  have hscan : scanValid env doc.build doc.earlier.jobs doc.earlier.numRuns = some (latestValid doc.earlier.jobs) := by
    rw [scanValid_eq hcount.le (by rw [hall]; exact havailable), hall]
  rw [getRerunParameters] at hparams
  obtain ⟨found, hfound, hmap⟩ := Option.map_eq_some_iff.1 hparams
  obtain ⟨job, rfl, rfl⟩ := Option.map_eq_some_iff.1 hmap
  have hlatest : latestValid doc.earlier.jobs = some job := Option.some.inj (hscan.symm.trans hfound)
  refine ⟨job, ?_, rfl⟩
  rw [scan_earlier hruns, hlatest]
  rfl

/-- Jenkins lists one report for every run. -/
def listedEnv : Env := ⟨fun _ => some ["logs/t/report.xml".toList], fun _ => some [60], fun _ => none⟩

/-- A run at this URL. -/
def runAt (url : String) (installFailure : Bool) : Job := ⟨some url.toList, none, none, installFailure⟩

end TestInfra.Rerun
