import TestInfra.Lib.Like
import TestInfra.Lib.Raises
import TestInfra.Rerun.FindRerunJob
import TestInfra.ServerManager.GetServers

set_option autoImplicit false

/-! # Whether a job is dispatched again

`should_dispatch_job` of `scripts/find_rerun_job.py` is asked before a test is launched. It looks for servers that are
booked for the job, for the results of its runs in the `greenboard` document of the build and, when none have been
collected, for the result of the last run that was recorded.

`shouldDispatchJob_eq_false_iff` says when the answer is no. Whatever raises makes it yes. -/

namespace TestInfra.Rerun

open PyText Like

/-! ## The records -/

/-- A run in the `greenboard` document; `none` is a key that is missing. -/
structure GreenJob where
  result : Option Text
  url : Option Text
  buildId : Option Text

/-- `jobs_doc`: the runs by OS, component and name; `none` when there is no key `os`. -/
structure JobsDoc where
  os : Option (Dict Text (Dict Text (Dict Text (List GreenJob))))

/-- What the clusters and Jenkins have at the time of the call; `none` where asking for it raises. -/
structure Records where
  /-- The documents of `QE-server-pool`. -/
  pool : Option ServerManager.Pool
  /-- `rerun_jobs.get(doc_id, quiet=True)`. -/
  rerunJobs : Text → Option (Option RunDocument)
  /-- `greenboard.get(job_doc_id, quiet=True)`. -/
  greenboard : Text → Option (Option JobsDoc)
  /-- `get_js(url, "tree=result")["result"]`, which is `None` for a job that runs; `none` when there is no such
      answer. -/
  getJs : Text → Option (Option Text)
  /-- `str.upper`. -/
  upper : Text → Text

/-- The job that is asked about. -/
structure Asked where
  os : Text
  component : Text
  subComponent : Text
  version : Text
  parameters : Option Text

structure Conditions where
  onlyPendingJobs : Bool
  onlyFailedJobs : Bool
  onlyUnstableJobs : Bool
  onlyInstallFailed : Bool

/-- The variables of the call. -/
structure Flags where
  pending : Bool
  failed : Bool
  unstable : Bool
  successful : Bool
  installFailed : Bool

def successResult : Text := "SUCCESS".toList

def failureResult : Text := "FAILURE".toList

def unstableResult : Text := "UNSTABLE".toList

def abortedResult : Text := "ABORTED".toList

def instFailResult : Text := "INST_FAIL".toList

/-- The tests on `job_result`. -/
def Flags.note (f : Flags) (result : Text) : Flags :=
  if result = failureResult then { f with failed := true }
  else if result = unstableResult then { f with unstable := true }
  else if result = abortedResult then { f with unstable := true }
  else if result = successResult then { f with successful := true }
  else if result = instFailResult then { f with installFailed := true }
  else f

/-! ## The function -/

/-- `doc_id`. -/
def Asked.docId (a : Asked) (types : Text × Text) : Text :=
  fullName (some a.os) (some a.component) (some a.subComponent) types ++ '_' :: a.version

/-- `user_name`, the pattern for the descriptors of the job. -/
def Asked.userName (a : Asked) : Text := a.component ++ '-' :: a.subComponent ++ '%' :: a.version

/-- `username like '..' and state = 'booked' and os = '..'`. -/
def Asked.booked (a : Asked) (d : ServerManager.Server) : Bool :=
  (d.username.any fun username => like a.userName username.toList) && d.state = some "booked" &&
    d.os.any fun os => os.toList = a.os

/-- The query has rows. -/
def Asked.running (a : Asked) (pool : ServerManager.Pool) : Bool := pool.items.any fun d => a.booked d.2

/-- `jobs_name`. -/
def Asked.jobsName (a : Asked) (upper : Text → Text) (types : Text × Text) : Text :=
  let bucketType := if types.1 = [] then "COUCHSTORE".toList else types.1
  let gsiType := if types.2 = [] then "UNDEFINED".toList else types.2
  a.os ++ '-' :: a.component ++ '_' :: a.subComponent ++ "bucket_storage=".toList ++ upper bucketType ++
    "GSI_type=".toList ++ upper gsiType

/-- The key of the OS in the document. -/
def Asked.greenOs (a : Asked) (upper : Text → Text) : Text :=
  upper (if "windows".toList <:+: a.os then "win".toList else a.os)

/-- The runs under the name, of the first component that has it; `none` when none has. -/
def JobsDoc.jobs (doc : JobsDoc) (os name : Text) : Option (List GreenJob) := do
  let components ← (← doc.os).get? os
  components.items.findSome? fun component => component.2.get? name

/-- The result of a run; `last_job_url` is put together with it. -/
def GreenJob.read (job : GreenJob) : Option Text := do
  let result ← job.result
  let _ ← job.url
  let _ ← job.buildId
  return result

/-- `for job in jobs`, or `pending` when the job is not found. -/
def collectedFlags : Option (List GreenJob) → Option Flags
  | none => some ⟨true, false, false, false, false⟩
  | some jobs =>
      jobs.foldlM (fun f job => job.read.bind fun result => some (f.note result)) ⟨false, false, false, false, false⟩

/-- `pending and run_document.success`: the job may have run without having been collected. -/
def lastRunFlags (records : Records) (runDocument : Option RunDocument) (f : Flags) : Option Flags :=
  match f.pending, runDocument with
  | true, some doc => do
      let lastJob ← doc.jobs.getLast?
      let url ← lastJob.jobUrl
      match records.getJs (rstrip (· = '/') url) with
      | none => some f
      | some none => some { f with pending := false }
      | some (some result) => some ({ f with pending := false }.note result)
  | _, _ => some f

/-- The tests at the end. -/
def Flags.decide (f : Flags) (c : Conditions) : Bool :=
  if f.successful then false
  else if c.onlyInstallFailed then (!f.successful && !f.unstable) && f.installFailed && !f.pending
  else if c.onlyFailedJobs then (!f.successful && !f.unstable) && f.failed && !f.pending
  else if c.onlyUnstableJobs then !f.successful && f.unstable && !f.pending
  else if c.onlyPendingJobs then f.pending
  else true

/-- The `try` block; `none` when it raises. -/
def dispatches (records : Records) (a : Asked) (c : Conditions) : Option Bool := do
  let types ← getBucketGsiTypes a.parameters
  let pool ← records.pool
  if a.running pool then some false
  else do
    let runDocument ← records.rerunJobs (a.docId types)
    let jobsDoc ← records.greenboard (a.version ++ "_server".toList)
    if jobsDoc.isNone && runDocument.isNone then some true
    else do
      -- without the document there is nothing to look for `os` in
      let jobsDoc ← jobsDoc
      let f ← collectedFlags (jobsDoc.jobs (a.greenOs records.upper) (a.jobsName records.upper types))
      let f ← lastRunFlags records runDocument f
      some (f.decide c)

/-- `should_dispatch_job`. -/
def shouldDispatchJob (records : Records) (a : Asked) (c : Conditions) : Bool := (dispatches records a c).getD true

/-! ## What is known of a job -/

/-- The results known of the runs of a job, with what is listed for it in the document of the build; `none` when it is
    pending. -/
inductive Known (records : Records) (listed : Option (List GreenJob)) (runDocument : Option RunDocument) :
    Option (List Text) → Prop where
  | collected (jobs : List GreenJob) (hlisted : listed = some jobs) (results : List Text)
      (hresults : jobs.mapM GreenJob.read = some results) : Known records listed runDocument (some results)
  /-- Only the last run is asked for, and it has no result yet if it runs. -/
  | lastRun (hlisted : listed = none) (doc : RunDocument) (hdoc : runDocument = some doc) (job : Job)
      (hjob : doc.jobs.getLast? = some job) (url : Text) (hurl : job.jobUrl = some url) (result : Option Text)
      (hresult : records.getJs (rstrip (· = '/') url) = some result) :
      Known records listed runDocument (some result.toList)
  | noAnswer (hlisted : listed = none) (doc : RunDocument) (hdoc : runDocument = some doc) (job : Job)
      (hjob : doc.jobs.getLast? = some job) (url : Text) (hurl : job.jobUrl = some url)
      (hresult : records.getJs (rstrip (· = '/') url) = none) : Known records listed runDocument none
  | never (hlisted : listed = none) (hdoc : runDocument = none) : Known records listed runDocument none

/-- A run was unstable or aborted. -/
def Shaky (results : List Text) : Prop := unstableResult ∈ results ∨ abortedResult ∈ results

/-- What the conditions ask of the results that are known. -/
def Wanted (c : Conditions) : Option (List Text) → Prop
  | none => c.onlyInstallFailed = false ∧ c.onlyFailedJobs = false ∧ c.onlyUnstableJobs = false
  | some results =>
      successResult ∉ results ∧
        if c.onlyInstallFailed then instFailResult ∈ results ∧ ¬ Shaky results
        else if c.onlyFailedJobs then failureResult ∈ results ∧ ¬ Shaky results
        else if c.onlyUnstableJobs then Shaky results
        else c.onlyPendingJobs = false

/-- The flags for the results. -/
def flagsOf (pending : Bool) (results : List Text) : Flags :=
  ⟨pending, failureResult ∈ results, unstableResult ∈ results || abortedResult ∈ results, successResult ∈ results,
    instFailResult ∈ results⟩

theorem results_nodup : [failureResult, unstableResult, abortedResult, successResult, instFailResult].Nodup := by
  decide

theorem note_flagsOf (pending : Bool) (results : List Text) (result : Text) :
    (flagsOf pending results).note result = flagsOf pending (results ++ [result]) := by
  have hnodup := results_nodup
  simp only [List.nodup_cons, List.mem_cons, List.not_mem_nil, not_or, or_false] at hnodup
  obtain ⟨⟨hfu, hfa, hfs, hfi⟩, ⟨hua, hus, hui⟩, ⟨has, hai⟩, hsi, -⟩ := hnodup
  simp only [Flags.note, flagsOf, List.mem_append, List.mem_singleton]
  split
  · next h =>
      subst h
      simp [Ne.symm hfu, Ne.symm hfa, Ne.symm hfs, Ne.symm hfi]
  split
  · next h =>
      subst h
      simp [hfu, Ne.symm hua, Ne.symm hus, Ne.symm hui]
  split
  · next h =>
      subst h
      simp [hfa, hua, Ne.symm has, Ne.symm hai]
  split
  · next h =>
      subst h
      simp [hfs, hus, has, Ne.symm hsi]
  split
  · next h =>
      subst h
      simp [hfi, hui, hai, hsi]
  · next hf hu ha hs hi => simp [Ne.symm hf, Ne.symm hu, Ne.symm ha, Ne.symm hs, Ne.symm hi]

theorem foldl_note (pending : Bool) (results : List Text) :
    results.foldl Flags.note ⟨pending, false, false, false, false⟩ = flagsOf pending results := by
  induction results using List.reverseRecOn with
  | nil => simp [flagsOf]
  | append_singleton results result ih => rw [List.foldl_concat, ih, note_flagsOf]

/-- The tests at the end when a result is known. -/
theorem decide_of_not_pending (c : Conditions) {f : Flags} (hpending : f.pending = false) :
    f.decide c = true ↔ f.successful = false ∧
      if c.onlyInstallFailed then f.installFailed = true ∧ f.unstable = false
      else if c.onlyFailedJobs then f.failed = true ∧ f.unstable = false
      else if c.onlyUnstableJobs then f.unstable = true
      else c.onlyPendingJobs = false := by
  rcases f with ⟨pending, failed, unstable, successful, installFailed⟩
  obtain rfl : pending = false := hpending
  rw [Flags.decide]
  rcases successful with _ | _
  · simp only [Bool.false_eq_true, if_false, true_and, Bool.not_false, Bool.and_true, Bool.true_and]
    split
    · simp [and_comm]
    · split
      · simp [and_comm]
      · split
        · rfl
        · split
          · next h => simp [h]
          · next h => simp [h]
  · simp

theorem decide_of_pending (c : Conditions) {f : Flags} (hpending : f.pending = true) (hnone : f.successful = false) :
    f.decide c = true ↔
      c.onlyInstallFailed = false ∧ c.onlyFailedJobs = false ∧ c.onlyUnstableJobs = false := by
  rw [Flags.decide, hpending, hnone]
  rcases c with ⟨pending, failed, unstable, installFailed⟩
  rcases installFailed with _ | _
  · rcases failed with _ | _
    · rcases unstable with _ | _
      · rcases pending with _ | _
        · simp
        · simp
      · simp
    · simp
  · simp

theorem decide_flagsOf (c : Conditions) (known : Option (List Text)) :
    (flagsOf known.isNone (known.getD [])).decide c = true ↔ Wanted c known := by
  rcases known with _ | results
  · exact decide_of_pending c rfl (by simp [flagsOf])
  · rw [decide_of_not_pending c rfl, Wanted]
    simp only [flagsOf, Shaky, Option.getD_some, decide_eq_false_iff_not, decide_eq_true_eq, Bool.or_eq_true,
      Bool.or_eq_false_iff, not_or]

/-! ## When the answer is no -/

/-- What is listed for the job in the document of the build. -/
def Asked.listed (a : Asked) (records : Records) (doc : JobsDoc) (types : Text × Text) : Option (List GreenJob) :=
  doc.jobs (a.greenOs records.upper) (a.jobsName records.upper types)

/-- What the documents say of the job, when they can be read: the servers booked for it, and the documents. -/
structure Asked.Reads (a : Asked) (records : Records) (types : Text × Text) (runDocument : Option RunDocument)
    (jobsDoc : JobsDoc) : Prop where
  parameters : getBucketGsiTypes a.parameters = some types
  notRunning : ∃ pool, records.pool = some pool ∧ a.running pool = false
  runDocument : records.rerunJobs (a.docId types) = some runDocument
  jobsDoc : records.greenboard (a.version ++ "_server".toList) = some (some jobsDoc)

theorem mapM_of_foldlM {jobs : List GreenJob} {f g : Flags}
    (h : jobs.foldlM (fun f job => job.read.bind fun result => some (f.note result)) f = some g) :
    ∃ results, jobs.mapM GreenJob.read = some results ∧ g = results.foldl Flags.note f := by
  induction jobs generalizing f with
  | nil => exact ⟨[], rfl, (Option.some.inj h).symm⟩
  | cons job jobs ih =>
      rw [List.foldlM_cons] at h
      obtain ⟨f', hf', hrest⟩ := Option.bind_eq_some_iff.1 h
      obtain ⟨result, hresult, hnote⟩ := Option.bind_eq_some_iff.1 hf'
      obtain ⟨results, hresults, hg⟩ := ih hrest
      refine ⟨result :: results, ?_, ?_⟩
      · rw [List.mapM_cons, hresult, hresults]
        rfl
      · rw [hg, List.foldl_cons, Option.some.inj hnote]

/-- The flags of a call that does not raise are those of the results known. -/
theorem flags_known {records : Records} {listed : Option (List GreenJob)} {runDocument : Option RunDocument} {f : Flags}
    (h : (collectedFlags listed).bind (lastRunFlags records runDocument) = some f) :
    ∃ known, Known records listed runDocument known ∧ f = flagsOf known.isNone (known.getD []) := by
  obtain ⟨g, hg, hf⟩ := Option.bind_eq_some_iff.1 h
  rcases listed with _ | jobs
  · obtain rfl : (⟨true, false, false, false, false⟩ : Flags) = g := Option.some.inj hg
    rcases runDocument with _ | doc
    · refine ⟨none, .never rfl rfl, ?_⟩
      rw [← Option.some.inj hf]
      simp [flagsOf]
    · obtain ⟨job, hjob, hf⟩ := Option.bind_eq_some_iff.1 hf
      obtain ⟨url, hurl, hf⟩ := Option.bind_eq_some_iff.1 hf
      rcases hresult : records.getJs (rstrip (· = '/') url) with _ | _ | result
      · refine ⟨none, .noAnswer rfl doc rfl job hjob url hurl hresult, ?_⟩
        simp only [hresult] at hf
        rw [← Option.some.inj hf]
        simp [flagsOf]
      · refine ⟨some [], .lastRun rfl doc rfl job hjob url hurl none hresult, ?_⟩
        simp only [hresult] at hf
        rw [← Option.some.inj hf]
        simp [flagsOf]
      · refine ⟨some [result], .lastRun rfl doc rfl job hjob url hurl (some result) hresult, ?_⟩
        simp only [hresult] at hf
        rw [← Option.some.inj hf]
        exact foldl_note false [result]
  · obtain ⟨results, hresults, rfl⟩ := mapM_of_foldlM hg
    refine ⟨some results, .collected jobs rfl results hresults, ?_⟩
    rw [foldl_note] at hf
    exact (Option.some.inj hf).symm

theorem foldlM_of_mapM {jobs : List GreenJob} {results : List Text} (h : jobs.mapM GreenJob.read = some results)
    (f : Flags) : jobs.foldlM (fun f job => job.read.bind fun result => some (f.note result)) f
      = some (results.foldl Flags.note f) := by
  have hread : jobs.foldlM (fun f job => job.read.bind fun result => some (f.note result)) f
      = results.foldlM (fun f result => some (Flags.note f result)) f :=
    Raises.foldlM_of_mapM (f := fun f result => some (Flags.note f result)) h f
  rw [hread]
  exact List.foldlM_pure

/-- What is known gives the flags. -/
theorem flags_of_known {records : Records} {listed : Option (List GreenJob)} {runDocument : Option RunDocument}
    {known : Option (List Text)} (h : Known records listed runDocument known) :
    (collectedFlags listed).bind (lastRunFlags records runDocument) = some (flagsOf known.isNone (known.getD [])) := by
  rcases h with ⟨jobs, rfl, results, hresults⟩ | ⟨rfl, doc, rfl, job, hjob, url, hurl, result, hresult⟩ |
    ⟨rfl, doc, rfl, job, hjob, url, hurl, hresult⟩ | ⟨rfl, rfl⟩
  · rw [collectedFlags, foldlM_of_mapM hresults, Option.bind_some, foldl_note]
    rfl
  · rcases result with _ | result
    · simp [collectedFlags, lastRunFlags, hjob, hurl, hresult, flagsOf]
    · simp only [collectedFlags, lastRunFlags, hjob, hurl, Option.bind_eq_bind, Option.bind_some, hresult]
      exact congrArg some (foldl_note false [result])
  · simp [collectedFlags, lastRunFlags, hjob, hurl, hresult, flagsOf]
  · simp [collectedFlags, lastRunFlags, flagsOf]

theorem shouldDispatchJob_eq_false {records : Records} {a : Asked} {c : Conditions} :
    shouldDispatchJob records a c = false ↔ dispatches records a c = some false := by
  rw [shouldDispatchJob]
  rcases dispatches records a c with _ | _ | _
  · simp
  · simp
  · simp

/-- A job that runs is not dispatched, whatever else is known of it. -/
theorem shouldDispatchJob_of_running {records : Records} {a : Asked} {types : Text × Text} {pool : ServerManager.Pool}
    (htypes : getBucketGsiTypes a.parameters = some types) (hpool : records.pool = some pool)
    (hrunning : a.running pool = true) (c : Conditions) : shouldDispatchJob records a c = false := by
  rw [shouldDispatchJob_eq_false]
  simp [dispatches, htypes, hpool, hrunning]

/-- **When a job is not dispatched**: servers are booked for it, or everything that is asked can be read and the results
    known are not what the conditions want. In all other cases it is dispatched, also when something raises, and when
    neither a run nor the build has a document. -/
theorem shouldDispatchJob_eq_false_iff (records : Records) (a : Asked) (c : Conditions) :
    shouldDispatchJob records a c = false ↔
      (∃ types pool, getBucketGsiTypes a.parameters = some types ∧ records.pool = some pool ∧ a.running pool = true) ∨
      ∃ types runDocument jobsDoc, a.Reads records types runDocument jobsDoc ∧
        ∃ known, Known records (a.listed records jobsDoc types) runDocument known ∧ ¬ Wanted c known := by
  constructor
  · intro h
    rw [shouldDispatchJob_eq_false] at h
    obtain ⟨types, htypes, h⟩ := Option.bind_eq_some_iff.1 h
    obtain ⟨pool, hpool, h⟩ := Option.bind_eq_some_iff.1 h
    rcases hrunning : a.running pool with _ | _
    · right
      rw [hrunning, if_neg Bool.false_ne_true] at h
      obtain ⟨runDocument, hrun, h⟩ := Option.bind_eq_some_iff.1 h
      obtain ⟨jobsDoc, hdoc, h⟩ := Option.bind_eq_some_iff.1 h
      split at h
      · simp at h
      obtain ⟨doc, rfl, hdecided⟩ := Option.bind_eq_some_iff.1 h
      obtain ⟨f, hf, hdecided⟩ := Option.bind_eq_some_iff.1 hdecided
      obtain ⟨g, hg, hdecided⟩ := Option.bind_eq_some_iff.1 hdecided
      obtain ⟨known, hknown, rfl⟩ := flags_known (Option.bind_eq_some_iff.2 ⟨f, hf, hg⟩)
      refine ⟨types, runDocument, doc, ⟨htypes, ⟨pool, hpool, hrunning⟩, hrun, hdoc⟩, known, hknown, fun hwanted => ?_⟩
      rw [(decide_flagsOf c known).2 hwanted] at hdecided
      simp at hdecided
    · exact .inl ⟨types, pool, htypes, hpool, hrunning⟩
  · rintro (⟨types, pool, htypes, hpool, hrunning⟩ | ⟨types, runDocument, doc, hreads, known, hknown, hwanted⟩)
    · exact shouldDispatchJob_of_running htypes hpool hrunning c
    · rw [shouldDispatchJob_eq_false]
      obtain ⟨pool, hpool, hrunning⟩ := hreads.notRunning
      obtain ⟨f, hf, hg⟩ := Option.bind_eq_some_iff.1 (flags_of_known hknown)
      have hdecide : (flagsOf known.isNone (known.getD [])).decide c = false := by
        rw [← Bool.not_eq_true, decide_flagsOf]
        exact hwanted
      have hf' : collectedFlags (doc.jobs (a.greenOs records.upper) (a.jobsName records.upper types)) = some f := hf
      simp only [dispatches, hreads.parameters, hpool, hrunning, hreads.runDocument, hreads.jobsDoc, hf', hg, hdecide,
        Option.bind_eq_bind, Option.bind_some, Option.isNone_some, Bool.false_and, Bool.false_eq_true, if_false]

end TestInfra.Rerun
