import TestInfra.Lib.Dict
import TestInfra.Lib.PyInt
import Mathlib.Data.List.Sort

set_option autoImplicit false

/-! # The runs of a job, last run first

`check_if_job_already_parsed` and `record_details` (`regression_automation/jenkins_log_parser.py`) keep a document for
each version and job in the run analyzer. Its list of runs is read back for each run: a run that is in it is skipped,
any other one is put before the first run with a smaller id.

What happens to the ids is an insertion into an ordered list, `record_ids`. -/

namespace TestInfra.RunAnalyzer

open PyText

variable {ρ : Type}

/-! ## The documents -/

/-- What is stored as `job_id`. -/
inductive JobId where
  | int (i : ℤ)
  | text (t : Text)
  | other

/-- `int(run_details["job_id"])`; `none` when it raises. -/
def JobId.toInt : JobId → Option ℤ
  | .int i => some i
  | .text t => readInt t
  | .other => none

/-- An entry of `doc["runs"]`. Its `rest` are the servers, the branch, the label of the slave, the note and the
    tests. -/
structure Run (ρ : Type) where
  cbVersion : Text
  jobId : JobId
  rest : ρ

structure Doc (ρ : Type) where
  cbVersion : Text
  component : Text
  subcomponent : Text
  runs : List (Run ρ)

/-- `job_details`, with the version and the name of the job. -/
structure Job (ρ : Type) where
  version : Text
  jName : Text
  component : Text
  subcomponent : Text
  cbVersion : Text
  jobId : ℤ
  rest : ρ

namespace Job

def docKey (job : Job ρ) : Text := job.version ++ '_' :: job.jName

/-- `j_details` without `component` and `subcomponent`. -/
def details (job : Job ρ) : Run ρ := ⟨job.cbVersion, .int job.jobId, job.rest⟩

end Job

/-- The documents of the collection. -/
abbrev Collection (ρ : Type) := Dict Text (Doc ρ)

/-! ## The functions -/

/-- The loop of `check_if_job_already_parsed`; `none` when it raises. -/
def isParsed (jobId : ℤ) : List (Run ρ) → Option Bool
  | [] => some false
  | run :: runs => do
      let id ← run.jobId.toInt
      if id = jobId then some true else isParsed jobId runs

/-- `check_if_job_already_parsed`. -/
def checkIfJobAlreadyParsed (job : Job ρ) (docs : Collection ρ) : Option (Bool × Collection ρ) :=
  match docs.get? job.docKey with
  | some doc => (isParsed job.jobId doc.runs).map fun parsed => (parsed, docs)
  | none => some (false, docs.set job.docKey ⟨job.cbVersion, job.component, job.subcomponent, []⟩)

/-- The loop of `record_details`: `doc["runs"]` after it, and `index_with_least_job_id`. The ids behind the break are
    left as they are. -/
def leastJobId (jobId : ℤ) : List (Run ρ) → Option (List (Run ρ) × Option ℕ)
  | [] => some ([], none)
  | run :: runs => do
      let id ← run.jobId.toInt
      let run := { run with jobId := .int id }
      if jobId > id then some (run :: runs, some 0)
      else
        let (runs, index) ← leastJobId jobId runs
        some (run :: runs, index.map (· + 1))

/-- `doc["runs"].insert(index, ..)`, or the append when there is no index. -/
def insertRun (details : Run ρ) (runs : List (Run ρ)) : Option ℕ → List (Run ρ)
  | some index => runs.insertIdx index details
  | none => runs ++ [details]

/-- `record_details`; `none` when it raises. -/
def recordDetails (job : Job ρ) (docs : Collection ρ) : Option (Collection ρ) := do
  let doc ← docs.get? job.docKey
  let (runs, index) ← leastJobId job.jobId doc.runs
  some (docs.set job.docKey { doc with runs := insertRun job.details runs index })

/-- One run of the main loop. -/
def process (docs : Collection ρ) (job : Job ρ) : Option (Collection ρ) :=
  match checkIfJobAlreadyParsed job docs with
  | none => none
  | some (true, docs) => some docs
  | some (false, docs) => recordDetails job docs

/-! ## The ids -/

def ids (runs : List (Run ρ)) : List ℤ := runs.filterMap fun run => run.jobId.toInt

theorem ids_cons {run : Run ρ} {id : ℤ} (h : run.jobId.toInt = some id) (runs : List (Run ρ)) :
    ids (run :: runs) = id :: ids runs := List.filterMap_cons_some h

/-- The runs have ids, and those of later runs are smaller. -/
structure Descending (runs : List (Run ρ)) : Prop where
  readable : ∀ run ∈ runs, run.jobId.toInt.isSome
  pairwise : (ids runs).Pairwise (· > ·)

theorem isParsed_eq {runs : List (Run ρ)} (h : ∀ run ∈ runs, run.jobId.toInt.isSome) (jobId : ℤ) :
    isParsed jobId runs = some (decide (jobId ∈ ids runs)) := by
  induction runs with
  | nil => rfl
  | cons run runs ih =>
      rw [List.forall_mem_cons] at h
      obtain ⟨id, hid⟩ := Option.isSome_iff_exists.1 h.1
      rw [isParsed, hid, ids_cons hid, Option.bind_eq_bind, Option.bind_some]
      by_cases heq : id = jobId
      · rw [if_pos heq, heq, decide_eq_true List.mem_cons_self]
      · simp only [if_neg heq, ih h.2, List.mem_cons, Ne.symm heq, false_or]

/-- The ids of the list that `record_details` stores: the new one is put into the order. -/
theorem leastJobId_ids {runs : List (Run ρ)} (h : ∀ run ∈ runs, run.jobId.toInt.isSome) {details : Run ρ} {jobId : ℤ}
    (hjob : details.jobId = .int jobId) : ∃ marked index, leastJobId jobId runs = some (marked, index) ∧
      (∀ run ∈ insertRun details marked index, run.jobId.toInt.isSome) ∧
      ids (insertRun details marked index) = (ids runs).orderedInsert (· > ·) jobId := by
  have hdetails : details.jobId.toInt = some jobId := by rw [hjob]; rfl
  have hsome : details.jobId.toInt.isSome := by rw [hdetails]; rfl
  induction runs with
  | nil =>
      refine ⟨[], none, rfl, ?_, ?_⟩
      · rw [insertRun, List.nil_append, List.forall_mem_singleton]
        exact hsome
      · rw [insertRun, List.nil_append, ids_cons hdetails]
        rfl
  | cons run runs ih =>
      rw [List.forall_mem_cons] at h
      obtain ⟨id, hid⟩ := Option.isSome_iff_exists.1 h.1
      rw [leastJobId, hid, ids_cons hid, Option.bind_eq_bind, Option.bind_some, List.orderedInsert_cons]
      by_cases hless : jobId > id
      · rw [if_pos hless, if_pos hless]
        refine ⟨_, _, rfl, ?_, ?_⟩
        · rw [insertRun, List.insertIdx_zero, List.forall_mem_cons, List.forall_mem_cons]
          exact ⟨hsome, rfl, h.2⟩
        · rw [insertRun, List.insertIdx_zero, ids_cons hdetails, ids_cons rfl]
      · rw [if_neg hless, if_neg hless]
        obtain ⟨marked, index, hleast, hreadable, hids⟩ := ih h.2
        refine ⟨{ run with jobId := .int id } :: marked, index.map (· + 1), by rw [hleast]; rfl, ?_, ?_⟩
        all_goals
          have hinsert : insertRun details ({ run with jobId := .int id } :: marked) (index.map (· + 1))
              = { run with jobId := .int id } :: insertRun details marked index := by
            rcases index with _ | index
            · rfl
            · exact List.insertIdx_succ_cons
          rw [hinsert]
        · rw [List.forall_mem_cons]
          exact ⟨rfl, hreadable⟩
        · rw [ids_cons rfl, hids]

/-- A new id keeps the order. -/
theorem pairwise_orderedInsert {l : List ℤ} (h : l.Pairwise (· > ·)) {i : ℤ} (hi : i ∉ l) :
    (l.orderedInsert (· > ·) i).Pairwise (· > ·) := by
  induction l with
  | nil => exact List.pairwise_singleton ..
  | cons j l ih =>
      rw [List.mem_cons, not_or] at hi
      obtain ⟨hj, hl⟩ := List.pairwise_cons.1 h
      rw [List.orderedInsert_cons]
      by_cases hless : i > j
      · rw [if_pos hless, List.pairwise_cons]
        refine ⟨?_, h⟩
        rw [List.forall_mem_cons]
        exact ⟨hless, fun k hk => lt_trans (hj k hk) hless⟩
      · rw [if_neg hless, List.pairwise_cons]
        refine ⟨fun k hk => ?_, ih hl hi.2⟩
        rcases (List.mem_orderedInsert _).1 hk with rfl | hk
        · exact lt_of_le_of_ne (not_lt.1 hless) hi.1
        · exact hj k hk

/-! ## The documents of the collection -/

/-- All lists of runs are descending. -/
def Ordered (docs : Collection ρ) : Prop := ∀ key doc, docs.get? key = some doc → Descending doc.runs

/-- The ids stored under a key. -/
def idsOf (docs : Collection ρ) (key : Text) : List ℤ := ((docs.get? key).map fun doc => ids doc.runs).getD []

variable {docs : Collection ρ} {job : Job ρ}

theorem idsOf_of_get? {key : Text} {doc : Doc ρ} (h : docs.get? key = some doc) : idsOf docs key = ids doc.runs := by
  rw [idsOf, h, Option.map_some, Option.getD_some]

theorem Ordered.pairwise (h : Ordered docs) (key : Text) : (idsOf docs key).Pairwise (· > ·) := by
  rw [idsOf]
  rcases hdoc : docs.get? key with _ | doc
  · exact List.Pairwise.nil
  · exact (h key doc hdoc).pairwise

theorem Ordered.set (h : Ordered docs) (key : Text) {doc : Doc ρ} (hdoc : Descending doc.runs) :
    Ordered (docs.set key doc) := by
  intro key' doc' hget
  rw [Dict.get?_set] at hget
  split at hget
  · rw [← Option.some_inj.1 hget]
    exact hdoc
  · exact h key' doc' hget

theorem idsOf_set (docs : Collection ρ) (key : Text) (doc : Doc ρ) (key' : Text) :
    idsOf (docs.set key doc) key' = if key' = key then ids doc.runs else idsOf docs key' := by
  rw [idsOf, Dict.get?_set]
  by_cases hkey : key' = key
  · rw [if_pos hkey, if_pos hkey, Option.map_some, Option.getD_some]
  · rw [if_neg hkey, if_neg hkey, idsOf]

/-- The check changes no ids, and leaves a document. -/
theorem checkIfJobAlreadyParsed_eq (h : Ordered docs) (job : Job ρ) : ∃ checked,
    checkIfJobAlreadyParsed job docs = some (decide (job.jobId ∈ idsOf docs job.docKey), checked) ∧
      Ordered checked ∧ (∀ key, idsOf checked key = idsOf docs key) ∧ (checked.get? job.docKey).isSome := by
  rw [checkIfJobAlreadyParsed]
  rcases hdoc : docs.get? job.docKey with _ | doc
  · have hempty : idsOf docs job.docKey = [] := by rw [idsOf, hdoc]; rfl
    refine ⟨_, by rw [hempty]; rfl, h.set _ ⟨fun run hrun => absurd hrun List.not_mem_nil, List.Pairwise.nil⟩, ?_, ?_⟩
    · intro key
      rw [idsOf_set]
      by_cases hkey : key = job.docKey
      · rw [if_pos hkey, hkey, hempty]
        rfl
      · rw [if_neg hkey]
    · rw [Dict.get?_set, if_pos rfl]
      rfl
  · refine ⟨docs, ?_, h, fun _ => rfl, by rw [hdoc]; rfl⟩
    simp only [isParsed_eq (h _ _ hdoc).readable, Option.map_some, idsOf_of_get? hdoc]

theorem recordDetails_eq (h : Ordered docs) (hdoc : (docs.get? job.docKey).isSome)
    (hnew : job.jobId ∉ idsOf docs job.docKey) : ∃ recorded, recordDetails job docs = some recorded ∧
      Ordered recorded ∧ ∀ key, idsOf recorded key
        = if key = job.docKey then (idsOf docs key).orderedInsert (· > ·) job.jobId else idsOf docs key := by
  obtain ⟨doc, hdoc⟩ := Option.isSome_iff_exists.1 hdoc
  have hdesc := h _ _ hdoc
  rw [idsOf_of_get? hdoc] at hnew
  have hjob : job.details.jobId = .int job.jobId := rfl
  obtain ⟨runs, index, hleast, hreadable, hids⟩ := leastJobId_ids hdesc.readable hjob
  refine ⟨docs.set job.docKey { doc with runs := insertRun job.details runs index }, ?_, h.set _ ⟨hreadable, ?_⟩, ?_⟩
  · simp only [recordDetails, hdoc, hleast, Option.bind_eq_bind, Option.bind_some]
  · rw [hids]
    exact pairwise_orderedInsert hdesc.pairwise hnew
  · intro key
    rw [idsOf_set, hids]
    by_cases hkey : key = job.docKey
    · rw [if_pos hkey, if_pos hkey, hkey, idsOf_of_get? hdoc]
    · rw [if_neg hkey, if_neg hkey]

/-- A run adds its id to the ids under its key. -/
theorem process_eq (h : Ordered docs) (job : Job ρ) : ∃ after, process docs job = some after ∧ Ordered after ∧
    ∀ key i, i ∈ idsOf after key ↔ i ∈ idsOf docs key ∨ job.docKey = key ∧ job.jobId = i := by
  obtain ⟨checked, hcheck, hordered, hsame, hdoc⟩ := checkIfJobAlreadyParsed_eq h job
  by_cases hmem : job.jobId ∈ idsOf docs job.docKey
  · rw [decide_eq_true hmem] at hcheck
    refine ⟨checked, by rw [process, hcheck], hordered, fun key i => ?_⟩
    rw [hsame]
    refine ⟨Or.inl, ?_⟩
    rintro (hi | ⟨rfl, rfl⟩)
    · exact hi
    · exact hmem
  · rw [decide_eq_false hmem] at hcheck
    obtain ⟨recorded, hrecord, hordered, hids⟩ := recordDetails_eq hordered hdoc (by rwa [hsame])
    refine ⟨recorded, by rw [process, hcheck]; exact hrecord, hordered, fun key i => ?_⟩
    rw [hids, hsame]
    by_cases hkey : key = job.docKey
    · rw [if_pos hkey, List.mem_orderedInsert, or_comm]
      simp only [hkey, true_and, eq_comm]
    · simp only [if_neg hkey, Ne.symm hkey, false_and, or_false]

/-! ## All runs -/

/-- What holds of the collection when these runs have been processed: the lists of runs are descending, and have the ids
    that were there and those of the runs. -/
structure Recorded (docs : Collection ρ) (jobs : List (Job ρ)) (after : Collection ρ) : Prop where
  ordered : Ordered after
  mem_iff : ∀ key i, i ∈ idsOf after key ↔ i ∈ idsOf docs key ∨ ∃ job ∈ jobs, job.docKey = key ∧ job.jobId = i

theorem foldlM_process (jobs : List (Job ρ)) (h : Ordered docs) :
    ∃ after, jobs.foldlM process docs = some after ∧ Recorded docs jobs after := by
  induction jobs generalizing docs with
  | nil => exact ⟨docs, rfl, h, by simp⟩
  | cons job jobs ih =>
      obtain ⟨next, hnext, hordered, hmem⟩ := process_eq h job
      obtain ⟨after, hafter, hrecorded⟩ := ih hordered
      refine ⟨after, by rw [List.foldlM_cons, hnext]; exact hafter, hrecorded.ordered, fun key i => ?_⟩
      rw [hrecorded.mem_iff, hmem, or_assoc]
      simp only [List.mem_cons, exists_eq_or_imp]

/-- An id of a run is there, once. -/
theorem Recorded.count_eq {jobs : List (Job ρ)} {after : Collection ρ} (h : Recorded docs jobs after)
    (hjob : job ∈ jobs) : (idsOf after job.docKey).count job.jobId = 1 := by
  have hmem := (h.mem_iff job.docKey job.jobId).2 (.inr ⟨job, hjob, rfl, rfl⟩)
  exact List.count_eq_one_of_mem ((h.ordered.pairwise job.docKey).imp ne_of_gt) hmem

/-- **Last run first**: from documents with descending runs, so from none, runs in any order are processed without an
    error, and after each of them, and after the check of the next one, the lists are descending and have the id of
    each processed run exactly once. -/
theorem process_descending (h : Ordered docs) (jobs : List (Job ρ)) : ∃ after, jobs.foldlM process docs = some after ∧
    Recorded docs jobs after ∧ (∀ job ∈ jobs, (idsOf after job.docKey).count job.jobId = 1) ∧
    ∀ next, ∃ parsed checked, checkIfJobAlreadyParsed next after = some (parsed, checked) ∧
      Recorded docs jobs checked ∧ ∀ job ∈ jobs, (idsOf checked job.docKey).count job.jobId = 1 := by
  obtain ⟨after, hafter, hrecorded⟩ := foldlM_process jobs h
  refine ⟨after, hafter, hrecorded, fun job hjob => hrecorded.count_eq hjob, fun next => ?_⟩
  obtain ⟨checked, hcheck, hordered, hsame, -⟩ := checkIfJobAlreadyParsed_eq hrecorded.ordered next
  have hchecked : Recorded docs jobs checked := ⟨hordered, fun key i => by rw [hsame, hrecorded.mem_iff]⟩
  exact ⟨_, checked, hcheck, hchecked, fun job hjob => hchecked.count_eq hjob⟩

/-- The second build before the first. -/
def twoBuilds : List (Job Unit) :=
  [⟨"7.6.0".toList, "sanity".toList, "c".toList, "s".toList, "7.6.0".toList, 2, ()⟩,
    ⟨"7.6.0".toList, "sanity".toList, "c".toList, "s".toList, "7.6.0".toList, 1, ()⟩]

theorem process_descending_twoBuilds : ∃ after, twoBuilds.foldlM process ∅ = some after ∧ Ordered after := by
  have hempty : Ordered (∅ : Collection Unit) := fun _ _ h => absurd h (Option.some_ne_none _).symm
  obtain ⟨after, hafter, hrecorded, -⟩ := process_descending hempty twoBuilds
  exact ⟨after, hafter, hrecorded.ordered⟩

end TestInfra.RunAnalyzer
