import TestInfra.Lib.Interleave
import TestInfra.Lib.PyText
import Mathlib.Data.List.Infix

set_option autoImplicit false

/-! # The history of a job

`scripts/find_rerun_job.py` keeps a document per job and build with one record for every run of it. With
`store_data`, `find_rerun_job` reads the document, appends its record, counts it in `num_runs` and writes the
document back. The calls come from different processes; each takes its steps on the bucket alone.

Every document counts its records right (`numRuns_eq_length`). A record stays only if no other call reads the
document between the read and the write of its own call: `history_kept` is the result for those runs,
`history_lost` two calls that read before either writes. -/

namespace TestInfra.Rerun

open PyText Interleave

/-! ## The name of the document -/

/-- Where the arguments of a call come from: the environment of an executor job, of another Jenkins job, or
    the arguments themselves. -/
inductive Source where
  | executor (os component subComponent versionBuild parameters : Option Text)
  | jenkins (jobName versionBuild : Option Text)
  | given (os component subComponent parameters name versionBuild : Option Text)

/-- How `str.format` shows a value that may be `None`. -/
def shown (value : Option Text) : Text := value.getD "None".toList

/-- A value that is neither `None` nor empty. -/
def truthy (value : Option Text) : Bool := value.getD [] ≠ []

/-- `get_bucket_gsi_types`; `none` when it raises. -/
def getBucketGsiTypes (parameters : Option Text) : Option (Text × Text) := do
  (← parameters).splitOn ',' |>.foldlM (fun types parameter =>
    if "bucket_storage".toList <:+: parameter then do pure (← (parameter.splitOn '=')[1]?, types.2)
    else if "gsi_type".toList <:+: parameter then do pure (types.1, ← (parameter.splitOn '=')[1]?)
    else pure types) ([], [])

/-- `"{}_{}_{}".format(os, component, sub_component)` with the types behind it. -/
def fullName (os component subComponent : Option Text) (types : Text × Text) : Text :=
  let name := join '_' [shown os, shown component, shown subComponent]
  let name := if types.1 ≠ [] then name ++ '_' :: types.1 else name
  if types.2 ≠ [] then name ++ '_' :: types.2 else name

/-- `name` and `version_build`; `none` when reading them raises. -/
def Source.name : Source → Option (Option Text × Option Text)
  | executor os component subComponent versionBuild parameters => do
      let types ← getBucketGsiTypes parameters
      pure (some (fullName os component subComponent types), versionBuild)
  | jenkins jobName versionBuild => some (jobName, versionBuild)
  | given os component subComponent parameters name versionBuild => do
      let types ← getBucketGsiTypes parameters
      if truthy os && truthy component && truthy subComponent then
        pure (some (fullName os component subComponent types), versionBuild)
      else if truthy name then pure (name, versionBuild)
      else pure (none, versionBuild)

/-- `doc_id`: `some none` when the call returns before it has one, `none` when it raises. -/
def Source.docId (source : Source) : Option (Option Text) := do
  let (name, versionBuild) ← source.name
  if truthy name && truthy versionBuild then pure (some (shown name ++ '_' :: shown versionBuild))
  else pure none

/-- `version_build`, as it is stored. -/
def Source.build (source : Source) : Text := shown (source.name.bind Prod.snd)

/-! ## Documents and calls -/

/-- `job_to_store`, less its `run_results`, which are always empty. -/
structure Job where
  jobUrl : Option Text
  buildId : Option Text
  runParams : Option (List (Text × Text))
  installFailure : Bool
deriving DecidableEq, Repr

/-- `run_document`. -/
structure RunDocument where
  build : Text
  numRuns : ℕ
  jobs : List Job
deriving DecidableEq, Repr

/-- The bucket `rerun_jobs`. -/
abbrev Bucket := Text → Option RunDocument

/-- A call of `find_rerun_job`, with what it finds in its environment. -/
structure Call where
  source : Source
  storeData : Bool
  job : Job

/-- The document with one record more, `{"build": .., "num_runs": 0, "jobs": []}` if there was none. -/
def Call.append (call : Call) (doc : Option RunDocument) : RunDocument :=
  let doc := doc.getD ⟨call.source.build, 0, []⟩
  { doc with numRuns := doc.numRuns + 1, jobs := doc.jobs ++ [call.job] }

/-- Where a call stands. -/
inductive Local where
  | start
  /-- Behind `rerun_jobs.get`. -/
  | fetched (doc : Option RunDocument)
  /-- Returned `(rerun, document)`; without a document `{}`. -/
  | returned (rerun : Bool) (doc : Option RunDocument)
  /-- Returned `(False, {})` from the `except` block. -/
  | handled
  /-- An exception left the call. -/
  | raised
deriving DecidableEq, Repr

variable {T : Type} [DecidableEq T]

/-- The steps of a call. -/
inductive Act (calls : T → Call) (t : T) (bucket : Bucket) : Local → Bucket → Local → Prop where
  /-- Before the `try` block. -/
  | raises : Act calls t bucket .start bucket .raised
  | nameless (h : (calls t).source.docId = some none) : Act calls t bucket .start bucket (.returned false none)
  | getRaises {id : Text} (h : (calls t).source.docId = some (some id)) :
      Act calls t bucket .start bucket .handled
  | look {id : Text} (h : (calls t).source.docId = some (some id)) (hstore : (calls t).storeData = false) :
      Act calls t bucket .start bucket (.returned (bucket id).isSome (bucket id))
  | fetch {id : Text} (h : (calls t).source.docId = some (some id)) (hstore : (calls t).storeData = true) :
      Act calls t bucket .start bucket (.fetched (bucket id))
  /-- The parameters of the job cannot be read, or the document is not written. -/
  | storeRaises {doc : Option RunDocument} : Act calls t bucket (.fetched doc) bucket .handled
  | upsert {id : Text} (h : (calls t).source.docId = some (some id)) {doc : Option RunDocument} :
      Act calls t bucket (.fetched doc) (Function.update bucket id (some ((calls t).append doc)))
        (.returned doc.isSome (some ((calls t).append doc)))
  /-- The document is written, but the answer does not arrive. -/
  | upsertRaises {id : Text} (h : (calls t).source.docId = some (some id)) {doc : Option RunDocument} :
      Act calls t bucket (.fetched doc) (Function.update bucket id (some ((calls t).append doc))) .handled

/-- Nobody has called yet. -/
def initial (bucket : Bucket) : State T Bucket Local := ⟨bucket, fun _ => .start⟩

/-- The records of a document. -/
def jobsOf (doc : Option RunDocument) : List Job := (doc.map RunDocument.jobs).getD []

/-- The document counts its records. -/
def Counted (doc : Option RunDocument) : Prop := ∀ d ∈ doc, d.numRuns = d.jobs.length

theorem jobs_append (call : Call) (doc : Option RunDocument) :
    (call.append doc).jobs = jobsOf doc ++ [call.job] := by
  cases doc <;> rfl

theorem counted_append (call : Call) {doc : Option RunDocument} (h : Counted doc) :
    Counted (some (call.append doc)) := by
  intro d hd
  cases hd
  cases doc with
  | none => rfl
  | some doc => simp [Call.append, h doc rfl]

/-! ## `num_runs` -/

/-- What is counted: the documents in the bucket and those the calls have read. -/
def AllCounted (s : State T Bucket Local) : Prop :=
  (∀ id, Counted (s.shared id)) ∧ ∀ t doc, s.thread t = .fetched doc → Counted doc

theorem AllCounted.move {s : State T Bucket Local} (h : AllCounted s) (t : T) {bucket : Bucket} {l : Local}
    (hbucket : ∀ id, Counted (bucket id)) (hl : ∀ doc, l = .fetched doc → Counted doc) :
    AllCounted (s.move t bucket l) := by
  refine ⟨hbucket, ?_⟩
  exact State.forall_move (P := fun _ l => ∀ doc, l = .fetched doc → Counted doc) s t bucket l hl
    fun u _ => h.2 u

theorem counted_update {bucket : Bucket} (h : ∀ id, Counted (bucket id)) (id : Text)
    {doc : Option RunDocument} (hdoc : Counted doc) : ∀ id', Counted (Function.update bucket id doc id') := by
  intro id'
  by_cases hid : id' = id
  · subst hid
    rw [Function.update_self]
    exact hdoc
  · rw [Function.update_of_ne hid]
    exact h id'

/-- In every run the documents count their records, whatever the calls overwrite. -/
theorem numRuns_eq_length {calls : T → Call} {bucket : Bucket} (hbucket : ∀ id, Counted (bucket id))
    {s : State T Bucket Local} (h : Reachable (Act calls) (initial bucket) s) :
    ∀ id, Counted (s.shared id) := by
  have hinv : AllCounted s := by
    refine h.invariant ⟨hbucket, fun t doc hdoc => (nomatch hdoc)⟩ ?_
    intro s t bucket' l' hs hact
    generalize hl : s.thread t = l at hact
    have hkeep : ∀ doc, l = .fetched doc → Counted doc := fun doc hdoc => hs.2 t doc (hl.trans hdoc)
    cases hact with
    | raises => exact hs.move t hs.1 fun doc hdoc => nomatch hdoc
    | nameless => exact hs.move t hs.1 fun doc hdoc => nomatch hdoc
    | getRaises => exact hs.move t hs.1 fun doc hdoc => nomatch hdoc
    | look => exact hs.move t hs.1 fun doc hdoc => nomatch hdoc
    | fetch =>
        refine hs.move t hs.1 fun doc hdoc => ?_
        cases hdoc
        exact hs.1 _
    | storeRaises => exact hs.move t hs.1 fun doc hdoc => nomatch hdoc
    | upsert =>
        exact hs.move t (counted_update hs.1 _ (counted_append _ (hkeep _ rfl))) fun doc hdoc => nomatch hdoc
    | upsertRaises =>
        exact hs.move t (counted_update hs.1 _ (counted_append _ (hkeep _ rfl))) fun doc hdoc => nomatch hdoc
  exact hinv.1

/-! ## The records -/

/-- The call stored its record under `id` and returned without an exception. -/
def Stored (calls : T → Call) (s : State T Bucket Local) (id : Text) (t : T) : Prop :=
  (calls t).source.docId = some (some id) ∧ (calls t).storeData = true ∧
    ∃ rerun doc, s.thread t = .returned rerun doc

/-- The document holds a record for each of the calls that returned. -/
def Kept (calls : T → Call) (s : State T Bucket Local) (id : Text) : Prop :=
  ∃ ts : List T, ts.Nodup ∧ (∀ t, Stored calls s id t → t ∈ ts) ∧
    (ts.map fun t => (calls t).job).Sublist (jobsOf (s.shared id))

/-- A call that stores reads the document only while no other call is between its read and its write. -/
def Alone (calls : T → Call) (s : State T Bucket Local) (t : T) : Prop :=
  s.thread t = .start → (calls t).storeData = true →
    ∀ u, u ≠ t → (calls u).source.docId = (calls t).source.docId → ∀ doc, s.thread u ≠ .fetched doc

/-- What holds between calls that are alone: a document that was read is the stored one, and the records are
    those of the calls behind their write. -/
structure Serial (calls : T → Call) (bucket : Bucket) (s : State T Bucket Local) : Prop where
  unique : ∀ t u doc doc', (calls t).source.docId = (calls u).source.docId →
    s.thread t = .fetched doc → s.thread u = .fetched doc' → t = u
  current : ∀ t id doc, (calls t).source.docId = some (some id) → s.thread t = .fetched doc →
    s.shared id = doc
  recorded : ∀ id, ∃ ts : List T, ts.Nodup ∧
    (∀ t ∈ ts, s.thread t ≠ .start ∧ ∀ doc, s.thread t ≠ .fetched doc) ∧
    (∀ t, Stored calls s id t → t ∈ ts) ∧
    jobsOf (s.shared id) = jobsOf (bucket id) ++ ts.map fun t => (calls t).job

omit [DecidableEq T] in
theorem serial_initial (calls : T → Call) (bucket : Bucket) : Serial calls bucket (initial bucket) where
  unique := fun t u doc doc' _ ht => nomatch ht
  current := fun t id doc _ ht => nomatch ht
  recorded := by
    intro id
    refine ⟨[], List.nodup_nil, fun t ht => (nomatch ht), ?_, by simp [initial]⟩
    rintro t ⟨-, -, rerun, doc, ht⟩
    cases ht

section Steps

variable {calls : T → Call} {bucket : Bucket} {s : State T Bucket Local} {t : T} {l : Local}

/-- Nothing has changed for the other calls. -/
theorem Stored.of_move {bucket' : Bucket} {id : Text} {u : T} (hut : u ≠ t)
    (h : Stored calls (s.move t bucket' l) id u) : Stored calls s id u := by
  obtain ⟨hid, hstore, rerun, doc, hthread⟩ := h
  rw [State.move_other s _ _ hut] at hthread
  exact ⟨hid, hstore, rerun, doc, hthread⟩

/-- A call that has not just read its document does not come to hold one. -/
theorem fetched_of_move (hfetched : ∀ doc, l ≠ .fetched doc) {bucket' : Bucket} {u : T} {doc : Option RunDocument}
    (hu : (s.move t bucket' l).thread u = .fetched doc) : u ≠ t ∧ s.thread u = .fetched doc := by
  by_cases hut : u = t
  · subst hut
    rw [State.move_self] at hu
    exact absurd hu (hfetched doc)
  · rw [State.move_other s _ _ hut] at hu
    exact ⟨hut, hu⟩

/-- A call that moves on without reading or storing anything. -/
theorem Serial.pass (h : Serial calls bucket s) (hfetched : ∀ doc, l ≠ .fetched doc) (hstart : l ≠ .start)
    (hstored : ∀ id, ¬ Stored calls (s.move t s.shared l) id t) :
    Serial calls bucket (s.move t s.shared l) := by
  refine ⟨?_, ?_, ?_⟩
  · intro u v doc doc' hid hu hv
    exact h.unique u v doc doc' hid (fetched_of_move hfetched hu).2 (fetched_of_move hfetched hv).2
  · intro u id doc hid hu
    exact h.current u id doc hid (fetched_of_move hfetched hu).2
  · intro id
    obtain ⟨ts, hnod, hdone, hmem, hjobs⟩ := h.recorded id
    refine ⟨ts, hnod, ?_, ?_, hjobs⟩
    · intro u hu
      by_cases hut : u = t
      · subst hut
        rw [State.move_self]
        exact ⟨hstart, hfetched⟩
      · rw [State.move_other s _ _ hut]
        exact hdone u hu
    · intro u hu
      by_cases hut : u = t
      · subst hut
        exact absurd hu (hstored id)
      · exact hmem u (hu.of_move hut)

/-- A call reads the document while it is alone. -/
theorem Serial.fetch (h : Serial calls bucket s) {id : Text} (hid : (calls t).source.docId = some (some id))
    (hstart : s.thread t = .start)
    (halone : ∀ u, u ≠ t → (calls u).source.docId = (calls t).source.docId →
      ∀ doc, s.thread u ≠ .fetched doc) :
    Serial calls bucket (s.move t s.shared (.fetched (s.shared id))) := by
  refine ⟨?_, ?_, ?_⟩
  · intro u v doc doc' huv hu hv
    by_cases hut : u = t <;> by_cases hvt : v = t
    · rw [hut, hvt]
    · subst hut
      rw [State.move_other s _ _ hvt] at hv
      exact absurd hv (halone v hvt huv.symm doc')
    · subst hvt
      rw [State.move_other s _ _ hut] at hu
      exact absurd hu (halone u hut huv doc)
    · rw [State.move_other s _ _ hut] at hu
      rw [State.move_other s _ _ hvt] at hv
      exact h.unique u v doc doc' huv hu hv
  · intro u id' doc hid' hu
    by_cases hut : u = t
    · subst hut
      rw [State.move_self] at hu
      rw [hid] at hid'
      cases hid'
      cases hu
      rfl
    · rw [State.move_other s _ _ hut] at hu
      exact h.current u id' doc hid' hu
  · intro id'
    obtain ⟨ts, hnod, hdone, hmem, hjobs⟩ := h.recorded id'
    refine ⟨ts, hnod, ?_, ?_, hjobs⟩
    · intro u hu
      have hut : u ≠ t := by
        rintro rfl
        exact (hdone u hu).1 hstart
      rw [State.move_other s _ _ hut]
      exact hdone u hu
    · intro u hu
      by_cases hut : u = t
      · subst hut
        obtain ⟨-, -, rerun, doc, hthread⟩ := hu
        rw [State.move_self] at hthread
        cases hthread
      · exact hmem u (hu.of_move hut)

/-- The record of the call is the last one of its document. -/
theorem Serial.recorded_store (h : Serial calls bucket s) {id : Text}
    (hid : (calls t).source.docId = some (some id)) {doc : Option RunDocument} (hthread : s.thread t = .fetched doc)
    (hfetched : ∀ doc, l ≠ .fetched doc) (hstart : l ≠ .start) (id' : Text) :
    ∃ ts : List T, ts.Nodup ∧
      (∀ u ∈ ts, (s.move t (Function.update s.shared id (some ((calls t).append doc))) l).thread u ≠ .start ∧
        ∀ doc', (s.move t (Function.update s.shared id (some ((calls t).append doc))) l).thread u ≠
          .fetched doc') ∧
      (∀ u, Stored calls (s.move t (Function.update s.shared id (some ((calls t).append doc))) l) id' u → u ∈ ts) ∧
      jobsOf ((s.move t (Function.update s.shared id (some ((calls t).append doc))) l).shared id') =
        jobsOf (bucket id') ++ ts.map fun t => (calls t).job := by
  obtain ⟨ts, hnod, hdone, hmem, hjobs⟩ := h.recorded id'
  have hnew : t ∉ ts := fun ht => (hdone t ht).2 doc hthread
  have hdone' : ∀ u ∈ ts, u ≠ t := fun u hu hut => hnew (hut ▸ hu)
  by_cases hid' : id' = id
  · subst hid'
    refine ⟨ts ++ [t], hnod.append (List.nodup_singleton t) (List.disjoint_singleton.2 hnew), ?_, ?_, ?_⟩
    · intro u hu
      rcases List.mem_append.1 hu with hu | hu
      · rw [State.move_other s _ _ (hdone' u hu)]
        exact hdone u hu
      · obtain rfl := List.mem_singleton.1 hu
        rw [State.move_self]
        exact ⟨hstart, hfetched⟩
    · intro u hu
      by_cases hut : u = t
      · exact List.mem_append.2 (.inr (List.mem_singleton.2 hut))
      · exact List.mem_append.2 (.inl (hmem u (hu.of_move hut)))
    · have hread : jobsOf doc = jobsOf (s.shared id') := by rw [h.current t id' doc hid hthread]
      calc jobsOf (Function.update s.shared id' (some ((calls t).append doc)) id')
          = jobsOf doc ++ [(calls t).job] := by
            rw [Function.update_self]
            exact jobs_append (calls t) doc
        _ = jobsOf (bucket id') ++ (ts ++ [t]).map fun t => (calls t).job := by
            rw [hread, hjobs, List.map_append, List.append_assoc]
            rfl
  · refine ⟨ts, hnod, ?_, ?_, ?_⟩
    · intro u hu
      rw [State.move_other s _ _ (hdone' u hu)]
      exact hdone u hu
    · intro u hu
      by_cases hut : u = t
      · subst hut
        have := hu.1
        rw [hid] at this
        cases this
        exact absurd rfl hid'
      · exact hmem u (hu.of_move hut)
    · rw [State.move_shared, Function.update_of_ne hid']
      exact hjobs

/-- A call writes back what it read: its record comes behind the others. -/
theorem Serial.store (h : Serial calls bucket s) {id : Text} (hid : (calls t).source.docId = some (some id))
    {doc : Option RunDocument} (hthread : s.thread t = .fetched doc) (hfetched : ∀ doc, l ≠ .fetched doc)
    (hstart : l ≠ .start) :
    Serial calls bucket (s.move t (Function.update s.shared id (some ((calls t).append doc))) l) := by
  refine ⟨?_, ?_, ?_⟩
  · intro u v doc₁ doc₂ huv hu hv
    exact h.unique u v doc₁ doc₂ huv (fetched_of_move hfetched hu).2 (fetched_of_move hfetched hv).2
  · intro u id' doc' hid' hu
    obtain ⟨hut, hread⟩ := fetched_of_move hfetched hu
    -- the writer was the only one that had read its document
    have hne : id' ≠ id := by
      rintro rfl
      exact hut (h.unique u t doc' doc (hid'.trans hid.symm) hread hthread)
    rw [State.move_shared, Function.update_of_ne hne]
    exact h.current u id' doc' hid' hread
  · exact h.recorded_store hid hthread hfetched hstart

end Steps

theorem serial_of_reachable {calls : T → Call} {bucket : Bucket} {s : State T Bucket Local}
    (h : ReachableWhen (Alone calls) (Act calls) (initial bucket) s) : Serial calls bucket s := by
  refine h.invariant (serial_initial calls bucket) ?_
  intro s t bucket' l' hs halone hact
  -- a call that does not store, or that ended in an exception, owes no record
  have hnothing : ∀ l : Local, (∀ rerun doc, l ≠ .returned rerun doc) →
      ∀ id, ¬ Stored calls (s.move t s.shared l) id t := by
    rintro l hl id ⟨-, -, rerun, doc, ht⟩
    rw [State.move_self] at ht
    exact hl rerun doc ht
  generalize hthread : s.thread t = l at hact
  cases hact with
  | raises => exact hs.pass (by simp) (by simp) (hnothing _ (by simp))
  | nameless hid =>
      refine hs.pass (by simp) (by simp) ?_
      rintro id ⟨hid', -, -⟩
      rw [hid] at hid'
      cases hid'
  | getRaises => exact hs.pass (by simp) (by simp) (hnothing _ (by simp))
  | look hid hstore =>
      refine hs.pass (by simp) (by simp) ?_
      rintro id ⟨-, hstore', -⟩
      rw [hstore] at hstore'
      cases hstore'
  | fetch hid hstore => exact hs.fetch hid hthread (halone hthread hstore)
  | storeRaises => exact hs.pass (by simp) (by simp) (hnothing _ (by simp))
  | upsert hid => exact hs.store hid hthread (by simp) (by simp)
  | upsertRaises hid => exact hs.store hid hthread (by simp) (by simp)

/-- **The history is kept while calls do not overlap**: the documents count their records in every run; and in
    every run in which a call reads its document only when no other call is between the read and the write of
    that document, the document holds a record for each call that returned without an exception. -/
theorem history_kept (calls : T → Call) (bucket : Bucket) (hbucket : ∀ id, Counted (bucket id))
    (s : State T Bucket Local) :
    (Reachable (Act calls) (initial bucket) s → ∀ id, Counted (s.shared id)) ∧
      (ReachableWhen (Alone calls) (Act calls) (initial bucket) s → ∀ id, Kept calls s id) := by
  refine ⟨numRuns_eq_length hbucket, ?_⟩
  intro h id
  obtain ⟨ts, hnod, -, hmem, hjobs⟩ := (serial_of_reachable h).recorded id
  refine ⟨ts, hnod, hmem, ?_⟩
  rw [hjobs]
  exact List.sublist_append_right _ _

/-- Two runs of the job `j` of build `7`. -/
def twoCalls (t : Bool) : Call :=
  ⟨.jenkins (some "j".toList) (some "7".toList), true, ⟨none, some (if t then "1".toList else "2".toList), none, false⟩⟩

theorem docId_twoCalls (t : Bool) : (twoCalls t).source.docId = some (some "j_7".toList) := by
  cases t <;> decide

omit [DecidableEq T] in
theorem act_of_thread {calls : T → Call} {s : State T Bucket Local} {t : T} {l l' : Local} {bucket : Bucket}
    (hl : s.thread t = l) (h : Act calls t s.shared l bucket l') :
    Act calls t s.shared (s.thread t) bucket l' := by
  rw [hl]
  exact h

/-- Two runs one after the other, each from its read to its write. -/
theorem history_kept_two_runs :
    ∃ s : State Bool Bucket Local, ReachableWhen (Alone twoCalls) (Act twoCalls) (initial fun _ => none) s ∧
      (∀ t, Stored twoCalls s "j_7".toList t) ∧ ∀ id, Kept twoCalls s id := by
  have hread : ReachableWhen (Alone twoCalls) (Act twoCalls) (initial fun _ => none)
      (State.move (initial fun _ => none) true (fun _ => none) (.fetched none)) :=
    .single ⟨true, _, _, fun _ _ u _ _ doc => by simp [initial], .fetch (docId_twoCalls true) rfl, rfl⟩
  have hwrite := hread.tail
    ⟨true, _, _, fun h => by simp at h, act_of_thread rfl (.upsert (docId_twoCalls true)), rfl⟩
  have hreadNext := hwrite.tail ⟨false, _, _, fun _ _ u hu _ doc => by
    obtain rfl : u = true := Bool.eq_true_of_not_eq_false hu
    simp, act_of_thread rfl (.fetch (docId_twoCalls false) rfl), rfl⟩
  have hwriteNext := hreadNext.tail
    ⟨false, _, _, fun h => by simp at h, act_of_thread rfl (.upsert (docId_twoCalls false)), rfl⟩
  refine ⟨_, hwriteNext, ?_, (history_kept twoCalls (fun _ => none) (fun _ _ h => nomatch h) _).2 hwriteNext⟩
  exact Bool.forall_bool.2 ⟨⟨docId_twoCalls false, rfl, _, _, rfl⟩, docId_twoCalls true, rfl, _, _, rfl⟩

theorem twoCalls_not_kept {s : State Bool Bucket Local} (hstored : ∀ t, Stored twoCalls s "j_7".toList t)
    (hjobs : (jobsOf (s.shared "j_7".toList)).length < 2) : ¬ Kept twoCalls s "j_7".toList := by
  rintro ⟨ts, -, hmem, hsub⟩
  have htwo : [true, false].length ≤ ts.length :=
    (List.subperm_of_subset (by decide) fun t _ => hmem t (hstored t)).length_le
  have hle := hsub.length_le
  rw [List.length_map] at hle
  exact absurd (htwo.trans hle) (Nat.not_le.2 hjobs)

/-- **A record is lost**: both calls read that there is no document, and the second write replaces the document
    of the first. Both return, and one record is left. -/
theorem history_lost :
    ∃ s : State Bool Bucket Local, Reachable (Act twoCalls) (initial fun _ => none) s ∧
      (∀ t, Stored twoCalls s "j_7".toList t) ∧ ¬ Kept twoCalls s "j_7".toList := by
  have hread : Reachable (Act twoCalls) (initial fun _ => none)
      (State.move (initial fun _ => none) true (fun _ => none) (.fetched none)) :=
    .single ⟨true, _, _, .fetch (docId_twoCalls true) rfl, rfl⟩
  have hreads := hread.tail
    ⟨false, fun _ => none, .fetched none, act_of_thread rfl (.fetch (docId_twoCalls false) rfl), rfl⟩
  have hwrite := hreads.tail
    ⟨true, _, _, act_of_thread rfl (.upsert (docId_twoCalls true)), rfl⟩
  have hwrites := hwrite.tail
    ⟨false, _, _, act_of_thread rfl (.upsert (docId_twoCalls false)), rfl⟩
  refine ⟨_, hwrites, ?_, twoCalls_not_kept ?_ (Nat.lt_succ_self 1)⟩
  all_goals exact Bool.forall_bool.2 ⟨⟨docId_twoCalls false, rfl, _, _, rfl⟩, docId_twoCalls true, rfl, _, _, rfl⟩

end TestInfra.Rerun
