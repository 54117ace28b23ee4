import TestInfra.Dispatcher.Accounting
import TestInfra.Lib.Percent
import TestInfra.Rerun.ShouldDispatch

set_option autoImplicit false

/-! # A job is not launched while it holds servers

Before it launches a job the main loop asks `should_dispatch_job`, which looks in the server pool for servers booked
under a name like `component-subcomponent%version`. The loop books under a name with the time in it, which it quotes as
a whole; the pattern has the quoted subcomponent and the other parts as they are. `like_descriptor` says that the one
matches the other all the same, and `launches_given_back` what follows for a run: between two launches of one job the
servers of the first have been given back. -/

namespace TestInfra

namespace Dispatcher

open Raises Raises.Prog PyText Like

/-! ## What is launched -/

section Launched

variable {lib : Library} {o : Options} {e : Env} {d : String} {job : Job} {ds : List String} {s : State}

/-- No job has been launched but for these descriptors. -/
def LaunchedAmong (ds : List String) (s : State) : Prop := ∀ d, Call.launched d ∈ s.calls → d ∈ ds

theorem LaunchedAmong.addOther {call : Call} (hcall : ∀ d, Call.launched d ≠ call) (h : LaunchedAmong ds s) :
    LaunchedAmong ds { s with calls := s.calls ++ [call] } :=
  fun d hd => h d ((mem_append_ne (hcall d)).1 hd)

theorem launchedAmong_keeps_releaseServers (works : Bool) (d : String) :
    Keeps (LaunchedAmong ds) (releaseServers lib o works d) :=
  keeps_releaseServers (fun _ hs => hs.addOther (by simp)) fun _ hs => hs

theorem launchedAmong_keptByBooking : KeptByBooking lib o d (LaunchedAmong ds) where
  locals := fun _ _ _ _ hs => hs
  getServers := by
    intro s howMany os poolId a hs
    split
    · exact hs.addOther (by simp)
    · exact hs

theorem launchedAmong_keptByDispatch (hlaunch : Keeps (LaunchedAmong ds) (launch e d)) :
    KeptByDispatch lib o e d (LaunchedAmong ds) where
  popTest := fun _ _ hs => hs
  markUnreachable := fun _ hs => hs
  releaseServers := launchedAmong_keeps_releaseServers _ d
  freeServers := keeps_freeServers (launchedAmong_keeps_releaseServers _ d) fun _ _ _ hs => hs
  launch := hlaunch

/-- A job that is not to be dispatched is treated as one whose request is refused. -/
theorem attempt_of_not_dispatched (hdispatch : job.dispatchJob = false) :
    attempt lib o e d job = attempt lib o { e with status := none } d job := by
  have hdispatched : dispatch lib o e d job = dispatch lib o { e with status := none } d job := by
    simp only [dispatch, hdispatch, Bool.false_eq_true, if_false]
    rfl
  have hinvited : inviteAndDispatch lib o e d job = inviteAndDispatch lib o { e with status := none } d job := by
    simp only [inviteAndDispatch, hdispatched]
  simp only [attempt, hinvited]
  rfl

/-- An attempt launches its own job, and only if it is to be dispatched. -/
theorem launchedAmong_keeps_attempt :
    Keeps (LaunchedAmong (if job.dispatchJob then [d] else [])) (attempt lib o e d job) := by
  rcases hdispatch : job.dispatchJob with _ | _
  · rw [attempt_of_not_dispatched hdispatch]
    refine keeps_attempt launchedAmong_keptByBooking (launchedAmong_keptByDispatch fun s hs => ?_)
    rcases launch_cases { e with status := none } d s with hlaunch | hlaunch
    · rw [hlaunch]
      exact hs
    · -- without a status the request raises
      rw [launch] at hlaunch
      rcases hcredentials : e.credentialsRaise with _ | _
      · rw [hcredentials] at hlaunch
        cases hlaunch
      · rw [hcredentials] at hlaunch
        cases hlaunch
  · refine keeps_attempt launchedAmong_keptByBooking (launchedAmong_keptByDispatch (keeps_launch fun s hs d' hd' => ?_))
    rcases List.mem_append.1 hd' with hd' | hd'
    · exact hs d' hd'
    · cases List.mem_singleton.1 hd'
      exact List.mem_singleton_self d

theorem launchedAmong_keeps_handler : Keeps (LaunchedAmong ds) (handler lib o e) :=
  keeps_handler fun s hs d _ => launchedAmong_keeps_releaseServers _ d s hs

/-- What an iteration launches is the job it has chosen, under the descriptor of the job, if it is to be dispatched. -/
theorem launchedAmong_iterate (hchoose : chooseJob o e s.testsToLaunch = .ok (some job)) :
    LaunchedAmong (if job.dispatchJob then [jobDescriptor lib o e job.test] else []) (iterate lib o e s) := by
  rcases hno : o.noLaunch with _ | _
  · have hassign : Keeps (LaunchedAmong (if job.dispatchJob then [jobDescriptor lib o e job.test] else []))
        (assign (jobDescriptor lib o e job.test)) := fun _ hs => hs
    rw [iterate_of_job hno hchoose]
    exact keeps_tryHandler ((keeps_mayRaise _).seq (hassign.seq launchedAmong_keeps_attempt))
      launchedAmong_keeps_handler _ fun _ h => nomatch h
  · exact fun d hd => absurd hd ((iterate_of_noLaunch hno).2 d)

theorem exists_of_mem_launchesOf {l : Test × String} (h : l ∈ launchesOf lib o e s) :
    ∃ job, chooseJob o e s.testsToLaunch = .ok (some job) ∧ job.dispatchJob = true ∧
      l = (job.test, jobDescriptor lib o e job.test) := by
  rw [launchesOf] at h
  split at h
  · next job hchoose =>
      obtain ⟨d, hd, rfl⟩ := List.mem_map.1 h
      have hamong : d ∈ if job.dispatchJob then [jobDescriptor lib o e job.test] else [] :=
        launchedAmong_iterate hchoose d (mem_launchedIn.1 hd)
      rcases hdispatch : job.dispatchJob with _ | _
      · rw [hdispatch] at hamong
        cases hamong
      · rw [hdispatch] at hamong
        exact ⟨job, hchoose, hdispatch, by rw [List.mem_singleton.1 hamong]⟩
  · cases h

/-- Without `fresh_run` a job is dispatched as `should_dispatch_job` says. -/
theorem shouldDispatch_of_chooseJob {tests : List Test} (hfresh : o.freshRun = false)
    (h : chooseJob o e tests = .ok (some job)) : e.shouldDispatch = some job.dispatchJob := by
  have hcases := dispatch_of_chooseJob h
  rwa [hfresh, if_neg Bool.false_ne_true] at hcases

end Launched

/-! ## The descriptor and the pattern -/

/-- **The pattern finds the descriptor**, whatever the time, if the component and the version are written in characters
    that are not quoted. -/
theorem like_descriptor {component version : Text} (hcomponent : ∀ c ∈ component, Percent.isSafe c = true)
    (hversion : ∀ c ∈ version, Percent.isSafe c = true) (subcomponent now : Text) :
    like (component ++ '-' :: Percent.quote subcomponent ++ '%' :: version)
      (Percent.quote (component ++ '-' :: subcomponent ++ '-' :: now ++ '-' :: version)) = true := by
  have hdash : ∀ text, Percent.quote ('-' :: text) = '-' :: Percent.quote text :=
    fun text => Percent.quote_append ['-'] text
  have hquoted : Percent.quote (component ++ '-' :: subcomponent ++ '-' :: now ++ '-' :: version) =
      (component ++ '-' :: Percent.quote subcomponent) ++ ('-' :: Percent.quote now ++ '-' :: version) := by
    simp only [Percent.quote_append, hdash, Percent.quote_of_safe hcomponent, Percent.quote_of_safe hversion,
      List.append_assoc]
  have hplain : ∀ text : Text, (∀ c ∈ text, Percent.isSafe c = true) → '\\' ∉ text := by
    intro text h hmem
    exact absurd (h _ hmem) (by decide)
  have hfront : '\\' ∉ component ++ '-' :: Percent.quote subcomponent := by
    simp only [List.mem_append, List.mem_cons, not_or]
    exact ⟨hplain component hcomponent, by decide, Percent.not_mem_quote (by decide) (by decide) subcomponent⟩
  rw [hquoted]
  refine like_append hfront (like_self hfront) (like_percent_iff.2 ⟨version, ?_, like_self (hplain version hversion)⟩)
  exact ⟨'-' :: Percent.quote now ++ ['-'], by simp⟩

theorem rawDescriptor_of_not_onCloud {o : Options} (hcloud : o.serverType.onCloud = false) (lib : Library) (e : Env)
    (t : Test) : rawDescriptor lib o e t =
      t.component ++ "-" ++ t.subcomponent.getD "" ++ "-" ++ e.now ++ "-" ++ o.version := by
  rw [rawDescriptor]
  split
  · next htype =>
      rw [htype] at hcloud
      cases hcloud
  · next htype =>
      rw [htype] at hcloud
      cases hcloud
  · next htype =>
      rw [htype] at hcloud
      cases hcloud
  · rfl

/-! ## A run that asks -/

/-- The call of `should_dispatch_job` for a test, without parameters that are reported to the dashboard. -/
def asked (o : Options) (t : Test) (parameters : Option Text) : Rerun.Asked where
  os := o.os.toList
  component := t.component.toList
  subComponent := Percent.quote (t.subcomponent.getD "").toList
  version := o.version.toList
  parameters := parameters

/-- `should_dispatch_job` has looked at the pool that the iteration finds. -/
def Consults (o : Options) (e : Env) (s : State) : Prop :=
  ∀ job, chooseJob o e s.testsToLaunch = .ok (some job) →
    ∃ (records : Rerun.Records) (parameters : Option Text) (types : Text × Text) (c : Rerun.Conditions),
      records.pool = some (e.others s.world).servers ∧ Rerun.getBucketGsiTypes parameters = some types ∧
        e.shouldDispatch = some (Rerun.shouldDispatchJob records (asked o job.test parameters) c)

/-- A server of the OS is booked under the descriptor. -/
def HeldUnder (o : Options) (d : String) (pool : ServerManager.Pool) : Prop :=
  ∃ entry ∈ pool.items, entry.2.state = some "booked" ∧ entry.2.os = some o.os ∧ entry.2.username = some d

/-- The same job; its component is written in characters that are not quoted. -/
structure SameJob (t t' : Test) : Prop where
  component : t.component = t'.component
  subcomponent : t.subcomponent = t'.subcomponent
  safe : ∀ c ∈ t.component.toList, Percent.isSafe c = true

section Runs

variable (lib : Library) (o : Options)

/-- Every iteration of a run asks. -/
def AllConsult : List Env → State → Prop
  | [], _ => True
  | e :: rest, s => s.testsToLaunch ≠ [] → Consults o e s ∧ AllConsult rest (iterate lib o e s)

/-- Whenever a run launches a job, no server is booked any more for an earlier launch of the same one. -/
def GivenBack : List (Test × String) → List Env → State → Prop
  | _, [], _ => True
  | launched, e :: rest, s => s.testsToLaunch ≠ [] →
      (∀ l ∈ launchesOf lib o e s, ∀ l' ∈ launched, SameJob l'.1 l.1 → ¬ HeldUnder o l'.2 (e.others s.world).servers) ∧
        GivenBack (launched ++ launchesOf lib o e s) rest (iterate lib o e s)

end Runs

section Runs

variable {lib : Library} {o : Options}

/-- A server booked for the job is one the query finds. -/
theorem running_of_heldUnder (hquote : ∀ text, lib.quote text = String.ofList (Percent.quote text.toList))
    (hcloud : o.serverType.onCloud = false) (hversion : ∀ c ∈ o.version.toList, Percent.isSafe c = true) {t t' : Test}
    (hjob : SameJob t' t) {e : Env} {pool : ServerManager.Pool} (h : HeldUnder o (jobDescriptor lib o e t') pool)
    (parameters : Option Text) : (asked o t parameters).running pool = true := by
  obtain ⟨entry, hmem, hstate, hos, husername⟩ := h
  have hsafe : ∀ c ∈ t.component.toList, Percent.isSafe c = true := hjob.component ▸ hjob.safe
  have hlike := like_descriptor hsafe hversion (t.subcomponent.getD "").toList e.now.toList
  have hdescriptor : (jobDescriptor lib o e t').toList = Percent.quote (t.component.toList ++
      '-' :: (t.subcomponent.getD "").toList ++ '-' :: e.now.toList ++ '-' :: o.version.toList) := by
    rw [jobDescriptor, rawDescriptor_of_not_onCloud hcloud, hquote, String.toList_ofList, hjob.component,
      hjob.subcomponent]
    simp only [String.toList_append, List.append_assoc]
    rfl
  refine List.any_eq_true.2 ⟨entry, hmem, ?_⟩
  rw [Rerun.Asked.booked, husername, hos, hstate, Option.any_some, Option.any_some, hdescriptor]
  have hname : (asked o t parameters).userName =
      t.component.toList ++ '-' :: Percent.quote (t.subcomponent.getD "").toList ++ '%' :: o.version.toList := rfl
  rw [hname, hlike]
  simp [asked]

/-- One iteration: what it launches holds no servers yet. -/
theorem not_heldUnder_of_consults (hquote : ∀ text, lib.quote text = String.ofList (Percent.quote text.toList))
    (hcloud : o.serverType.onCloud = false) (hfresh : o.freshRun = false)
    (hversion : ∀ c ∈ o.version.toList, Percent.isSafe c = true) {e : Env} {s : State} (h : Consults o e s)
    {l : Test × String} (hl : l ∈ launchesOf lib o e s) {t : Test} (hjob : SameJob t l.1) (e' : Env) :
    ¬ HeldUnder o (jobDescriptor lib o e' t) (e.others s.world).servers := by
  intro hheld
  obtain ⟨job, hchoose, hdispatch, rfl⟩ := exists_of_mem_launchesOf hl
  obtain ⟨records, parameters, types, c, hpool, htypes, hshould⟩ := h job hchoose
  have hrunning := running_of_heldUnder hquote hcloud hversion hjob hheld parameters
  have hno : Rerun.shouldDispatchJob records (asked o job.test parameters) c = false :=
    Rerun.shouldDispatchJob_of_running htypes hpool hrunning c
  rw [shouldDispatch_of_chooseJob hfresh hchoose, hno, hdispatch] at hshould
  cases hshould

theorem givenBack_of_allConsult (hquote : ∀ text, lib.quote text = String.ofList (Percent.quote text.toList))
    (hcloud : o.serverType.onCloud = false) (hfresh : o.freshRun = false)
    (hversion : ∀ c ∈ o.version.toList, Percent.isSafe c = true) {launched : List (Test × String)} {es : List Env}
    {s : State} (hlaunched : ∀ l ∈ launched, ∃ e, l.2 = jobDescriptor lib o e l.1) (h : AllConsult lib o es s) :
    GivenBack lib o launched es s := by
  induction es generalizing launched s with
  | nil => trivial
  | cons e rest ih =>
      intro htests
      obtain ⟨hconsults, hrest⟩ := h htests
      refine ⟨fun l hl l' hl' hjob => ?_, ih (fun l hl => ?_) hrest⟩
      · obtain ⟨e', hdescriptor⟩ := hlaunched l' hl'
        rw [hdescriptor]
        exact not_heldUnder_of_consults hquote hcloud hfresh hversion hconsults hl hjob e'
      · rcases List.mem_append.1 hl with hl | hl
        · exact hlaunched l hl
        · obtain ⟨job, -, -, rfl⟩ := exists_of_mem_launchesOf hl
          exact ⟨e, rfl⟩

/-- **Between two launches of a job its servers have been given back**: in every run that asks `should_dispatch_job`
    over the pool as it then is, when a job is launched no server of the OS is booked under the descriptor of an earlier
    launch of the same component and subcomponent. -/
theorem launches_given_back (hquote : ∀ text, lib.quote text = String.ofList (Percent.quote text.toList))
    (hcloud : o.serverType.onCloud = false) (hfresh : o.freshRun = false)
    (hversion : ∀ c ∈ o.version.toList, Percent.isSafe c = true) (es : List Env) (s : State)
    (h : AllConsult lib o es s) : GivenBack lib o [] es s :=
  givenBack_of_allConsult hquote hcloud hfresh hversion (by simp) h

end Runs

/-- `quote` as it is. -/
def quoting : Library := { sampleLibrary with quote := fun text => String.ofList (Percent.quote text.toList) }

def asking : Options := { sampleOptions .vm with freshRun := false }

/-- No run is known of the job; the pool is the one given. -/
def noRuns (pool : ServerManager.Pool) : Rerun.Records where
  pool := some pool
  rerunJobs := fun _ => some none
  greenboard := fun _ => some none
  getJs := fun _ => none
  upper := List.map Char.toUpper

/-- The job is launched, its server is released when it has run, and it is launched again. -/
def launchedTwice : List Env :=
  let first := goodEnv "Jan-01-10:00:00" samplePool
  let descriptor := jobDescriptor quoting asking first (sampleTest (some "a"))
  [first, { goodEnv "Jan-01-11:00:00" samplePool with
    others := fun w => { w with servers := ServerManager.releaseServers descriptor "available" w.servers } }]

theorem allConsult_launchedTwice :
    AllConsult quoting asking launchedTwice (sampleState [sampleTest (some "a"), sampleTest (some "a")]) := by
  have hconsults : ∀ (e : Env) (s : State), (∀ t ∈ s.testsToLaunch, t = sampleTest (some "a")) →
      e.shouldDispatch = some (Rerun.shouldDispatchJob (noRuns (e.others s.world).servers)
        (asked asking (sampleTest (some "a")) (some [])) ⟨false, false, false, false⟩) →
      Consults asking e s := by
    intro e s htests hshould job hchoose
    have hjob : job.test = sampleTest (some "a") := htests _ (List.mem_of_getElem? (chooseJob_getElem? hchoose))
    exact ⟨noRuns (e.others s.world).servers, some [], ([], []), ⟨false, false, false, false⟩, rfl, by decide,
      hjob ▸ hshould⟩
  refine fun _ => ⟨hconsults _ _ (by decide) (by decide +kernel), fun _ => ⟨?_, trivial⟩⟩
  exact hconsults _ _ (by decide +kernel) (by decide +kernel)

/-- The server of the first launch has been released when the second one is made. -/
theorem launches_given_back_twice :
    GivenBack quoting asking [] launchedTwice (sampleState [sampleTest (some "a"), sampleTest (some "a")]) ∧
      (launches quoting asking launchedTwice
        (sampleState [sampleTest (some "a"), sampleTest (some "a")])).map Prod.fst =
        [sampleTest (some "a"), sampleTest (some "a")] :=
  ⟨launches_given_back (fun _ => rfl) rfl rfl (List.all_eq_true.1 (by decide)) launchedTwice _ allConsult_launchedTwice,
    by decide +kernel⟩

end Dispatcher

end TestInfra
