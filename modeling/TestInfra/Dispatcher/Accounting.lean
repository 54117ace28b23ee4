import TestInfra.Dispatcher.Launched
import Mathlib.Data.List.Perm.Subperm

set_option autoImplicit false

/-! # No test is lost and none is dispatched twice

The main loop takes a test from `testsToLaunch` after Jenkins has accepted its job. Whatever an iteration meets, it
takes at most one test, launches at most one job, and that for the test it has chosen (`iterate_leaves`). Over a whole
run the tests launched, the ones passed over and the ones left are the tests it started with (`launches_perm`). A test
is launched again only after an iteration that has raised between the launch and the `pop`. -/

namespace TestInfra

namespace Dispatcher

open Raises Raises.Prog

/-! ## What an iteration takes -/

/-- Why an iteration takes a test from the list without having launched its job. -/
inductive Skips (o : Options) (e : Env) : Prop where
  /-- Nothing is to be launched at all. -/
  | noLaunch (hno : o.noLaunch = true)
  /-- `should_dispatch_job` has said no. -/
  | notDispatched (hfresh : o.freshRun = false) (hshould : e.shouldDispatch = some false)
  /-- `invite_user` has returned no user or no password. -/
  | notInvited (hcapella : o.serverType.onCapella = true) (hinvited : e.invited = some false)

/-- How an iteration that finds `tests` leaves the list, and the descriptors of the jobs it has launched. -/
inductive Leaves (o : Options) (e : Env) (tests : List Test) : List Test → List String → Prop where
  | kept : Leaves o e tests tests []
  | launched (job : Job) (hjob : chooseJob o e tests = .ok (some job)) (d : String) :
      Leaves o e tests (tests.eraseIdx job.i) [d]
  | skipped (i : ℕ) (hskips : Skips o e) : Leaves o e tests (tests.eraseIdx i) []
  /-- The job is launched, and the test stays. -/
  | stays (job : Job) (hjob : chooseJob o e tests = .ok (some job)) (d : String) (hraises : e.countRaises = true) :
      Leaves o e tests tests [d]

/-- Nothing has been taken and nothing launched so far. -/
structure Untouched (tests : List Test) (s : State) : Prop where
  testsToLaunch : s.testsToLaunch = tests
  launched : launchedIn s.calls = []

/-- The state of an iteration that has found `tests`. -/
def LeftBy (o : Options) (e : Env) (tests : List Test) (s : State) : Prop :=
  Leaves o e tests s.testsToLaunch (launchedIn s.calls)

/-! ## Choosing -/

theorem matchTest_getElem? {e : Env} {serverCount : Int} {tests : List Test} {start i : ℕ} {t : Test}
    (h : matchTest e serverCount start tests = .ok (some (i, t))) : start ≤ i ∧ tests[i - start]? = some t := by
  induction tests generalizing start with
  | nil => simp [matchTest] at h
  | cons head rest ih =>
      have hnext : matchTest e serverCount (start + 1) rest = .ok (some (i, t)) →
          start ≤ i ∧ (head :: rest)[i - start]? = some t := by
        intro hrest
        obtain ⟨hle, hget⟩ := ih hrest
        have hsub : i - start = i - (start + 1) + 1 := by omega
        refine ⟨by omega, ?_⟩
        rw [hsub, List.getElem?_cons_succ, hget]
      have hhere : Except.ok (some (start, head)) = (Except.ok (some (i, t)) : Except Unit _) →
          start ≤ i ∧ (head :: rest)[i - start]? = some t := by
        rintro ⟨⟩
        simp
      rw [matchTest] at h
      split at h
      · split at h
        · split at h
          · cases h
          · split at h
            · exact hnext h
            · exact hhere h
        · exact hhere h
      · exact hnext h

theorem selectTest_getElem? {o : Options} {e : Env} {tests : List Test} {pools : List String} {i : ℕ} {t : Test}
    {pool : String} (h : selectTest o e tests pools = .ok (some (i, t, pool))) : tests[i]? = some t := by
  induction pools with
  | nil => simp [selectTest] at h
  | cons poolId rest ih =>
      rw [selectTest] at h
      split at h
      · rcases tests with _ | ⟨head, tests⟩
        · simp at h
        · cases h
          rfl
      · split at h
        · cases h
        · split at h
          · exact ih h
          · split at h
            · cases h
            · next hmatch =>
                cases h
                exact (matchTest_getElem? hmatch).2
            · exact ih h

/-- The test chosen is in the list, at its index. -/
theorem chooseJob_getElem? {o : Options} {e : Env} {tests : List Test} {job : Job}
    (h : chooseJob o e tests = .ok (some job)) : tests[job.i]? = some job.test := by
  rw [chooseJob] at h
  split at h
  · cases h
  · cases h
  · next i t pool hselect =>
      have hget := selectTest_getElem? hselect
      split at h
      · cases h
      · split at h
        · split at h
          · cases h
          · cases h
            exact hget
        · split at h
          · cases h
          · split at h
            · cases h
            · cases h
              exact hget

/-- Without `fresh_run` it is `should_dispatch_job` that says whether a job is dispatched. -/
theorem dispatch_of_chooseJob {o : Options} {e : Env} {tests : List Test} {job : Job}
    (h : chooseJob o e tests = .ok (some job)) :
    if o.freshRun then job.dispatchJob = true else e.shouldDispatch = some job.dispatchJob := by
  rw [chooseJob] at h
  split at h
  · cases h
  · cases h
  · split at h
    · cases h
    · split at h
      · next hfresh =>
          split at h
          · cases h
          · cases h
            rw [if_pos hfresh]
      · next hfresh =>
          rw [if_neg hfresh]
          split at h
          · cases h
          · next hshould =>
              split at h
              · cases h
              · cases h
                exact hshould

theorem dispatchJob_of_chooseJob {o : Options} {e : Env} {tests : List Test} {job : Job}
    (h : chooseJob o e tests = .ok (some job)) (hdispatch : job.dispatchJob = false) :
    o.freshRun = false ∧ e.shouldDispatch = some false := by
  have hcases := dispatch_of_chooseJob h
  rw [hdispatch] at hcases
  rcases hfresh : o.freshRun with _ | _
  · rw [hfresh, if_neg Bool.false_ne_true] at hcases
    exact ⟨rfl, hcases⟩
  · rw [hfresh, if_pos rfl] at hcases
    cases hcases

/-! ## What the steps leave -/

section Calls

variable {lib : Library} {o : Options} {e : Env} {tests : List Test} {d : String} {job : Job} {s : State}

theorem launchedIn_append_of_not_launched {calls : List Call} {call : Call} (hcall : ∀ d, call ≠ .launched d) :
    launchedIn (calls ++ [call]) = launchedIn calls := by
  rcases call with d | d | d
  · simp [launchedIn]
  · simp [launchedIn]
  · exact absurd rfl (hcall d)

theorem launchedIn_append_launched (calls : List Call) (d : String) :
    launchedIn (calls ++ [.launched d]) = launchedIn calls ++ [d] := by
  simp [launchedIn]

theorem Untouched.leftBy (h : Untouched tests s) : LeftBy o e tests s := by
  rw [LeftBy, h.testsToLaunch, h.launched]
  exact .kept

/-- What only touches the servers. -/
theorem untouched_of_eq {s' : State} (h : Untouched tests s) (htests : s'.testsToLaunch = s.testsToLaunch)
    (hcalls : launchedIn s'.calls = launchedIn s.calls) : Untouched tests s' :=
  ⟨htests.trans h.testsToLaunch, hcalls.trans h.launched⟩

theorem untouched_keeps_releaseServers (works : Bool) (d : String) :
    Keeps (Untouched tests) (releaseServers lib o works d) :=
  keeps_releaseServers
    (fun _ hs => untouched_of_eq hs rfl (launchedIn_append_of_not_launched fun _ => by simp))
    fun _ hs => ⟨hs.testsToLaunch, hs.launched⟩

theorem untouched_keptByBooking : KeptByBooking lib o d (Untouched tests) where
  locals := fun _ _ _ _ hs => ⟨hs.testsToLaunch, hs.launched⟩
  getServers := by
    intro s howMany os poolId a hs
    refine untouched_of_eq hs rfl ?_
    dsimp only
    split
    · exact launchedIn_append_of_not_launched fun _ => by simp
    · rfl

theorem untouched_keeps_freeServers : Keeps (Untouched tests) (freeServers lib o e d) :=
  keeps_freeServers (untouched_keeps_releaseServers _ d) fun _ _ _ hs => ⟨hs.testsToLaunch, hs.launched⟩

theorem leftBy_keeps_handler : Keeps (LeftBy o e tests) (handler lib o e) := by
  refine keeps_handler fun s hs d _ => ?_
  have hkeeps : Keeps (LeftBy o e tests) (releaseServers lib o e.handlerWorks d) := by
    refine keeps_releaseServers (fun s hs => ?_) fun _ hs => hs
    rw [LeftBy, launchedIn_append_of_not_launched fun _ => by simp]
    exact hs
  exact hkeeps s hs

/-! ## The end of an iteration -/

/-- A command that takes a state in which nothing is launched yet to one the iteration may end in. -/
def Finishes (o : Options) (e : Env) (tests : List Test) (p : Prog State Unit) : Prop :=
  ∀ s, Untouched tests s → LeftBy o e tests (p s).2

theorem finishes_of_keeps {p : Prog State Unit} (hp : Keeps (Untouched tests) p) : Finishes o e tests p :=
  fun s hs => (hp s hs).leftBy

theorem Finishes.seq {p q : Prog State Unit} (hp : Keeps (Untouched tests) p) (hq : Finishes o e tests q) :
    Finishes o e tests (p.seq q) := by
  intro s hs
  have hs' := hp s hs
  rcases hres : p s with ⟨_ | _, s'⟩
  · rw [seq_of_error hres]
    rw [hres] at hs'
    exact hs'.leftBy
  · rw [seq_of_ok hres]
    rw [hres] at hs'
    exact hq s' hs'

theorem launch_cases (e : Env) (d : String) (s : State) :
    launch e d s = (.error (), s) ∨ launch e d s = (.ok (), { s with calls := s.calls ++ [.launched d] }) := by
  rw [launch]
  rcases hcredentials : e.credentialsRaise with _ | _
  · rw [mayRaise_false_seq]
    rcases hstatus : e.status with _ | status
    · exact .inl rfl
    · by_cases hlow : status < 400
      · simp [hlow]
      · simp [hlow]
  · exact .inl rfl

/-- From the launch on the test is taken, unless the step between raises. -/
theorem finishes_launch (hjob : chooseJob o e tests = .ok (some job)) :
    Finishes o e tests
      ((launch e d).seq <| (mayRaise e.countRaises).seq <| (popTest job.i).seq (mayRaise e.sleepRaises)) := by
  intro s hs
  rcases launch_cases e d s with hlaunch | hlaunch
  · rw [seq_of_error hlaunch]
    exact hs.leftBy
  rw [seq_of_ok hlaunch]
  have hcalls : launchedIn (s.calls ++ [.launched d]) = [d] := by
    rw [launchedIn_append_launched, hs.launched, List.nil_append]
  rcases hcount : e.countRaises with _ | _
  · -- `popTest` is reached, and what raises after it leaves the list as it is
    have hleft : LeftBy o e tests
        { s with calls := s.calls ++ [.launched d], testsToLaunch := s.testsToLaunch.eraseIdx job.i } := by
      rw [LeftBy, hcalls, hs.testsToLaunch]
      exact .launched job hjob d
    rw [mayRaise_false_seq]
    exact hleft
  · have hraise : ∀ s, mayRaise true s = (.error (), s) := fun _ => rfl
    rw [seq_of_error (hraise _), LeftBy, hcalls, hs.testsToLaunch]
    exact .stays job hjob d hcount

theorem finishes_popTest (i : ℕ) (hskips : Skips o e) : Finishes o e tests (popTest i) := by
  intro s hs
  rw [LeftBy, popTest, hs.testsToLaunch, hs.launched]
  exact .skipped i hskips

theorem finishes_dispatch (hjob : chooseJob o e tests = .ok (some job)) :
    Finishes o e tests (dispatch lib o e d job) := by
  refine Finishes.seq (keeps_mayRaise _) ?_
  rcases hdispatch : job.dispatchJob with _ | _
  · obtain ⟨hfresh, hshould⟩ := dispatchJob_of_chooseJob hjob hdispatch
    refine Finishes.seq untouched_keeps_freeServers (Finishes.seq (keeps_mayRaise _) fun s hs => ?_)
    have hpop : LeftBy o e tests (popTest job.i s).2 :=
      finishes_popTest job.i (.notDispatched hfresh hshould) s hs
    exact keeps_mayRaise _ _ hpop
  · exact finishes_launch hjob

theorem finishes_inviteAndDispatch (hjob : chooseJob o e tests = .ok (some job)) :
    Finishes o e tests (inviteAndDispatch lib o e d job) := by
  rw [inviteAndDispatch]
  split
  · next hcapella =>
      split
      · exact finishes_of_keeps (keeps_mayRaise _)
      · split
        · exact finishes_dispatch hjob
        · split
          · exact finishes_of_keeps (keeps_mayRaise _)
          · next hinvited => exact finishes_popTest job.i (.notInvited hcapella hinvited)
          · exact finishes_dispatch hjob
  · exact finishes_dispatch hjob

theorem finishes_attempt (hjob : chooseJob o e tests = .ok (some job)) :
    Finishes o e tests (attempt lib o e d job) := by
  rw [attempt_eq]
  refine Finishes.seq (keeps_bookServers untouched_keptByBooking) fun s hs => ?_
  rw [afterServers]
  split
  · exact finishes_of_keeps (untouched_keeps_releaseServers _ d) s hs
  · refine Finishes.seq (keeps_bookAddl untouched_keptByBooking) (fun s hs => ?_) s hs
    rw [afterBooking]
    split
    · exact finishes_of_keeps (untouched_keeps_releaseServers _ d) s hs
    · exact Finishes.seq (keeps_mayRaise _)
        (Finishes.seq (fun _ hs => ⟨hs.testsToLaunch, hs.launched⟩)
          (Finishes.seq (keeps_mayRaise _) (finishes_inviteAndDispatch hjob))) s hs

/-! ## One iteration -/

theorem finishes_body (tests : List Test) (lib : Library) (o : Options) (e : Env) :
    Finishes o e tests (body lib o e) := by
  intro s hs
  have hassign : ∀ d', Keeps (Untouched tests) (assign d') := fun _ _ hs => ⟨hs.testsToLaunch, hs.launched⟩
  rw [body]
  split
  · next hno =>
      exact Finishes.seq (keeps_mayRaise _)
        (Finishes.seq (hassign "descriptor") (Finishes.seq (keeps_mayRaise _) (finishes_popTest 0 (.noLaunch hno))))
        s hs
  · split
    · exact hs.leftBy
    · exact hs.leftBy
    · next job hchoose =>
        rw [hs.testsToLaunch] at hchoose
        exact Finishes.seq (hassign _)
          (Finishes.seq (keeps_mayRaise _) (Finishes.seq (hassign _) (finishes_attempt hchoose))) s hs

/-- **An iteration** takes at most one test, and launches at most the job of the test it has chosen. -/
theorem iterate_leaves (lib : Library) (o : Options) (e : Env) (s : State) :
    Leaves o e s.testsToLaunch (iterate lib o e s).testsToLaunch (launchedIn (iterate lib o e s).calls) := by
  have hbody : LeftBy o e s.testsToLaunch (body lib o e (s.enter e)).2 :=
    finishes_body s.testsToLaunch lib o e (s.enter e) ⟨rfl, rfl⟩
  change LeftBy o e s.testsToLaunch ((body lib o e).tryExcept _ (s.enter e)).2
  rcases hres : body lib o e (s.enter e) with ⟨_ | _, s'⟩
  · rw [tryExcept_of_error hres]
    rw [hres] at hbody
    exact leftBy_keeps_handler s' hbody
  · rw [tryExcept_of_ok (by rw [hres])]
    exact hbody

end Calls

/-! ## Runs -/

section Runs

variable (lib : Library) (o : Options)

/-- The jobs an iteration has launched, with the test it has chosen. -/
def launchesOf (e : Env) (s : State) : List (Test × String) :=
  match chooseJob o e s.testsToLaunch with
  | .ok (some job) => (launchedIn (iterate lib o e s).calls).map fun d => (job.test, d)
  | _ => []

/-- The tests an iteration has taken without having launched a job. -/
def passedOverBy (e : Env) (s : State) : List Test :=
  if launchedIn (iterate lib o e s).calls = [] then s.testsToLaunch.diff (iterate lib o e s).testsToLaunch else []

/-- The jobs launched in a run, with their tests. -/
def launches : List Env → State → List (Test × String)
  | [], _ => []
  | e :: rest, s => if s.testsToLaunch = [] then [] else launchesOf lib o e s ++ launches rest (iterate lib o e s)

/-- The tests that a run has passed over. -/
def passedOver : List Env → State → List Test
  | [], _ => []
  | e :: rest, s => if s.testsToLaunch = [] then [] else passedOverBy lib o e s ++ passedOver rest (iterate lib o e s)

/-- The tests that are left after a run. -/
def testsLeft (es : List Env) (s : State) : List Test := ((trace lib o es s).getLastD s).testsToLaunch

end Runs

section Balance

variable {lib : Library} {o : Options}

theorem launchesOf_snd (e : Env) (s : State) :
    (launchesOf lib o e s).map Prod.snd = launchedIn (iterate lib o e s).calls := by
  have hleaves := iterate_leaves lib o e s
  rw [launchesOf]
  split
  · simp [Function.comp_def]
  · next hnone =>
      generalize launchedIn (iterate lib o e s).calls = launched at hleaves
      generalize (iterate lib o e s).testsToLaunch = tests at hleaves
      rcases hleaves with _ | ⟨job, hjob, d⟩ | _ | ⟨job, hjob, d, -⟩
      · rfl
      · exact absurd hjob (hnone job)
      · rfl
      · exact absurd hjob (hnone job)

/-- The tests before an iteration are those it launches, passes over and leaves, but for one that stays after its
    launch. -/
theorem iterate_perm (lib : Library) (o : Options) (e : Env) (s : State) :
    ∃ again : List Test, again.length ≤ (if e.countRaises then 1 else 0) ∧
      ((launchesOf lib o e s).map Prod.fst ++ passedOverBy lib o e s ++ (iterate lib o e s).testsToLaunch).Perm
        (s.testsToLaunch ++ again) := by
  have hleaves := iterate_leaves lib o e s
  rw [launchesOf, passedOverBy]
  generalize launchedIn (iterate lib o e s).calls = launched at hleaves
  generalize (iterate lib o e s).testsToLaunch = tests at hleaves
  have hdiff : tests.Sublist s.testsToLaunch → (s.testsToLaunch.diff tests ++ tests).Perm s.testsToLaunch := by
    intro hsub
    exact List.perm_append_comm.trans
      (List.subperm_append_diff_self_of_count_le fun x _ => hsub.count_le x)
  have hnothing : ∀ (r : Except Unit (Option Job)),
      (match r with
        | .ok (some job) => ([] : List String).map fun d => (job.test, d)
        | _ => []) = [] := by
    intro r
    split
    · rfl
    · rfl
  rcases hleaves with _ | ⟨job, hjob, d⟩ | ⟨i, -⟩ | ⟨job, hjob, d, hraises⟩
  · refine ⟨[], by simp, ?_⟩
    rw [hnothing, if_pos rfl, List.append_nil]
    exact hdiff (List.Sublist.refl _)
  · refine ⟨[], by simp, ?_⟩
    rw [hjob, if_neg (by simp), List.append_nil, List.append_nil]
    obtain ⟨hlt, hget⟩ := List.getElem?_eq_some_iff.1 (chooseJob_getElem? hjob)
    simp only [List.map_cons, List.map_nil, List.singleton_append]
    rw [← hget]
    exact List.getElem_cons_eraseIdx_perm hlt
  · refine ⟨[], by simp, ?_⟩
    rw [hnothing, if_pos rfl, List.append_nil]
    exact hdiff (List.eraseIdx_sublist _ _)
  · refine ⟨[job.test], by simp [hraises], ?_⟩
    rw [hjob, if_neg (by simp), List.append_nil]
    exact List.perm_append_comm

theorem diff_self (tests : List Test) : tests.diff tests = [] := by
  have hperm : (tests ++ tests.diff tests).Perm tests :=
    List.subperm_append_diff_self_of_count_le fun _ _ => Nat.le_refl _
  have hlength := hperm.length_eq
  rw [List.length_append] at hlength
  exact List.length_eq_zero_iff.1 (by omega)

theorem passedOverBy_eq_nil {e : Env} {s : State} (hno : o.noLaunch = false)
    (hdispatch : o.freshRun = true ∨ e.shouldDispatch ≠ some false) (hinvited : e.invited ≠ some false) :
    passedOverBy lib o e s = [] := by
  have hleaves := iterate_leaves lib o e s
  rw [passedOverBy]
  generalize launchedIn (iterate lib o e s).calls = launched at hleaves
  generalize (iterate lib o e s).testsToLaunch = tests at hleaves
  rcases hleaves with _ | ⟨job, hjob, d⟩ | ⟨i, hskips⟩ | ⟨job, hjob, d, hraises⟩
  · rw [if_pos rfl, diff_self]
  · exact if_neg (by simp)
  · rcases hskips with hno' | ⟨hfresh, hshould⟩ | ⟨-, hinvited'⟩
    · simp [hno] at hno'
    · rcases hdispatch with hfresh' | hshould'
      · simp [hfresh] at hfresh'
      · exact absurd hshould hshould'
    · exact absurd hinvited' hinvited
  · exact if_neg (by simp)

variable (lib o)

theorem launches_snd (es : List Env) (s : State) :
    ((trace lib o es s).flatMap fun b => launchedIn b.calls) = (launches lib o es s).map Prod.snd := by
  induction es generalizing s with
  | nil => rfl
  | cons e rest ih =>
      rw [trace, launches]
      split
      · rfl
      · rw [List.flatMap_cons, List.map_append, launchesOf_snd, ih]

theorem run_perm (es : List Env) (s : State) :
    ∃ again : List Test, again.length ≤ (es.filter fun e => e.countRaises).length ∧
      ((launches lib o es s).map Prod.fst ++ passedOver lib o es s ++ testsLeft lib o es s).Perm
        (s.testsToLaunch ++ again) := by
  induction es generalizing s with
  | nil => exact ⟨[], by simp, by simp [launches, passedOver, testsLeft, trace]⟩
  | cons e rest ih =>
      by_cases hempty : s.testsToLaunch = []
      · refine ⟨[], by simp, ?_⟩
        simp [launches, passedOver, testsLeft, trace, hempty]
      · obtain ⟨here, hhere, hperm⟩ := iterate_perm lib o e s
        obtain ⟨later, hlater, hrest⟩ := ih (iterate lib o e s)
        refine ⟨here ++ later, ?_, ?_⟩
        · rw [List.length_append, List.filter_cons]
          split at hhere
          · next hraises => simp only [hraises, if_true, List.length_cons]; omega
          · next hraises => simp only [hraises]; simp; omega
        · have hleft : testsLeft lib o (e :: rest) s = testsLeft lib o rest (iterate lib o e s) := by
            rw [testsLeft, trace, if_neg hempty, List.getLastD_cons, testsLeft]
          rw [launches, if_neg hempty, passedOver, if_neg hempty, hleft]
          rw [List.perm_iff_count] at hperm hrest ⊢
          intro t
          have hnow := hperm t
          have hthen := hrest t
          simp only [List.map_append, List.count_append] at hnow hthen ⊢
          omega

theorem passedOver_eq_nil (hno : o.noLaunch = false) {es : List Env}
    (h : ∀ e ∈ es, (o.freshRun = true ∨ e.shouldDispatch ≠ some false) ∧ e.invited ≠ some false) (s : State) :
    passedOver lib o es s = [] := by
  induction es generalizing s with
  | nil => rfl
  | cons e rest ih =>
      obtain ⟨⟨hdispatch, hinvited⟩, hrest⟩ := List.forall_mem_cons.1 h
      rw [passedOver, passedOverBy_eq_nil hno hdispatch hinvited, ih hrest]
      simp

/-- **Every test is dispatched once**: in every run the tests whose jobs were launched, the tests passed over and the
    tests left make up the tests it began with, and there are no other launches. A test is launched once more only for
    an iteration that raised after the launch and before the `pop`. None is passed over unless nothing is launched,
    `should_dispatch_job` says no or no user can be invited. -/
theorem launches_perm (es : List Env) (s : State) :
    (trace lib o es s).flatMap (fun b => launchedIn b.calls) = (launches lib o es s).map Prod.snd ∧
      (∃ again : List Test, again.length ≤ (es.filter fun e => e.countRaises).length ∧
        ((launches lib o es s).map Prod.fst ++ passedOver lib o es s ++ testsLeft lib o es s).Perm
          (s.testsToLaunch ++ again)) ∧
      (o.noLaunch = false →
        (∀ e ∈ es, (o.freshRun = true ∨ e.shouldDispatch ≠ some false) ∧ e.invited ≠ some false) →
          passedOver lib o es s = []) :=
  ⟨launches_snd lib o es s, run_perm lib o es s, fun hno h => passedOver_eq_nil lib o hno h s⟩

end Balance

/-- The second request is refused, and made again. -/
def refusedThenLaunched : List Env :=
  refusedRun ++ [goodEnv "Jan-01-10:01:30" (samplePool.del "10.0.0.1")]

/-- Both tests are launched once, and the refused one is not lost. -/
theorem launches_perm_refused :
    (launches sampleLibrary (sampleOptions .vm) refusedThenLaunched
        (sampleState [sampleTest "a", sampleTest "b"])).map Prod.fst = [sampleTest "a", sampleTest "b"] ∧
      testsLeft sampleLibrary (sampleOptions .vm) refusedThenLaunched
        (sampleState [sampleTest "a", sampleTest "b"]) = [] ∧
      passedOver sampleLibrary (sampleOptions .vm) refusedThenLaunched
        (sampleState [sampleTest "a", sampleTest "b"]) = [] := by
  refine ⟨by decide +kernel, by decide +kernel, ?_⟩
  refine (launches_perm sampleLibrary (sampleOptions .vm) refusedThenLaunched _).2.2 rfl fun e he => ?_
  simp only [refusedThenLaunched, refusedRun, List.cons_append, List.nil_append, List.mem_cons, List.not_mem_nil,
    or_false] at he
  rcases he with rfl | rfl | rfl
  · exact ⟨.inl rfl, by simp [goodEnv]⟩
  · exact ⟨.inl rfl, by simp [goodEnv]⟩
  · exact ⟨.inl rfl, by simp [goodEnv]⟩

end Dispatcher

end TestInfra
