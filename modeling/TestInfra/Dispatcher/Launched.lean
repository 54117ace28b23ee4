import TestInfra.Dispatcher.Steps

set_option autoImplicit false

/-! # What a launched job keeps and what a failed attempt leaves

Two things are asked of a run of the dispatcher: no later iteration releases the servers of a job that has
been launched, and an attempt that books but does not launch leaves nothing booked. Neither holds in
every run. The handler releases under the descriptor of an **earlier** iteration when the current one
raises before it has its own, and for dockers nothing that an iteration has booked is ever freed. `Meets`
names the runs in which neither happens. -/

namespace TestInfra

namespace Dispatcher

open Raises Raises.Prog

/-! ## The condition -/

/-- An iteration of a docker run has everything it needs to launch the job once it has started to book. -/
structure Clear (lib : Library) (o : Options) (e : Env) (descriptor : String) (job : Job) (s : State) :
    Prop where
  booked : ∃ s', (bookServers lib o e descriptor job).seq (bookAddl lib o e descriptor job) s = (.ok (), s') ∧
    s'.addlServers.length = job.test.addPoolServerCount
  urlRaises : e.urlRaises = false
  jobRaises : e.jobRaises = false
  jobParamsRaise : e.jobParamsRaise = false
  dispatchJob : job.dispatchJob = true
  credentialsRaise : e.credentialsRaise = false
  status : ∃ status, e.status = some status ∧ status < 400

/-- No docker host of the pools the job asks would be booked on. -/
structure NothingFree (o : Options) (descriptor : String) (job : Job) (hosts : ServerManager.Hosts) :
    Prop where
  servers : (o.checkVm = true ∧ job.test.serverCount = 0) ∨
    (ServerManager.getDockers descriptor job.test.serverCount job.poolToUse hosts).1 = []
  addl : job.test.addPoolServerCount = 0 ∨
    (ServerManager.getDockers descriptor job.test.addPoolServerCount job.test.addPoolId hosts).1 = []

/-- The condition on one iteration. `launched` has the descriptors of the jobs launched before. -/
structure Safe (lib : Library) (o : Options) (launched : List String) (e : Env) (s : State) : Prop where
  /-- When the iteration raises before it has assigned its descriptor, the one in scope is not that of a
      launched job. -/
  early : chooseJob o e s.testsToLaunch = .error () → ∀ d ∈ s.descriptor, d ∉ launched
  /-- Its own descriptor is not that of a launched job. -/
  fresh : ∀ job, chooseJob o e s.testsToLaunch = .ok (some job) →
    scopeDescriptor lib o e job.test ∉ launched
  /-- Nothing of another kind than the run books is booked under it by somebody else. -/
  unused : ∀ job, chooseJob o e s.testsToLaunch = .ok (some job) → ∀ kind ≠ o.serverType.kind,
    (e.others s.world).bookedAs lib o (jobDescriptor lib o e job.test) kind = false
  /-- Its releases work, or raise so that the handler releases. -/
  releaseWorks : e.releaseWorks = true ∨ o.serverType.releaseRaises = true
  handlerWorks : e.handlerWorks = true
  /-- In a docker run it launches, or there is nothing to book. -/
  dockers : o.serverType = .docker → ∀ job, chooseJob o e s.testsToLaunch = .ok (some job) →
    NothingFree o (jobDescriptor lib o e job.test) job (e.others s.world).hosts ∨
      Clear lib o e (jobDescriptor lib o e job.test) job
        { s.enter e with descriptor := some (jobDescriptor lib o e job.test) }

/-- The descriptors of the jobs that an iteration has launched. -/
def launchedIn (calls : List Call) : List String :=
  calls.filterMap fun
    | .launched d => some d
    | _ => none

/-- Every iteration of the run meets the condition. -/
def Meets (lib : Library) (o : Options) : List String → List Env → State → Prop
  | _, [], _ => True
  | launched, e :: rest, s =>
      s.testsToLaunch ≠ [] → Safe lib o launched e s ∧
        Meets lib o (launched ++ launchedIn (iterate lib o e s).calls) rest (iterate lib o e s)

theorem mem_launchedIn {d : String} {calls : List Call} :
    d ∈ launchedIn calls ↔ Call.launched d ∈ calls := by
  rw [launchedIn, List.mem_filterMap]
  constructor
  · rintro ⟨call, hmem, heq⟩
    rcases call with _ | _ | d'
    · cases heq
    · cases heq
    · cases heq
      exact hmem
  · intro hmem
    exact ⟨_, hmem, rfl⟩

/-! ## What the steps do to the bookings -/

section Bookings

variable {lib : Library} {o : Options} {e : Env} {d : String} {job : Job} {s : State}

/-- `get_servers` books in one place only. -/
theorem bookedAs_getServers {kind : Kind} (hkind : kind ≠ o.serverType.kind) (howMany : ℕ)
    (os poolId : String) (a : Answer) (w : World) :
    (getServers lib o d howMany os poolId a w).2.1.bookedAs lib o d kind = w.bookedAs lib o d kind := by
  rw [getServers]
  rcases htype : o.serverType <;> rw [htype] at hkind <;> rcases kind <;>
    first
    | rfl
    | exact absurd rfl hkind

/-- Nothing is booked for Capella. -/
theorem getServers_onCapella (hcapella : o.serverType.onCapella = true) (howMany : ℕ) (os poolId : String)
    (a : Answer) (w : World) : (getServers lib o d howMany os poolId a w).2.2 = false := by
  rw [getServers]
  rcases htype : o.serverType <;> rw [htype] at hcapella <;> first | rfl | cases hcapella

/-- A release that works leaves nothing booked, if it looks in the right place. -/
theorem bookedAs_freed (hdocker : o.serverType ≠ .docker) (hcapella : o.serverType.onCapella = false)
    (w : World) : (w.freed lib o d).bookedAs lib o d o.serverType.kind = false := by
  rw [World.freed, if_neg (by simp [hcapella])]
  by_cases hcloud : o.serverType.onCloud = true
  · have hkind : o.serverType.kind = .instances := by
      rcases htype : o.serverType <;> rw [htype] at hcloud <;> first | rfl | cases hcloud
    rw [if_pos hcloud, hkind, World.bookedAs, List.any_eq_false]
    intro name hmem hnamed
    have hkept := (List.mem_filter.1 hmem).2
    rw [hnamed] at hkept
    cases hkept
  · have hkind : o.serverType.kind = .servers := by
      rcases htype : o.serverType <;> rw [htype] at hcloud hdocker <;>
        first | rfl | exact absurd rfl hcloud | exact absurd rfl hdocker
    rw [if_neg hcloud, hkind]
    exact ServerManager.anyBookedBy_releaseServers d (by decide) w.servers

/-- A release takes only away. -/
theorem bookedAs_freed_of_false {kind : Kind} (w : World) (h : w.bookedAs lib o d kind = false) :
    (w.freed lib o d).bookedAs lib o d kind = false := by
  rw [World.freed]
  split
  · exact h
  · split
    · rcases kind with _ | _ | _
      · exact h
      · exact h
      · rw [World.bookedAs, List.any_eq_false] at h ⊢
        intro name hmem
        exact h name (List.mem_of_mem_filter hmem)
    · rcases kind with _ | _ | _
      · exact ServerManager.anyBookedBy_releaseServers d (by decide) w.servers
      · exact h
      · exact h

theorem anyBookedBy_markUnreachable (ips : List String) {pool : ServerManager.Pool}
    (h : ServerManager.anyBookedBy d pool = false) :
    ServerManager.anyBookedBy d
      (ips.foldl (fun pool ip => ServerManager.releaseIp ip "ssh_failed" pool) pool) = false := by
  induction ips generalizing pool with
  | nil => exact h
  | cons ip rest ih => exact ih (ServerManager.anyBookedBy_releaseIp (by decide) ip h)

/-- `get_dockers` that returns no address has changed nothing. -/
theorem bookHosts_of_nil {username : String} {count : Int}
    {rows : List (String × ServerManager.DockerHost)} {hosts : ServerManager.Hosts}
    (h : (ServerManager.bookHosts username count rows hosts).1 = []) :
    ServerManager.bookHosts username count rows hosts = ([], hosts) := by
  induction rows with
  | nil => rfl
  | cons row rest ih =>
      rw [ServerManager.bookHosts] at h ⊢
      split at h
      · rfl
      · exact ih h
      · cases h

/-! ## Attempts that do not launch -/

/-- The descriptor in scope is that of the attempt, and nothing has been booked under another one. -/
structure Own (d : String) (s : State) : Prop where
  descriptor : s.descriptor = some d
  booked : ∀ d', Call.booked d' ∈ s.calls → d' = d

/-- Nothing of another kind is booked under the descriptor. -/
def NotElsewhere (lib : Library) (o : Options) (d : String) (s : State) : Prop :=
  ∀ kind ≠ o.serverType.kind, s.world.bookedAs lib o d kind = false

/-- Nothing has been booked in this iteration. -/
def NoBooking (s : State) : Prop := ∀ d', Call.booked d' ∉ s.calls

/-- The job is launched or nothing is booked under its descriptor. -/
def Settled (lib : Library) (o : Options) (d : String) (s : State) : Prop :=
  Call.launched d ∈ s.calls ∨ s.world.bookedAs lib o d o.serverType.kind = false

theorem mem_append_ne {calls : List Call} {call call' : Call} (hne : call ≠ call') :
    call ∈ calls ++ [call'] ↔ call ∈ calls := by
  rw [List.mem_append, List.mem_singleton]
  exact or_iff_left hne

theorem keeps_freeServers {I : State → Prop} (hrelease : Keeps I (releaseServers lib o e.releaseWorks d))
    (hdocker : ∀ (s : State) (hosts : ServerManager.Hosts), o.serverType = .docker → I s →
      I { s with world := { s.world with hosts := hosts } }) : Keeps I (freeServers lib o e d) := by
  rw [freeServers]
  split
  · next htype =>
      intro s hs
      dsimp only
      split
      · exact hs
      · exact hdocker s _ htype hs
  · exact hrelease

theorem own_keeps_releaseServers (works : Bool) (d' : String) :
    Keeps (Own d) (releaseServers lib o works d') := by
  refine keeps_releaseServers ?_ fun s hs => ⟨hs.descriptor, hs.booked⟩
  intro s hs
  refine ⟨hs.descriptor, ?_⟩
  intro d'' hmem
  exact hs.booked d'' ((mem_append_ne (by simp)).1 hmem)

theorem own_keptByBooking : KeptByBooking lib o d (Own d) where
  locals := fun _ _ _ _ hs => ⟨hs.descriptor, hs.booked⟩
  getServers := by
    intro s howMany os poolId a hs
    refine ⟨hs.descriptor, ?_⟩
    intro d' hmem
    dsimp only at hmem
    split at hmem
    · rcases List.mem_append.1 hmem with hmem | hmem
      · exact hs.booked d' hmem
      · cases List.mem_singleton.1 hmem
        rfl
    · exact hs.booked d' hmem

theorem own_keptByDispatch : KeptByDispatch lib o e d (Own d) where
  popTest := fun _ _ hs => ⟨hs.descriptor, hs.booked⟩
  markUnreachable := fun _ hs => ⟨hs.descriptor, hs.booked⟩
  releaseServers := own_keeps_releaseServers _ d
  freeServers := keeps_freeServers (own_keeps_releaseServers _ d) fun _ _ _ hs => ⟨hs.descriptor, hs.booked⟩
  launch := by
    refine keeps_launch ?_
    intro s hs
    refine ⟨hs.descriptor, ?_⟩
    intro d' hmem
    exact hs.booked d' ((mem_append_ne (by simp)).1 hmem)

theorem notElsewhere_keeps_releaseServers (works : Bool) :
    Keeps (NotElsewhere lib o d) (releaseServers lib o works d) :=
  keeps_releaseServers (fun _ hs => hs) fun s hs kind hkind => bookedAs_freed_of_false s.world (hs kind hkind)

theorem notElsewhere_keptByBooking : KeptByBooking lib o d (NotElsewhere lib o d) where
  locals := fun _ _ _ _ hs => hs
  getServers := by
    intro s howMany os poolId a hs kind hkind
    exact (bookedAs_getServers hkind howMany os poolId a s.world).trans (hs kind hkind)

theorem notElsewhere_keptByDispatch : KeptByDispatch lib o e d (NotElsewhere lib o d) where
  popTest := fun _ _ hs => hs
  markUnreachable := by
    intro s hs kind hkind
    rcases kind with _ | _ | _
    · exact anyBookedBy_markUnreachable _ (hs .servers hkind)
    · exact hs .dockers hkind
    · exact hs .instances hkind
  releaseServers := notElsewhere_keeps_releaseServers _
  freeServers := by
    refine keeps_freeServers (notElsewhere_keeps_releaseServers _) ?_
    intro s hosts htype hs kind hkind
    rcases kind with _ | _ | _
    · exact hs .servers hkind
    · exact absurd (by rw [htype]; rfl) hkind
    · exact hs .instances hkind
  launch := keeps_launch fun _ hs => hs

theorem noBooking_keeps_releaseServers (works : Bool) (d' : String) :
    Keeps NoBooking (releaseServers lib o works d') := by
  refine keeps_releaseServers ?_ fun _ hs => hs
  intro s hs d'' hmem
  exact hs d'' ((mem_append_ne (by simp)).1 hmem)

theorem noBooking_keptByDispatch : KeptByDispatch lib o e d NoBooking where
  popTest := fun _ _ hs => hs
  markUnreachable := fun _ hs => hs
  releaseServers := noBooking_keeps_releaseServers _ d
  freeServers := keeps_freeServers (noBooking_keeps_releaseServers _ d) fun _ _ _ hs => hs
  launch := by
    refine keeps_launch ?_
    intro s hs d' hmem
    exact hs d' ((mem_append_ne (by simp)).1 hmem)

theorem noBooking_keeps_handler : Keeps NoBooking (handler lib o e) :=
  keeps_handler fun s hs d' _ => noBooking_keeps_releaseServers _ d' s hs

theorem noBooking_keptByBooking (hcapella : o.serverType.onCapella = true) :
    KeptByBooking lib o d NoBooking where
  locals := fun _ _ _ _ hs => hs
  getServers := by
    intro s howMany os poolId a hs d' hmem
    rw [getServers_onCapella hcapella] at hmem
    exact hs d' hmem

/-! ## Servers and instances -/

theorem ends_releaseServers (hdocker : o.serverType ≠ .docker) (hcapella : o.serverType.onCapella = false)
    (hworks : e.releaseWorks = true ∨ o.serverType.releaseRaises = true) :
    Ends (Settled lib o d) (releaseServers lib o e.releaseWorks d) := by
  intro s s' h
  rw [releaseServers] at h
  split at h
  · obtain ⟨-, rfl⟩ := Prod.mk.inj h
    exact Or.inr (bookedAs_freed hdocker hcapella _)
  · next hfails =>
      -- a release that fails here raises
      rw [if_pos (hworks.resolve_left hfails)] at h
      cases h

theorem ends_launch : Ends (Settled lib o d) (launch e d) := by
  refine Ends.seq _ ?_
  intro s s' h
  dsimp only at h
  split at h
  · cases h
  · split at h
    · obtain ⟨-, rfl⟩ := Prod.mk.inj h
      exact Or.inl (List.mem_append_right _ List.mem_cons_self)
    · cases h

theorem ends_dispatch (hdocker : o.serverType ≠ .docker) (hcapella : o.serverType.onCapella = false)
    (hworks : e.releaseWorks = true ∨ o.serverType.releaseRaises = true) :
    Ends (Settled lib o d) (dispatch lib o e d job) := by
  refine Ends.seq _ (Ends.seq_keeps ?_ ?_)
  · split
    · exact ends_launch
    · rw [freeServers, if_neg hdocker]
      exact ends_releaseServers hdocker hcapella hworks
  · have hpop : Keeps (Settled lib o d) (popTest job.i) := fun _ hs => hs
    exact (keeps_mayRaise _).seq (hpop.seq (keeps_mayRaise _))

/-- An attempt that comes to its end without raising has launched the job or freed its servers. -/
theorem ends_attempt (hdocker : o.serverType ≠ .docker) (hcapella : o.serverType.onCapella = false)
    (hworks : e.releaseWorks = true ∨ o.serverType.releaseRaises = true) :
    Ends (Settled lib o d) (attempt lib o e d job) := by
  have hrelease : Ends (Settled lib o d) (releaseServers lib o e.releaseWorks d) :=
    ends_releaseServers hdocker hcapella hworks
  have hinvite : Ends (Settled lib o d) (inviteAndDispatch lib o e d job) := by
    rw [inviteAndDispatch, if_neg (by simp [hcapella])]
    exact ends_dispatch hdocker hcapella hworks
  have hafter : Ends (Settled lib o d) (afterBooking lib o e d job) := by
    intro s s' h
    rw [afterBooking] at h
    split at h
    · exact hrelease s s' h
    · exact Ends.seq _ (Ends.seq _ (Ends.seq _ hinvite)) s s' h
  rw [attempt_eq]
  refine Ends.seq _ ?_
  intro s s' h
  rw [afterServers] at h
  split at h
  · exact hrelease s s' h
  · exact Ends.seq _ hafter s s' h

/-! ## Dockers -/

variable (lib) in
/-- A call that finds no docker host changes nothing. -/
theorem callGetServers_of_nothing (hdocker : o.serverType = .docker) {howMany : ℕ} {poolId : String}
    (h : (ServerManager.getDockers d howMany poolId s.world.hosts).1 = []) (os : String) (a : Answer)
    (store : List String → State → State) :
    callGetServers lib o d howMany os poolId a store s = (.ok (), store [] s) := by
  have hdockers := bookHosts_of_nil h
  rw [callGetServers, getServers, hdocker]
  dsimp only
  rw [ServerManager.getDockers, hdockers]
  rfl

theorem bookChecked_of_nothing (hdocker : o.serverType = .docker)
    (h : job.test.serverCount = 0 ∨
      (ServerManager.getDockers d job.test.serverCount job.poolToUse s.world.hosts).1 = [])
    (rounds : List Round) (hservers : s.servers = []) :
    (bookChecked lib o d job rounds s).2.world.hosts = s.world.hosts ∧
      (bookChecked lib o d job rounds s).2.calls = s.calls := by
  induction rounds generalizing s with
  | nil => exact ⟨rfl, rfl⟩
  | cons r rest ih =>
      simp only [bookChecked]
      split
      · next hless =>
          have hfree : (ServerManager.getDockers d job.test.serverCount job.poolToUse s.world.hosts).1 = [] := by
            refine h.resolve_left ?_
            rw [hservers, List.length_nil] at hless
            omega
          have hcount : ((job.test.serverCount - s.servers.length : ℕ) : Int) = job.test.serverCount := by
            rw [hservers, List.length_nil, Nat.sub_zero]
          rw [seq_of_ok (callGetServers_of_nothing lib hdocker (by rw [hcount]; exact hfree) _ _ _)]
          rcases hcheck : r.checkRaises with _ | _
          · rw [mayRaise_false_seq]
            refine ih ?_ ?_
            · exact h
            · rw [hservers]
              rfl
          · exact ⟨rfl, rfl⟩
      · exact ⟨rfl, rfl⟩

/-- With nothing free a docker run books nothing. -/
theorem noBooking_of_nothingFree (hdocker : o.serverType = .docker) (h : NothingFree o d job s.world.hosts)
    (hs : NoBooking s) : NoBooking (attempt lib o e d job s).2 := by
  have hservers : (bookServers lib o e d job s).2.world.hosts = s.world.hosts ∧
      (bookServers lib o e d job s).2.calls = s.calls := by
    rw [bookServers]
    split
    · refine bookChecked_of_nothing hdocker ?_ e.rounds rfl
      rcases h.servers with ⟨-, hzero⟩ | hnil
      · exact Or.inl hzero
      · exact Or.inr hnil
    · next hcheck =>
        have hnil := h.servers.resolve_left fun hzero => hcheck hzero.1
        have hcall := callGetServers_of_nothing lib
          (s := { s with servers := [], unreachableServers := [], addlServers := [] }) hdocker hnil o.os
          e.answer fun ips s => { s with servers := ips }
        rw [hcall]
        exact ⟨rfl, rfl⟩
  have haddl : ∀ s' : State, s'.world.hosts = s.world.hosts → NoBooking s' →
      NoBooking (bookAddl lib o e d job s').2 := by
    intro s' hhosts hs'
    rw [bookAddl]
    split
    · next hcount =>
        have hnil := h.addl.resolve_left hcount
        rw [← hhosts] at hnil
        rw [callGetServers_of_nothing lib hdocker hnil]
        exact hs'
    · exact hs'
  rw [attempt_eq]
  rcases hres : bookServers lib o e d job s with ⟨_ | _, s'⟩
  · rw [seq_of_error hres]
    rw [hres] at hservers
    intro d'
    rw [hservers.2]
    exact hs d'
  · rw [seq_of_ok hres, afterServers, if_neg (by simp [hdocker])]
    rw [hres] at hservers
    have hs' : NoBooking s' := by
      intro d'
      rw [hservers.2]
      exact hs d'
    have hs'' := haddl s' hservers.1 hs'
    rcases hres' : bookAddl lib o e d job s' with ⟨_ | _, s''⟩
    · rw [seq_of_error hres']
      rw [hres'] at hs''
      exact hs''
    · rw [seq_of_ok hres']
      rw [hres'] at hs''
      exact keeps_afterBooking noBooking_keptByDispatch s'' hs''

theorem launched_keeps_handler : Keeps (fun s => Call.launched d ∈ s.calls) (handler lib o e) := by
  refine keeps_handler ?_
  intro s hs d' _
  have hkeeps : Keeps (fun s => Call.launched d ∈ s.calls) (releaseServers lib o e.handlerWorks d') :=
    keeps_releaseServers (fun _ hs => List.mem_append_left _ hs) fun _ hs => hs
  exact hkeeps s hs

/-- A docker run whose iteration is clear launches the job. -/
theorem launched_of_clear (hdocker : o.serverType = .docker) (h : Clear lib o e d job s) :
    Call.launched d ∈ (attempt lib o e d job s).2.calls := by
  obtain ⟨s'', hseq, haddl⟩ := h.booked
  obtain ⟨s', hservers, hbookAddl⟩ := exists_of_seq_ok hseq
  obtain ⟨status, hstatus, hlow⟩ := h.status
  rw [attempt_eq, seq_of_ok hservers, afterServers, if_neg (by simp [hdocker]), seq_of_ok hbookAddl,
    afterBooking, if_neg (by simp [haddl]), h.urlRaises, h.jobRaises, mayRaise_false_seq,
    markUnreachable_seq, mayRaise_false_seq, inviteAndDispatch, if_neg (by rw [hdocker]; decide), dispatch,
    h.jobParamsRaise, h.dispatchJob, mayRaise_false_seq, if_pos rfl]
  have hlaunch : ∀ s : State, launch e d s = (.ok (), { s with calls := s.calls ++ [.launched d] }) := by
    intro s
    rw [launch, h.credentialsRaise, mayRaise_false_seq, hstatus]
    exact if_pos hlow
  rw [seq_of_ok (hlaunch _)]
  have hpop : Keeps (fun s => Call.launched d ∈ s.calls) (popTest job.i) := fun _ hs => hs
  exact (keeps_mayRaise _).seq (hpop.seq (keeps_mayRaise _)) _ (List.mem_append_right _ List.mem_cons_self)

/-! ## Whole iterations -/

theorem holds_guarded {I : State → Prop} (h : I (attempt lib o e d job s).2)
    (hhandler : Keeps I (handler lib o e)) : I (guarded lib o e d job s).2 := by
  rcases hres : attempt lib o e d job s with ⟨_ | _, s'⟩
  · rw [guarded, tryExcept_of_error hres]
    rw [hres] at h
    exact hhandler s' h
  · rw [guarded, tryExcept_of_ok (by rw [hres])]
    exact h

theorem noBooking_enter (e : Env) (s : State) : NoBooking (s.enter e) := fun _ h => nomatch h

theorem own_keeps_attempt : Keeps (Own d) (attempt lib o e d job) :=
  keeps_attempt own_keptByBooking own_keptByDispatch

theorem own_keeps_guarded : Keeps (Own d) (guarded lib o e d job) :=
  keeps_tryHandler own_keeps_attempt (keeps_handler fun s hs d' _ => own_keeps_releaseServers _ d' s hs)

/-- Nothing is left anywhere else: what the handler releases is the descriptor of the attempt. -/
theorem notElsewhere_guarded (hown : Own d s) (h : NotElsewhere lib o d s) :
    NotElsewhere lib o d (guarded lib o e d job s).2 := by
  have hboth : Keeps (fun s => Own d s ∧ NotElsewhere lib o d s) (guarded lib o e d job) := by
    refine keeps_tryHandler ?_ (keeps_handler ?_)
    · intro s hs
      exact ⟨own_keeps_attempt s hs.1,
        keeps_attempt notElsewhere_keptByBooking notElsewhere_keptByDispatch s hs.2⟩
    · rintro s ⟨hown, helse⟩ d' hd'
      have hd : d' = d := Option.some.inj (hd'.symm.trans hown.descriptor)
      subst hd
      exact ⟨own_keeps_releaseServers _ d' s hown, notElsewhere_keeps_releaseServers _ s helse⟩
  exact (hboth s ⟨hown, h⟩).2

/-- For servers and instances: the attempt has come to its end, or the handler has released them. -/
theorem settled_guarded (hdocker : o.serverType ≠ .docker) (hcapella : o.serverType.onCapella = false)
    (hworks : e.releaseWorks = true ∨ o.serverType.releaseRaises = true) (hhandler : e.handlerWorks = true)
    (hown : Own d s) : Settled lib o d (guarded lib o e d job s).2 := by
  rcases hres : attempt lib o e d job s with ⟨_ | _, s'⟩
  · have hown' : Own d (attempt lib o e d job s).2 := own_keeps_attempt s hown
    rw [hres] at hown'
    rw [guarded, tryExcept_of_error hres]
    dsimp only
    rw [handler, hown'.descriptor]
    dsimp only
    rw [releaseServers, hhandler, if_pos rfl]
    exact Or.inr (bookedAs_freed hdocker hcapella _)
  · rw [guarded, tryExcept_of_ok (by rw [hres]), hres]
    exact ends_attempt hdocker hcapella hworks s s' hres

/-- What `Safe` asks of an attempt. -/
structure SafeAttempt (lib : Library) (o : Options) (e : Env) (d : String) (job : Job) (s : State) :
    Prop where
  unused : NotElsewhere lib o d s
  releaseWorks : e.releaseWorks = true ∨ o.serverType.releaseRaises = true
  handlerWorks : e.handlerWorks = true
  dockers : o.serverType = .docker → NothingFree o d job s.world.hosts ∨ Clear lib o e d job s

theorem not_booked_guarded (h : SafeAttempt lib o e d job s) (hown : Own d s) (hs : NoBooking s)
    (hbooked : Call.booked d ∈ (guarded lib o e d job s).2.calls)
    (hlaunched : Call.launched d ∉ (guarded lib o e d job s).2.calls) :
    ¬ (guarded lib o e d job s).2.world.Booked lib o d := by
  by_cases hdocker : o.serverType = .docker
  · exfalso
    rcases h.dockers hdocker with hfree | hclear
    · exact holds_guarded (noBooking_of_nothingFree hdocker hfree hs) noBooking_keeps_handler d hbooked
    · exact hlaunched (holds_guarded (launched_of_clear hdocker hclear) launched_keeps_handler)
  by_cases hcapella : o.serverType.onCapella = true
  · have hnone : Keeps NoBooking (guarded lib o e d job) :=
      keeps_tryHandler (keeps_attempt (noBooking_keptByBooking hcapella) noBooking_keptByDispatch)
        noBooking_keeps_handler
    exact absurd hbooked (hnone s hs d)
  rintro ⟨kind, hkind⟩
  by_cases hown_kind : kind = o.serverType.kind
  · have hsettled : Settled lib o d (guarded lib o e d job s).2 :=
      settled_guarded hdocker (by simpa using hcapella) h.releaseWorks h.handlerWorks hown
    rw [hown_kind] at hkind
    exact hlaunched (hsettled.resolve_right (by rw [hkind]; decide))
  · have hfalse : (guarded lib o e d job s).2.world.bookedAs lib o d kind = false :=
      notElsewhere_guarded hown h.unused kind hown_kind
    rw [hfalse] at hkind
    cases hkind

/-- Without launching, an iteration only takes its sample descriptor. -/
theorem iterate_of_noLaunch (hno : o.noLaunch = true) :
    NoBooking (iterate lib o e s) ∧ ∀ d', Call.launched d' ∉ (iterate lib o e s).calls := by
  have hbody : ∀ I : State → Prop, (∀ s d', I s → I { s with descriptor := some d' }) →
      (∀ i, Keeps I (popTest i)) → Keeps I (body lib o e) := by
    intro I hassign hpop s hs
    rw [body, if_pos hno]
    have hfirst : Keeps I (assign "descriptor") := fun s hs => hassign s _ hs
    exact (keeps_mayRaise _).seq (hfirst.seq ((keeps_mayRaise _).seq (hpop 0))) s hs
  have hlaunched : Keeps (fun s => ∀ d', Call.launched d' ∉ s.calls) (handler lib o e) := by
    refine keeps_handler ?_
    intro s hs d' _
    have hrelease : Keeps (fun s => ∀ d', Call.launched d' ∉ s.calls)
        (releaseServers lib o e.handlerWorks d') := by
      refine keeps_releaseServers ?_ fun _ hs => hs
      intro s hs d'' hmem
      exact hs d'' ((mem_append_ne (by simp)).1 hmem)
    exact hrelease s hs
  refine ⟨?_, ?_⟩
  · exact keeps_tryHandler (hbody NoBooking (fun _ _ hs => hs) fun _ _ hs => hs) noBooking_keeps_handler
      (s.enter e) (noBooking_enter e s)
  · exact keeps_tryHandler (hbody _ (fun _ _ hs => hs) fun _ _ hs => hs) hlaunched (s.enter e)
      fun _ => List.not_mem_nil

/-- **An iteration that meets the condition and books but does not launch leaves nothing booked.** -/
theorem not_booked_of_safe {launched : List String} (h : Safe lib o launched e s)
    (hbooked : Call.booked d ∈ (iterate lib o e s).calls)
    (hlaunched : Call.launched d ∉ (iterate lib o e s).calls) :
    ¬ (iterate lib o e s).world.Booked lib o d := by
  rcases hno : o.noLaunch with _ | _
  case true => exact absurd hbooked ((iterate_of_noLaunch hno).1 d)
  rcases hchoose : chooseJob o e s.testsToLaunch with _ | _ | job
  · rw [iterate_of_error hno hchoose] at hbooked
    exact absurd hbooked (noBooking_keeps_handler _ (noBooking_enter e s) d)
  · rw [iterate_of_none hno hchoose] at hbooked
    cases hbooked
  · rcases hquote : e.quoteRaises with _ | _
    case true =>
      rw [iterate_of_quoteRaises hno hchoose hquote] at hbooked
      refine absurd hbooked (noBooking_keeps_handler _ ?_ d)
      exact noBooking_enter e s
    rw [iterate_of_attempt hno hchoose hquote] at hbooked hlaunched ⊢
    have hown : Own (jobDescriptor lib o e job.test)
        { s.enter e with descriptor := some (jobDescriptor lib o e job.test) } :=
      ⟨rfl, fun _ h => nomatch h⟩
    obtain rfl := (own_keeps_guarded _ hown).booked d hbooked
    have hsafe : SafeAttempt lib o e (jobDescriptor lib o e job.test) job
        { s.enter e with descriptor := some (jobDescriptor lib o e job.test) } :=
      ⟨h.unused job hchoose, h.releaseWorks, h.handlerWorks, fun hdocker => h.dockers hdocker job hchoose⟩
    exact not_booked_guarded hsafe hown (noBooking_enter e s) hbooked hlaunched

/-- **An iteration that meets the condition releases no launched job.** -/
theorem not_released_of_safe {launched : List String} (hno : o.noLaunch = false)
    (h : Safe lib o launched e s) (hd : d ∈ launched) : Call.release d ∉ (iterate lib o e s).calls := by
  intro hmem
  rcases release_of_iterate hno hmem with ⟨hchoose, hscope⟩ | ⟨job, hchoose, rfl⟩
  · exact h.early hchoose d hscope hd
  · exact h.fresh job hchoose hd

end Bookings

/-! ## Runs -/

variable {lib : Library} {o : Options}

theorem not_released_of_meets (hno : o.noLaunch = false) {launched : List String} {es : List Env} {s : State}
    (h : Meets lib o launched es s) :
    ∀ b ∈ trace lib o es s, ∀ d ∈ launched, Call.release d ∉ b.calls := by
  induction es generalizing launched s with
  | nil => exact fun b hb => nomatch hb
  | cons e rest ih =>
      intro b hb d hd
      rw [trace] at hb
      split at hb
      · cases hb
      · next htests =>
          obtain ⟨hsafe, hrest⟩ := h htests
          rcases List.mem_cons.1 hb with rfl | hb
          · exact not_released_of_safe hno hsafe hd
          · exact ih hrest b hb d (List.mem_append_left _ hd)

/-- No iteration releases what an earlier one has launched. -/
def LaunchedKept (states : List State) : Prop :=
  states.Pairwise fun a b => ∀ d, Call.launched d ∈ a.calls → Call.release d ∉ b.calls

/-- An iteration that has booked but not launched leaves nothing booked under its descriptor. -/
def AttemptsFreed (lib : Library) (o : Options) (states : List State) : Prop :=
  ∀ a ∈ states, ∀ d, Call.booked d ∈ a.calls → Call.launched d ∉ a.calls → ¬ a.world.Booked lib o d

theorem launchedKept_of_meets {launched : List String} {es : List Env} {s : State}
    (h : Meets lib o launched es s) : LaunchedKept (trace lib o es s) := by
  induction es generalizing launched s with
  | nil => exact List.Pairwise.nil
  | cons e rest ih =>
      rw [LaunchedKept, trace]
      split
      · exact List.Pairwise.nil
      · next htests =>
          obtain ⟨-, hrest⟩ := h htests
          refine List.pairwise_cons.2 ⟨?_, ih hrest⟩
          intro b hb d hlaunched
          rcases hno : o.noLaunch with _ | _
          · exact not_released_of_meets hno hrest b hb d (List.mem_append_right _ (mem_launchedIn.2 hlaunched))
          · exact absurd hlaunched ((iterate_of_noLaunch hno).2 d)

theorem attemptsFreed_of_meets {launched : List String} {es : List Env} {s : State}
    (h : Meets lib o launched es s) : AttemptsFreed lib o (trace lib o es s) := by
  induction es generalizing launched s with
  | nil => exact fun a ha => nomatch ha
  | cons e rest ih =>
      rw [trace]
      split
      · exact fun a ha => nomatch ha
      · next htests =>
          obtain ⟨hsafe, hrest⟩ := h htests
          intro a ha d hbooked hlaunched
          rcases List.mem_cons.1 ha with rfl | ha
          · exact not_booked_of_safe hsafe hbooked hlaunched
          · exact ih hrest a ha d hbooked hlaunched

/-- **Launched jobs keep their servers and failed attempts leave none**, in every run whose iterations meet
    the condition: none of them raises before it has its descriptor while that of a launched job is in
    scope, none takes the descriptor of a launched job, and none of a docker run books without launching. -/
theorem launched_kept_attempts_freed (es : List Env) (s : State) (h : Meets lib o [] es s) :
    LaunchedKept (trace lib o es s) ∧ AttemptsFreed lib o (trace lib o es s) :=
  ⟨launchedKept_of_meets h, attemptsFreed_of_meets h⟩

/-! ### Runs that meet it and runs that do not -/

/-- The library on the texts below: of the characters there only the colon is quoted. -/
def sampleLibrary : Library where
  quote := fun s => String.ofList (s.toList.flatMap fun c => if c = ':' then ['%', '3', 'A'] else [c])
  unquote := id
  isalnum := Char.isAlphanum

def sampleOptions (serverType : ServerType) : Options where
  serverType := serverType
  noLaunch := false
  freshRun := true
  checkVm := false
  poolId := ["12hour"]
  os := "centos"
  addPoolServerOs := "centos"
  version := "8.0.0-1000"
  capellaUrl := none

/-- A test that needs one server. -/
def sampleTest (subcomponent : Option String) : Test := ⟨"kv", subcomponent, 1, 0, "None"⟩

def freeServer (ipaddr : String) : ServerManager.Server :=
  ⟨some ipaddr, some "available", some "centos", .one "12hour", some 4, some "", some ""⟩

def samplePool : ServerManager.Pool :=
  (Dict.empty.set "10.0.0.1" (freeServer "10.0.0.1")).set "10.0.0.2" (freeServer "10.0.0.2")

def sampleHosts : ServerManager.Hosts :=
  Dict.empty.set "172.0.0.1" ⟨"docker", "12hour", 4, .null⟩

def sampleState (tests : List Test) : State :=
  ⟨tests, none, [], [], [], ⟨samplePool, sampleHosts, []⟩, []⟩

/-- An iteration at the given time in which everything goes well; the transaction finds the pool. -/
def goodEnv (now : String) (pool : ServerManager.Pool) : Env where
  others := id
  available := fun _ => some 2
  addlAvailable := fun _ => some 0
  printRaises := false
  dashboardRaises := false
  shouldDispatch := some true
  now := now
  uuid := "0"
  descriptorRaises := false
  quoteRaises := false
  rounds := []
  answer := ⟨[⟨pool, false, none, false⟩], 0, none⟩
  addlAnswer := ⟨[], 0, none⟩
  urlRaises := false
  marksIp := fun _ => true
  jobRaises := false
  invited := none
  jobParamsRaise := false
  credentialsRaise := false
  status := some 201
  countRaises := false
  sleepRaises := false
  releaseWorks := true
  handlerWorks := true

/-- The first job is launched, the request for the second one is refused. -/
def refusedRun : List Env :=
  [goodEnv "Jan-01-10:00:00" samplePool,
    { goodEnv "Jan-01-10:00:30" (samplePool.del "10.0.0.1") with status := some 500 }]

theorem safe_of_job {e : Env} {s : State} {launched : List String} (job : Job)
    (hjob : chooseJob o e s.testsToLaunch = .ok (some job))
    (hfresh : scopeDescriptor lib o e job.test ∉ launched)
    (hunused : ∀ kind ≠ o.serverType.kind,
      (e.others s.world).bookedAs lib o (jobDescriptor lib o e job.test) kind = false)
    (hrelease : e.releaseWorks = true) (hhandler : e.handlerWorks = true) (hdocker : o.serverType ≠ .docker) :
    Safe lib o launched e s where
  early := by
    intro h
    rw [h] at hjob
    cases hjob
  fresh := by
    intro job' h
    rw [hjob] at h
    cases h
    exact hfresh
  unused := by
    intro job' h
    rw [hjob] at h
    cases h
    exact hunused
  releaseWorks := Or.inl hrelease
  handlerWorks := hhandler
  dockers := fun h => absurd h hdocker

theorem refusedRun_meets :
    Meets sampleLibrary (sampleOptions .vm) [] refusedRun
      (sampleState [sampleTest "a", sampleTest "b"]) := by
  intro _
  refine ⟨?_, ?_⟩
  · refine safe_of_job ⟨0, sampleTest "a", "12hour", true⟩ rfl (by simp) ?_ rfl rfl (by decide)
    rintro (_ | _ | _) hkind
    · exact absurd rfl hkind
    · decide +kernel
    · decide +kernel
  · intro _
    refine ⟨?_, trivial⟩
    refine safe_of_job ⟨0, sampleTest "b", "12hour", true⟩ rfl (by decide +kernel) ?_ rfl rfl (by decide)
    rintro (_ | _ | _) hkind
    · exact absurd rfl hkind
    · decide +kernel
    · decide +kernel

theorem launched_kept_attempts_freed_refused :
    (trace sampleLibrary (sampleOptions .vm) refusedRun
        (sampleState [sampleTest "a", sampleTest "b"])).map (fun s => s.calls) =
      [[.booked "kv-a-Jan-01-10%3A00%3A00-8.0.0-1000", .launched "kv-a-Jan-01-10%3A00%3A00-8.0.0-1000"],
        [.booked "kv-b-Jan-01-10%3A00%3A30-8.0.0-1000", .release "kv-b-Jan-01-10%3A00%3A30-8.0.0-1000"]] ∧
      LaunchedKept (trace sampleLibrary (sampleOptions .vm) refusedRun
        (sampleState [sampleTest "a", sampleTest "b"])) ∧
      AttemptsFreed sampleLibrary (sampleOptions .vm) (trace sampleLibrary (sampleOptions .vm) refusedRun
        (sampleState [sampleTest "a", sampleTest "b"])) :=
  ⟨by decide +kernel, launched_kept_attempts_freed refusedRun _ refusedRun_meets⟩

/-- The job of the first test is launched; the second test has a subcomponent that is not a text, and the
    handler of its iteration releases the servers of the first. -/
theorem calls_textless :
    (trace sampleLibrary (sampleOptions .vm)
        [goodEnv "Jan-01-10:00:00" samplePool, goodEnv "Jan-01-10:00:30" (samplePool.del "10.0.0.1")]
        (sampleState [sampleTest "a", sampleTest none])).map (fun s => s.calls) =
      [[.booked "kv-a-Jan-01-10%3A00%3A00-8.0.0-1000", .launched "kv-a-Jan-01-10%3A00%3A00-8.0.0-1000"],
        [.release "kv-a-Jan-01-10%3A00%3A00-8.0.0-1000"]] := by
  decide +kernel

/-- A docker is booked, the launch request is refused, and the docker stays booked. -/
theorem calls_docker :
    (trace sampleLibrary (sampleOptions .docker)
        [{ goodEnv "Jan-01-10:00:00" samplePool with status := some 500 }]
        (sampleState [sampleTest "a"])).map (fun s => (s.calls,
          s.world.bookedAs sampleLibrary (sampleOptions .docker) "kv-a-Jan-01-10%3A00%3A00-8.0.0-1000"
            .dockers)) =
      [([.booked "kv-a-Jan-01-10%3A00%3A00-8.0.0-1000", .release "kv-a-Jan-01-10%3A00%3A00-8.0.0-1000"],
        true)] := by
  decide +kernel

/-- **A launched job loses its servers, and a docker stays booked after an attempt that failed.** -/
theorem launched_released :
    ¬ (∀ lib o es s, LaunchedKept (trace lib o es s)) ∧
      ¬ (∀ lib o es s, AttemptsFreed lib o (trace lib o es s)) := by
  refine ⟨?_, ?_⟩
  · intro h
    have hkept : List.Pairwise (fun a b => ∀ d, Call.launched d ∈ a → Call.release d ∉ b)
        ((trace sampleLibrary (sampleOptions .vm)
          [goodEnv "Jan-01-10:00:00" samplePool, goodEnv "Jan-01-10:00:30" (samplePool.del "10.0.0.1")]
          (sampleState [sampleTest "a", sampleTest none])).map fun s => s.calls) :=
      List.pairwise_map.2 (h _ _ _ _)
    rw [calls_textless] at hkept
    exact (List.pairwise_cons.1 hkept).1 _ List.mem_cons_self "kv-a-Jan-01-10%3A00%3A00-8.0.0-1000"
      (by decide) (by decide)
  · intro h
    have hfreed := h sampleLibrary (sampleOptions .docker)
      [{ goodEnv "Jan-01-10:00:00" samplePool with status := some 500 }] (sampleState [sampleTest "a"])
    obtain ⟨a, ha, heq⟩ := List.mem_map.1 (calls_docker ▸ List.mem_cons_self)
    obtain ⟨hcalls, hbooked⟩ := Prod.mk.inj heq
    exact hfreed a ha "kv-a-Jan-01-10%3A00%3A00-8.0.0-1000" (by rw [hcalls]; decide)
      (by rw [hcalls]; decide) ⟨.dockers, hbooked⟩

end Dispatcher

end TestInfra
