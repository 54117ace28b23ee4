import TestInfra.Dispatcher.Main

set_option autoImplicit false

/-! # The steps of an iteration

What holds through an attempt is shown here once for every assertion: it has to survive the booking steps
(`KeptByBooking`) and the steps after them (`KeptByDispatch`). The first use is which descriptors an
iteration releases. -/

namespace TestInfra

namespace Dispatcher

open Raises Raises.Prog

/-- The state in which an iteration starts. -/
def State.enter (e : Env) (s : State) : State := { s with world := e.others s.world, calls := [] }

/-- The descriptor that is in scope for the rest of an iteration with a job. -/
def scopeDescriptor (lib : Library) (o : Options) (e : Env) (t : Test) : String :=
  if e.quoteRaises then rawDescriptor lib o e t else jobDescriptor lib o e t

/-! ## What every step of an attempt keeps -/

section Steps

variable {lib : Library} {o : Options} {e : Env} {d : String} {job : Job} {I : State → Prop}

theorem keeps_mayRaise (raises : Bool) : Keeps I (mayRaise raises) := fun _ h => h

theorem mayRaise_false_seq (p : Prog State Unit) : (mayRaise false).seq p = p := rfl

theorem markUnreachable_seq (p : Prog State Unit) (s : State) :
    (markUnreachable e).seq p s = p (markUnreachable e s).2 := rfl

/-- What one has to know of an assertion to carry it over the booking steps. -/
structure KeptByBooking (lib : Library) (o : Options) (d : String) (I : State → Prop) : Prop where
  locals : ∀ (s : State) (servers unreachable addl : List String), I s →
    I { s with servers := servers, unreachableServers := unreachable, addlServers := addl }
  getServers : ∀ (s : State) (howMany : ℕ) (os poolId : String) (a : Answer), I s →
    I { s with
        world := (getServers lib o d howMany os poolId a s.world).2.1
        calls := if (getServers lib o d howMany os poolId a s.world).2.2 then s.calls ++ [.booked d]
          else s.calls }

/-- The same for the steps that come after them. -/
structure KeptByDispatch (lib : Library) (o : Options) (e : Env) (d : String) (I : State → Prop) :
    Prop where
  popTest : ∀ i, Keeps I (popTest i)
  markUnreachable : Keeps I (markUnreachable e)
  releaseServers : Keeps I (releaseServers lib o e.releaseWorks d)
  freeServers : Keeps I (freeServers lib o e d)
  launch : Keeps I (launch e d)

theorem keeps_callGetServers (h : KeptByBooking lib o d I) (howMany : ℕ) (os poolId : String)
    (a : Answer) {store : List String → State → State} (hstore : ∀ ips s, I s → I (store ips s)) :
    Keeps I (callGetServers lib o d howMany os poolId a store) := by
  intro s hs
  have hget := h.getServers s howMany os poolId a hs
  rcases hres : getServers lib o d howMany os poolId a s.world with ⟨_ | ips, world, booked⟩
  · rw [hres] at hget
    simp only [callGetServers, hres]
    exact hget
  · rw [hres] at hget
    simp only [callGetServers, hres]
    exact hstore ips _ hget

theorem keeps_bookChecked (h : KeptByBooking lib o d I) (rounds : List Round) :
    Keeps I (bookChecked lib o d job rounds) := by
  induction rounds with
  | nil => exact fun s hs => hs
  | cons r rest ih =>
      intro s hs
      simp only [bookChecked]
      split
      · refine Keeps.seq (keeps_callGetServers h _ _ _ _ ?_) ((keeps_mayRaise _).seq ih) s hs
        intro ips s hs
        exact h.locals s _ _ s.addlServers hs
      · exact hs

theorem keeps_bookServers (h : KeptByBooking lib o d I) : Keeps I (bookServers lib o e d job) := by
  intro s hs
  have hlocals := h.locals s [] [] [] hs
  rw [bookServers]
  split
  · exact keeps_bookChecked h e.rounds _ hlocals
  · refine keeps_callGetServers h _ _ _ _ ?_ _ hlocals
    intro ips s hs
    exact h.locals s ips s.unreachableServers s.addlServers hs

theorem keeps_bookAddl (h : KeptByBooking lib o d I) : Keeps I (bookAddl lib o e d job) := by
  rw [bookAddl]
  split
  · refine keeps_callGetServers h _ _ _ _ ?_
    intro ips s hs
    exact h.locals s s.servers s.unreachableServers ips hs
  · exact keeps_skip I

theorem keeps_dispatch (h : KeptByDispatch lib o e d I) : Keeps I (dispatch lib o e d job) := by
  have hlaunch : Keeps I (if job.dispatchJob then launch e d else freeServers lib o e d) := by
    split
    · exact h.launch
    · exact h.freeServers
  exact (keeps_mayRaise _).seq (hlaunch.seq ((keeps_mayRaise _).seq ((h.popTest _).seq (keeps_mayRaise _))))

theorem keeps_inviteAndDispatch (h : KeptByDispatch lib o e d I) :
    Keeps I (inviteAndDispatch lib o e d job) := by
  rw [inviteAndDispatch]
  split
  · split
    · exact keeps_mayRaise _
    · split
      · exact keeps_dispatch h
      · split
        · exact keeps_mayRaise _
        · exact h.popTest _
        · exact keeps_dispatch h
  · exact keeps_dispatch h

/-- What comes after the booking of the additional servers. -/
def afterBooking (lib : Library) (o : Options) (e : Env) (d : String) (job : Job) : Prog State Unit := fun s =>
  if job.test.addPoolServerCount ≠ 0 ∧ s.addlServers.length ≠ job.test.addPoolServerCount then
    releaseServers lib o e.releaseWorks d s
  else
    ((mayRaise e.urlRaises).seq <| (markUnreachable e).seq <| (mayRaise e.jobRaises).seq <|
      inviteAndDispatch lib o e d job) s

/-- What comes after the booking of the servers. -/
def afterServers (lib : Library) (o : Options) (e : Env) (d : String) (job : Job) : Prog State Unit := fun s =>
  if o.serverType ≠ .docker ∧ s.servers.length ≠ job.test.serverCount then
    releaseServers lib o e.releaseWorks d s
  else (bookAddl lib o e d job).seq (afterBooking lib o e d job) s

theorem attempt_eq : attempt lib o e d job = (bookServers lib o e d job).seq (afterServers lib o e d job) :=
  rfl

theorem keeps_afterBooking (h : KeptByDispatch lib o e d I) : Keeps I (afterBooking lib o e d job) := by
  intro s hs
  rw [afterBooking]
  split
  · exact h.releaseServers s hs
  · exact (keeps_mayRaise _).seq (h.markUnreachable.seq ((keeps_mayRaise _).seq
      (keeps_inviteAndDispatch h))) s hs

theorem keeps_attempt (hb : KeptByBooking lib o d I) (hd : KeptByDispatch lib o e d I) :
    Keeps I (attempt lib o e d job) := by
  rw [attempt_eq]
  refine (keeps_bookServers hb).seq ?_
  intro s hs
  rw [afterServers]
  split
  · exact hd.releaseServers s hs
  · exact (keeps_bookAddl hb).seq (keeps_afterBooking hd) s hs

theorem keeps_releaseServers {works : Bool} (hcall : ∀ s, I s → I { s with calls := s.calls ++ [.release d] })
    (hfreed : ∀ s : State, I s → I { s with world := s.world.freed lib o d }) :
    Keeps I (releaseServers lib o works d) := by
  intro s hs
  rw [releaseServers]
  split
  · exact hfreed _ (hcall s hs)
  · exact hcall s hs

theorem keeps_launch (h : ∀ s, I s → I { s with calls := s.calls ++ [.launched d] }) :
    Keeps I (launch e d) := by
  refine (keeps_mayRaise _).seq ?_
  intro s hs
  dsimp only
  split
  · exact hs
  · split
    · exact h s hs
    · exact hs

theorem keeps_handler (h : ∀ s, I s → ∀ d' ∈ s.descriptor, I (releaseServers lib o e.handlerWorks d' s).2) :
    Keeps I (handler lib o e) := by
  intro s hs
  rw [handler]
  split
  · exact hs
  · next d' hd => exact h s hs d' hd

theorem keeps_tryHandler {p : Prog State Unit} (hp : Keeps I p) (hhandler : Keeps I (handler lib o e)) :
    Keeps I (p.tryExcept fun _ => some (handler lib o e)) := by
  refine Keeps.tryExcept hp ?_
  intro _ q hq
  cases hq
  exact hhandler

end Steps

/-! ## One iteration -/

section Iteration

variable {lib : Library} {o : Options} {e : Env} {s : State} {job : Job}

theorem iterate_of_error (hno : o.noLaunch = false) (h : chooseJob o e s.testsToLaunch = .error ()) :
    iterate lib o e s = (handler lib o e (s.enter e)).2 := by
  have hbody : body lib o e (s.enter e) = (.error (), s.enter e) := by
    rw [body, if_neg (by simp [hno]), State.enter, h]
  exact congrArg Prod.snd (tryExcept_of_error hbody)

theorem iterate_of_none (hno : o.noLaunch = false) (h : chooseJob o e s.testsToLaunch = .ok none) :
    iterate lib o e s = s.enter e := by
  have hbody : body lib o e (s.enter e) = (.ok (), s.enter e) := by
    rw [body, if_neg (by simp [hno]), State.enter, h]
  exact congrArg Prod.snd ((tryExcept_of_ok (by rw [hbody])).trans hbody)

/-- An attempt with the handler around it. -/
def guarded (lib : Library) (o : Options) (e : Env) (d : String) (job : Job) : Prog State Unit :=
  (attempt lib o e d job).tryExcept fun _ => some (handler lib o e)

/-- An iteration with a job goes on from the assignment of its descriptor. -/
theorem iterate_of_job (hno : o.noLaunch = false) (h : chooseJob o e s.testsToLaunch = .ok (some job)) :
    iterate lib o e s =
      (((mayRaise e.quoteRaises).seq <| (assign (jobDescriptor lib o e job.test)).seq <|
          attempt lib o e (jobDescriptor lib o e job.test) job).tryExcept
        (fun _ => some (handler lib o e))
        { s.enter e with descriptor := some (rawDescriptor lib o e job.test) }).2 := by
  have hbody : body lib o e (s.enter e) =
      ((mayRaise e.quoteRaises).seq <| (assign (jobDescriptor lib o e job.test)).seq <|
        attempt lib o e (jobDescriptor lib o e job.test) job)
        { s.enter e with descriptor := some (rawDescriptor lib o e job.test) } := by
    rw [body, if_neg (by simp [hno]), State.enter, h]
    exact seq_of_ok rfl
  change ((body lib o e).tryExcept _ (s.enter e)).2 = _
  rw [tryExcept, hbody, tryExcept]

theorem iterate_of_quoteRaises (hno : o.noLaunch = false)
    (h : chooseJob o e s.testsToLaunch = .ok (some job)) (hquote : e.quoteRaises = true) :
    iterate lib o e s =
      (handler lib o e { s.enter e with descriptor := some (rawDescriptor lib o e job.test) }).2 := by
  rw [iterate_of_job hno h, hquote]
  rfl

theorem iterate_of_attempt (hno : o.noLaunch = false) (h : chooseJob o e s.testsToLaunch = .ok (some job))
    (hquote : e.quoteRaises = false) :
    iterate lib o e s = (guarded lib o e (jobDescriptor lib o e job.test) job
      { s.enter e with descriptor := some (jobDescriptor lib o e job.test) }).2 := by
  rw [iterate_of_job hno h, hquote]
  rfl

/-! ## Which descriptors an iteration releases -/

/-- The descriptor in scope is one of the given ones, and only those have been released. -/
structure Names (ds : List String) (s : State) : Prop where
  descriptor : ∀ d ∈ s.descriptor, d ∈ ds
  release : ∀ d, Call.release d ∈ s.calls → d ∈ ds

theorem Names.addRelease {ds : List String} {d : String} (hd : d ∈ ds) (h : Names ds s) :
    Names ds { s with calls := s.calls ++ [.release d] } := by
  refine ⟨h.descriptor, ?_⟩
  intro d' hmem
  rcases List.mem_append.1 hmem with hmem | hmem
  · exact h.release d' hmem
  · cases List.mem_singleton.1 hmem
    exact hd

theorem Names.addOther {ds : List String} {call : Call} (hcall : ∀ d, Call.release d ≠ call)
    (h : Names ds s) : Names ds { s with calls := s.calls ++ [call] } := by
  refine ⟨h.descriptor, ?_⟩
  intro d' hmem
  rcases List.mem_append.1 hmem with hmem | hmem
  · exact h.release d' hmem
  · exact absurd (List.mem_singleton.1 hmem) (hcall d')

theorem names_keeps_releaseServers {ds : List String} {d : String} (hd : d ∈ ds) (works : Bool) :
    Keeps (Names ds) (releaseServers lib o works d) :=
  keeps_releaseServers (fun _ hs => hs.addRelease hd) fun _ hs => ⟨hs.descriptor, hs.release⟩

theorem names_keptByBooking (ds : List String) (d : String) : KeptByBooking lib o d (Names ds) where
  locals := fun _ _ _ _ hs => ⟨hs.descriptor, hs.release⟩
  getServers := by
    intro s howMany os poolId a hs
    split
    · exact ⟨hs.descriptor, (hs.addOther (by simp)).release⟩
    · exact ⟨hs.descriptor, hs.release⟩

theorem names_keptByDispatch {ds : List String} {d : String} (hd : d ∈ ds) :
    KeptByDispatch lib o e d (Names ds) where
  popTest := fun _ _ hs => ⟨hs.descriptor, hs.release⟩
  markUnreachable := fun _ hs => ⟨hs.descriptor, hs.release⟩
  releaseServers := names_keeps_releaseServers hd _
  freeServers := by
    rw [freeServers]
    split
    · intro s hs
      dsimp only
      split
      · exact hs
      · exact ⟨hs.descriptor, hs.release⟩
    · exact names_keeps_releaseServers hd _
  launch := keeps_launch fun _ hs => hs.addOther (by simp)

theorem names_keeps_handler (ds : List String) : Keeps (Names ds) (handler lib o e) :=
  keeps_handler fun s hs d hd => names_keeps_releaseServers (hs.descriptor d hd) _ s hs

theorem names_enter (e : Env) (s : State) (d : String) :
    Names [d] { s.enter e with descriptor := some d } := by
  refine ⟨?_, fun _ h => nomatch h⟩
  intro d' hd'
  cases hd'
  exact List.mem_singleton_self d

/-- **What an iteration releases is its own descriptor, or the one it has found in scope if it raised
    before it had one.** -/
theorem release_of_iterate (hno : o.noLaunch = false) {d : String}
    (hmem : Call.release d ∈ (iterate lib o e s).calls) :
    (chooseJob o e s.testsToLaunch = .error () ∧ d ∈ s.descriptor) ∨
      ∃ job, chooseJob o e s.testsToLaunch = .ok (some job) ∧ d = scopeDescriptor lib o e job.test := by
  rcases hchoose : chooseJob o e s.testsToLaunch with _ | _ | job
  · left
    rw [iterate_of_error hno hchoose] at hmem
    have hstart : Names s.descriptor.toList (s.enter e) :=
      ⟨fun d hd => Option.mem_toList.2 hd, fun _ h => nomatch h⟩
    exact ⟨rfl, Option.mem_toList.1 ((names_keeps_handler _ _ hstart).release d hmem)⟩
  · rw [iterate_of_none hno hchoose] at hmem
    cases hmem
  · right
    refine ⟨job, rfl, ?_⟩
    rcases hquote : e.quoteRaises with _ | _
    · rw [iterate_of_attempt hno hchoose hquote] at hmem
      have hguarded : Keeps (Names [jobDescriptor lib o e job.test])
          (guarded lib o e (jobDescriptor lib o e job.test) job) :=
        keeps_tryHandler (keeps_attempt (names_keptByBooking _ _)
          (names_keptByDispatch (List.mem_singleton_self _))) (names_keeps_handler _)
      have hnames := hguarded _ (names_enter e s _)
      rw [scopeDescriptor, hquote]
      exact List.mem_singleton.1 (hnames.release d hmem)
    · rw [iterate_of_quoteRaises hno hchoose hquote] at hmem
      have hhandler : Keeps (Names [rawDescriptor lib o e job.test]) (handler lib o e) :=
        names_keeps_handler _
      have hnames := hhandler _ (names_enter e s _)
      rw [scopeDescriptor, hquote]
      exact List.mem_singleton.1 (hnames.release d hmem)

end Iteration

end Dispatcher

end TestInfra
