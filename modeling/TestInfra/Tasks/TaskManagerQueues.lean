import TestInfra.Lib.TwoQueue
import TestInfra.Tasks.TaskManager

set_option autoImplicit false

/-! # What the queues of the task manager keep

The manager is a worker between two queues (`Lib/TwoQueue.lean`): as long as nobody forces a shutdown,
every action of every thread is one of its moves (`next_moves`), so all that holds of such a worker holds
of the manager: **no task is lost, duplicated or woken early**, whatever the interleaving. -/

namespace TestInfra

namespace TaskManager

open Interleave TwoQueue

variable {K τ R : Type*}

/-! ## The manager as a worker between two queues -/

/-- What `run` has in its hand. A step that killed the loop is never completed. -/
def Loop.hand : Loop K τ R → Hand (Item K τ)
  | .holding i => .held i
  | .stepping i _ | .scheduling i _ _ _ | .died i => .working i
  | .waking _ i | .rest _ i => .carried i
  | .wake _ i => .due i
  | .testRunning | .testReadyq | .testSleepq | .branch | .get | .size | .rotate _ | .exited => .empty

/-- The tasks `run` holds outside the queues. -/
def Loop.items (l : Loop K τ R) : List (Item K τ) := l.hand.items

def Manager.view (m : Manager K τ R) : TwoQueue.State (Item K τ) :=
  ⟨m.clock, m.readyq, m.sleepq, m.loop.hand, m.accepted, m.started, m.completed⟩

/-- A move of the worker. -/
def Manager.Moves (m m' : Manager K τ R) : Prop :=
  TwoQueue.Moves Item.wakeup Item.sleeps m.view m'.view

/-- The call of `schedule` a step has under way read the clock only to sleep. -/
def Loop.Stamped : Loop K τ R → Prop
  | .scheduling _ sleepTime (.stamped _) _ => 0 < sleepTime
  | _ => True

/-- The same of the call a client has under way. -/
def Client.Stamped (c : Client τ) : Prop :=
  ∀ now, c.phase = some (.stamped now) → ∀ call ∈ c.calls.head?, 0 < call.2

/-- A shutdown, if there is one, is not forced. -/
def Shutdown.Graceful : Shutdown K τ → Prop
  | .never | .waiting false | .returned false => True
  | _ => False

theorem Manager.moves_of_view {m m' : Manager K τ R} (h : m'.view = m.view) : m.Moves m' := by
  unfold Manager.Moves
  rw [h]
  exact .tick m.clock le_rfl

/-- The loop may go on in its code, as long as it keeps what it has in its hand. -/
theorem Manager.Moves.look {m m' : Manager K τ R} (hm : m.Moves m') {l : Loop K τ R}
    (h : l.hand = m'.loop.hand) : m.Moves { m' with loop := l } := by
  have hview : ({ m' with loop := l } : Manager K τ R).view = m'.view := by
    simp only [Manager.view, h]
  unfold Manager.Moves
  rw [hview]
  exact hm

theorem Manager.moves_look (m : Manager K τ R) {l : Loop K τ R} (h : l.hand = m.loop.hand) :
    m.Moves { m with loop := l } :=
  (m.moves_of_view rfl).look h

/-! ## Every action is a move -/

section Steps

variable [DecidableEq τ]

omit [DecidableEq τ] in
theorem Loop.hand_of_bare {l : Loop K τ R} (h : l.bare = true) : l.hand = .empty := by
  cases l <;> first | rfl | cases h

omit [DecidableEq τ] in
theorem Loop.stamped_of_bare {l : Loop K τ R} (h : l.bare = true) : l.Stamped := by
  cases l <;> trivial

omit [DecidableEq τ] in
theorem Manager.moves_putReady (m : Manager K τ R) (caller : Option K) (task : τ) {sleepTime : ℤ}
    (hs : sleepTime ≤ 0) : m.Moves { m with
      readyq := m.readyq ++ [⟨caller, task, sleepTime, m.clock⟩]
      accepted := m.accepted ++ [⟨caller, task, sleepTime, m.clock⟩] } := by
  refine .acceptReady (s := m.view) _ (by simp [Item.sleeps, hs]) ?_
  show m.clock + sleepTime ≤ m.clock
  omega

omit [DecidableEq τ] in
theorem Manager.moves_putSleep (m : Manager K τ R) (caller : Option K) (task : τ) (now : ℤ)
    {sleepTime : ℤ} (hs : 0 < sleepTime) : m.Moves { m with
      sleepq := m.sleepq ++ [⟨caller, task, sleepTime, now⟩]
      accepted := m.accepted ++ [⟨caller, task, sleepTime, now⟩] } :=
  .acceptSleep (s := m.view) _ (by simpa [Item.sleeps] using hs)

/-- What a step does to its task is no move. -/
theorem Manager.moves_write (m : Manager K τ R) {i : Item K τ} {code : TaskCode R}
    (hl : m.loop = .stepping i code) (f : TaskData R → TaskData R) (next : TaskCode R) :
    m.Moves { m.modify i.task f with loop := .stepping i next } := by
  have hview : (m.modify i.task f).view = m.view := rfl
  refine (Manager.moves_of_view hview).look ?_
  show Hand.working i = m.loop.hand
  rw [hl]
  rfl

theorem Manager.Acts.moves {b : Behaviour τ R} {m m' : Manager K τ R} (h : m.Acts b m')
    (hst : m.loop.Stamped) : m.Moves m' ∧ m'.loop.Stamped := by
  have hhand : ∀ {l : Loop K τ R}, m.loop = l → m.view.hand = l.hand := fun hl => by
    rw [Manager.view, hl]
  cases h with
  | look l hl hl' _ =>
      refine ⟨m.moves_look ?_, Loop.stamped_of_bare hl'⟩
      rw [Loop.hand_of_bare hl, Loop.hand_of_bare hl']
  | take i rest hl hq => exact ⟨.take i rest hq (hhand hl), trivial⟩
  | begin i hl => exact ⟨.start i (hhand hl), trivial⟩
  | returns i hl => exact ⟨.complete i (hhand hl), trivial⟩
  | caught i e hl _ => exact ⟨.complete i (hhand hl), trivial⟩
  | dies i e hl _ => exact ⟨m.moves_look (by rw [hl]; rfl), trivial⟩
  | setState i phase next hl => exact ⟨m.moves_write hl _ next, trivial⟩
  | setResult i r next hl => exact ⟨m.moves_write hl _ next, trivial⟩
  | setException i e next hl => exact ⟨m.moves_write hl _ next, trivial⟩
  | passes i sleepTime next refused hl _ => exact ⟨m.moves_look (by rw [hl]; rfl), trivial⟩
  | refused i sleepTime next refused hl _ => exact ⟨m.moves_look (by rw [hl]; rfl), trivial⟩
  | putReady i sleepTime next hl hs =>
      exact ⟨(m.moves_putReady none i.task hs).look (by rw [hl]; rfl), trivial⟩
  | stamp i sleepTime next hl hs => exact ⟨m.moves_look (by rw [hl]; rfl), hs⟩
  | putSleep i sleepTime now next hl =>
      rw [hl] at hst
      exact ⟨(m.moves_putSleep none i.task now hst).look (by rw [hl]; rfl), trivial⟩
  | lift left i rest hl hq => exact ⟨.lift i rest hq (hhand hl), trivial⟩
  | due left i hl hw => exact ⟨.find i (hhand hl) hw, trivial⟩
  | early left i hl => exact ⟨m.moves_look (by rw [hl]; rfl), trivial⟩
  | wake left i hl => exact ⟨.wake i (hhand hl), trivial⟩
  | rest left i hl => exact ⟨.rest i (hhand hl), trivial⟩

/-- A shutdown that is not forced clears `running` and is over. -/
theorem Manager.shutdownStep_graceful {m m' : Manager K τ R} (hg : m.shutdown.Graceful)
    (h : m.shutdownStep = some m') :
    m.shutdown = .waiting false ∧ m' = { m with
      running := false
      shutdown := .returned false
      acceptedBefore := m.accepted
      waiting := (m.readyq ++ m.sleepq ++ m.loop.transit).map (·.task) } := by
  unfold Manager.shutdownStep at h
  split at h
  case h_2 force hs =>
    obtain rfl := Option.some.inj h
    rw [hs] at hg
    rcases force with _ | _
    · exact ⟨hs, rfl⟩
    · exact hg.elim
  case h_1 hs => cases h
  case h_10 force hs => cases h
  all_goals
    next hs =>
    rw [hs] at hg
    exact hg.elim

omit [DecidableEq τ] in
theorem Client.step_moves {k : K} {m m' : Manager K τ R} {c c' : Client τ} (hst : c.Stamped)
    (h : c.step k m = some (m', c')) : m.Moves m' ∧ c'.Stamped := by
  rcases Client.step_cases h with ⟨-, rfl, hc⟩ | ⟨task, sleepTime, rest, phase, hcalls, hphase, rfl, hc⟩
  · refine ⟨m'.moves_of_view rfl, ?_⟩
    rcases hc with ⟨-, rfl⟩ | ⟨-, rfl⟩ <;> intro now hnow <;> simp at hnow
  · rcases m.schedule_cases (some k) task sleepTime phase with
      ⟨hs, -, he⟩ | ⟨hs, -, he⟩ | ⟨now, rfl, he⟩ <;> rw [he] at hc ⊢
    · obtain ⟨-, rfl⟩ | ⟨phase', hp, -⟩ := hc
      · exact ⟨m.moves_putReady (some k) task hs, nofun⟩
      · cases hp
    · obtain ⟨hp, -⟩ | ⟨phase', -, rfl⟩ := hc
      · cases hp
      · refine ⟨m.moves_of_view rfl, ?_⟩
        intro now _ call hcall
        simp only [hcalls, List.head?_cons, Option.mem_some_iff] at hcall
        rw [← hcall]
        exact hs
    · obtain ⟨-, rfl⟩ | ⟨phase', hp, -⟩ := hc
      · exact ⟨m.moves_putSleep (some k) task now
          (hst now hphase (task, sleepTime) (by simp [hcalls])), nofun⟩
      · cases hp

/-! ## Every run -/

/-- What is known of every state, for the next action to be a move. -/
structure Ready (s : Interleave.State (Thread K) (Manager K τ R) (Client τ)) : Prop where
  sound : Sound Item.wakeup Item.sleeps s.shared.view
  graceful : s.shared.shutdown.Graceful
  loop : s.shared.loop.Stamped
  clients : ∀ t, (s.thread t).Stamped

omit [DecidableEq τ] in
theorem ready_start (tasks : τ → TaskData R) (calls : K → List (τ × ℤ)) {shutdown : Shutdown K τ}
    (hg : shutdown.Graceful) : Ready (start tasks calls shutdown) where
  sound := by
    refine ⟨fun p => rfl, fun p => rfl, rfl, ?_, ?_, ?_⟩ <;>
      simp [start, Manager.view, Loop.hand, Hand.transit, Hand.ripe]
  graceful := hg
  loop := trivial
  clients t := by
    intro now hnow
    rcases t with _ | _ | k | elapsed <;> simp [start] at hnow

/-- **Every action of every thread is a move of the worker.** -/
theorem next_moves {b : Behaviour τ R} {s : Interleave.State (Thread K) (Manager K τ R) (Client τ)}
    (hs : Ready s) {t : Thread K} {m' : Manager K τ R} {c' : Client τ}
    (h : next b t s.shared (s.thread t) = some (m', c')) :
    s.shared.Moves m' ∧ m'.shutdown.Graceful ∧ m'.loop.Stamped ∧ c'.Stamped := by
  rcases t with _ | _ | k | elapsed
  · obtain ⟨m₁, hm, he⟩ := Option.map_eq_some_iff.1 h
    obtain ⟨rfl, rfl⟩ := Prod.mk.inj he
    have hacts := Manager.runStep_acts hm
    obtain ⟨hmove, hloop⟩ := hacts.moves hs.loop
    refine ⟨hmove, ?_, hloop, hs.clients _⟩
    rw [hacts.sameControl.shutdown]
    exact hs.graceful
  · obtain ⟨m₁, hm, he⟩ := Option.map_eq_some_iff.1 h
    obtain ⟨rfl, rfl⟩ := Prod.mk.inj he
    obtain ⟨-, rfl⟩ := s.shared.shutdownStep_graceful hs.graceful hm
    exact ⟨s.shared.moves_of_view rfl, trivial, hs.loop, hs.clients _⟩
  · obtain ⟨hmove, hst⟩ := Client.step_moves (hs.clients _) h
    obtain ⟨hcontrol, hloop⟩ := Client.step_sameControl h
    refine ⟨hmove, ?_, ?_, hst⟩
    · rw [hcontrol.shutdown]
      exact hs.graceful
    · rw [hloop]
      exact hs.loop
  · obtain ⟨rfl, rfl⟩ := Prod.mk.inj (Option.some.inj h)
    exact ⟨.tick _ (by show s.shared.clock ≤ s.shared.clock + elapsed; omega), hs.graceful, hs.loop,
      hs.clients _⟩

variable [DecidableEq K]

theorem Ready.step {b : Behaviour τ R} {s : Interleave.State (Thread K) (Manager K τ R) (Client τ)}
    (hs : Ready s) {t : Thread K} {m' : Manager K τ R} {c' : Client τ}
    (h : next b t s.shared (s.thread t) = some (m', c')) : Ready (s.move t m' c') := by
  obtain ⟨hmove, hgraceful, hloop, hst⟩ := next_moves hs h
  exact ⟨hs.sound.move hmove, hgraceful, hloop,
    State.forall_move (P := fun _ c => c.Stamped) s t m' c' hst fun u _ => hs.clients u⟩

/-! ## The calls of the clients -/

/-- The calls of `schedule` that one thread made, in order. -/
def callsOf (caller : Option K) (l : List (Item K τ)) : List (τ × ℤ) :=
  (l.filter (fun i => i.caller = caller)).map (fun i => (i.task, i.sleepTime))

omit [DecidableEq τ] in
theorem callsOf_append (caller : Option K) (l₁ l₂ : List (Item K τ)) :
    callsOf caller (l₁ ++ l₂) = callsOf caller l₁ ++ callsOf caller l₂ := by
  simp [callsOf]

omit [DecidableEq τ] in
theorem callsOf_ne {caller : Option K} {i : Item K τ} (h : i.caller ≠ caller) :
    callsOf caller [i] = [] := by
  simp [callsOf, h]

/-- With no shutdown, what a client had accepted and what it has yet to call is what it set out to
    call. -/
structure CallsKept (calls : K → List (τ × ℤ))
    (s : Interleave.State (Thread K) (Manager K τ R) (Client τ)) : Prop where
  running : s.shared.running = true
  never : s.shared.shutdown = .never
  made : ∀ k, callsOf (some k) s.shared.accepted ++ (s.thread (.client k)).calls = calls k

omit [DecidableEq τ] in
theorem callsKept_start (tasks : τ → TaskData R) (calls : K → List (τ × ℤ)) :
    CallsKept calls (start tasks calls .never) :=
  ⟨rfl, rfl, fun _ => by simp [start, callsOf]⟩

omit [DecidableEq τ] in
/-- One call of `schedule` by a client. -/
theorem callsOf_schedule (k k' : K) (task : τ) (sleepTime : ℤ) (phase : Scheduling)
    (m : Manager K τ R) :
    callsOf (some k') (m.schedule (some k) task sleepTime phase).1.accepted
      = callsOf (some k') m.accepted ++
        (if k = k' ∧ (m.schedule (some k) task sleepTime phase).2 = none then [(task, sleepTime)]
          else []) := by
  rcases m.schedule_cases (some k) task sleepTime phase with
    ⟨-, -, he⟩ | ⟨-, -, he⟩ | ⟨now, -, he⟩ <;> rw [he] <;> by_cases hk : k = k' <;>
    simp [callsOf, hk]

theorem CallsKept.step {b : Behaviour τ R} {calls : K → List (τ × ℤ)}
    {s : Interleave.State (Thread K) (Manager K τ R) (Client τ)} (hs : CallsKept calls s)
    {t : Thread K} {m' : Manager K τ R} {c' : Client τ}
    (h : next b t s.shared (s.thread t) = some (m', c')) : CallsKept calls (s.move t m' c') := by
  rcases t with _ | _ | k | elapsed
  · obtain ⟨m₁, hm, he⟩ := Option.map_eq_some_iff.1 h
    obtain ⟨rfl, rfl⟩ := Prod.mk.inj he
    have hacts := Manager.runStep_acts hm
    have hc := hacts.sameControl
    refine ⟨hc.running.trans hs.running, hc.shutdown.trans hs.never, ?_⟩
    intro k
    rw [State.move_shared, State.move_other s _ _ (by simp)]
    rcases hacts.accepted with ha | ⟨i, hi, ha⟩
    · rw [ha]
      exact hs.made k
    · rw [ha, callsOf_append, callsOf_ne (by rw [hi]; simp), List.append_nil]
      exact hs.made k
  · rw [next, Manager.shutdownStep, hs.never] at h
    cases h
  · have hc := (Client.step_sameControl h).1
    refine ⟨hc.running.trans hs.running, hc.shutdown.trans hs.never, ?_⟩
    intro k'
    rw [State.move_shared]
    have hmade := hs.made k'
    rcases Client.step_cases h with
      ⟨-, rfl, hc'⟩ | ⟨task, sleepTime, rest, phase, hcalls, -, rfl, hc'⟩
    · obtain rfl : c' = { s.thread (.client k) with phase := some .passed } := by
        rcases hc' with ⟨-, hc'⟩ | ⟨hr, -⟩
        · exact hc'
        · rw [hs.running] at hr
          cases hr
      by_cases hk : k' = k
      · subst hk
        rw [State.move_self]
        exact hmade
      · rw [State.move_other s _ _ (by simpa using hk)]
        exact hmade
    · rw [callsOf_schedule]
      by_cases hk : k' = k
      · subst hk
        rw [State.move_self, ← hmade, hcalls]
        rcases hc' with ⟨hnone, rfl⟩ | ⟨phase', hsome, rfl⟩
        · simp [hnone]
        · simp [hsome, hcalls]
      · rw [State.move_other s _ _ (by simpa using hk), if_neg (fun h => hk h.1.symm), List.append_nil]
        exact hmade
  · obtain ⟨rfl, rfl⟩ := Prod.mk.inj (Option.some.inj h)
    refine ⟨hs.running, hs.never, ?_⟩
    intro k
    rw [State.move_other s _ _ (by simp)]
    exact hs.made k

/-- **The queues keep every task.** In every state that any interleaving of any number of clients, the
    run loop and the clock reaches without a shutdown, every accepted call of `schedule` is a completed
    step, a task in `readyq` or `sleepq`, or the task in the loop's hand, each as often as it was
    accepted; what one thread scheduled without sleeping is stepped in the order it was scheduled; what
    a client had accepted is what it called, in order; and no step of a task that was to sleep starts
    before its wakeup time. -/
theorem queues_keep (b : Behaviour τ R) (tasks : τ → TaskData R) (calls : K → List (τ × ℤ))
    {s : Interleave.State (Thread K) (Manager K τ R) (Client τ)}
    (h : Reachable (ofNext (next b)) (start tasks calls .never) s) :
    (s.shared.accepted : Multiset (Item K τ)) = (s.shared.completed : Multiset (Item K τ))
        + (s.shared.readyq : Multiset (Item K τ)) + (s.shared.sleepq : Multiset (Item K τ))
        + (s.shared.loop.items : Multiset (Item K τ)) ∧
      (∀ caller, (s.shared.started.map Prod.fst).filter (fun i => !i.sleeps && i.caller = caller)
        <+: s.shared.accepted.filter (fun i => !i.sleeps && i.caller = caller)) ∧
      (∀ k, callsOf (some k) s.shared.accepted ++ (s.thread (.client k)).calls = calls k) ∧
      ∀ i now, (i, now) ∈ s.shared.started → 0 < i.sleepTime → i.called + i.sleepTime ≤ now := by
  have hready : Ready s := h.invariant (ready_start tasks calls trivial)
    fun s t m' c' hs hact => hs.step hact
  have hkept : CallsKept calls s := h.invariant (callsKept_start tasks calls)
    fun s t m' c' hs hact => hs.step hact
  refine ⟨hready.sound.multiset_accepted, ?_, hkept.made, ?_⟩
  · intro caller
    exact hready.sound.started_prefix fun i => decide (i.caller = caller)
  · intro i now hi _
    exact hready.sound.onTime (i, now) hi

end Steps

/-- Tasks that need one call of `execute`. -/
def quick : Behaviour Bool ℕ where
  execute _ _ := .setState .finished (.setResult (some 1) .returns)
  check _ _ := .returns

/-- Two clients, one with a task that is to sleep. -/
def sleeperCalls (k : Bool) : List (Bool × ℤ) := if k then [(true, 5)] else [(false, 0)]

/-- The loop steps the other task twice, and the sleeper once time has passed. -/
def sleeperRun : List (Thread Bool) :=
  [.client true, .client true, .client true, .client false, .client false]
    ++ List.replicate 12 .loop ++ [.tick 5] ++ List.replicate 17 .loop

theorem queues_keep_sleeper :
    ∃ s, runSchedule (next quick) sleeperRun (start (fun _ => .new "task") sleeperCalls .never)
        = some s ∧
      s.shared.started.map (fun e => (e.1.task, e.2)) = [(false, 0), (false, 5), (true, 5)] ∧
      ∀ i now, (i, now) ∈ s.shared.started → 0 < i.sleepTime → i.called + i.sleepTime ≤ now :=
  ⟨_, rfl, rfl, (queues_keep quick (fun _ => .new "task") sleeperCalls
    (reachable_of_runSchedule sleeperRun rfl)).2.2.2⟩

end TaskManager

end TestInfra
