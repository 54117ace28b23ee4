import TestInfra.Tasks.TaskManagerQueues

set_option autoImplicit false

/-! # What a graceful shutdown does to the outcomes

`shutdown(force=False)` only clears `running`, and `run` goes on until both queues are empty. But a task
needs several steps, and the step that asks for the next one goes through `schedule`, which refuses it
when `running` is false: a task that is not in its last step when the flag is cleared ends with the
exception of `schedule`.

The outcome of a task is told by how often it is stepped. Without a refusal its data after `n` steps are
`history n`, whatever the interleaving (`Foreseen`), and when nothing of it is left in the queues, `n` is
the least number that the calls of the clients and of those `n` steps add up to (`Told.end_of_idle`).
So in every run in which no call of a step is refused, a task ends as it does without the shutdown. -/

namespace TestInfra

open Interleave TwoQueue

/-- The code of a step run to its end with no call of `schedule` refused: the task it leaves, and how
    many calls it makes. -/
def TaskCode.finish {R : Type*} : TaskCode R → TaskData R → TaskData R × ℕ
  | .returns, d => (d, 0)
  | .raises e, d => (if e.isException then d.fail e else d, 0)
  | .setState phase next, d => next.finish (d.setState phase)
  | .setResult r next, d => next.finish (d.setResult r)
  | .setException e next, d => next.finish (d.setException e)
  | .schedule _ next _, d => ((next.finish d).1, (next.finish d).2 + 1)

/-- A task after its first `n` steps, and how many calls of `schedule` they made. -/
def TaskData.history {τ R : Type*} (b : Behaviour τ R) (task : τ) (d : TaskData R) :
    ℕ → TaskData R × ℕ
  | 0 => (d, 0)
  | n + 1 =>
      let h := history b task d n
      let r := h.1.step b task
      ((r.1.finish r.2).1, h.2 + (r.1.finish r.2).2)

namespace TaskManager

variable {K τ R : Type*}

namespace Manager

/-- The step under way is about to have a call of `schedule` refused. -/
def refuses (m : Manager K τ R) : Bool :=
  match m.loop with
  | .stepping _ (.schedule _ _ _) => !m.running
  | _ => false

variable [DecidableEq τ]

/-- How many steps of a task have begun. -/
def begun (m : Manager K τ R) (task : τ) : ℕ :=
  (m.started.map Prod.fst).countP (fun i => i.task = task)

/-- The calls of `schedule` that the steps of a task made. -/
def ownCalls (m : Manager K τ R) (task : τ) : ℕ :=
  m.accepted.countP (fun i => i.task = task ∧ i.caller.isNone)

/-- The calls of `schedule` that clients made for a task. -/
def clientCalls (m : Manager K τ R) (task : τ) : ℕ :=
  m.accepted.countP (fun i => i.task = task ∧ i.caller.isSome)

/-- Nothing of the task is in a queue or in the loop's hand. -/
def Idle (m : Manager K τ R) (task : τ) : Prop :=
  ∀ i ∈ m.readyq ++ m.sleepq ++ m.loop.items, i.task ≠ task

/-- What a task will be when the step under way has ended, and how many calls of `schedule` that step
    has yet to get through. -/
def forecast (m : Manager K τ R) (task : τ) : TaskData R × ℕ :=
  match m.loop with
  | .stepping i code => if i.task = task then code.finish (m.tasks task) else (m.tasks task, 0)
  | .scheduling i _ _ next =>
      if i.task = task then ((next.finish (m.tasks task)).1, (next.finish (m.tasks task)).2 + 1)
      else (m.tasks task, 0)
  | _ => (m.tasks task, 0)

/-- **What is asked of a graceful shutdown**, of a run with it and a run without it: a task accepted
    before the shutdown that is through in both, having been scheduled by clients as often in one as in
    the other, has the same outcome. -/
def SameOutcome (m m' : Manager K τ R) : Prop :=
  ∀ task ∈ m.acceptedBefore.map (·.task), m.Idle task → m'.Idle task →
    m.clientCalls task = m'.clientCalls task →
    (m.tasks task).future.outcome = (m'.tasks task).future.outcome

theorem countP_callers (l : List (Item K τ)) (task : τ) :
    l.countP (fun i => i.task = task)
      = l.countP (fun i => i.task = task ∧ i.caller.isSome)
        + l.countP (fun i => i.task = task ∧ i.caller.isNone) := by
  induction l with
  | nil => rfl
  | cons i rest ih =>
      rcases hc : i.caller with _ | k <;> by_cases ht : i.task = task <;>
        simp [hc, ht, ih] <;> omega

end Manager

/-- The tasks go through their histories: the step under way leads to the next point of it, and no
    step began that the calls made until then do not account for. -/
structure Foreseen [DecidableEq τ] (b : Behaviour τ R) (tasks : τ → TaskData R) (m : Manager K τ R) :
    Prop where
  data : ∀ task, (m.forecast task).1 = ((tasks task).history b task (m.begun task)).1
  calls : ∀ task, m.ownCalls task + (m.forecast task).2
    = ((tasks task).history b task (m.begun task)).2
  earned : ∀ task n, n < m.begun task →
    n + 1 ≤ m.clientCalls task + ((tasks task).history b task n).2

/-! ## One action -/

/-- A step is under way. -/
def Loop.busy : Loop K τ R → Bool
  | .stepping _ _ | .scheduling _ _ _ _ => true
  | _ => false

theorem Loop.busy_of_bare {l : Loop K τ R} (h : l.bare = true) : l.busy = false := by
  cases l <;> first | rfl | cases h

variable [DecidableEq τ] {b : Behaviour τ R} {tasks : τ → TaskData R}

/-- What an action leaves alone that neither starts a step nor gets a call of `schedule` through. -/
theorem Foreseen.of_eq {m m' : Manager K τ R} (hm : Foreseen b tasks m)
    (hf : ∀ task, m'.forecast task = m.forecast task) (hs : m'.started = m.started)
    (ha : m'.accepted = m.accepted) : Foreseen b tasks m' := by
  have hbegun : ∀ task, m'.begun task = m.begun task := fun task => by
    rw [Manager.begun, Manager.begun, hs]
  refine ⟨?_, ?_, ?_⟩
  · intro task
    rw [hf, hbegun]
    exact hm.data task
  · intro task
    rw [hf, hbegun, Manager.ownCalls, ha]
    exact hm.calls task
  · intro task n hn
    rw [hbegun] at hn
    rw [Manager.clientCalls, ha]
    exact hm.earned task n hn

/-- A call of `schedule` gets through. -/
theorem Foreseen.accept {m m' : Manager K τ R} (hm : Foreseen b tasks m) (i : Item K τ)
    (hdata : ∀ task, (m'.forecast task).1 = (m.forecast task).1)
    (hleft : ∀ task, (m.forecast task).2
      = (m'.forecast task).2 + if i.task = task ∧ i.caller.isNone then 1 else 0)
    (hs : m'.started = m.started) (ha : m'.accepted = m.accepted ++ [i]) : Foreseen b tasks m' := by
  have hbegun : ∀ task, m'.begun task = m.begun task := fun task => by
    rw [Manager.begun, Manager.begun, hs]
  refine ⟨?_, ?_, ?_⟩
  · intro task
    rw [hdata, hbegun]
    exact hm.data task
  · intro task
    have hcalls := hm.calls task
    rw [hleft] at hcalls
    rw [hbegun, ← hcalls, Manager.ownCalls, Manager.ownCalls, ha, List.countP_append,
      List.countP_singleton]
    simp only [decide_eq_true_eq]
    omega
  · intro task n hn
    rw [hbegun] at hn
    have hearned := hm.earned task n hn
    have hle : m.clientCalls task ≤ m'.clientCalls task := by
      rw [Manager.clientCalls, Manager.clientCalls, ha, List.countP_append]
      exact Nat.le_add_right _ _
    omega

theorem Manager.forecast_of_not_busy {m : Manager K τ R} (h : m.loop.busy = false) (task : τ) :
    m.forecast task = (m.tasks task, 0) := by
  unfold Manager.forecast
  split
  · next hl => rw [hl] at h; cases h
  · next hl => rw [hl] at h; cases h
  · rfl

/-- Between two steps the tasks stay as they are. -/
theorem Foreseen.between {m m' : Manager K τ R} (hm : Foreseen b tasks m) (hb : m.loop.busy = false)
    (hb' : m'.loop.busy = false) (ht : m'.tasks = m.tasks) (hs : m'.started = m.started)
    (ha : m'.accepted = m.accepted) : Foreseen b tasks m' :=
  hm.of_eq (fun task => by
    rw [Manager.forecast_of_not_busy hb, Manager.forecast_of_not_busy hb', ht]) hs ha

/-- The task in the loop's hand was scheduled once more than it was stepped. -/
theorem Manager.begun_lt_calls {m : Manager K τ R} (hs : Sound Item.wakeup Item.sleeps m.view)
    {i : Item K τ} (hl : m.loop = .holding i) :
    m.begun i.task < m.clientCalls i.task + m.ownCalls i.task := by
  have hconserved := hs.conserved (fun j => j.task = i.task)
  have hcompleted := hs.begun (fun j => j.task = i.task)
  have hcallers := Manager.countP_callers m.accepted i.task
  simp only [Manager.view, hl, Loop.hand, Hand.items, Hand.underWork, List.countP_cons,
    List.countP_nil, decide_true, if_true] at hconserved hcompleted
  unfold Manager.begun Manager.clientCalls Manager.ownCalls
  omega

/-- A step begins: one more is accounted for, since the task at hand is not completed. -/
theorem Foreseen.begin {m : Manager K τ R} (hm : Foreseen b tasks m)
    (hs : Sound Item.wakeup Item.sleeps m.view) (i : Item K τ) (hl : m.loop = .holding i) :
    Foreseen b tasks { m.modify i.task (fun _ => ((m.tasks i.task).step b i.task).2) with
      loop := .stepping i ((m.tasks i.task).step b i.task).1
      started := m.started ++ [(i, m.clock)] } := by
  set r := (m.tasks i.task).step b i.task with hr
  have hforecast : ∀ task, m.forecast task = (m.tasks task, 0) :=
    Manager.forecast_of_not_busy (by rw [hl]; rfl)
  have hbegun : ∀ task, Manager.begun { m.modify i.task (fun _ => r.2) with
      loop := .stepping i r.1, started := m.started ++ [(i, m.clock)] } task
      = m.begun task + if i.task = task then 1 else 0 := by
    intro task
    simp [Manager.begun, List.countP_cons]
  refine ⟨?_, ?_, ?_⟩
  · intro task
    have hdata := hm.data task
    rw [hforecast] at hdata
    rw [hbegun]
    by_cases ht : i.task = task
    · subst ht
      simp only [Manager.forecast, Manager.modify, Function.update_self, if_true, TaskData.history,
        ← hdata, hr]
    · simp only [Manager.forecast, Manager.modify, ht, if_false, Nat.add_zero, ← hdata]
      rw [Function.update_of_ne (Ne.symm ht)]
  · intro task
    have hdata := hm.data task
    have hcalls := hm.calls task
    rw [hforecast] at hdata hcalls
    rw [hbegun]
    by_cases ht : i.task = task
    · subst ht
      simp only [Manager.forecast, Manager.modify, Function.update_self, if_true, TaskData.history,
        ← hdata, ← hr, ← hcalls]
      rfl
    · simp only [Manager.forecast, ht, if_false, Nat.add_zero]
      exact hcalls
  · intro task n hn
    rw [hbegun] at hn
    by_cases hlt : n < m.begun task
    · exact hm.earned task n hlt
    · -- the step that begins: the one at hand is not among those that were completed
      obtain ⟨rfl, hn⟩ : i.task = task ∧ n = m.begun task := by
        by_cases ht : i.task = task
        · rw [if_pos ht] at hn
          exact ⟨ht, by omega⟩
        · rw [if_neg ht] at hn
          omega
      have hcalls := hm.calls i.task
      rw [hforecast, ← hn, Nat.add_zero] at hcalls
      have hlt := Manager.begun_lt_calls hs hl
      rw [← hn, hcalls] at hlt
      exact hlt

/-- An action of the step under way brings its task nearer to where it will be. -/
theorem Manager.forecast_modify {m m' : Manager K τ R} {i : Item K τ} {code : TaskCode R}
    (hl : m.loop = .stepping i code) {d : TaskData R} (ht : m'.tasks = Function.update m.tasks i.task d)
    (hself : m'.forecast i.task = code.finish (m.tasks i.task))
    (hother : ∀ task, i.task ≠ task → m'.forecast task = (m'.tasks task, 0)) (task : τ) :
    m'.forecast task = m.forecast task := by
  by_cases hi : i.task = task
  · subst hi
    rw [hself, Manager.forecast.eq_def m, hl]
    simp only [if_true]
  · rw [hother task hi, ht, Function.update_of_ne (Ne.symm hi), Manager.forecast.eq_def m, hl]
    simp only [hi, if_false]

/-- A write of the step under way to its task. -/
theorem Foreseen.write {m : Manager K τ R} (hm : Foreseen b tasks m) {i : Item K τ}
    {code next : TaskCode R} (hl : m.loop = .stepping i code) {f : TaskData R → TaskData R}
    (hf : code.finish (m.tasks i.task) = next.finish (f (m.tasks i.task))) :
    Foreseen b tasks { m.modify i.task f with loop := .stepping i next } := by
  refine hm.of_eq (Manager.forecast_modify hl rfl ?_ fun task hi => ?_) rfl rfl
  · simp only [Manager.forecast, Manager.modify, Function.update_self, if_true, hf]
  · simp only [Manager.forecast, hi, if_false]

/-- A put takes one call off what the step under way has yet to get through. -/
theorem Foreseen.put {m m' : Manager K τ R} (hm : Foreseen b tasks m) {i : Item K τ} {sleepTime : ℤ}
    {phase : Scheduling} {next : TaskCode R} (hl : m.loop = .scheduling i sleepTime phase next) (now : ℤ)
    (hl' : m'.loop = .stepping i next) (ht : m'.tasks = m.tasks) (hs : m'.started = m.started)
    (ha : m'.accepted = m.accepted ++ [⟨none, i.task, sleepTime, now⟩]) : Foreseen b tasks m' := by
  refine hm.accept ⟨none, i.task, sleepTime, now⟩ (fun task => ?_) (fun task => ?_) hs ha <;>
    simp only [Manager.forecast, hl, hl', ht] <;> by_cases hi : i.task = task <;> simp [hi]

theorem Foreseen.acts {m m' : Manager K τ R} (hm : Foreseen b tasks m)
    (hs : Sound Item.wakeup Item.sleeps m.view) (hr : m.refuses = false) (h : m.Acts b m') :
    Foreseen b tasks m' := by
  cases h with
  | look l hl hl' _ =>
      exact hm.between (Loop.busy_of_bare hl) (Loop.busy_of_bare hl') rfl rfl rfl
  | take i rest hl hq => exact hm.between (by rw [hl]; rfl) rfl rfl rfl rfl
  | begin i hl => exact hm.begin hs i hl
  | returns i hl =>
      refine hm.of_eq (fun task => ?_) rfl rfl
      simp only [Manager.endStep, Manager.forecast, hl, TaskCode.finish, ite_self]
  | caught i e hl he =>
      refine hm.of_eq (Manager.forecast_modify hl rfl ?_ fun task _ => ?_) rfl rfl
      · simp only [Manager.endStep, Manager.forecast, Manager.modify, Function.update_self,
          TaskCode.finish, he, if_true]
      · exact Manager.forecast_of_not_busy rfl task
  | dies i e hl he =>
      refine hm.of_eq (fun task => ?_) rfl rfl
      simp only [Manager.forecast, hl, TaskCode.finish, he, Bool.false_eq_true, if_false, ite_self]
  | setState i phase next hl => exact hm.write hl rfl
  | setResult i r next hl => exact hm.write hl rfl
  | setException i e next hl => exact hm.write hl rfl
  | passes i sleepTime next refused hl _ =>
      refine hm.of_eq (fun task => ?_) rfl rfl
      simp only [Manager.forecast, hl, TaskCode.finish]
  | refused i sleepTime next refused hl hrun => simp [Manager.refuses, hl, hrun] at hr
  | putReady i sleepTime next hl _ => exact hm.put hl m.clock rfl rfl rfl rfl
  | stamp i sleepTime next hl _ =>
      refine hm.of_eq (fun task => ?_) rfl rfl
      simp only [Manager.forecast, hl]
  | putSleep i sleepTime now next hl => exact hm.put hl now rfl rfl rfl rfl
  | lift left i rest hl hq => exact hm.between (by rw [hl]; rfl) rfl rfl rfl rfl
  | due left i hl hw => exact hm.between (by rw [hl]; rfl) rfl rfl rfl rfl
  | early left i hl => exact hm.between (by rw [hl]; rfl) rfl rfl rfl rfl
  | wake left i hl => exact hm.between (by rw [hl]; rfl) rfl rfl rfl rfl
  | rest left i hl => exact hm.between (by rw [hl]; rfl) rfl rfl rfl rfl

theorem Foreseen.client {m m' : Manager K τ R} (hm : Foreseen b tasks m) {k : K} {c c' : Client τ}
    (h : c.step k m = some (m', c')) : Foreseen b tasks m' := by
  rcases Client.step_cases h with ⟨-, rfl, -⟩ | ⟨task, sleepTime, rest, phase, -, -, rfl, -⟩
  · exact hm
  · rcases m.schedule_cases (some k) task sleepTime phase with
      ⟨-, -, he⟩ | ⟨-, -, he⟩ | ⟨now, -, he⟩ <;> rw [he]
    · exact hm.accept ⟨some k, task, sleepTime, m.clock⟩ (fun _ => rfl) (fun _ => by simp; rfl) rfl rfl
    · exact hm
    · exact hm.accept ⟨some k, task, sleepTime, now⟩ (fun _ => rfl) (fun _ => by simp; rfl) rfl rfl

/-! ## Every run -/

section Runs

variable [DecidableEq K] {s s' : Interleave.State (Thread K) (Manager K τ R) (Client τ)}

/-- The queues are sound and the tasks go through their histories. -/
structure Told (b : Behaviour τ R) (tasks : τ → TaskData R)
    (s : Interleave.State (Thread K) (Manager K τ R) (Client τ)) : Prop where
  ready : Ready s
  foreseen : Foreseen b tasks s.shared

omit [DecidableEq K] in
theorem told_start (calls : K → List (τ × ℤ)) {shutdown : Shutdown K τ} (hg : shutdown.Graceful) :
    Told b tasks (start tasks calls shutdown) :=
  ⟨ready_start tasks calls hg, fun _ => rfl, fun _ => rfl, fun _ n hn => absurd hn (Nat.not_lt_zero n)⟩

theorem Told.step (hs : Told b tasks s) {t : Thread K} {m' : Manager K τ R} {c' : Client τ}
    (hr : t = .loop → s.shared.refuses = false)
    (h : next b t s.shared (s.thread t) = some (m', c')) : Told b tasks (s.move t m' c') := by
  refine ⟨hs.ready.step h, ?_⟩
  rw [State.move_shared]
  rcases t with _ | _ | k | elapsed
  · obtain ⟨m₁, hm, he⟩ := Option.map_eq_some_iff.1 h
    obtain ⟨rfl, rfl⟩ := Prod.mk.inj he
    exact hs.foreseen.acts hs.ready.sound (hr rfl) (Manager.runStep_acts hm)
  · obtain ⟨m₁, hm, he⟩ := Option.map_eq_some_iff.1 h
    obtain ⟨rfl, rfl⟩ := Prod.mk.inj he
    obtain ⟨-, rfl⟩ := s.shared.shutdownStep_graceful hs.ready.graceful hm
    exact hs.foreseen.of_eq (fun _ => rfl) rfl rfl
  · exact hs.foreseen.client h
  · obtain ⟨rfl, rfl⟩ := Prod.mk.inj (Option.some.inj h)
    exact hs.foreseen.of_eq (fun _ => rfl) rfl rfl

/-- No call of `schedule` that a step makes is refused. -/
def NoRefusal (s : Interleave.State (Thread K) (Manager K τ R) (Client τ)) (t : Thread K) : Prop :=
  t = .loop → s.shared.refuses = false

instance (s : Interleave.State (Thread K) (Manager K τ R) (Client τ)) (t : Thread K) :
    Decidable (NoRefusal s t) :=
  inferInstanceAs (Decidable (_ → _))

theorem told_of_noRefusal (calls : K → List (τ × ℤ)) {shutdown : Shutdown K τ}
    (h : ReachableWhen NoRefusal (ofNext (next b)) (start tasks calls shutdown) s)
    (hg : shutdown.Graceful) : Told b tasks s :=
  h.invariant (told_start calls hg) fun _ _ _ _ hs hr hact => hs.step hr hact

/-- Without a shutdown nothing is refused. -/
theorem told_of_never (calls : K → List (τ × ℤ))
    (h : Reachable (ofNext (next b)) (start tasks calls .never) s) : Told b tasks s := by
  refine (h.invariant (I := fun s => Told b tasks s ∧ CallsKept calls s)
    ⟨told_start calls trivial, callsKept_start tasks calls⟩ ?_).1
  intro s t m' c' hs hact
  refine ⟨hs.1.step (fun _ => ?_) hact, hs.2.step hact⟩
  unfold Manager.refuses
  split
  · rw [hs.2.running]
    rfl
  · rfl

/-! ## The end of a task -/

omit [DecidableEq K] in
theorem Manager.Idle.countP_eq_zero {m : Manager K τ R} {task : τ} (h : m.Idle task)
    {l : List (Item K τ)} (hl : ∀ i ∈ l, i ∈ m.readyq ++ m.sleepq ++ m.loop.items) :
    l.countP (fun i => i.task = task) = 0 :=
  List.countP_eq_zero.2 fun i hi => by simpa using h i (hl i hi)

omit [DecidableEq K] in
/-- When nothing of a task is left, all that was accepted has been stepped to its end: the task is
    where its history has it, and the calls of the clients and of its steps are as many as its steps. -/
theorem Told.end_of_idle (hs : Told b tasks s) {task : τ} (h : s.shared.Idle task) :
    s.shared.tasks task = ((tasks task).history b task (s.shared.begun task)).1 ∧
      s.shared.begun task = s.shared.clientCalls task
        + ((tasks task).history b task (s.shared.begun task)).2 := by
  have hforecast : s.shared.forecast task = (s.shared.tasks task, 0) := by
    unfold Manager.forecast
    split
    case h_3 => rfl
    all_goals
      next hl => exact if_neg (h _ (by simp [hl, Loop.items, Loop.hand, Hand.items]))
  have hdata := hs.foreseen.data task
  have hcalls := hs.foreseen.calls task
  rw [hforecast] at hdata hcalls
  refine ⟨hdata, ?_⟩
  have hconserved := hs.ready.sound.conserved (fun i => i.task = task)
  have hbegun := hs.ready.sound.begun (fun i => i.task = task)
  have hready := h.countP_eq_zero (l := s.shared.readyq) (by simp +contextual)
  have hsleep := h.countP_eq_zero (l := s.shared.sleepq) (by simp +contextual)
  have hitems := h.countP_eq_zero (l := s.shared.loop.items) (by simp +contextual)
  have hwork := h.countP_eq_zero (l := s.shared.loop.hand.underWork) (fun i hi => by
    rw [Loop.items]
    rcases hh : s.shared.loop.hand with _ | j | j | j | j <;> rw [hh] at hi <;>
      simp_all [Hand.underWork, Hand.items])
  have hcallers := Manager.countP_callers s.shared.accepted task
  unfold Loop.items at hitems
  simp only [Manager.view] at hconserved hbegun
  simp only [Manager.begun, Manager.clientCalls, Manager.ownCalls] at hcalls ⊢
  omega

omit [DecidableEq K] in
/-- Of two runs with as many calls of clients, neither goes further than the other. -/
theorem Told.begun_le (hs : Told b tasks s) (hs' : Told b tasks s') {task : τ}
    (h : s.shared.Idle task) (hc : s.shared.clientCalls task = s'.shared.clientCalls task) :
    s'.shared.begun task ≤ s.shared.begun task := by
  by_contra hlt
  -- the other run began a step that the calls until then do not account for
  have hearned := hs'.foreseen.earned task (s.shared.begun task) (by omega)
  have hend := (hs.end_of_idle h).2
  omega

omit [DecidableEq K] in
theorem Told.tasks_eq (hs : Told b tasks s) (hs' : Told b tasks s') {task : τ}
    (h : s.shared.Idle task) (h' : s'.shared.Idle task)
    (hc : s.shared.clientCalls task = s'.shared.clientCalls task) :
    s.shared.tasks task = s'.shared.tasks task := by
  have hbegun : s.shared.begun task = s'.shared.begun task :=
    le_antisymm (hs'.begun_le hs h' hc.symm) (hs.begun_le hs' h hc)
  rw [(hs.end_of_idle h).1, (hs'.end_of_idle h').1, hbegun]

/-! ## The end of the loop -/

omit [DecidableEq K] in
/-- The ways into the tests at the head of the loop. -/
theorem Manager.Acts.ending {m m' : Manager K τ R} (h : m.Acts b m') (he : m'.loop.ending = true) :
    (m.running = false ∧ m' = { m with loop := .testReadyq }) ∨
    (m.loop = .testReadyq ∧ m.readyq = [] ∧ m' = { m with loop := .testSleepq }) ∨
    (m.loop = .testSleepq ∧ m.sleepq = [] ∧ m' = { m with loop := .exited }) := by
  cases h with
  | look l _ _ hend =>
      rcases hend he with ⟨hr, rfl⟩ | ⟨hl, hq, rfl⟩ | ⟨hl, hq, rfl⟩
      · exact .inl ⟨hr, rfl⟩
      · exact .inr (.inl ⟨hl, hq, rfl⟩)
      · exact .inr (.inr ⟨hl, hq, rfl⟩)
  | _ => cases he

/-- On its way out the loop has left nothing behind of what was accepted before the shutdown. -/
structure Drained (m : Manager K τ R) : Prop where
  calling : ∀ force, m.shutdown = .waiting force → m.running = true
  stopped : m.loop.ending = true → m.running = false
  before : ∀ p, m.acceptedBefore.countP p ≤ m.accepted.countP p
  asleep : m.loop = .testSleepq → ∀ p,
    m.acceptedBefore.countP p ≤ m.completed.countP p + m.sleepq.countP p
  emptied : m.loop = .exited → ∀ p, m.acceptedBefore.countP p ≤ m.completed.countP p

omit [DecidableEq K] in
theorem Drained.acts {m m' : Manager K τ R} (hm : Drained m)
    (hs : Sound Item.wakeup Item.sleeps m.view) (h : m.Acts b m') : Drained m' := by
  have hc := h.sameControl
  have hbefore : ∀ p, m'.acceptedBefore.countP p ≤ m'.accepted.countP p := by
    intro p
    have hle := hm.before p
    rw [hc.acceptedBefore]
    rcases h.accepted with ha | ⟨i, -, ha⟩ <;> rw [ha]
    · exact hle
    · rw [List.countP_append]
      omega
  refine ⟨?_, ?_, hbefore, ?_, ?_⟩
  · intro force hw
    rw [hc.running]
    exact hm.calling force (hc.shutdown ▸ hw)
  · intro he
    rw [hc.running]
    rcases h.ending he with ⟨hr, -⟩ | ⟨hl, -⟩ | ⟨hl, -⟩
    · exact hr
    · exact hm.stopped (by rw [hl]; rfl)
    · exact hm.stopped (by rw [hl]; rfl)
  · intro hl p
    rcases h.ending (by rw [hl]; rfl) with ⟨-, rfl⟩ | ⟨hl₀, hq, rfl⟩ | ⟨-, -, rfl⟩
    · cases hl
    · -- `readyq` was empty, so what is not completed sleeps
      have hconserved := hs.conserved p
      have hle := hm.before p
      simp only [Manager.view, hl₀, hq, Loop.hand, Hand.items, List.countP_nil] at hconserved
      show m.acceptedBefore.countP p ≤ m.completed.countP p + m.sleepq.countP p
      omega
    · cases hl
  · intro hl p
    rcases h.ending (by rw [hl]; rfl) with ⟨-, rfl⟩ | ⟨-, -, rfl⟩ | ⟨hl₀, hq, rfl⟩
    · cases hl
    · cases hl
    · have hle := hm.asleep hl₀ p
      rw [hq, List.countP_nil] at hle
      exact hle

omit [DecidableEq K] [DecidableEq τ] in
/-- A call of `schedule` only adds to the queues. -/
theorem Drained.schedule {m : Manager K τ R} (hm : Drained m) (caller : Option K) (task : τ)
    (sleepTime : ℤ) (phase : Scheduling) : Drained (m.schedule caller task sleepTime phase).1 := by
  obtain ⟨hcalling, hstopped, hbefore, hasleep, hemptied⟩ := hm
  rcases m.schedule_cases caller task sleepTime phase with
    ⟨-, -, he⟩ | ⟨-, -, he⟩ | ⟨now, -, he⟩ <;> rw [he]
  · refine ⟨hcalling, hstopped, ?_, hasleep, hemptied⟩
    intro p
    have hle := hbefore p
    simp only [List.countP_append]
    omega
  · exact ⟨hcalling, hstopped, hbefore, hasleep, hemptied⟩
  · refine ⟨hcalling, hstopped, ?_, ?_, hemptied⟩
    · intro p
      have hle := hbefore p
      simp only [List.countP_append]
      omega
    · intro hl p
      have hle := hasleep hl p
      simp only [List.countP_append]
      omega

omit [DecidableEq K] in
theorem Drained.step (hr : Ready s) (hs : Drained s.shared) {t : Thread K} {m' : Manager K τ R}
    {c' : Client τ} (h : next b t s.shared (s.thread t) = some (m', c')) : Drained m' := by
  rcases t with _ | _ | k | elapsed
  · obtain ⟨m₁, hm, he⟩ := Option.map_eq_some_iff.1 h
    obtain ⟨rfl, rfl⟩ := Prod.mk.inj he
    exact hs.acts hr.sound (Manager.runStep_acts hm)
  · obtain ⟨m₁, hm, he⟩ := Option.map_eq_some_iff.1 h
    obtain ⟨rfl, rfl⟩ := Prod.mk.inj he
    obtain ⟨hw, rfl⟩ := s.shared.shutdownStep_graceful hr.graceful hm
    have hrun := hs.calling false hw
    -- the loop is not on its way out while `running` is set
    have hending : s.shared.loop.ending = false := by
      rcases he : s.shared.loop.ending with _ | _
      · rfl
      · rw [hs.stopped he] at hrun
        cases hrun
    refine ⟨fun force hf => by simp at hf, fun _ => rfl, fun _ => le_rfl, fun hl => ?_, fun hl => ?_⟩ <;>
    · rw [show s.shared.loop = _ from hl] at hending
      cases hending
  · rcases Client.step_cases h with ⟨-, rfl, -⟩ | ⟨task, sleepTime, rest, phase, -, -, rfl, -⟩
    · exact hs
    · exact hs.schedule (some k) task sleepTime phase
  · obtain ⟨rfl, rfl⟩ := Prod.mk.inj (Option.some.inj h)
    exact ⟨hs.calling, hs.stopped, hs.before, hs.asleep, hs.emptied⟩

theorem drained_of_noRefusal (calls : K → List (τ × ℤ))
    (h : ReachableWhen NoRefusal (ofNext (next b)) (start tasks calls (.waiting false)) s) :
    Drained s.shared := by
  refine (h.invariant (I := fun s => Ready s ∧ Drained s.shared) ⟨ready_start tasks calls trivial, ?_⟩
    fun s t m' c' hs _ hact => ⟨hs.1.step hact, hs.2.step hs.1 hact⟩).2
  exact ⟨fun _ _ => rfl, fun he => (Bool.false_ne_true he).elim, fun _ => le_rfl, nofun, nofun⟩

/-- **When a graceful shutdown leaves the outcomes alone.** In every run with a graceful shutdown in
    which no call of `schedule` that a step makes is refused: the tasks accepted before the shutdown end
    as they do in any run without it, and when the loop exits, every call accepted before the shutdown
    has been stepped to its end. -/
theorem graceful_sameOutcome (b : Behaviour τ R) (tasks : τ → TaskData R) (calls : K → List (τ × ℤ))
    (h : ReachableWhen NoRefusal (ofNext (next b)) (start tasks calls (.waiting false)) s)
    (h' : Reachable (ofNext (next b)) (start tasks calls .never) s') :
    s.shared.SameOutcome s'.shared ∧
      (s.shared.loop = .exited →
        (s.shared.acceptedBefore : Multiset (Item K τ)) ≤ (s.shared.completed : Multiset (Item K τ))) := by
  have hs := told_of_noRefusal calls h trivial
  have hs' := told_of_never calls h'
  refine ⟨?_, ?_⟩
  · intro task _ hi hi' hc
    rw [hs.tasks_eq hs' hi hi' hc]
  · intro hl
    refine Multiset.le_iff_count.2 fun i => ?_
    simp only [Multiset.coe_count]
    exact (drained_of_noRefusal calls h).emptied hl (· == i)

end Runs

/-- One client schedules one task. -/
def oneCall (_ : Unit) : List (Bool × ℤ) := [(true, 0)]

/-- The task is stepped twice and has its result. -/
def quietRun : List (Thread Unit) := List.replicate 2 (.client ()) ++ List.replicate 17 .loop

/-- The flag is cleared after the first step. -/
def lateShutdown : List (Thread Unit) :=
  List.replicate 2 (.client ()) ++ List.replicate 10 .loop ++ [.shutdown] ++ List.replicate 13 .loop

/-- The flag is cleared while the task is `PENDING`, in `readyq`. -/
def earlyShutdown : List (Thread Unit) :=
  List.replicate 2 (.client ()) ++ [.shutdown] ++ List.replicate 13 .loop

theorem graceful_sameOutcome_lateShutdown :
    ∃ s s', runScheduleWhen NoRefusal (next quick) lateShutdown
        (start (fun _ => .new "task") oneCall (.waiting false)) = some s ∧
      runSchedule (next quick) quietRun (start (fun _ => .new "task") oneCall .never) = some s' ∧
      s.shared.loop = .exited ∧
      (s.shared.tasks true).future.outcome = some (.returned (some 1)) ∧
      s.shared.SameOutcome s'.shared :=
  ⟨_, _, rfl, rfl, rfl, rfl, (graceful_sameOutcome quick (fun _ => .new "task") oneCall
    (reachableWhen_of_runSchedule lateShutdown rfl) (reachable_of_runSchedule quietRun rfl)).1⟩

/-- A task in `readyq` when the flag is cleared: its first step asks for the second, which is refused,
    and it ends with the exception of `schedule` in place of its result. -/
theorem earlyShutdown_refuses_pending :
    ¬ ∀ s s' : Interleave.State (Thread Unit) (Manager Unit Bool ℕ) (Client Bool),
      Reachable (ofNext (next quick)) (start (fun _ => .new "task") oneCall (.waiting false)) s →
      Reachable (ofNext (next quick)) (start (fun _ => .new "task") oneCall .never) s' →
      s.shared.SameOutcome s'.shared := by
  intro h
  have hout := h _ _ (reachable_of_runSchedule earlyShutdown rfl)
    (reachable_of_runSchedule quietRun rfl) true (List.mem_singleton.2 rfl)
    (fun _ hi => absurd hi List.not_mem_nil) (fun _ hi => absurd hi List.not_mem_nil) rfl
  have hdiff : some (Future.Outcome.raised notRunning)
      ≠ some (Future.Outcome.returned (some 1) : Future.Outcome (Option ℕ) ClientError) := by
    simp
  exact hdiff hout

end TaskManager

end TestInfra
