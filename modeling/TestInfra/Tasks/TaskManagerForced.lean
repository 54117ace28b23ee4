import TestInfra.Tasks.TaskManager

set_option autoImplicit false

/-! # What a forced shutdown leaves behind

`shutdown(force=True)` drains `sleepq` into `readyq` and then `readyq`, cancelling every task it meets,
until each of the two is found empty. A task that `run` has taken out of a queue and not yet put back, or
not yet stepped, is in neither: if the queue is found empty at that moment, the task survives the
shutdown, and is put back or stepped after `shutdown` has returned.

When that does not happen, no task that was waiting when `shutdown` was called is left uncancelled in a
queue, and none is executed once it has returned (`forced_stops`). -/

namespace TestInfra

open Interleave

namespace TaskData

variable {τ R : Type*}

/-! ## A task that is done stays done -/

theorem done_fail (e : ClientError) (d : TaskData R) : (d.fail e).done = true := rfl

theorem done_setState (phase : TaskPhase) (d : TaskData R) : (d.setState phase).done = d.done := rfl

theorem done_setResult (r : Option R) (d : TaskData R) : (d.setResult r).done = true := rfl

theorem done_setException (e : ClientError) (d : TaskData R) : (d.setException e).done = true := rfl

theorem done_cancel (d : TaskData R) (h : d.done = true) : d.cancel.done = true := by
  obtain ⟨name, phase, ⟨state, result, exception, callbacks⟩, calls⟩ := d
  rcases state with _ | _ | _ | _ | _ <;> simp_all [cancel, done, Future.cancel, Future.done]

theorem done_step (b : Behaviour τ R) (task : τ) (d : TaskData R) : (d.step b task).2.done = d.done := by
  unfold step
  split
  · rfl
  · split <;> rfl

end TaskData

namespace TaskManager

variable {K τ R : Type*}

/-- The task of the step that has a call of `schedule` under way. -/
def Loop.scheduled : Loop K τ R → List (Item K τ)
  | .scheduling i _ _ _ => [i]
  | _ => []

theorem Loop.transit_of_bare {l : Loop K τ R} (h : l.bare = true) : l.transit = [] := by
  cases l <;> first | rfl | cases h

theorem Loop.held_of_bare {l : Loop K τ R} (h : l.bare = true) : l.held = [] := by
  cases l <;> first | rfl | cases h

/-- `shutdown` has cleared `running`. -/
def Shutdown.called : Shutdown K τ → Bool
  | .never | .waiting _ => false
  | _ => true

/-- A forced shutdown has found `sleepq` empty. -/
def Shutdown.sweptSleepq : Shutdown K τ → Bool
  | .testReadyq | .getReadyq | .cancelReady _ | .returned true => true
  | _ => false

namespace Manager

/-- The task was waiting when `shutdown` was called, and has not been cancelled or finished since:
    `cancel` would still take effect. -/
def Escapes (m : Manager K τ R) (task : τ) : Prop :=
  task ∈ m.waiting ∧ (m.tasks task).done = false

instance [DecidableEq τ] (m : Manager K τ R) (task : τ) : Decidable (m.Escapes task) :=
  inferInstanceAs (Decidable (_ ∧ _))

/-- The next action of the loop is a call of `execute` or `check` of the task. -/
def Enters (m : Manager K τ R) (task : τ) : Prop :=
  ∃ i, m.loop = .holding i ∧ i.task = task ∧ (m.tasks task).done = false ∧
    ((m.tasks task).phase = .executing ∨ (m.tasks task).phase = .checking)

/-- **What is asked of a forced shutdown** that has returned: of the tasks that were in a queue or in
    transit when it was called, none is left uncancelled in a queue, and none is about to execute. -/
def AllStopped (m : Manager K τ R) : Prop :=
  ∀ task ∈ m.waiting,
    (∀ i ∈ m.readyq ++ m.sleepq, i.task = task → (m.tasks task).done = true) ∧ ¬ m.Enters task

/-! ## What the actions of the loop do to the waiting tasks -/

variable [DecidableEq τ]

theorem modify_done {m : Manager K τ R} {f : TaskData R → TaskData R} (u : τ)
    (hf : (m.tasks u).done = true → (f (m.tasks u)).done = true) (task : τ)
    (h : (m.tasks task).done = true) : ((m.modify u f).tasks task).done = true := by
  simp only [modify]
  by_cases hu : task = u
  · subst hu
    rw [Function.update_self]
    exact hf h
  · rw [Function.update_of_ne hu]
    exact h

omit [DecidableEq τ] in
theorem schedule_tasks (caller : Option K) (task : τ) (sleepTime : ℤ) (phase : Scheduling)
    (m : Manager K τ R) : (m.schedule caller task sleepTime phase).1.tasks = m.tasks := by
  rcases m.schedule_cases caller task sleepTime phase with
    ⟨-, -, he⟩ | ⟨-, -, he⟩ | ⟨now, -, he⟩ <;> rw [he]

theorem Acts.done {b : Behaviour τ R} {m m' : Manager K τ R} (h : m.Acts b m') (task : τ)
    (hd : (m.tasks task).done = true) : (m'.tasks task).done = true := by
  cases h with
  | begin i _ =>
      exact modify_done (f := fun _ => ((m.tasks i.task).step b i.task).2) i.task
        (fun h => (TaskData.done_step b i.task _).trans h) task hd
  | caught i e _ _ => exact modify_done i.task (fun _ => TaskData.done_fail e _) task hd
  | setState i phase next _ =>
      exact modify_done i.task (fun h => (TaskData.done_setState phase _).trans h) task hd
  | setResult i r next _ => exact modify_done i.task (fun _ => TaskData.done_setResult r _) task hd
  | setException i e next _ => exact modify_done i.task (fun _ => TaskData.done_setException e _) task hd
  | _ => exact hd

omit [DecidableEq τ] in
/-- A call of `schedule` adds its task to one of the queues. -/
theorem mem_schedule (caller : Option K) (task : τ) (sleepTime : ℤ) (phase : Scheduling)
    (m : Manager K τ R) {i : Item K τ} :
    (i ∈ (m.schedule caller task sleepTime phase).1.readyq → i ∈ m.readyq ∨ i.task = task) ∧
    (i ∈ (m.schedule caller task sleepTime phase).1.sleepq → i ∈ m.sleepq ∨ i.task = task) := by
  rcases m.schedule_cases caller task sleepTime phase with
    ⟨-, -, he⟩ | ⟨-, -, he⟩ | ⟨now, -, he⟩ <;> rw [he] <;>
    simp +contextual [or_imp]

/-- What is in `sleepq` or in transit was there before, or is scheduled by the step under way. -/
theorem Acts.mem_sleepq {b : Behaviour τ R} {m m' : Manager K τ R} (h : m.Acts b m') {i : Item K τ}
    (hi : i ∈ m'.sleepq ++ m'.loop.transit) :
    i ∈ m.sleepq ++ m.loop.transit ∨ ∃ j ∈ m.loop.scheduled, i.task = j.task := by
  -- an action that leaves `sleepq` alone and ends with nothing in transit
  have hsame : i ∈ m.sleepq ++ [] → i ∈ m.sleepq ++ m.loop.transit := fun hi =>
    List.mem_append_left _ (by simpa using hi)
  cases h with
  | look l hl hl' _ =>
      rw [show (Manager.loop _).transit = [] from Loop.transit_of_bare hl'] at hi
      exact .inl (hsame hi)
  | putSleep j sleepTime now next hl =>
      rcases List.mem_append.1 (by simpa [Loop.transit] using hi :
        i ∈ m.sleepq ++ [⟨none, j.task, sleepTime, now⟩]) with hi | hi
      · exact .inl (List.mem_append_left _ hi)
      · obtain rfl := List.mem_singleton.1 hi
        exact .inr ⟨j, by simp [hl, Loop.scheduled], rfl⟩
  | lift left j rest hl hq => exact .inl (by simpa [hl, hq, Loop.transit, or_comm] using hi)
  | due left j hl hw => exact .inl (by simpa [hl, Loop.transit] using hi)
  | early left j hl => exact .inl (by simpa [hl, Loop.transit] using hi)
  | rest left j hl => exact .inl (by simpa [hl, Loop.transit] using hi)
  | _ => exact .inl (hsame hi)

/-- What is in `readyq` or held by the loop was there before, comes from `sleepq`, or is scheduled by
    the step under way. -/
theorem Acts.mem_readyq {b : Behaviour τ R} {m m' : Manager K τ R} (h : m.Acts b m') {i : Item K τ}
    (hi : i ∈ m'.readyq ++ m'.loop.held) :
    i ∈ m.readyq ++ m.loop.held ∨ i ∈ m.loop.transit ∨ ∃ j ∈ m.loop.scheduled, i.task = j.task := by
  have hsame : i ∈ m.readyq ++ [] → i ∈ m.readyq ++ m.loop.held := fun hi =>
    List.mem_append_left _ (by simpa using hi)
  cases h with
  | look l hl hl' _ =>
      rw [show (Manager.loop _).held = [] from Loop.held_of_bare hl'] at hi
      exact .inl (hsame hi)
  | take j rest hl hq => exact .inl (by simpa [hl, hq, Loop.held, or_comm] using hi)
  | putReady j sleepTime next hl hs =>
      rcases List.mem_append.1 (by simpa [Loop.held] using hi :
        i ∈ m.readyq ++ [⟨none, j.task, sleepTime, m.clock⟩]) with hi | hi
      · exact .inl (List.mem_append_left _ hi)
      · obtain rfl := List.mem_singleton.1 hi
        exact .inr (.inr ⟨j, by simp [hl, Loop.scheduled], rfl⟩)
  | wake left j hl =>
      rcases List.mem_append.1 (by simpa [Loop.held] using hi : i ∈ m.readyq ++ [j]) with hi | hi
      · exact .inl (List.mem_append_left _ hi)
      · exact .inr (.inl (by simpa [hl, Loop.transit] using hi))
  | _ => exact .inl (hsame hi)

omit [DecidableEq τ] in
theorem Escapes.mono {m m' : Manager K τ R} {task : τ} (h : m'.Escapes task)
    (hw : m'.waiting = m.waiting) (hd : (m.tasks task).done = true → (m'.tasks task).done = true) :
    m.Escapes task := by
  refine ⟨hw ▸ h.1, ?_⟩
  rcases hdone : (m.tasks task).done with _ | _
  · rfl
  · exact absurd (hd hdone) (by rw [h.2]; decide)

end Manager

/-! ## The sweep -/

/-- What a forced shutdown has achieved so far: no waiting task that is not done sleeps or is in transit
    once `sleepq` has been found empty, and none is in `readyq` or about to be stepped once it has
    returned. -/
structure Swept (m : Manager K τ R) : Prop where
  stopped : m.shutdown.called = true → m.running = false
  sleepers : m.shutdown.sweptSleepq = true → ∀ i ∈ m.sleepq ++ m.loop.transit, ¬ m.Escapes i.task
  ready : m.shutdown = .returned true → ∀ i ∈ m.readyq ++ m.loop.held, ¬ m.Escapes i.task

theorem Shutdown.called_of_sweptSleepq {x : Shutdown K τ} (h : x.sweptSleepq = true) :
    x.called = true := by
  unfold Shutdown.sweptSleepq at h
  split at h
  case h_5 => cases h
  all_goals rfl

/-- An action of the loop or of a client keeps what was achieved, if it puts no waiting task into a
    queue. -/
theorem Swept.keep {m m' : Manager K τ R} (hm : Swept m) (hc : m.SameControl m')
    (hd : ∀ task, (m.tasks task).done = true → (m'.tasks task).done = true)
    (hsleepq : ∀ i ∈ m'.sleepq ++ m'.loop.transit,
      i ∈ m.sleepq ++ m.loop.transit ∨ (m.running = false → ¬ m.Escapes i.task))
    (hreadyq : ∀ i ∈ m'.readyq ++ m'.loop.held, i ∈ m.readyq ++ m.loop.held ∨ i ∈ m.loop.transit ∨
      (m.running = false → ¬ m.Escapes i.task)) : Swept m' := by
  have hmono : ∀ task, m'.Escapes task → m.Escapes task := fun task h =>
    h.mono hc.waiting (hd task)
  refine ⟨?_, ?_, ?_⟩
  · intro h
    rw [hc.running]
    exact hm.stopped (hc.shutdown ▸ h)
  · intro h i hi hesc
    have hswept : m.shutdown.sweptSleepq = true := hc.shutdown ▸ h
    rcases hsleepq i hi with hi | hno
    · exact hm.sleepers hswept i hi (hmono _ hesc)
    · exact hno (hm.stopped (Shutdown.called_of_sweptSleepq hswept)) (hmono _ hesc)
  · intro h i hi hesc
    have hret : m.shutdown = .returned true := hc.shutdown ▸ h
    have hswept : m.shutdown.sweptSleepq = true := by rw [hret]; rfl
    rcases hreadyq i hi with hi | hi | hno
    · exact hm.ready hret i hi (hmono _ hesc)
    · exact hm.sleepers hswept i (List.mem_append_right _ hi) (hmono _ hesc)
    · exact hno (hm.stopped (Shutdown.called_of_sweptSleepq hswept)) (hmono _ hesc)

section Runs

variable [DecidableEq τ] {b : Behaviour τ R}

/-- **The moments that matter.** When `shutdown` finds `sleepq` empty, the loop has no waiting task in
    its hand between the queues; when it finds `readyq` empty, the loop is not about to step one; and
    once `running` is cleared, no call of `schedule` that had passed the test puts one into a queue.
    Tasks that are cancelled or finished by then do not matter. -/
def Clear (s : State (Thread K) (Manager K τ R) (Client τ)) : Thread K → Prop
  | .shutdown =>
      (s.shared.shutdown = .testSleepq → s.shared.sleepq = [] →
        ∀ i ∈ s.shared.loop.transit, ¬ s.shared.Escapes i.task) ∧
      (s.shared.shutdown = .testReadyq → s.shared.readyq = [] →
        ∀ i ∈ s.shared.loop.held, ¬ s.shared.Escapes i.task)
  | .loop => s.shared.running = false → ∀ i ∈ s.shared.loop.scheduled, ¬ s.shared.Escapes i.task
  | .client k => s.shared.running = false → (s.thread (.client k)).phase ≠ none →
      ∀ call ∈ (s.thread (.client k)).calls.head?, ¬ s.shared.Escapes call.1
  | .tick _ => True

instance [DecidableEq K] (s : State (Thread K) (Manager K τ R) (Client τ)) (t : Thread K) :
    Decidable (Clear s t) :=
  match t with
  | .shutdown => inferInstanceAs (Decidable ((_ → _ → _) ∧ (_ → _ → _)))
  | .loop => inferInstanceAs (Decidable (_ → _))
  | .client _ => inferInstanceAs (Decidable (_ → _ → _))
  | .tick _ => inferInstanceAs (Decidable True)

theorem Swept.shutdownStep {m m' : Manager K τ R} (hm : Swept m)
    (hsleepq : m.shutdown = .testSleepq → m.sleepq = [] → ∀ i ∈ m.loop.transit, ¬ m.Escapes i.task)
    (hreadyq : m.shutdown = .testReadyq → m.readyq = [] → ∀ i ∈ m.loop.held, ¬ m.Escapes i.task)
    (h : m.shutdownStep = some m') : Swept m' := by
  unfold Manager.shutdownStep at h
  split at h
  case h_1 => cases h
  case h_2 force hs =>
    obtain rfl := Option.some.inj h
    rcases force with _ | _ <;> exact ⟨fun _ => rfl, nofun, nofun⟩
  case h_3 hs =>
    have hstopped := hm.stopped (by rw [hs]; rfl)
    obtain rfl := Option.some.inj h
    rcases hq : m.sleepq with _ | ⟨i, rest⟩
    · exact ⟨fun _ => hstopped, fun _ i hi => hsleepq hs hq i hi, nofun⟩
    · exact ⟨fun _ => hstopped, nofun, nofun⟩
  case h_4 hs =>
    have hstopped := hm.stopped (by rw [hs]; rfl)
    split at h
    · cases h
    · obtain rfl := Option.some.inj h
      exact ⟨fun _ => hstopped, nofun, nofun⟩
  case h_5 i hs | h_6 i hs =>
    have hstopped := hm.stopped (by rw [hs]; rfl)
    obtain rfl := Option.some.inj h
    exact ⟨fun _ => hstopped, nofun, nofun⟩
  case h_7 hs =>
    have hstopped := hm.stopped (by rw [hs]; rfl)
    have hsleepers := hm.sleepers (by rw [hs]; rfl)
    obtain rfl := Option.some.inj h
    rcases hq : m.readyq with _ | ⟨i, rest⟩
    · exact ⟨fun _ => hstopped, fun _ => hsleepers, fun _ i hi => hreadyq hs hq i hi⟩
    · exact ⟨fun _ => hstopped, fun _ => hsleepers, nofun⟩
  case h_8 hs =>
    have hstopped := hm.stopped (by rw [hs]; rfl)
    have hsleepers := hm.sleepers (by rw [hs]; rfl)
    split at h
    · cases h
    · obtain rfl := Option.some.inj h
      exact ⟨fun _ => hstopped, fun _ => hsleepers, nofun⟩
  case h_9 i hs =>
    have hstopped := hm.stopped (by rw [hs]; rfl)
    have hsleepers := hm.sleepers (by rw [hs]; rfl)
    obtain rfl := Option.some.inj h
    refine ⟨fun _ => hstopped, ?_, nofun⟩
    intro _ j hj hesc
    -- a task that escapes now escaped before it was cancelled
    exact hsleepers j hj (hesc.mono rfl (Manager.modify_done i.task (TaskData.done_cancel _) j.task))
  case h_10 => cases h

theorem Swept.step {s : State (Thread K) (Manager K τ R) (Client τ)} (hs : Swept s.shared)
    {t : Thread K} {m' : Manager K τ R} {c' : Client τ} (hc : Clear s t)
    (h : next b t s.shared (s.thread t) = some (m', c')) : Swept m' := by
  rcases t with _ | _ | k | elapsed
  · obtain ⟨m₁, hm, he⟩ := Option.map_eq_some_iff.1 h
    obtain ⟨rfl, rfl⟩ := Prod.mk.inj he
    have hput : ∀ i : Item K τ, (∃ j ∈ s.shared.loop.scheduled, i.task = j.task) →
        s.shared.running = false → ¬ s.shared.Escapes i.task := by
      rintro i ⟨j, hj, hij⟩ hrun
      rw [hij]
      exact hc hrun j hj
    have hacts := Manager.runStep_acts hm
    refine hs.keep hacts.sameControl hacts.done (fun i hi => ?_) fun i hi => ?_
    · exact (hacts.mem_sleepq hi).imp_right (hput i)
    · exact (hacts.mem_readyq hi).imp_right (Or.imp_right (hput i))
  · obtain ⟨m₁, hm, he⟩ := Option.map_eq_some_iff.1 h
    obtain ⟨rfl, rfl⟩ := Prod.mk.inj he
    exact hs.shutdownStep hc.1 hc.2 hm
  · obtain ⟨hcontrol, hloop⟩ := Client.step_sameControl h
    rcases Client.step_cases h with
      ⟨-, rfl, -⟩ | ⟨task, sleepTime, rest, phase, hcalls, hphase, rfl, -⟩
    · exact hs
    · have hput : ∀ i : Item K τ, i.task = task → s.shared.running = false →
          ¬ s.shared.Escapes i.task := by
        rintro i rfl hrun
        exact hc hrun (by rw [hphase]; simp) (i.task, sleepTime) (by simp [hcalls])
      refine hs.keep hcontrol (fun u hu => ?_) (fun i hi => ?_) fun i hi => ?_
      · rw [Manager.schedule_tasks]
        exact hu
      · rw [hloop] at hi
        rcases List.mem_append.1 hi with hi | hi
        · exact ((s.shared.mem_schedule _ _ _ _).2 hi).imp (List.mem_append_left _) (hput i)
        · exact .inl (List.mem_append_right _ hi)
      · rw [hloop] at hi
        rcases List.mem_append.1 hi with hi | hi
        · exact ((s.shared.mem_schedule _ _ _ _).1 hi).imp (List.mem_append_left _)
            fun hi => .inr (hput i hi)
        · exact .inl (List.mem_append_right _ hi)
  · obtain ⟨rfl, rfl⟩ := Prod.mk.inj (Option.some.inj h)
    exact ⟨hs.stopped, hs.sleepers, hs.ready⟩

variable [DecidableEq K]

/-- **When a forced shutdown stops every waiting task.** In every run whose steps all meet `Clear`, once
    `shutdown(force=True)` has returned no task that was in a queue or in transit between the queues
    when it was called is left uncancelled in a queue, and none is executed. -/
theorem forced_stops (b : Behaviour τ R) (tasks : τ → TaskData R) (calls : K → List (τ × ℤ))
    {s : State (Thread K) (Manager K τ R) (Client τ)}
    (h : ReachableWhen Clear (ofNext (next b)) (start tasks calls (.waiting true)) s)
    (hret : s.shared.shutdown = .returned true) : s.shared.AllStopped := by
  have hs : Swept s.shared := h.invariant (I := fun s => Swept s.shared)
    ⟨nofun, nofun, nofun⟩ fun _ _ _ _ hs hc hact => hs.step hc hact
  have hqueue : ∀ i ∈ s.shared.readyq ++ s.shared.sleepq, ¬ s.shared.Escapes i.task := by
    intro i hi
    rcases List.mem_append.1 hi with hi | hi
    · exact hs.ready hret i (List.mem_append_left _ hi)
    · exact hs.sleepers (by rw [hret]; rfl) i (List.mem_append_left _ hi)
  intro task hw
  refine ⟨?_, ?_⟩
  · rintro i hi rfl
    rcases hd : (s.shared.tasks i.task).done with _ | _
    · exact absurd ⟨hw, hd⟩ (hqueue i hi)
    · rfl
  · rintro ⟨i, hl, rfl, hd, -⟩
    exact hs.ready hret i (List.mem_append_right _ (by simp [hl, Loop.held])) ⟨hw, hd⟩

end Runs

/-- Tasks whose first call of `execute` asks to be called again after five units of time. -/
def patient : Behaviour Bool ℕ where
  execute _ n :=
    if n = 0 then .schedule 5 .returns (.raises notRunning)
    else .setState .finished (.setResult (some 1) .returns)
  check _ _ := .returns

/-- The shutdown meets a sleeping task, and the loop exits. -/
def sweepSleeper : List (Thread Unit) :=
  List.replicate 3 (.client ()) ++ List.replicate 2 .loop ++ List.replicate 10 .shutdown
    ++ List.replicate 5 .loop

theorem forced_stops_sweepSleeper :
    ∃ s, runScheduleWhen Clear (next patient) sweepSleeper
        (start (fun _ => .new "task") (fun _ => [(true, 5)]) (.waiting true)) = some s ∧
      s.shared.loop = .exited ∧ s.shared.waiting = [true] ∧
      (s.shared.tasks true).future.state = .cancelled ∧ s.shared.AllStopped :=
  ⟨_, rfl, rfl, rfl, rfl, forced_stops patient (fun _ => .new "task") (fun _ => [(true, 5)])
    (reachableWhen_of_runSchedule sweepSleeper rfl) rfl⟩

/-- The loop takes the sleeping task out of `sleepq`; the shutdown finds both queues empty and returns;
    the loop puts the task into `readyq` and takes it from there. -/
def missTransit : List (Thread Unit) :=
  List.replicate 2 (.client ()) ++ List.replicate 20 .loop ++ List.replicate 3 .shutdown ++ [.tick 5]
    ++ List.replicate 7 .loop

/-- A task that is in the loop's hand between the queues while the shutdown looks at them is not
    cancelled, and its `execute` is called after the shutdown has returned. -/
theorem missTransit_executes :
    ¬ ∀ s : State (Thread Unit) (Manager Unit Bool ℕ) (Client Bool),
      Reachable (ofNext (next patient))
        (start (fun _ => .new "task") (fun _ => [(true, 0)]) (.waiting true)) s →
      s.shared.shutdown = .returned true → s.shared.AllStopped := by
  intro h
  have hstop := h _ (reachable_of_runSchedule missTransit rfl) rfl true (List.mem_singleton.2 rfl)
  exact hstop.2 ⟨⟨none, true, 5, 0⟩, rfl, rfl, rfl, .inl rfl⟩

end TaskManager

end TestInfra
