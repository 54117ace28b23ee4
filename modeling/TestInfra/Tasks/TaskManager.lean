import TestInfra.Lib.Interleave
import TestInfra.Tasks.Validate

set_option autoImplicit false

/-! # The task manager

`TaskManager` (`lib/tasks/taskmanager.py`) is a thread that steps tasks: `schedule` puts a task into
`readyq`, or into `sleepq` with the time it is to wake up; `run` takes one task at a time from `readyq`,
calls its `step`, and then goes once round `sleepq`; `shutdown` clears `running` and, when forced, drains
both queues. Any number of threads call `schedule` while `run` is going on, and `step` itself calls it to
have the task stepped again.

The operations of a `queue.Queue`, the reads and writes of `running`, a look at the clock and the calls
on a future are atomic; between any two of them the other threads may move. Times are integers, in
whatever unit the clock has.

A queue holds its tasks with where they come from (`Item`), which the source does not keep; with it the
records `accepted`, `started` and `completed` say what became of every call of `schedule`. -/

namespace TestInfra

/-- The values of `task.state`. -/
inductive TaskPhase where
  | pending
  | executing
  | checking
  | finished
  | other (text : String)
deriving DecidableEq, Repr

/-- What a call of `execute` or `check` does, as far as the manager and the task's own state go. The
    calls of `schedule` in `lib/tasks/task.py` are all of the form `task_manager.schedule(self, ..)`;
    `refused` is how the task goes on when that raises. -/
inductive TaskCode (R : Type*) where
  | returns
  | raises (e : ClientError)
  | setState (phase : TaskPhase) (next : TaskCode R)
  | setResult (r : Option R) (next : TaskCode R)
  | setException (e : ClientError) (next : TaskCode R)
  | schedule (sleepTime : ℤ) (next refused : TaskCode R)
deriving DecidableEq

/-- What the subclasses of `Task` override: what the `n`-th call of `execute` or `check` does. -/
structure Behaviour (τ R : Type*) where
  execute : τ → ℕ → TaskCode R
  check : τ → ℕ → TaskCode R

/-- The fields of `Task` the manager deals with, and how often `execute` or `check` was called. -/
structure TaskData (R : Type*) where
  name : String
  phase : TaskPhase
  future : Future R ClientError Unit
  calls : ℕ
deriving DecidableEq

/-- Raised by `schedule`. -/
def notRunning : ClientError :=
  .raised (.exception "Tried to schedule a task when task manager not running")

/-- What `except Exception` catches. -/
def ClientError.isException : ClientError → Bool
  | .raised _ | .sdkError _ => true
  | .baseException _ => false

namespace TaskData

variable {τ R : Type*}

/-- `Task(name)`. -/
def new (name : String) : TaskData R := ⟨name, .pending, .new, 0⟩

def done (d : TaskData R) : Bool := d.future.done

/-- The handler of `run`: `task.state = FINISHED; task.set_exception(error)`. -/
def fail (e : ClientError) (d : TaskData R) : TaskData R :=
  { d with phase := .finished, future := (d.future.setException e).1 }

def setState (phase : TaskPhase) (d : TaskData R) : TaskData R := { d with phase := phase }

def setResult (r : Option R) (d : TaskData R) : TaskData R :=
  { d with future := (d.future.setResult r).1 }

def setException (e : ClientError) (d : TaskData R) : TaskData R :=
  { d with future := (d.future.setException e).1 }

def cancel (d : TaskData R) : TaskData R := { d with future := d.future.cancel.2.1 }

/-- `Task.step`: the code it runs. Only `step` itself reads `state`, in the thread that writes it, so
    the test of `done` and the dispatch are one step. -/
def step (b : Behaviour τ R) (task : τ) (d : TaskData R) : TaskCode R × TaskData R :=
  if d.done then (.returns, d)
  else
    match d.phase with
    | .pending => (.setState .executing (.schedule 0 .returns (.raises notRunning)), d)
    | .executing => (b.execute task d.calls, { d with calls := d.calls + 1 })
    | .checking => (b.check task d.calls, { d with calls := d.calls + 1 })
    | .finished => (.returns, d)
    | .other text => (.raises (.raised (.exception ("Bad State in " ++ d.name ++ ": " ++ text))), d)

end TaskData

namespace TaskManager

/-- A task in a queue, with the call of `schedule` that put it there: the thread that made it (`none`
    for the loop, from inside a step), the `sleep_time`, and the clock as the call saw it. -/
structure Item (K τ : Type*) where
  caller : Option K
  task : τ
  sleepTime : ℤ
  called : ℤ
deriving DecidableEq

namespace Item

variable {K τ : Type*}

/-- `wakeup_time`. -/
def wakeup (i : Item K τ) : ℤ := i.called + i.sleepTime

/-- Whether the call put the task into `sleepq`. -/
def sleeps (i : Item K τ) : Bool := 0 < i.sleepTime

end Item

/-- How far a call of `schedule` is that found `running` true: before the test of `sleep_time`, or with
    the clock read, before `sleepq.put`. -/
inductive Scheduling where
  | passed
  | stamped (now : ℤ)
deriving DecidableEq

/-- Where `run` is. -/
inductive Loop (K τ R : Type*) where
  /-- The three tests of the `while`. -/
  | testRunning
  | testReadyq
  | testSleepq
  /-- `if self.readyq.empty()`; `time.sleep(1)` changes nothing. -/
  | branch
  | get
  /-- `task.step(self)` is about to be called. -/
  | holding (i : Item K τ)
  | stepping (i : Item K τ) (code : TaskCode R)
  | scheduling (i : Item K τ) (sleepTime : ℤ) (phase : Scheduling) (next : TaskCode R)
  /-- `range(self.sleepq.qsize())`, then the turns that are left. -/
  | size
  | rotate (left : ℕ)
  /-- `s_task` in hand: before the clock is read, and on its way to `readyq` or back to `sleepq`. -/
  | waking (left : ℕ) (i : Item K τ)
  | wake (left : ℕ) (i : Item K τ)
  | rest (left : ℕ) (i : Item K τ)
  | exited
  /-- A step raised what is not an `Exception`. -/
  | died (i : Item K τ)
deriving DecidableEq

/-- Where `shutdown` is; `never` when nobody calls it. -/
inductive Shutdown (K τ : Type*) where
  | never
  | waiting (force : Bool)
  | testSleepq
  | getSleepq
  | cancelSleeper (i : Item K τ)
  | putReadyq (i : Item K τ)
  | testReadyq
  | getReadyq
  | cancelReady (i : Item K τ)
  | returned (force : Bool)
deriving DecidableEq

/-- The `s_task` that `run` took from `sleepq` and has not put anywhere. -/
def Loop.transit {K τ R : Type*} : Loop K τ R → List (Item K τ)
  | .waking _ i | .wake _ i | .rest _ i => [i]
  | _ => []

/-- The task that `run` took from `readyq` and whose step has not begun. -/
def Loop.held {K τ R : Type*} : Loop K τ R → List (Item K τ)
  | .holding i => [i]
  | _ => []

/-- The manager, its two threads and the tasks, with the record of the calls of `schedule` that were
    accepted, of the steps started (and when) and of those completed. `acceptedBefore` and `waiting` are
    set when `shutdown` is called: the calls accepted until then, and the tasks that were in a queue or
    in transit between the queues. -/
structure Manager (K τ R : Type*) where
  running : Bool
  readyq : List (Item K τ)
  sleepq : List (Item K τ)
  clock : ℤ
  tasks : τ → TaskData R
  loop : Loop K τ R
  shutdown : Shutdown K τ
  accepted : List (Item K τ)
  started : List (Item K τ × ℤ)
  completed : List (Item K τ)
  acceptedBefore : List (Item K τ)
  waiting : List τ

/-- A thread that calls `schedule`: the calls it has yet to make, the first of them possibly begun. -/
structure Client (τ : Type*) where
  calls : List (τ × ℤ)
  phase : Option Scheduling
deriving DecidableEq

/-- The threads; `tick n` lets `n` units of time pass. -/
inductive Thread (K : Type*) where
  | loop
  | shutdown
  | client (k : K)
  | tick (elapsed : ℕ)
deriving DecidableEq

variable {K τ R : Type*}

namespace Manager

variable [DecidableEq τ]

/-- Something happens to one task. -/
def modify (m : Manager K τ R) (task : τ) (f : TaskData R → TaskData R) : Manager K τ R :=
  { m with tasks := Function.update m.tasks task (f (m.tasks task)) }

/-- `schedule` after the test of `running`; it returns when no phase is left. -/
def schedule (caller : Option K) (task : τ) (sleepTime : ℤ) (phase : Scheduling) (m : Manager K τ R) :
    Manager K τ R × Option Scheduling :=
  match phase with
  | .passed =>
      if sleepTime ≤ 0 then
        ({ m with
            readyq := m.readyq ++ [⟨caller, task, sleepTime, m.clock⟩]
            accepted := m.accepted ++ [⟨caller, task, sleepTime, m.clock⟩] }, none)
      -- only a call that is to sleep looks at the clock
      else (m, some (.stamped m.clock))
  | .stamped now =>
      ({ m with
          sleepq := m.sleepq ++ [⟨caller, task, sleepTime, now⟩]
          accepted := m.accepted ++ [⟨caller, task, sleepTime, now⟩] }, none)

/-- `task.step` has returned, or its exception was caught. -/
def endStep (i : Item K τ) (m : Manager K τ R) : Manager K τ R :=
  { m with loop := .size, completed := m.completed ++ [i] }

/-- One action of the code a step runs. -/
def stepCode (i : Item K τ) (m : Manager K τ R) : TaskCode R → Manager K τ R
  | .returns => m.endStep i
  | .raises e =>
      if e.isException then (m.modify i.task (·.fail e)).endStep i else { m with loop := .died i }
  | .setState phase next => { m.modify i.task (·.setState phase) with loop := .stepping i next }
  | .setResult r next => { m.modify i.task (·.setResult r) with loop := .stepping i next }
  | .setException e next => { m.modify i.task (·.setException e) with loop := .stepping i next }
  | .schedule sleepTime next refused =>
      { m with
        loop := if m.running then .scheduling i sleepTime .passed next else .stepping i refused }

/-- One action of `run`; `none` when it blocks on an empty queue or is over. -/
def runStep (b : Behaviour τ R) (m : Manager K τ R) : Option (Manager K τ R) :=
  match m.loop with
  | .testRunning => some { m with loop := if m.running then .branch else .testReadyq }
  | .testReadyq => some { m with loop := if m.readyq.isEmpty then .testSleepq else .branch }
  | .testSleepq => some { m with loop := if m.sleepq.isEmpty then .exited else .branch }
  | .branch => some { m with loop := if m.readyq.isEmpty then .size else .get }
  | .get =>
      -- blocks if `shutdown` emptied the queue since the test
      match m.readyq with
      | [] => none
      | i :: rest => some { m with readyq := rest, loop := .holding i }
  | .holding i =>
      let r := (m.tasks i.task).step b i.task
      some { m.modify i.task (fun _ => r.2) with
        loop := .stepping i r.1
        started := m.started ++ [(i, m.clock)] }
  | .stepping i code => some (m.stepCode i code)
  | .scheduling i sleepTime phase next =>
      match m.schedule none i.task sleepTime phase with
      | (m', some phase') => some { m' with loop := .scheduling i sleepTime phase' next }
      | (m', none) => some { m' with loop := .stepping i next }
  -- the size is read once, while the clients go on appending
  | .size => some { m with loop := .rotate m.sleepq.length }
  | .rotate 0 => some { m with loop := .testRunning }
  | .rotate (left + 1) =>
      match m.sleepq with
      | [] => none
      | i :: rest => some { m with sleepq := rest, loop := .waking left i }
  | .waking left i => some { m with loop := if i.wakeup ≤ m.clock then .wake left i else .rest left i }
  | .wake left i => some { m with readyq := m.readyq ++ [i], loop := .rotate left }
  | .rest left i => some { m with sleepq := m.sleepq ++ [i], loop := .rotate left }
  | .exited => none
  | .died _ => none

/-- One action of `shutdown`. -/
def shutdownStep (m : Manager K τ R) : Option (Manager K τ R) :=
  match m.shutdown with
  | .never => none
  | .waiting force =>
      some { m with
        running := false
        shutdown := if force then .testSleepq else .returned false
        acceptedBefore := m.accepted
        waiting := (m.readyq ++ m.sleepq ++ m.loop.transit).map (·.task) }
  | .testSleepq => some { m with shutdown := if m.sleepq.isEmpty then .testReadyq else .getSleepq }
  | .getSleepq =>
      match m.sleepq with
      | [] => none
      | i :: rest => some { m with sleepq := rest, shutdown := .cancelSleeper i }
  | .cancelSleeper i => some { m.modify i.task (·.cancel) with shutdown := .putReadyq i }
  | .putReadyq i => some { m with readyq := m.readyq ++ [i], shutdown := .testSleepq }
  | .testReadyq => some { m with shutdown := if m.readyq.isEmpty then .returned true else .getReadyq }
  | .getReadyq =>
      match m.readyq with
      | [] => none
      | i :: rest => some { m with readyq := rest, shutdown := .cancelReady i }
  -- the handler around the two calls raises again what it catches
  | .cancelReady i => some { m.modify i.task (·.cancel) with shutdown := .testReadyq }
  | .returned _ => none

end Manager

/-- One action of a client: the test of `running` (a call that is refused is over), then the rest of
    `schedule`. -/
def Client.step (k : K) (m : Manager K τ R) (c : Client τ) : Option (Manager K τ R × Client τ) :=
  match c.calls, c.phase with
  | [], _ => none
  | _ :: rest, none => some (m, if m.running then { c with phase := some .passed } else ⟨rest, none⟩)
  | (task, sleepTime) :: rest, some phase =>
      match m.schedule (some k) task sleepTime phase with
      | (m', some phase') => some (m', { c with phase := some phase' })
      | (m', none) => some (m', ⟨rest, none⟩)

variable [DecidableEq τ]

/-- The next action of a thread. -/
def next (b : Behaviour τ R) :
    Thread K → Manager K τ R → Client τ → Option (Manager K τ R × Client τ)
  | .loop, m, c => (m.runStep b).map (·, c)
  | .shutdown, m, c => m.shutdownStep.map (·, c)
  | .client k, m, c => c.step k m
  | .tick elapsed, m, c => some ({ m with clock := m.clock + elapsed }, c)

/-- `TaskManager()` and `start()`, with the tasks there are, the calls every client is going to make,
    and whether somebody is going to call `shutdown`. -/
def start (tasks : τ → TaskData R) (calls : K → List (τ × ℤ)) (shutdown : Shutdown K τ) :
    Interleave.State (Thread K) (Manager K τ R) (Client τ) where
  shared :=
    { running := true, readyq := [], sleepq := [], clock := 0, tasks := tasks, loop := .testRunning
      shutdown := shutdown, accepted := [], started := [], completed := [], acceptedBefore := []
      waiting := [] }
  thread
    | .client k => ⟨calls k, none⟩
    | _ => ⟨[], none⟩

/-! ## The actions, said once -/

omit [DecidableEq τ] in
/-- **A call of `schedule`, said once**: it puts a task into one of the queues and returns, or reads the
    clock first. -/
theorem Manager.schedule_cases (caller : Option K) (task : τ) (sleepTime : ℤ) (phase : Scheduling)
    (m : Manager K τ R) :
    (sleepTime ≤ 0 ∧ phase = .passed ∧ m.schedule caller task sleepTime phase
      = ({ m with
            readyq := m.readyq ++ [⟨caller, task, sleepTime, m.clock⟩]
            accepted := m.accepted ++ [⟨caller, task, sleepTime, m.clock⟩] }, none)) ∨
    (0 < sleepTime ∧ phase = .passed ∧
      m.schedule caller task sleepTime phase = (m, some (.stamped m.clock))) ∨
    (∃ now, phase = .stamped now ∧ m.schedule caller task sleepTime phase
      = ({ m with
            sleepq := m.sleepq ++ [⟨caller, task, sleepTime, now⟩]
            accepted := m.accepted ++ [⟨caller, task, sleepTime, now⟩] }, none)) := by
  rcases phase with _ | now
  · by_cases hs : sleepTime ≤ 0
    · exact .inl ⟨hs, rfl, by simp [Manager.schedule, hs]⟩
    · exact .inr (.inl ⟨by omega, rfl, by simp [Manager.schedule, hs]⟩)
  · exact .inr (.inr ⟨now, rfl, rfl⟩)

omit [DecidableEq τ] in
/-- **A client's action**: the test of `running`, or a step of the call under way. -/
theorem Client.step_cases {k : K} {m m' : Manager K τ R} {c c' : Client τ}
    (h : c.step k m = some (m', c')) :
    (c.phase = none ∧ m' = m ∧
      ((m.running = true ∧ c' = { c with phase := some .passed }) ∨
        (m.running = false ∧ c' = ⟨c.calls.tail, none⟩))) ∨
    (∃ task sleepTime rest phase, c.calls = (task, sleepTime) :: rest ∧ c.phase = some phase ∧
      m' = (m.schedule (some k) task sleepTime phase).1 ∧
      ((m.schedule (some k) task sleepTime phase).2 = none ∧ c' = ⟨rest, none⟩ ∨
        ∃ phase', (m.schedule (some k) task sleepTime phase).2 = some phase' ∧
          c' = { c with phase := some phase' })) := by
  obtain ⟨calls, phase⟩ := c
  unfold Client.step at h
  split at h
  · cases h
  · next call rest hcalls hphase =>
    obtain ⟨rfl, rfl⟩ := Prod.mk.inj (Option.some.inj h)
    refine .inl ⟨hphase, rfl, ?_⟩
    cases hr : m.running with
    | true => exact .inl ⟨rfl, by simp⟩
    | false => exact .inr ⟨rfl, by simp only at hcalls; simp [hcalls]⟩
  · next task sleepTime rest phase hcalls hphase =>
    refine .inr ⟨task, sleepTime, rest, phase, hcalls, hphase, ?_⟩
    split at h
    · next m₁ phase' he =>
      obtain ⟨rfl, rfl⟩ := Prod.mk.inj (Option.some.inj h)
      rw [he]
      exact ⟨rfl, .inr ⟨phase', rfl, rfl⟩⟩
    · next m₁ he =>
      obtain ⟨rfl, rfl⟩ := Prod.mk.inj (Option.some.inj h)
      rw [he]
      exact ⟨rfl, .inl ⟨rfl, rfl⟩⟩

/-- An action that has nothing to do with the shutdown. -/
structure Manager.SameControl (m m' : Manager K τ R) : Prop where
  running : m'.running = m.running
  shutdown : m'.shutdown = m.shutdown
  acceptedBefore : m'.acceptedBefore = m.acceptedBefore
  waiting : m'.waiting = m.waiting

omit [DecidableEq τ] in
theorem Manager.schedule_loop (caller : Option K) (task : τ) (sleepTime : ℤ) (phase : Scheduling)
    (m : Manager K τ R) : (m.schedule caller task sleepTime phase).1.loop = m.loop := by
  rcases m.schedule_cases caller task sleepTime phase with
    ⟨-, -, he⟩ | ⟨-, -, he⟩ | ⟨now, -, he⟩ <;> rw [he]

omit [DecidableEq τ] in
theorem Manager.schedule_sameControl (caller : Option K) (task : τ) (sleepTime : ℤ)
    (phase : Scheduling) (m : Manager K τ R) :
    m.SameControl (m.schedule caller task sleepTime phase).1 := by
  rcases m.schedule_cases caller task sleepTime phase with
    ⟨-, -, he⟩ | ⟨-, -, he⟩ | ⟨now, -, he⟩ <;> rw [he] <;> exact ⟨rfl, rfl, rfl, rfl⟩

/-- The loop is between two pieces of work, with nothing in its hand. -/
def Loop.bare : Loop K τ R → Bool
  | .testRunning | .testReadyq | .testSleepq | .branch | .get | .size | .rotate _ | .exited => true
  | .holding _ | .stepping _ _ | .scheduling _ _ _ _ | .waking _ _ | .wake _ _ | .rest _ _ | .died _ =>
      false

/-- The loop found `running` cleared and has not found a task since. -/
def Loop.ending : Loop K τ R → Bool
  | .testReadyq | .testSleepq | .exited => true
  | _ => false

/-- **What an action of `run` can be.** -/
inductive Manager.Acts (b : Behaviour τ R) (m : Manager K τ R) : Manager K τ R → Prop
  /-- A test, or the size of `sleepq`; the ways into the last tests of the loop and out of it. -/
  | look (l : Loop K τ R) (hl : m.loop.bare = true) (hl' : l.bare = true)
      (hend : l.ending = true → (m.running = false ∧ l = .testReadyq) ∨
        (m.loop = .testReadyq ∧ m.readyq = [] ∧ l = .testSleepq) ∨
        (m.loop = .testSleepq ∧ m.sleepq = [] ∧ l = .exited)) :
      Acts b m { m with loop := l }
  | take (i : Item K τ) (rest : List (Item K τ)) (hl : m.loop = .get) (hq : m.readyq = i :: rest) :
      Acts b m { m with readyq := rest, loop := .holding i }
  | begin (i : Item K τ) (hl : m.loop = .holding i) :
      Acts b m { m.modify i.task (fun _ => ((m.tasks i.task).step b i.task).2) with
        loop := .stepping i ((m.tasks i.task).step b i.task).1
        started := m.started ++ [(i, m.clock)] }
  | returns (i : Item K τ) (hl : m.loop = .stepping i .returns) : Acts b m (m.endStep i)
  | caught (i : Item K τ) (e : ClientError) (hl : m.loop = .stepping i (.raises e))
      (he : e.isException = true) : Acts b m ((m.modify i.task (·.fail e)).endStep i)
  | dies (i : Item K τ) (e : ClientError) (hl : m.loop = .stepping i (.raises e))
      (he : e.isException = false) : Acts b m { m with loop := .died i }
  | setState (i : Item K τ) (phase : TaskPhase) (next : TaskCode R)
      (hl : m.loop = .stepping i (.setState phase next)) :
      Acts b m { m.modify i.task (·.setState phase) with loop := .stepping i next }
  | setResult (i : Item K τ) (r : Option R) (next : TaskCode R)
      (hl : m.loop = .stepping i (.setResult r next)) :
      Acts b m { m.modify i.task (·.setResult r) with loop := .stepping i next }
  | setException (i : Item K τ) (e : ClientError) (next : TaskCode R)
      (hl : m.loop = .stepping i (.setException e next)) :
      Acts b m { m.modify i.task (·.setException e) with loop := .stepping i next }
  | passes (i : Item K τ) (sleepTime : ℤ) (next refused : TaskCode R)
      (hl : m.loop = .stepping i (.schedule sleepTime next refused)) (hr : m.running = true) :
      Acts b m { m with loop := .scheduling i sleepTime .passed next }
  | refused (i : Item K τ) (sleepTime : ℤ) (next refused : TaskCode R)
      (hl : m.loop = .stepping i (.schedule sleepTime next refused)) (hr : m.running = false) :
      Acts b m { m with loop := .stepping i refused }
  | putReady (i : Item K τ) (sleepTime : ℤ) (next : TaskCode R)
      (hl : m.loop = .scheduling i sleepTime .passed next) (hs : sleepTime ≤ 0) :
      Acts b m { m with
        readyq := m.readyq ++ [⟨none, i.task, sleepTime, m.clock⟩]
        accepted := m.accepted ++ [⟨none, i.task, sleepTime, m.clock⟩]
        loop := .stepping i next }
  | stamp (i : Item K τ) (sleepTime : ℤ) (next : TaskCode R)
      (hl : m.loop = .scheduling i sleepTime .passed next) (hs : 0 < sleepTime) :
      Acts b m { m with loop := .scheduling i sleepTime (.stamped m.clock) next }
  | putSleep (i : Item K τ) (sleepTime now : ℤ) (next : TaskCode R)
      (hl : m.loop = .scheduling i sleepTime (.stamped now) next) :
      Acts b m { m with
        sleepq := m.sleepq ++ [⟨none, i.task, sleepTime, now⟩]
        accepted := m.accepted ++ [⟨none, i.task, sleepTime, now⟩]
        loop := .stepping i next }
  | lift (left : ℕ) (i : Item K τ) (rest : List (Item K τ)) (hl : m.loop = .rotate (left + 1))
      (hq : m.sleepq = i :: rest) : Acts b m { m with sleepq := rest, loop := .waking left i }
  | due (left : ℕ) (i : Item K τ) (hl : m.loop = .waking left i) (hw : i.wakeup ≤ m.clock) :
      Acts b m { m with loop := .wake left i }
  | early (left : ℕ) (i : Item K τ) (hl : m.loop = .waking left i) :
      Acts b m { m with loop := .rest left i }
  | wake (left : ℕ) (i : Item K τ) (hl : m.loop = .wake left i) :
      Acts b m { m with readyq := m.readyq ++ [i], loop := .rotate left }
  | rest (left : ℕ) (i : Item K τ) (hl : m.loop = .rest left i) :
      Acts b m { m with sleepq := m.sleepq ++ [i], loop := .rotate left }

theorem Manager.stepCode_acts {b : Behaviour τ R} {m : Manager K τ R} {i : Item K τ}
    {code : TaskCode R} (hl : m.loop = .stepping i code) : m.Acts b (m.stepCode i code) := by
  rcases code with _ | e | ⟨phase, next⟩ | ⟨r, next⟩ | ⟨e, next⟩ | ⟨sleepTime, next, refused⟩
  · exact .returns i hl
  · rcases he : e.isException with _ | _
    · have hcode : m.stepCode i (.raises e) = { m with loop := .died i } := by
        simp only [Manager.stepCode, he, Bool.false_eq_true, if_false]
      rw [hcode]
      exact .dies i e hl he
    · have hcode : m.stepCode i (.raises e) = (m.modify i.task (·.fail e)).endStep i := by
        simp only [Manager.stepCode, he, if_true]
      rw [hcode]
      exact .caught i e hl he
  · exact .setState i phase next hl
  · exact .setResult i r next hl
  · exact .setException i e next hl
  · rcases hr : m.running with _ | _
    · have hcode : m.stepCode i (.schedule sleepTime next refused)
          = { m with loop := .stepping i refused } := by
        simp only [Manager.stepCode, hr, Bool.false_eq_true, if_false]
      rw [hcode]
      exact .refused i sleepTime next refused hl hr
    · have hcode : m.stepCode i (.schedule sleepTime next refused)
          = { m with loop := .scheduling i sleepTime .passed next } := by
        simp only [Manager.stepCode, hr, if_true]
      rw [hcode]
      exact .passes i sleepTime next refused hl hr

theorem Manager.runStep_acts {b : Behaviour τ R} {m m' : Manager K τ R} (h : m.runStep b = some m') :
    m.Acts b m' := by
  unfold Manager.runStep at h
  split at h
  · next hl =>
    obtain rfl := Option.some.inj h
    refine .look _ (by rw [hl]; rfl) (by split <;> rfl) fun he => ?_
    rcases hr : m.running with _ | _
    · exact .inl ⟨rfl, by simp⟩
    · simp [hr, Loop.ending] at he
  · next hl =>
    obtain rfl := Option.some.inj h
    refine .look _ (by rw [hl]; rfl) (by split <;> rfl) fun he => ?_
    rcases hq : m.readyq with _ | ⟨i, rest⟩
    · exact .inr (.inl ⟨hl, rfl, by simp⟩)
    · simp [hq, Loop.ending] at he
  · next hl =>
    obtain rfl := Option.some.inj h
    refine .look _ (by rw [hl]; rfl) (by split <;> rfl) fun he => ?_
    rcases hq : m.sleepq with _ | ⟨i, rest⟩
    · exact .inr (.inr ⟨hl, rfl, by simp⟩)
    · simp [hq, Loop.ending] at he
  · next hl =>
    obtain rfl := Option.some.inj h
    refine .look _ (by rw [hl]; rfl) (by split <;> rfl) fun he => ?_
    split at he <;> cases he
  · next hl =>
    split at h
    · cases h
    · next i rest hq =>
      obtain rfl := Option.some.inj h
      exact .take i rest hl hq
  · next i hl =>
    obtain rfl := Option.some.inj h
    exact .begin i hl
  · next i code hl =>
    obtain rfl := Option.some.inj h
    exact Manager.stepCode_acts hl
  · next i sleepTime phase next hl =>
    rcases m.schedule_cases none i.task sleepTime phase with
      ⟨hs, rfl, he⟩ | ⟨hs, rfl, he⟩ | ⟨now, rfl, he⟩ <;> rw [he] at h <;> obtain rfl := Option.some.inj h
    · exact .putReady i sleepTime next hl hs
    · exact .stamp i sleepTime next hl hs
    · exact .putSleep i sleepTime now next hl
  · next hl =>
    obtain rfl := Option.some.inj h
    exact .look _ (by rw [hl]; rfl) rfl nofun
  · next hl =>
    obtain rfl := Option.some.inj h
    exact .look _ (by rw [hl]; rfl) rfl nofun
  · next left hl =>
    split at h
    · cases h
    · next i rest hq =>
      obtain rfl := Option.some.inj h
      exact .lift left i rest hl hq
  · next left i hl =>
    obtain rfl := Option.some.inj h
    split
    · next hw => exact .due left i hl hw
    · exact .early left i hl
  · next left i hl =>
    obtain rfl := Option.some.inj h
    exact .wake left i hl
  · next left i hl =>
    obtain rfl := Option.some.inj h
    exact .rest left i hl
  · cases h
  · cases h

theorem Manager.Acts.sameControl {b : Behaviour τ R} {m m' : Manager K τ R} (h : m.Acts b m') :
    m.SameControl m' := by
  cases h <;> exact ⟨rfl, rfl, rfl, rfl⟩

/-- What the loop accepts, a step under way has scheduled. -/
theorem Manager.Acts.accepted {b : Behaviour τ R} {m m' : Manager K τ R} (h : m.Acts b m') :
    m'.accepted = m.accepted ∨ ∃ i, i.caller = none ∧ m'.accepted = m.accepted ++ [i] := by
  cases h with
  | putReady i sleepTime next hl hs => exact .inr ⟨_, rfl, rfl⟩
  | putSleep i sleepTime now next hl => exact .inr ⟨_, rfl, rfl⟩
  | _ => exact .inl rfl

omit [DecidableEq τ] in
theorem Client.step_sameControl {k : K} {m m' : Manager K τ R} {c c' : Client τ}
    (h : c.step k m = some (m', c')) : m.SameControl m' ∧ m'.loop = m.loop := by
  rcases Client.step_cases h with ⟨-, rfl, -⟩ | ⟨task, sleepTime, rest, phase, -, -, rfl, -⟩
  · exact ⟨⟨rfl, rfl, rfl, rfl⟩, rfl⟩
  · exact ⟨m.schedule_sameControl _ _ _ _, m.schedule_loop _ _ _ _⟩

end TaskManager

end TestInfra
