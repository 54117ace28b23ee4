import Mathlib.Data.List.Basic
import Mathlib.Data.List.Infix

set_option autoImplicit false

/-! # The future every task carries

`Future` (`lib/tasks/future.py`) holds the outcome of a task. `set_result` and `set_exception` do
**not** look at the current state: they finish a future that was cancelled or finished before, and run
its callbacks again. `result` and `exception` write a `TimeoutError` into a future they waited for in
vain.

Results other than `None` are values of `R`, exceptions values of `E` and callbacks values of `C`. A
method returns the callbacks it invokes, in order; callbacks do not call back into the future. The
`_waiters` list is never filled and is left out. -/

namespace TestInfra

/-- `bool(x)`, which `__get_result` asks of the stored exception. -/
class Truthy (E : Type*) where
  truthy : E → Bool

/-- `PENDING`, `RUNNING`, `CANCELLED`, `CANCELLED_AND_NOTIFIED`, `FINISHED`. -/
inductive FutureState where
  | pending
  | running
  | cancelled
  | cancelledAndNotified
  | finished
deriving DecidableEq, Repr

/-- The fields of `Future`; `none` is Python's `None`. -/
structure Future (R E C : Type*) where
  state : FutureState
  result : Option R
  exception : Option E
  doneCallbacks : List C
deriving DecidableEq, Repr

namespace Future

variable {R E C : Type*}

/-- `Future()`. -/
def new : Future R E C := ⟨.pending, none, none, []⟩

/-- How a call that asks for an outcome ends. -/
inductive Outcome (A E : Type*) where
  | cancelledError
  | raised (e : E)
  | returned (a : A)
deriving DecidableEq, Repr

/-- `cancelled`. -/
def cancelled (f : Future R E C) : Bool :=
  f.state = .cancelled ∨ f.state = .cancelledAndNotified

/-- `running`. -/
def running (f : Future R E C) : Bool := f.state = .running

/-- `done`. -/
def done (f : Future R E C) : Bool :=
  f.state = .cancelled ∨ f.state = .cancelledAndNotified ∨ f.state = .finished

/-- The stored exception, when it is truthy. -/
def raisable [Truthy E] (f : Future R E C) : Option E := f.exception.filter Truthy.truthy

/-- `__get_result`: a truthy exception wins over the stored result. -/
def getResult [Truthy E] (f : Future R E C) : Outcome (Option R) E :=
  match f.raisable with
  | some e => .raised e
  | none => .returned f.result

/-- What `result` gives at once; `none` when it would wait. -/
def outcome [Truthy E] (f : Future R E C) : Option (Outcome (Option R) E) :=
  match f.state with
  | .cancelled | .cancelledAndNotified => some .cancelledError
  | .finished => some f.getResult
  | .pending | .running => none

/-! ## The methods -/

/-- `cancel`: the answer, the future left behind, and the callbacks invoked. -/
def cancel (f : Future R E C) : Bool × Future R E C × List C :=
  match f.state with
  | .running | .finished => (false, f, [])
  | .cancelled | .cancelledAndNotified => (true, f, [])
  | .pending => (true, { f with state := .cancelled }, f.doneCallbacks)

/-- `add_done_callback`: stored while the future is not done, called at once afterwards. -/
def addDoneCallback (fn : C) (f : Future R E C) : Future R E C × List C :=
  if f.done then (f, [fn]) else ({ f with doneCallbacks := f.doneCallbacks ++ [fn] }, [])

/-- `set_running_or_notify_cancel`; `none` when it raises (in an unexpected state). -/
def setRunningOrNotifyCancel (f : Future R E C) : Option Bool × Future R E C :=
  match f.state with
  | .cancelled => (some false, { f with state := .cancelledAndNotified })
  | .pending => (some true, { f with state := .running })
  | .running | .cancelledAndNotified | .finished => (none, f)

/-- `set_result`, in whatever state the future is. -/
def setResult (r : Option R) (f : Future R E C) : Future R E C × List C :=
  ({ f with result := r, state := .finished }, f.doneCallbacks)

/-- `set_exception`, in whatever state the future is. -/
def setException (e : E) (f : Future R E C) : Future R E C × List C :=
  ({ f with exception := some e, state := .finished }, f.doneCallbacks)

/-- `result(timeout)` when nobody completes the future before the timeout. -/
def resultTimingOut [Truthy E] (timeoutError : E) (f : Future R E C) :
    Outcome (Option R) E × Future R E C × List C :=
  match f.outcome with
  | some o => (o, f, [])
  | none => (.raised timeoutError, f.setException timeoutError)

/-- `exception(timeout)` when nobody completes the future before the timeout. -/
def exceptionTimingOut (timeoutError : E) (f : Future R E C) :
    Outcome (Option E) E × Future R E C × List C :=
  match f.state with
  | .cancelled | .cancelledAndNotified => (.cancelledError, f, [])
  | .finished => (.returned f.exception, f, [])
  | .pending | .running => (.raised timeoutError, f.setException timeoutError)

/-! ## Sequences of calls -/

/-- One call on the future; the two queries carry the `TimeoutError` they would write. -/
inductive Call (R E C : Type*) where
  | addDoneCallback (fn : C)
  | cancel
  | setRunningOrNotifyCancel
  | setResult (r : Option R)
  | setException (e : E)
  | result (timeoutError : E)
  | exception (timeoutError : E)
deriving DecidableEq, Repr

/-- The future a call leaves behind and the callbacks it invokes. -/
def apply [Truthy E] : Call R E C → Future R E C → Future R E C × List C
  | .addDoneCallback fn, f => f.addDoneCallback fn
  | .cancel, f => f.cancel.2
  | .setRunningOrNotifyCancel, f => (f.setRunningOrNotifyCancel.2, [])
  | .setResult r, f => f.setResult r
  | .setException e, f => f.setException e
  | .result timeoutError, f => (f.resultTimingOut timeoutError).2
  | .exception timeoutError, f => (f.exceptionTimingOut timeoutError).2

/-- The callbacks a call registers. -/
def Call.registers : Call R E C → List C
  | .addDoneCallback fn => [fn]
  | _ => []

/-- A future with the record of the callbacks registered with it and of those invoked. -/
structure Run (R E C : Type*) where
  future : Future R E C
  registered : List C
  invoked : List C
deriving DecidableEq, Repr

def Run.start : Run R E C := ⟨new, [], []⟩

def Run.step [Truthy E] (s : Run R E C) (call : Call R E C) : Run R E C :=
  ⟨(s.future.apply call).1, s.registered ++ call.registers, s.invoked ++ (s.future.apply call).2⟩

variable [Truthy E]

/-- The state a sequence of calls on a new future reaches. -/
def run (calls : List (Call R E C)) : Run R E C := calls.foldl Run.step Run.start

theorem run_snoc (calls : List (Call R E C)) (call : Call R E C) :
    run (calls ++ [call]) = (run calls).step call := by
  simp [run, List.foldl_append]

/-- **What is asked of a future** between an earlier state `s` of a run and a later one `s'`: the
    outcome `s` has is the outcome `s'` has (a cancelled future stays cancelled), and once the future
    is done the callbacks invoked are those registered, each once. -/
structure Kept (s s' : Run R E C) : Prop where
  outcome : ∀ o, s.future.outcome = some o → s'.future.outcome = some o
  invoked : s'.future.done = true → s'.invoked.Perm s'.registered

/-- A completing call on a future that is done already is **harmless** when the future finished
    rather than was cancelled, holds no callback, and `result` keeps giving what it gave. -/
def Harmless (f : Future R E C) : Call R E C → Prop
  | .setResult r =>
      f.done = true → f.cancelled = false ∧ f.doneCallbacks = [] ∧
        (f.raisable = none → f.result = r)
  | .setException e =>
      f.done = true → f.cancelled = false ∧ f.doneCallbacks = [] ∧
        f.raisable = (some e).filter Truthy.truthy
  | _ => True

/-! ## What one call does -/

theorem done_iff_outcome (f : Future R E C) : f.done = true ↔ ∃ o, f.outcome = some o := by
  unfold done outcome
  cases f.state <;> simp

/-- **One call, said once**: it leaves a done future alone (a new callback is called at once), stores a
    callback or starts the work of a future that is not done, completes it and calls what is stored,
    or is a completing call on a done future. -/
theorem apply_cases (f : Future R E C) (call : Call R E C) :
    (f.done = true ∧ (f.apply call).1.outcome = f.outcome ∧ (f.apply call).2 = call.registers) ∨
    (f.done = false ∧ (f.apply call).1.done = false ∧ (f.apply call).2 = [] ∧
      (f.apply call).1.doneCallbacks = f.doneCallbacks ++ call.registers) ∨
    (f.done = false ∧ (f.apply call).1.done = true ∧ (f.apply call).2 = f.doneCallbacks ∧
      call.registers = []) ∨
    (f.done = true ∧ call.registers = [] ∧
      ((∃ r, call = .setResult r) ∨ ∃ e, call = .setException e)) := by
  obtain ⟨st, r₀, e₀, cbs⟩ := f
  cases call with
  | setResult r =>
      cases st <;> simp [done, apply, setResult, Call.registers]
  | setException e =>
      cases st <;> simp [done, apply, setException, Call.registers]
  | addDoneCallback fn =>
      cases st <;> simp [done, apply, addDoneCallback, Call.registers, outcome]
  | cancel => cases st <;> simp [done, apply, cancel, Call.registers, outcome]
  | setRunningOrNotifyCancel =>
      cases st <;> simp [done, apply, setRunningOrNotifyCancel, Call.registers, outcome]
  | result timeoutError =>
      cases st <;> simp [done, apply, resultTimingOut, setException, Call.registers, outcome]
  | exception timeoutError =>
      cases st <;> simp [done, apply, exceptionTimingOut, setException, Call.registers, outcome]

/-- `__get_result` either raises the truthy exception or returns the result. -/
theorem getResult_eq_iff (f g : Future R E C) :
    f.getResult = g.getResult ↔ f.raisable = g.raisable ∧ (f.raisable = none → f.result = g.result) := by
  unfold getResult
  cases f.raisable <;> cases g.raisable <;> simp

theorem getResult_ne_cancelledError (f : Future R E C) : f.getResult ≠ .cancelledError := by
  unfold getResult
  cases f.raisable <;> simp

/-- On a done future a call that ends `FINISHED` keeps the outcome exactly when the future was not
    cancelled and `__get_result` is unaffected. -/
theorem outcome_eq_iff_of_done {f g : Future R E C} (hd : f.done = true) (hg : g.state = .finished) :
    g.outcome = f.outcome ↔ f.cancelled = false ∧ g.getResult = f.getResult := by
  have hne := getResult_ne_cancelledError g
  unfold outcome cancelled
  rw [hg]
  cases hf : f.state <;> simp_all [done]

theorem outcome_setResult_iff (f : Future R E C) (r : Option R) (hd : f.done = true) :
    (f.setResult r).1.outcome = f.outcome ↔
      f.cancelled = false ∧ (f.raisable = none → f.result = r) := by
  rw [outcome_eq_iff_of_done hd rfl, getResult_eq_iff]
  have hx : (f.setResult r).1.raisable = f.raisable := rfl
  have hr : (f.setResult r).1.result = r := rfl
  simp only [hx, hr, true_and, eq_comm]

theorem outcome_setException_iff (f : Future R E C) (e : E) (hd : f.done = true) :
    (f.setException e).1.outcome = f.outcome ↔
      f.cancelled = false ∧ f.raisable = (some e).filter Truthy.truthy := by
  rw [outcome_eq_iff_of_done hd rfl, getResult_eq_iff]
  have hx : (f.setException e).1.raisable = (some e).filter Truthy.truthy := rfl
  have hr : (f.setException e).1.result = f.result := rfl
  simp only [hx, hr, implies_true, and_true, eq_comm]

/-- A harmless completing call on a done future changes neither the outcome nor invokes anything. -/
theorem apply_of_harmless (f : Future R E C) (call : Call R E C) (hd : f.done = true)
    (hh : f.Harmless call) (hc : (∃ r, call = .setResult r) ∨ ∃ e, call = .setException e) :
    (f.apply call).1.outcome = f.outcome ∧ (f.apply call).2 = [] := by
  rcases hc with ⟨r, rfl⟩ | ⟨e, rfl⟩
  · obtain ⟨hcan, hcb, hr⟩ := hh hd
    exact ⟨(f.outcome_setResult_iff r hd).2 ⟨hcan, hr⟩, hcb⟩
  · obtain ⟨hcan, hcb, he⟩ := hh hd
    exact ⟨(f.outcome_setException_iff e hd).2 ⟨hcan, he⟩, hcb⟩

/-! ## What a run of harmless calls keeps -/

/-- Callbacks wait in the future until it is done; then all of them have been invoked, in the order
    they were registered. -/
structure Run.Inv (s : Run R E C) : Prop where
  waiting : s.future.done = false → s.invoked = [] ∧ s.registered = s.future.doneCallbacks
  called : s.future.done = true → s.invoked = s.registered

omit [Truthy E] in
theorem Run.inv_start : (Run.start : Run R E C).Inv :=
  ⟨fun _ => ⟨rfl, rfl⟩, fun h => by simp [Run.start, new, done] at h⟩

theorem Run.Inv.step {s : Run R E C} (hs : s.Inv) (call : Call R E C) (hh : s.future.Harmless call) :
    (s.step call).Inv ∧ ∀ o, s.future.outcome = some o → (s.step call).future.outcome = some o := by
  -- a call that keeps the outcome of a done future keeps it done
  have hkeep : s.future.done = true → (s.future.apply call).1.outcome = s.future.outcome →
      (s.future.apply call).1.done = true := by
    intro hd ho
    rw [done_iff_outcome, ho, ← done_iff_outcome]
    exact hd
  have hnone : s.future.done = false → s.future.outcome = none := by
    intro hd
    cases ho : s.future.outcome with
    | none => rfl
    | some o =>
        have := (done_iff_outcome s.future).2 ⟨o, ho⟩
        rw [hd] at this
        exact absurd this (by decide)
  rcases apply_cases s.future call with
    ⟨hd, ho, hi⟩ | ⟨hd, hd', hi, hcb⟩ | ⟨hd, hd', hi, hreg⟩ | ⟨hd, hreg, hc⟩
  · refine ⟨⟨fun h => ?_, fun _ => ?_⟩, fun o h => ho.trans h⟩
    · exact absurd (hkeep hd ho) (by rw [show (s.future.apply call).1.done = false from h]; decide)
    · show s.invoked ++ _ = s.registered ++ _
      rw [hs.called hd, hi]
  · obtain ⟨hinv, hregd⟩ := hs.waiting hd
    refine ⟨⟨fun _ => ⟨?_, ?_⟩, fun h => ?_⟩, fun o h => ?_⟩
    · show s.invoked ++ _ = []
      rw [hinv, hi, List.append_nil]
    · show s.registered ++ _ = _
      rw [hregd]
      exact hcb.symm
    · exact absurd hd' (by rw [show (s.future.apply call).1.done = true from h]; decide)
    · rw [hnone hd] at h
      exact absurd h (by simp)
  · obtain ⟨hinv, hregd⟩ := hs.waiting hd
    refine ⟨⟨fun h => ?_, fun _ => ?_⟩, fun o h => ?_⟩
    · exact absurd hd' (by rw [show (s.future.apply call).1.done = false from h]; decide)
    · show s.invoked ++ _ = s.registered ++ _
      rw [hinv, hi, hregd, hreg, List.nil_append, List.append_nil]
    · rw [hnone hd] at h
      exact absurd h (by simp)
  · obtain ⟨ho, hi⟩ := apply_of_harmless s.future call hd hh hc
    refine ⟨⟨fun h => ?_, fun _ => ?_⟩, fun o h => ho.trans h⟩
    · exact absurd (hkeep hd ho) (by rw [show (s.future.apply call).1.done = false from h]; decide)
    · show s.invoked ++ _ = s.registered ++ _
      rw [hs.called hd, hi, hreg]

/-- Every call of the sequence is harmless in the state it is made in. -/
def AllHarmless (calls : List (Call R E C)) : Prop :=
  ∀ pre call post, calls = pre ++ call :: post → (run pre).future.Harmless call

theorem AllHarmless.of_append {pre post : List (Call R E C)} (h : AllHarmless (pre ++ post)) :
    AllHarmless pre := by
  intro p call q hpq
  exact h p call (q ++ post) (by rw [hpq]; simp)

theorem inv_run {calls : List (Call R E C)} (h : AllHarmless calls) : (run calls).Inv := by
  induction calls using List.reverseRecOn with
  | nil => exact Run.inv_start
  | append_singleton calls call ih =>
      rw [run_snoc]
      exact ((ih h.of_append).step call (h calls call [] rfl)).1

theorem outcome_run {pre mid : List (Call R E C)} (h : AllHarmless (pre ++ mid))
    {o : Outcome (Option R) E} (ho : (run pre).future.outcome = some o) :
    (run (pre ++ mid)).future.outcome = some o := by
  induction mid using List.reverseRecOn with
  | nil => rwa [List.append_nil]
  | append_singleton mid call ih =>
      rw [← List.append_assoc] at h ⊢
      have hstep := ((inv_run h.of_append).step call (h (pre ++ mid) call [] rfl)).2
      rw [run_snoc]
      exact hstep o (ih h.of_append)

/-- A completing call that is not harmless breaks what was asked at the very next state. -/
theorem harmless_of_kept {s : Run R E C} {call : Call R E C} (hs : Kept s s)
    (h : Kept s (s.step call)) : s.future.Harmless call := by
  -- what both completing calls share: the outcome stays and the callbacks are called once more
  have main : s.future.done = true → (s.future.apply call).2 = s.future.doneCallbacks →
      call.registers = [] →
      (s.future.apply call).1.outcome = s.future.outcome ∧ s.future.doneCallbacks = [] := by
    intro hd hcb hreg
    obtain ⟨o, ho⟩ := (done_iff_outcome _).1 hd
    have ho' := h.outcome o ho
    have hd' : (s.step call).future.done = true := (done_iff_outcome _).2 ⟨o, ho'⟩
    have hp : (s.invoked ++ s.future.doneCallbacks).Perm s.registered := by
      have := h.invoked hd'
      simp only [Run.step, hcb, hreg, List.append_nil] at this
      exact this
    have hlen := hp.length_eq
    have hlen₀ := (hs.invoked hd).length_eq
    rw [List.length_append] at hlen
    exact ⟨ho'.trans ho.symm, List.eq_nil_of_length_eq_zero (by omega)⟩
  cases call with
  | setResult r =>
      intro hd
      obtain ⟨ho, hcb⟩ := main hd rfl rfl
      obtain ⟨hcan, hr⟩ := (s.future.outcome_setResult_iff r hd).1 ho
      exact ⟨hcan, hcb, hr⟩
  | setException e =>
      intro hd
      obtain ⟨ho, hcb⟩ := main hd rfl rfl
      obtain ⟨hcan, he⟩ := (s.future.outcome_setException_iff e hd).1 ho
      exact ⟨hcan, hcb, he⟩
  | addDoneCallback fn => trivial
  | cancel => trivial
  | setRunningOrNotifyCancel => trivial
  | result timeoutError => trivial
  | exception timeoutError => trivial

/-- **When a future keeps its word.** Over every sequence of calls, the outcome is final and every
    callback is invoked exactly once in all states reached, iff every completing call made on a done
    future was harmless. -/
theorem run_kept_iff (calls : List (Call R E C)) :
    (∀ pre mid post, calls = pre ++ mid ++ post → Kept (run pre) (run (pre ++ mid))) ↔
      ∀ pre call post, calls = pre ++ call :: post → (run pre).future.Harmless call := by
  constructor
  · intro h pre call post hc
    have h₀ := h pre [] (call :: post) (by simpa using hc)
    have h₁ := h pre [call] post (by simpa using hc)
    rw [List.append_nil] at h₀
    rw [run_snoc] at h₁
    exact harmless_of_kept h₀ h₁
  · intro h pre mid post hc
    have hall : AllHarmless (pre ++ mid ++ post) := fun p call q hpq => h p call q (hc.trans hpq)
    have hpm : AllHarmless (pre ++ mid) := hall.of_append
    refine ⟨fun o ho => outcome_run hpm ho, ?_⟩
    intro hd
    rw [(inv_run hpm).called hd]

instance : Truthy Unit := ⟨fun _ => true⟩

/-- A cancelled future that gets a result: `result` stops raising `CancelledError`, and the callback
    runs twice. -/
theorem cancel_then_setResult :
    ¬ ∀ pre mid post : List (Call Bool Unit Nat),
      [Call.addDoneCallback 0, .cancel, .setResult (some true)] = pre ++ mid ++ post →
        Kept (run pre) (run (pre ++ mid)) := by
  intro h
  have := h [.addDoneCallback 0, .cancel] [.setResult (some true)] [] rfl
  exact absurd (this.outcome .cancelledError rfl) (by decide)

end Future

end TestInfra
