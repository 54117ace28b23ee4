import TestInfra.Tasks.Future

set_option autoImplicit false

/-! # Recorded errors stay recorded

Every loading task ends its `run` with `set_result(True)`, whether or not a step recorded an error
with `set_exception` (`lib/tasks/task.py`). The error survives because no method of `Future` clears
`_exception` and `__get_result` tests it before the result. What can replace it is a later
`set_exception`, with another error or with a falsy value (`None` stands for "no exception", as in
the answer of `exception`).

The calls made on a future come from the task and from whoever waits for it; a round of the loop is
the list of calls made while it runs. -/

namespace TestInfra

namespace Future

variable {R E C : Type*} [Truthy E]

/-! ## The exception given last -/

/-- What a call hands to `set_exception`: its argument, or the `TimeoutError` of a query that waited
    in vain. -/
def Call.given (f : Future R E C) : Call R E C → Option E
  | .setException e => some e
  | .result timeoutError => if f.done then none else some timeoutError
  | .exception timeoutError => if f.done then none else some timeoutError
  | _ => none

/-- The exception handed to the latest `set_exception` of the calls, `latest` when there is none. -/
def latestFrom (s : Run R E C) : List (Call R E C) → Option E → Option E
  | [], latest => latest
  | call :: rest, latest => latestFrom (s.step call) rest ((call.given s.future).or latest)

/-- The exception handed to the latest `set_exception` of a run. -/
def latestException (calls : List (Call R E C)) : Option E := latestFrom Run.start calls none

theorem latestFrom_append (s : Run R E C) (calls calls' : List (Call R E C)) (latest : Option E) :
    latestFrom s (calls ++ calls') latest =
      latestFrom (calls.foldl Run.step s) calls' (latestFrom s calls latest) := by
  induction calls generalizing s latest with
  | nil => rfl
  | cons call rest ih =>
      simp only [List.cons_append, latestFrom, List.foldl_cons]
      exact ih _ _

theorem latestException_snoc (calls : List (Call R E C)) (call : Call R E C) :
    latestException (calls ++ [call]) =
      (call.given (run calls).future).or (latestException calls) := by
  rw [latestException, latestFrom_append]
  rfl

/-- Once some call of a run handed an exception over, there is a latest one. -/
theorem latestException_isSome (pre post : List (Call R E C)) (call : Call R E C) {e : E}
    (h : call.given (run pre).future = some e) :
    ∃ x, latestException (pre ++ call :: post) = some x := by
  induction post using List.reverseRecOn with
  | nil =>
      refine ⟨e, ?_⟩
      rw [latestException_snoc, h, Option.some_or]
  | append_singleton post last ih =>
      obtain ⟨x, hx⟩ := ih
      rw [← List.cons_append, ← List.append_assoc, latestException_snoc, hx]
      cases last.given (run (pre ++ call :: post)).future with
      | none => exact ⟨x, rfl⟩
      | some y => exact ⟨y, rfl⟩

/-! ## What one call does to a recorded error -/

/-- A call that hands nothing over leaves the stored exception and a finished future finished. -/
theorem apply_of_given_none (f : Future R E C) (call : Call R E C) (h : call.given f = none) :
    (f.apply call).1.exception = f.exception ∧
      (f.state = .finished → (f.apply call).1.state = .finished) := by
  obtain ⟨st, r₀, e₀, cbs⟩ := f
  cases call with
  | setException e => simp [Call.given] at h
  | setResult r => exact ⟨rfl, fun _ => rfl⟩
  | addDoneCallback fn => cases st <;> simp [apply, addDoneCallback, done]
  | cancel => cases st <;> simp [apply, cancel]
  | setRunningOrNotifyCancel => cases st <;> simp [apply, setRunningOrNotifyCancel]
  | result timeoutError =>
      cases st <;> simp_all [Call.given, done, apply, resultTimingOut, outcome]
  | exception timeoutError =>
      cases st <;> simp_all [Call.given, done, apply, exceptionTimingOut]

/-- A call that hands an exception over stores it and finishes the future. -/
theorem apply_of_given_some (f : Future R E C) (call : Call R E C) {e : E}
    (h : call.given f = some e) :
    (f.apply call).1.exception = some e ∧ (f.apply call).1.state = .finished := by
  obtain ⟨st, r₀, e₀, cbs⟩ := f
  cases call with
  | setException e' =>
      obtain rfl : e' = e := by simpa [Call.given] using h
      exact ⟨rfl, rfl⟩
  | result timeoutError =>
      cases st <;> simp_all [Call.given, done, apply, resultTimingOut, outcome, setException]
  | exception timeoutError =>
      cases st <;> simp_all [Call.given, done, apply, exceptionTimingOut, setException]
  | setResult r => simp [Call.given] at h
  | addDoneCallback fn => simp [Call.given] at h
  | cancel => simp [Call.given] at h
  | setRunningOrNotifyCancel => simp [Call.given] at h

/-- From the first `set_exception` on the future is finished and stores the exception given last. -/
theorem run_of_latestException (calls : List (Call R E C)) {x : E}
    (h : latestException calls = some x) :
    (run calls).future.exception = some x ∧ (run calls).future.state = .finished := by
  induction calls using List.reverseRecOn generalizing x with
  | nil => simp [latestException, latestFrom] at h
  | append_singleton calls call ih =>
      rw [latestException_snoc] at h
      rw [run_snoc]
      cases hg : call.given (run calls).future with
      | some e =>
          rw [hg, Option.some_or, Option.some_inj] at h
          subst h
          exact apply_of_given_some _ call hg
      | none =>
          rw [hg, Option.none_or] at h
          obtain ⟨hx, hst⟩ := ih h
          obtain ⟨hx', hst'⟩ := apply_of_given_none _ call hg
          exact ⟨hx'.trans hx, hst' hst⟩

/-- What `result` does after a `set_exception`: it raises the exception given last, unless that one is
    falsy. -/
theorem outcome_of_latestException (calls : List (Call R E C)) {x : E}
    (h : latestException calls = some x) :
    (run calls).future.outcome =
      some (if Truthy.truthy x then .raised x else .returned (run calls).future.result) := by
  obtain ⟨hx, hst⟩ := run_of_latestException calls h
  unfold outcome getResult raisable
  rw [hst, hx]
  by_cases ht : Truthy.truthy x = true <;> simp [Option.filter, ht]

/-! ## The runs of the loading tasks -/

/-- `while self.has_next() and not self.done(): next(self)` over the rounds the generator still has. -/
def rounds : List (List (Call R E C)) → Run R E C → Run R E C
  | [], s => s
  | calls :: rest, s => if s.future.done then s else rounds rest (calls.foldl Run.step s)

/-- `GenericLoadingTask.run`; `true'` is Python's `True`. -/
def genericLoadingRun (true' : R) (steps : List (List (Call R E C))) (s : Run R E C) : Run R E C :=
  (rounds steps s).step (.setResult (some true'))

/-- The work between the argument checks of `LoadDocumentsGeneratorsTask.run` and its end: the rounds
    of every generator, or the calls `run_high_throughput_mode` makes. -/
inductive Mode (R E C : Type*) where
  | normal (generators : List (List (List (Call R E C))))
  | highThroughput (calls : List (Call R E C))

/-- `run_normal_throughput_mode` and `run_high_throughput_mode`. -/
def Mode.run : Mode R E C → Run R E C → Run R E C
  | .normal generators, s => generators.foldl (fun s steps => rounds steps s) s
  | .highThroughput calls, s => calls.foldl Run.step s

/-- The calls of the two argument checks; neither returns. -/
def argumentErrors (exception : String → E) (opTypesDiffer bucketsDiffer : Bool) :
    List (Call R E C) :=
  (if opTypesDiffer then [.setException (exception "not all generators have op_type!")] else []) ++
  (if bucketsDiffer then
    [.setException (exception "not all generators have bucket specified!")] else [])

/-- `LoadDocumentsGeneratorsTask.run`. -/
def loadDocumentsGeneratorsRun (true' : R) (exception : String → E)
    (opTypesDiffer bucketsDiffer : Bool) (mode : Mode R E C) (s : Run R E C) : Run R E C :=
  (mode.run ((argumentErrors exception opTypesDiffer bucketsDiffer).foldl Run.step s)).step
    (.setResult (some true'))

/-- The calls the loop makes before it ends. -/
def roundsMade : List (List (Call R E C)) → Run R E C → List (Call R E C)
  | [], _ => []
  | calls :: rest, s =>
      if s.future.done then [] else calls ++ roundsMade rest (calls.foldl Run.step s)

/-- The calls the loops over several generators make. -/
def generatorsMade : List (List (List (Call R E C))) → Run R E C → List (Call R E C)
  | [], _ => []
  | steps :: rest, s => roundsMade steps s ++ generatorsMade rest (rounds steps s)

/-- The calls a mode makes. -/
def Mode.made : Mode R E C → Run R E C → List (Call R E C)
  | .normal generators, s => generatorsMade generators s
  | .highThroughput calls, _ => calls

theorem rounds_eq_foldl (steps : List (List (Call R E C))) (s : Run R E C) :
    rounds steps s = (roundsMade steps s).foldl Run.step s := by
  induction steps generalizing s with
  | nil => rfl
  | cons calls rest ih =>
      unfold rounds roundsMade
      split
      · rfl
      · rw [List.foldl_append]
        exact ih _

theorem Mode.run_eq_foldl (mode : Mode R E C) (s : Run R E C) :
    mode.run s = (mode.made s).foldl Run.step s := by
  cases mode with
  | highThroughput calls => rfl
  | normal generators =>
      induction generators generalizing s with
      | nil => rfl
      | cons steps rest ih =>
          have hrest := ih (rounds steps s)
          simp only [Mode.made, generatorsMade, List.foldl_append] at hrest ⊢
          rw [← rounds_eq_foldl]
          exact hrest

/-- The calls made by the time `LoadDocumentsGeneratorsTask.run` gets to its `set_result(True)`. -/
def generatorsRunMade (exception : String → E) (opTypesDiffer bucketsDiffer : Bool)
    (mode : Mode R E C) (calls : List (Call R E C)) : List (Call R E C) :=
  let checked := calls ++ argumentErrors exception opTypesDiffer bucketsDiffer
  checked ++ mode.made (Future.run checked)

theorem run_append (calls calls' : List (Call R E C)) :
    run (calls ++ calls') = calls'.foldl Run.step (run calls) := by
  simp only [run, List.foldl_append]

/-- A final `set_result(True)` hands nothing over, so it hides no truthy error. -/
theorem outcome_step_setResult (calls : List (Call R E C)) (true' : R) {x : E}
    (h : latestException calls = some x) (ht : Truthy.truthy x = true) :
    ((run calls).step (.setResult (some true'))).future.outcome = some (.raised x) := by
  have hx : latestException (calls ++ [.setResult (some true')]) = some x := by
    rw [latestException_snoc, h]
    rfl
  have ho := outcome_of_latestException _ hx
  rw [run_snoc] at ho
  rw [ho, if_pos ht]

/-- **Errors stick.** In every sequence of calls, from the first truthy `set_exception` on `result`
    raises the exception given to the latest one if that is truthy, and returns the stored result if
    it is falsy; and the `set_result(True)` that ends the two runs hides no error recorded before it. -/
theorem error_sticky :
    (∀ (pre post : List (Call R E C)) (call : Call R E C) (e : E),
      call.given (run pre).future = some e → Truthy.truthy e = true →
        ∃ x, latestException (pre ++ call :: post) = some x ∧
          (run (pre ++ call :: post)).future.outcome =
            some (if Truthy.truthy x then .raised x
              else .returned (run (pre ++ call :: post)).future.result)) ∧
    (∀ (calls : List (Call R E C)) (true' : R) (steps : List (List (Call R E C))) (x : E),
      latestException (calls ++ roundsMade steps (run calls)) = some x → Truthy.truthy x = true →
        (genericLoadingRun true' steps (run calls)).future.outcome = some (.raised x)) ∧
    (∀ (calls : List (Call R E C)) (true' : R) (exception : String → E)
      (opTypesDiffer bucketsDiffer : Bool) (mode : Mode R E C) (x : E),
      latestException (generatorsRunMade exception opTypesDiffer bucketsDiffer mode calls) = some x →
        Truthy.truthy x = true →
          (loadDocumentsGeneratorsRun true' exception opTypesDiffer bucketsDiffer mode
            (run calls)).future.outcome = some (.raised x)) := by
  refine ⟨?_, ?_, ?_⟩
  · intro pre post call e hgiven _
    obtain ⟨x, hx⟩ := latestException_isSome pre post call hgiven
    exact ⟨x, hx, outcome_of_latestException _ hx⟩
  · intro calls true' steps x hx ht
    unfold genericLoadingRun
    rw [rounds_eq_foldl, ← run_append]
    exact outcome_step_setResult _ true' hx ht
  · intro calls true' exception opTypesDiffer bucketsDiffer mode x hx ht
    unfold loadDocumentsGeneratorsRun
    rw [Mode.run_eq_foldl, ← run_append, ← run_append]
    exact outcome_step_setResult _ true' hx ht

instance : Truthy Bool := ⟨id⟩

/-- An error recorded in the first round of a loading task: the second round is not begun and the
    final `set_result(True)` does not hide it. -/
theorem error_sticky_first_round :
    (genericLoadingRun 1 [[Call.setException true], [.setResult (some 0)]]
      (run ([.setRunningOrNotifyCancel] : List (Call Nat Bool Nat)))).future.outcome =
        some (.raised true) :=
  error_sticky.2.1 [.setRunningOrNotifyCancel] 1 [[.setException true], [.setResult (some 0)]] true
    rfl rfl

/-- A falsy second `set_exception` turns the recorded error into "no exception". -/
theorem falsy_exception_hides_error :
    ¬ ∀ (pre post : List (Call Nat Bool Nat)) (call : Call Nat Bool Nat) (e : Bool),
      call.given (run pre).future = some e → Truthy.truthy e = true →
        ∃ x, latestException (pre ++ call :: post) = some x ∧
          (run (pre ++ call :: post)).future.outcome = some (.raised x) := by
  intro h
  obtain ⟨x, -, hx⟩ := h [] [.setException false] (.setException true) true rfl rfl
  cases x <;> exact absurd hx (by decide)

end Future

end TestInfra
