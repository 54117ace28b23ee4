import TestInfra.Lib.PyText
import Mathlib.Data.Int.Notation

set_option autoImplicit false

/-! # The loop of a load thread

What `LoadThread.run` decides from the counters of the thread and from the operations, sizes and limits it was given:
to return at a limit, or which operation is next (`LoadPlan.choose`). The operations themselves are parameters here.

Until the server takes an operation the counters do not move, and every turn has the first operation of the sequence
(`Fresh.choose_eq`). -/

namespace TestInfra.LoadRunner

open PyText

inductive Operation where
  | set
  | get
  /-- Any other name in the distribution; nothing is done. -/
  | other (name : Text)
deriving DecidableEq, Repr

/-- Whether the thread runs, has returned at a limit, or has died of an exception. -/
inductive Status where
  | running
  | returned
  | died
deriving DecidableEq, Repr

/-- The counters of a thread. -/
structure Progress where
  mutationIndex : ℕ
  getIndex : ℕ
  valueFailures : ℕ
  backoff : ℤ
  mutationIndexMax : ℕ
  items : ℕ
  operations : ℕ
  size : ℤ
  status : Status
deriving DecidableEq, Repr

namespace Progress

def start : Progress := ⟨0, 0, 0, 0, 0, 0, 0, 0, .running⟩

/-- The handlers for `MemcachedError`. -/
def backOff (st : Progress) : Progress := { st with backoff := min (max st.backoff 0) 30 + 1 }

/-- An operation that returns. -/
def answered (st : Progress) : Progress := { st with operations := st.operations + 1, backoff := st.backoff - 1 }

/-- A comparison that fails, which ends the thread. -/
def fail (st : Progress) : Progress := { st with valueFailures := st.valueFailures + 1, status := .died }

end Progress

/-- The sequences that are made of the distributions, and the limits of a thread; a limit of `0` is none. -/
structure LoadPlan where
  operationSequence : List Operation
  valuesizeSequence : List ℕ
  operations_ne : operationSequence ≠ []
  valuesizes_ne : valuesizeSequence ≠ []
  limitItems : ℕ
  limitOperations : ℕ
  limitSize : ℕ

namespace LoadPlan

variable (plan : LoadPlan)

/-- `get_operation`. -/
def operation (st : Progress) : Operation :=
  plan.operationSequence.get ⟨(st.mutationIndex + st.getIndex) % plan.operationSequence.length,
    Nat.mod_lt _ (List.length_pos_of_ne_nil plan.operations_ne)⟩

/-- The size of the value of an index, `get_data_size`. -/
def dataSize (index : ℕ) : ℕ :=
  plan.valuesizeSequence.get ⟨index % plan.valuesizeSequence.length,
    Nat.mod_lt _ (List.length_pos_of_ne_nil plan.valuesizes_ne)⟩

/-- The limits, without the one on time. -/
def limited (st : Progress) : Bool :=
  (plan.limitItems ≠ 0 && plan.limitItems < st.items) ||
    (plan.limitOperations ≠ 0 && plan.limitOperations < st.operations) ||
    (plan.limitSize ≠ 0 && (plan.limitSize : ℤ) < st.size)

/-- The counters after a set of this key that the server has taken, with the indexes that are found for it. -/
def countSet (key : ℕ) (prevIndexes : List ℕ) (st : Progress) : Progress :=
  -- key 0 is not above the maximum of the start, so the first item is not counted
  let isNew : Bool := st.mutationIndexMax < key
  let prevSize := match prevIndexes.max? with
    | some prev => plan.dataSize prev
    | none => 0
  { st.answered with
    mutationIndexMax := if isNew then key else st.mutationIndexMax
    items := if isNew then st.items + 1 else st.items
    size := st.size + (plan.dataSize st.mutationIndex - prevSize : ℤ)
    mutationIndex := st.mutationIndex + 1 }

/-- One turn of the loop, by what becomes of the thread when it returns at a limit, with each operation, and when
    nothing is done. -/
def choose {α : Type} (st : Progress) (returns set get stays : α) : α :=
  if st.status = .running then
    if plan.limited st then returns
    else
      match plan.operation st with
      | .set => set
      | .get => get
      | .other _ => stays
  else stays

/-- The first operation of the sequence. -/
def firstOperation : Operation := plan.operationSequence.head plan.operations_ne

variable {plan} {α : Type} {st : Progress} {returns set get stays : α}

theorem choose_of_not_running (h : st.status ≠ .running) : plan.choose st returns set get stays = stays := if_neg h

theorem choose_of_running (hrunning : st.status = .running) (hlimited : plan.limited st = false) :
    plan.choose st returns set get stays = match plan.operation st with
      | .set => set
      | .get => get
      | .other _ => stays := by
  rw [choose, if_pos hrunning, hlimited, if_neg Bool.false_ne_true]

/-- What holds whatever the turn does; an operation is done by a thread that runs below its limits. -/
theorem choose_induct {P : α → Prop} (hreturns : P returns)
    (hset : st.status = .running → plan.limited st = false → plan.operation st = .set → P set)
    (hget : st.status = .running → plan.limited st = false → plan.operation st = .get → P get) (hstays : P stays) :
    P (plan.choose st returns set get stays) := by
  by_cases hrunning : st.status = .running
  · cases hlimited : plan.limited st with
    | true =>
        rw [choose, if_pos hrunning, if_pos hlimited]
        exact hreturns
    | false =>
        rw [choose_of_running hrunning hlimited]
        cases hop : plan.operation st with
        | set => exact hset hrunning hlimited hop
        | get => exact hget hrunning hlimited hop
        | other name => exact hstays
  · rwa [choose_of_not_running hrunning]

end LoadPlan

/-! ## Up to the first operation that the server takes -/

/-- Nothing was taken yet. -/
structure Fresh (st : Progress) : Prop where
  mutationIndex : st.mutationIndex = 0
  getIndex : st.getIndex = 0
  items : st.items = 0
  operations : st.operations = 0
  size : st.size = 0
  status : st.status = .running

namespace Fresh

variable {plan : LoadPlan} {α : Type} {st : Progress} {returns set get stays : α}

theorem not_limited (h : Fresh st) : plan.limited st = false := by
  simp [LoadPlan.limited, h.items, h.operations, h.size]

theorem operation_eq (h : Fresh st) : plan.operation st = plan.firstOperation := by
  have hindex : (st.mutationIndex + st.getIndex) % plan.operationSequence.length = 0 := by
    rw [h.mutationIndex, h.getIndex, Nat.zero_mod]
  simp only [LoadPlan.operation, LoadPlan.firstOperation, hindex]
  exact List.get_mk_zero _

/-- A turn of a thread for which nothing was taken yet has the first operation. -/
theorem choose_eq (h : Fresh st) : plan.choose st returns set get stays = match plan.firstOperation with
    | .set => set
    | .get => get
    | .other _ => stays := by
  rw [LoadPlan.choose_of_running h.status h.not_limited, h.operation_eq]

theorem backOff (h : Fresh st) : Fresh st.backOff :=
  ⟨h.mutationIndex, h.getIndex, h.items, h.operations, h.size, h.status⟩

theorem start : Fresh .start := ⟨rfl, rfl, rfl, rfl, rfl, rfl⟩

end Fresh

end TestInfra.LoadRunner
