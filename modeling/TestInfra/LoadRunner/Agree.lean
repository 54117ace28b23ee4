import TestInfra.LoadRunner.Faults
import TestInfra.LoadRunner.LoadThread

set_option autoImplicit false

/-! # The thread with its data, and what becomes of its operations

`LoadThread` has the data a thread writes and what the server holds, for positive rates. `LoadSettings` has any
percentage and only the counters, and takes what becomes of an operation for given.

Where the rates are positive, a run of the one is a run of the other on what became of its operations
(`run_progress`), up to a get before the first set. So a thread divides by zero exactly where its first operation is a
get (`never_divides_iff`). -/

namespace TestInfra.LoadRunner

open PyText

/-- The same thread. -/
structure Agrees (settings : LoadSettings) (info : LoadInfo) : Prop where
  ratio : settings.ratio = info.rates.ratio
  plan : settings.plan = info.toLoadPlan

namespace LoadInfo

variable (info : LoadInfo)

def setAnswer (accepts : Bool) : Answer := if accepts then .taken else .error

/-- What becomes of a get. -/
def getAnswer (accepts : Bool) (st : LoadThread) : Answer :=
  match (info.getKey st).bind fun key => st.server.get? (info.keyName key) with
  | none => .error
  | some data =>
      if accepts then
        match (info.getKey st).bind fun key => (info.rates.getMutationIndexes st.mutationIndex key).max? with
        | none => .taken
        | some index =>
            if info.handsBack data ≠ .str (info.getData index st.dataCache).1 then .differs else .taken
      else .error

/-- What becomes of the operation of a turn. -/
def answer (st : LoadThread) (accepts : Bool) : Answer :=
  if info.operation st.toProgress = .set then setAnswer accepts else info.getAnswer accepts st

/-- What becomes of the operations of a run. -/
def answers : List Bool → LoadThread → List Answer
  | [], _ => []
  | accepts :: rest, st => info.answer st accepts :: answers rest (info.turn st accepts)

/-- The turn divides by zero. -/
def Divides (st : LoadThread) : Prop :=
  st.status = .running ∧ info.limited st.toProgress = false ∧ info.operation st.toProgress = .get ∧
    info.getKey st = none

end LoadInfo

variable {settings : LoadSettings} {info : LoadInfo} {st : LoadThread}

theorem Agrees.mutationKey (h : Agrees settings info) (st : LoadThread) :
    settings.ratio.getMutationKey st.mutationIndex = info.mutationKey st := by
  rw [h.ratio]
  rfl

theorem Agrees.getKey (h : Agrees settings info) (st : LoadThread) :
    settings.ratio.getGetKey st.mutationIndex st.getIndex =
      (info.getKey st).elim (.error .zeroDivision) .ok := by
  rw [Ratio.getGetKey, h.mutationKey, LoadInfo.getKey]
  split
  · rfl
  · rfl

/-- The indexes are found in a number of turns. -/
theorem Agrees.exists_indexes (h : Agrees settings info) (mutationIndex key : ℕ) :
    ∃ turns, settings.ratio.getMutationIndexes turns mutationIndex key =
      .ok (info.rates.getMutationIndexes mutationIndex key) := by
  rw [h.ratio]
  exact ⟨_, Rates.getMutationIndexes_ratio (Nat.lt_succ_self _)⟩

theorem Agrees.turnSet (h : Agrees settings info) (accepts : Bool) (st : LoadThread) :
    ∃ turns, settings.turnSet turns st.toProgress (LoadInfo.setAnswer accepts) =
      .ok (info.turnSet accepts st).toProgress := by
  cases accepts with
  | false => exact ⟨0, rfl⟩
  | true =>
      obtain ⟨turns, hindexes⟩ := h.exists_indexes st.mutationIndex (info.mutationKey st)
      refine ⟨turns, ?_⟩
      simp only [LoadSettings.turnSet, LoadInfo.setAnswer, if_true, h.mutationKey, hindexes, h.plan]
      rfl

/-- A get before the first set divides by zero. -/
theorem Agrees.turnGet_of_none (h : Agrees settings info) (hkey : info.getKey st = none) (turns : ℕ) (answer : Answer) :
    settings.turnGet turns st.toProgress answer = .error .zeroDivision := by
  have hget : settings.ratio.getGetKey st.mutationIndex st.getIndex = .error .zeroDivision := by
    rw [h.getKey, hkey, Option.elim]
  rw [LoadSettings.turnGet, hget]

theorem Agrees.turnGet (h : Agrees settings info) (accepts : Bool) {key : ℕ} (hkey : info.getKey st = some key) :
    ∃ turns, settings.turnGet turns st.toProgress (info.getAnswer accepts st) =
      .ok (info.turnGet accepts st).toProgress := by
  obtain ⟨turns, hindexes⟩ := h.exists_indexes st.mutationIndex key
  refine ⟨turns, ?_⟩
  have hget : settings.ratio.getGetKey st.mutationIndex st.getIndex = .ok key := by
    rw [h.getKey, hkey, Option.elim]
  rw [LoadSettings.turnGet, hget]
  simp only [LoadInfo.getAnswer, LoadInfo.turnGet, hkey, Option.bind_some]
  cases hserver : st.server.get? (info.keyName key) with
  | none => cases accepts <;> rfl
  | some data =>
      cases accepts with
      | false => rfl
      | true =>
          simp only [if_true]
          cases hmax : (info.rates.getMutationIndexes st.mutationIndex key).max? with
          | none =>
              simp only [hindexes, LoadSettings.countGet, if_pos (List.max?_eq_none_iff.1 hmax)]
          | some index =>
              have hne : info.rates.getMutationIndexes st.mutationIndex key ≠ [] := by
                intro hnil
                rw [hnil] at hmax
                cases hmax
              dsimp only
              by_cases hdata : info.handsBack data ≠ .str (info.getData index st.dataCache).1
              · simp only [if_pos hdata, hindexes, LoadSettings.countGet, if_neg hne, if_true]
              · simp only [if_neg hdata, hindexes, LoadSettings.countGet, if_neg hne]
                rfl

/-- A turn of the one is a turn of the other. -/
theorem Agrees.turn (h : Agrees settings info) (hst : ¬ info.Divides st) (accepts : Bool) :
    ∃ turns, settings.turn turns st.toProgress (info.answer st accepts) = .ok (info.turn st accepts).toProgress := by
  unfold LoadSettings.turn LoadInfo.turn LoadPlan.choose
  rw [h.plan]
  split
  · next hrunning =>
      split
      · exact ⟨0, rfl⟩
      · next hlimited =>
          unfold LoadInfo.answer
          cases hop : info.operation st.toProgress with
          | set =>
              rw [if_pos rfl]
              exact h.turnSet accepts st
          | get =>
              rw [if_neg (by decide)]
              cases hkey : info.getKey st with
              | none => exact absurd ⟨hrunning, Bool.not_eq_true _ ▸ hlimited, hop, hkey⟩ hst
              | some key => exact h.turnGet accepts hkey
          | other name => exact ⟨0, rfl⟩
  · exact ⟨0, rfl⟩

theorem Agrees.turn_of_divides (h : Agrees settings info) (hst : info.Divides st) (turns : ℕ) (answer : Answer) :
    settings.turn turns st.toProgress answer = .error .zeroDivision := by
  obtain ⟨hrunning, hlimited, hop, hkey⟩ := hst
  rw [LoadSettings.turn, h.plan, LoadPlan.choose_of_running hrunning hlimited, hop]
  exact h.turnGet_of_none hkey turns answer

/-- **The counters are refined**: where no turn divides by zero, the counters of the thread go through the run on what
    becomes of its operations. -/
theorem run_progress (h : Agrees settings info) (answers : List Bool) (st : LoadThread)
    (hdivides : ∀ done accepts rest, answers = done ++ accepts :: rest → ¬ info.Divides (info.run done st)) :
    ∃ turns, settings.run turns (info.answers answers st) st.toProgress = .ok (info.run answers st).toProgress := by
  induction answers generalizing st with
  | nil => exact ⟨0, rfl⟩
  | cons accepts answers ih =>
      obtain ⟨turns, hturn⟩ := h.turn (hdivides [] accepts answers rfl) accepts
      obtain ⟨turns', hrun⟩ := ih (info.turn st accepts) fun done accepts' rest heq =>
        hdivides (accepts :: done) accepts' rest (by rw [heq, List.cons_append])
      refine ⟨max turns turns', ?_⟩
      rw [LoadInfo.answers, LoadSettings.run_cons, Raises.bind_eq_ok_iff]
      exact ⟨_, LoadSettings.turn_mono (Nat.le_max_left ..) hturn, LoadSettings.run_mono (Nat.le_max_right ..) hrun⟩

/-- And the other meets a fault exactly where a turn divides by zero. -/
theorem faultless_answers_iff (h : Agrees settings info) (answers : List Bool) (st : LoadThread) :
    settings.Faultless (info.answers answers st) st.toProgress ↔
      ∀ done accepts rest, answers = done ++ accepts :: rest → ¬ info.Divides (info.run done st) := by
  constructor
  · rintro ⟨turns, st', hrun⟩ done accepts rest rfl hst
    induction done generalizing st with
    | nil =>
        have hfirst : info.Divides st := hst
        rw [List.nil_append, LoadInfo.answers, LoadSettings.run_cons, h.turn_of_divides hfirst] at hrun
        cases hrun
    | cons first done ih =>
        rw [List.cons_append, LoadInfo.answers, LoadSettings.run_cons, Raises.bind_eq_ok_iff] at hrun
        obtain ⟨next, hturn, hrun⟩ := hrun
        refine ih (info.turn st first) ?_ hst
        by_cases hdivides : info.Divides st
        · rw [h.turn_of_divides hdivides] at hturn
          cases hturn
        · obtain ⟨turns', hturn'⟩ := h.turn hdivides first
          have hle := LoadSettings.turn_mono (Nat.le_max_left turns turns') hturn
          rw [LoadSettings.turn_mono (Nat.le_max_right turns turns') hturn', Except.ok.injEq] at hle
          rwa [hle]
  · intro hdivides
    obtain ⟨turns, hrun⟩ := run_progress h answers st hdivides
    exact ⟨turns, _, hrun⟩

theorem createPercent_of_agrees (h : Agrees settings info) :
    0 < settings.createPercent ∧ settings.createPercent < 100 := by
  have hle := settings.percent_le
  have hcreate : settings.ratio.create ≠ 0 := by
    rw [h.ratio]
    exact Nat.ne_of_gt info.rates.create_pos
  have hnocreate : settings.ratio.nocreate ≠ 0 := by
    rw [h.ratio]
    exact Nat.ne_of_gt info.rates.nocreate_pos
  have hzero := mt (Ratio.create_ofPercent_eq_zero_iff hle).2 hcreate
  have hfull := mt (Ratio.nocreate_ofPercent_eq_zero_iff hle).2 hnocreate
  omega

/-- **When a thread divides by zero**: for positive rates, and whatever the server answers and holds, a turn of the run
    divides by zero exactly if there is a turn and the first operation is a get. -/
theorem never_divides_iff (h : Agrees settings info) (answers : List Bool) (server : Dict Text Text) :
    (∀ done accepts rest, answers = done ++ accepts :: rest → ¬ info.Divides (info.run done (.start server))) ↔
      info.firstOperation = .get → answers = [] := by
  have hfirst : settings.plan.firstOperation = info.firstOperation := by rw [h.plan]
  rw [← faultless_answers_iff h]
  refine (LoadSettings.faultless_iff .start _).trans ?_
  unfold LoadSettings.Avoids
  rw [hfirst]
  cases hop : info.firstOperation with
  | set => simp [createPercent_of_agrees h]
  | get => cases answers <;> simp [LoadInfo.answers]
  | other name => simp

end TestInfra.LoadRunner
