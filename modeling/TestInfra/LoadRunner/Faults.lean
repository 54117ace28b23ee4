import TestInfra.Lib.Raises
import TestInfra.LoadRunner.LoadPlan
import TestInfra.LoadRunner.Ratio

set_option autoImplicit false

/-! # The loop for every percentage of creates

`LoadThread.run` for any `create_percent`, whatever the server answers. A turn may divide by zero, or not end in the
turns that the loop of `get_mutation_indexes` is given.

Until the server takes a set nothing moves, and every turn has the first operation of the sequence. The first set it
takes is where a percentage at an end of its range shows; behind it no turn fails (`run_faultless_iff`). -/

namespace TestInfra.LoadRunner

/-- What becomes of an operation. -/
inductive Answer where
  /-- A `MemcachedError`. -/
  | error
  /-- The set is taken; the get returns the data that is expected. -/
  | taken
  /-- The set is taken; the get returns other data. -/
  | differs
deriving DecidableEq, Repr

namespace Ratio

theorem div_gcd_eq_zero_iff {a b : ℕ} (hpos : 0 < a + b) : a / Nat.gcd a b = 0 ↔ a = 0 := by
  have hgcd : 0 < Nat.gcd a b := by
    rw [Nat.gcd_pos_iff]
    omega
  rw [Nat.div_eq_zero_iff]
  refine ⟨?_, fun h => .inr (by omega)⟩
  rintro (h | h)
  · omega
  · exact Nat.eq_zero_of_dvd_of_lt (Nat.gcd_dvd_left a b) h

theorem div_gcd_right_eq_zero_iff {a b : ℕ} (hpos : 0 < a + b) : b / Nat.gcd a b = 0 ↔ b = 0 := by
  rw [Nat.gcd_comm]
  exact div_gcd_eq_zero_iff (by omega)

/-- `create_percent` and the rest of 100, reduced. -/
def ofPercent (percent : ℕ) (h : percent ≤ 100) : Ratio where
  create := percent / Nat.gcd percent (100 - percent)
  nocreate := (100 - percent) / Nat.gcd percent (100 - percent)
  sum_pos := by
    refine Nat.pos_of_ne_zero fun hsum => ?_
    obtain ⟨hcreate, hnocreate⟩ := Nat.add_eq_zero_iff.1 hsum
    rw [div_gcd_eq_zero_iff (by omega)] at hcreate
    rw [div_gcd_right_eq_zero_iff (by omega)] at hnocreate
    omega

theorem create_ofPercent_eq_zero_iff {percent : ℕ} (h : percent ≤ 100) :
    (ofPercent percent h).create = 0 ↔ percent = 0 := div_gcd_eq_zero_iff (by omega)

theorem nocreate_ofPercent_eq_zero_iff {percent : ℕ} (h : percent ≤ 100) :
    (ofPercent percent h).nocreate = 0 ↔ percent = 100 := by
  have hdiv := div_gcd_right_eq_zero_iff (a := percent) (b := 100 - percent) (by omega)
  exact hdiv.trans (by omega)

end Ratio

/-- What a thread is given. A distribution lists the operations, and the sizes of values, with their numbers. -/
structure LoadSettings where
  createPercent : ℕ
  operationDistribution : List (Operation × ℕ)
  valuesizeDistribution : List (ℕ × ℕ)
  limitItems : ℕ
  limitOperations : ℕ
  limitSize : ℕ
  percent_le : createPercent ≤ 100
  operations_ne : (operationDistribution.flatMap fun op => List.replicate op.2 op.1) ≠ []
  valuesizes_ne : (valuesizeDistribution.flatMap fun op => List.replicate op.2 op.1) ≠ []

namespace LoadSettings

variable (settings : LoadSettings)

def ratio : Ratio := .ofPercent settings.createPercent settings.percent_le

def operationSequence : List Operation := settings.operationDistribution.flatMap fun op => List.replicate op.2 op.1

def valuesizeSequence : List ℕ := settings.valuesizeDistribution.flatMap fun op => List.replicate op.2 op.1

/-- The sequences and the limits of the thread. -/
def plan : LoadPlan where
  operationSequence := settings.operationSequence
  valuesizeSequence := settings.valuesizeSequence
  operations_ne := settings.operations_ne
  valuesizes_ne := settings.valuesizes_ne
  limitItems := settings.limitItems
  limitOperations := settings.limitOperations
  limitSize := settings.limitSize

def turnSet (turns : ℕ) (st : Progress) (answer : Answer) : Except Fault Progress :=
  match answer with
  | .error => .ok st.backOff
  | _ =>
      let key := settings.ratio.getMutationKey st.mutationIndex
      match settings.ratio.getMutationIndexes turns st.mutationIndex key with
      | .error fault => .error fault
      | .ok prevIndexes => .ok (settings.plan.countSet key prevIndexes st)

/-- The counters after a get that returns. Other data than expected and `max` of no indexes end the thread. -/
def countGet (st : Progress) (answer : Answer) (indexes : List ℕ) : Progress :=
  let st := st.answered
  if indexes = [] then { st with status := .died }
  else if answer = .differs then st.fail
  else { st with getIndex := st.getIndex + 1 }

/-- The key is made before the server is asked. -/
def turnGet (turns : ℕ) (st : Progress) (answer : Answer) : Except Fault Progress :=
  match settings.ratio.getGetKey st.mutationIndex st.getIndex with
  | .error fault => .error fault
  | .ok key =>
      match answer with
      | .error => .ok st.backOff
      | _ =>
          match settings.ratio.getMutationIndexes turns st.mutationIndex key with
          | .error fault => .error fault
          | .ok indexes => .ok (countGet st answer indexes)

/-- One turn of the loop. -/
def turn (turns : ℕ) (st : Progress) (answer : Answer) : Except Fault Progress :=
  settings.plan.choose st (.ok { st with status := .returned }) (settings.turnSet turns st answer)
    (settings.turnGet turns st answer) (.ok st)

/-- `run`, for as many turns as there are answers. -/
def run (turns : ℕ) (answers : List Answer) (st : Progress) : Except Fault Progress :=
  answers.foldlM (settings.turn turns) st

/-- The run goes through: no turn divides by zero, and each ends. -/
def Faultless (answers : List Answer) (st : Progress) : Prop := ∃ turns st', settings.run turns answers st = .ok st'

/-! ## More turns -/

variable {settings} {st st' : Progress} {answer : Answer} {turns turns' : ℕ}

theorem turnSet_mono (hle : turns ≤ turns') (h : settings.turnSet turns st answer = .ok st') :
    settings.turnSet turns' st answer = .ok st' := by
  unfold turnSet at h ⊢
  cases answer with
  | error => exact h
  | taken | differs =>
      dsimp only at h ⊢
      split at h
      · cases h
      · next indexes heq => rwa [Ratio.getMutationIndexes_mono hle heq]

theorem turnGet_mono (hle : turns ≤ turns') (h : settings.turnGet turns st answer = .ok st') :
    settings.turnGet turns' st answer = .ok st' := by
  unfold turnGet at h ⊢
  split at h
  · cases h
  · next key heq =>
      cases answer with
      | error => exact h
      | taken | differs =>
          dsimp only at h ⊢
          split at h
          · cases h
          · next indexes heq => rwa [Ratio.getMutationIndexes_mono hle heq]

theorem turn_mono (hle : turns ≤ turns') (h : settings.turn turns st answer = .ok st') :
    settings.turn turns' st answer = .ok st' := by
  unfold turn LoadPlan.choose at h ⊢
  split at h
  · next hrunning =>
      rw [if_pos hrunning]
      split at h
      · next hlimited => rwa [if_pos hlimited]
      · next hlimited =>
          rw [if_neg hlimited]
          split at h
          · exact turnSet_mono hle h
          · exact turnGet_mono hle h
          · exact h
  · next hrunning => rwa [if_neg hrunning]

theorem run_cons (turns : ℕ) (answer : Answer) (answers : List Answer) (st : Progress) :
    settings.run turns (answer :: answers) st = settings.turn turns st answer >>= settings.run turns answers :=
  List.foldlM_cons ..

theorem run_mono (hle : turns ≤ turns') {answers : List Answer} (h : settings.run turns answers st = .ok st') :
    settings.run turns' answers st = .ok st' := by
  induction answers generalizing st with
  | nil => exact h
  | cons answer answers ih =>
      rw [run_cons, Raises.bind_eq_ok_iff] at h ⊢
      obtain ⟨next, hturn, hrun⟩ := h
      exact ⟨next, turn_mono hle hturn, ih hrun⟩

/-- A turn for itself, then the others. -/
theorem faultless_cons_iff (answers : List Answer) :
    settings.Faultless (answer :: answers) st ↔
      ∃ turns next, settings.turn turns st answer = .ok next ∧ settings.Faultless answers next := by
  constructor
  · rintro ⟨turns, st', hrun⟩
    rw [run_cons, Raises.bind_eq_ok_iff] at hrun
    obtain ⟨next, hturn, hrun⟩ := hrun
    exact ⟨turns, next, hturn, turns, st', hrun⟩
  · rintro ⟨turns, next, hturn, turns', st', hrun⟩
    refine ⟨max turns turns', st', ?_⟩
    rw [run_cons, Raises.bind_eq_ok_iff]
    exact ⟨next, turn_mono (Nat.le_max_left _ _) hturn, run_mono (Nat.le_max_right _ _) hrun⟩

theorem faultless_nil (st : Progress) : settings.Faultless [] st := ⟨0, st, rfl⟩

/-! ## Behind the first set -/

/-- Away from the ends of the range the two numbers are rates. -/
theorem exists_rates (h : 0 < settings.createPercent ∧ settings.createPercent < 100) :
    ∃ rates : Rates, settings.ratio = rates.ratio := by
  have hcreate := Ratio.create_ofPercent_eq_zero_iff settings.percent_le
  have hnocreate := Ratio.nocreate_ofPercent_eq_zero_iff settings.percent_le
  exact ⟨⟨settings.ratio.create, settings.ratio.nocreate, Nat.pos_of_ne_zero fun hzero => by
    have := hcreate.1 hzero
    omega, Nat.pos_of_ne_zero fun hzero => by
    have := hnocreate.1 hzero
    omega⟩, rfl⟩

/-- So the loop over the indexes ends. -/
theorem exists_indexes (h : 0 < settings.createPercent ∧ settings.createPercent < 100) (mutationIndex key : ℕ) :
    ∃ turns indexes, settings.ratio.getMutationIndexes turns mutationIndex key = .ok indexes := by
  obtain ⟨rates, hrates⟩ := exists_rates h
  rw [hrates]
  exact ⟨_, _, Rates.getMutationIndexes_ratio (Nat.lt_succ_self _)⟩

/-- A set goes through, and counts when it is taken. -/
theorem exists_turnSet (h : 0 < settings.createPercent ∧ settings.createPercent < 100) (st : Progress)
    (answer : Answer) :
    ∃ turns next, settings.turnSet turns st answer = .ok next ∧ st.mutationIndex ≤ next.mutationIndex ∧
      (answer ≠ .error → 0 < next.mutationIndex) := by
  obtain ⟨enough, indexes, hindexes⟩ := exists_indexes h st.mutationIndex
    (settings.ratio.getMutationKey st.mutationIndex)
  cases answer with
  | error => exact ⟨0, st.backOff, rfl, Nat.le_refl _, fun hne => absurd rfl hne⟩
  | taken | differs =>
      refine ⟨enough, settings.plan.countSet (settings.ratio.getMutationKey st.mutationIndex) indexes st, ?_,
        Nat.le_succ _, fun _ => Nat.succ_pos _⟩
      simp only [turnSet, hindexes]

theorem mutationIndex_countGet (st : Progress) (answer : Answer) (indexes : List ℕ) :
    (countGet st answer indexes).mutationIndex = st.mutationIndex := by
  unfold countGet
  dsimp only
  split
  · rfl
  · split <;> rfl

/-- Once a set was taken there is a key to get. -/
theorem exists_turnGet (h : 0 < settings.createPercent ∧ settings.createPercent < 100) {st : Progress}
    (hst : 0 < st.mutationIndex) (answer : Answer) :
    ∃ turns next, settings.turnGet turns st answer = .ok next ∧ st.mutationIndex ≤ next.mutationIndex := by
  obtain ⟨rates, hrates⟩ := exists_rates h
  have hkey : settings.ratio.getMutationKey st.mutationIndex ≠ 0 := by
    rw [hrates, Rates.getMutationKey_ratio]
    exact Nat.ne_of_gt ((rates.getMutationKey_pos_iff _).2 hst)
  have hget : settings.ratio.getGetKey st.mutationIndex st.getIndex
      = .ok (st.getIndex % settings.ratio.getMutationKey st.mutationIndex) := if_neg hkey
  obtain ⟨enough, indexes, hindexes⟩ := exists_indexes h st.mutationIndex
    (st.getIndex % settings.ratio.getMutationKey st.mutationIndex)
  cases answer with
  | error => exact ⟨0, st.backOff, by simp only [turnGet, hget], Nat.le_refl _⟩
  | taken =>
      refine ⟨enough, countGet st .taken indexes, ?_, Nat.le_of_eq (mutationIndex_countGet ..).symm⟩
      simp only [turnGet, hget, hindexes]
  | differs =>
      refine ⟨enough, countGet st .differs indexes, ?_, Nat.le_of_eq (mutationIndex_countGet ..).symm⟩
      simp only [turnGet, hget, hindexes]

/-- Away from the ends of the range no turn fails once a set was taken. -/
theorem exists_turn (h : 0 < settings.createPercent ∧ settings.createPercent < 100) {st : Progress}
    (hst : 0 < st.mutationIndex) (answer : Answer) :
    ∃ turns next, settings.turn turns st answer = .ok next ∧ 0 < next.mutationIndex := by
  unfold turn LoadPlan.choose
  split
  · split
    · exact ⟨0, _, rfl, hst⟩
    · split
      · obtain ⟨turns, next, hturn, hle, -⟩ := exists_turnSet h st answer
        exact ⟨turns, next, hturn, Nat.lt_of_lt_of_le hst hle⟩
      · obtain ⟨turns, next, hturn, hle⟩ := exists_turnGet h hst answer
        exact ⟨turns, next, hturn, Nat.lt_of_lt_of_le hst hle⟩
      · exact ⟨0, st, rfl, hst⟩
  · exact ⟨0, st, rfl, hst⟩

theorem faultless_of_started (h : 0 < settings.createPercent ∧ settings.createPercent < 100)
    (answers : List Answer) {st : Progress} (hst : 0 < st.mutationIndex) : settings.Faultless answers st := by
  induction answers generalizing st with
  | nil => exact faultless_nil st
  | cons answer answers ih =>
      obtain ⟨turns, next, hturn, hnext⟩ := exists_turn h hst answer
      exact (faultless_cons_iff answers).2 ⟨turns, next, hturn, ih hnext⟩

/-! ## Up to the first set -/

/-- A turn of a thread for which no set was taken yet. -/
theorem turn_of_fresh (h : Fresh st) (turns : ℕ) (answer : Answer) :
    settings.turn turns st answer = match settings.plan.firstOperation with
      | .set => settings.turnSet turns st answer
      | .get => .error .zeroDivision
      | .other _ => .ok st := by
  rw [turn, h.choose_eq]
  cases settings.plan.firstOperation with
  | set | other => rfl
  | get => simp only [turnGet, Ratio.getGetKey, h.mutationIndex, Ratio.getMutationKey_zero, if_true]

/-- At an end of the range a set that is taken does not come through. -/
theorem turnSet_fails (h : ¬ (0 < settings.createPercent ∧ settings.createPercent < 100)) (hanswer : answer ≠ .error)
    (turns : ℕ) (st next : Progress) : settings.turnSet turns st answer ≠ .ok next := by
  have hends : settings.ratio.create = 0 ∨ settings.ratio.nocreate = 0 := by
    have hle := settings.percent_le
    rcases Nat.eq_zero_or_pos settings.createPercent with hzero | hpos
    · exact .inl ((Ratio.create_ofPercent_eq_zero_iff hle).2 hzero)
    · exact .inr ((Ratio.nocreate_ofPercent_eq_zero_iff hle).2 (by omega))
  have hfails : ∃ fault, settings.ratio.getMutationIndexes turns st.mutationIndex
      (settings.ratio.getMutationKey st.mutationIndex) = .error fault := by
    rcases hends with hcreate | hnocreate
    · exact ⟨_, Ratio.getMutationIndexes_zeroDivision hcreate turns _ _⟩
    · exact ⟨_, Ratio.getMutationIndexes_endless hnocreate turns _⟩
  obtain ⟨fault, hfault⟩ := hfails
  cases answer with
  | error => exact absurd rfl hanswer
  | taken | differs => simp [turnSet, hfault]

/-- The server rejects the set. -/
theorem exists_turnSet_error_iff (answers : List Answer) :
    (∃ turns next, settings.turnSet turns st .error = .ok next ∧ settings.Faultless answers next) ↔
      settings.Faultless answers st.backOff := by
  constructor
  · intro ⟨_, next, hturn, hrest⟩
    cases hturn
    exact hrest
  · exact fun hrest => ⟨0, _, rfl, hrest⟩

/-- The server takes it: all depends on the percentage. -/
theorem exists_turnSet_taken_iff (hanswer : answer ≠ .error) (answers : List Answer) :
    (∃ turns next, settings.turnSet turns st answer = .ok next ∧ settings.Faultless answers next) ↔
      0 < settings.createPercent ∧ settings.createPercent < 100 := by
  constructor
  · intro ⟨turns, next, hturn, _⟩
    by_contra hpercent
    exact turnSet_fails hpercent hanswer turns st next hturn
  · intro hpercent
    obtain ⟨turns, next, hturn, -, hstarted⟩ := exists_turnSet hpercent st answer
    exact ⟨turns, next, hturn, faultless_of_started hpercent answers (hstarted hanswer)⟩

variable (settings) in
/-- The run meets no fault: it has no turn, or its first operation is neither a get nor a set, or it is a set, and
    the percentage is away from the ends of its range or the server takes none. -/
def Avoids (answers : List Answer) : Prop :=
  match settings.plan.firstOperation with
  | .set => (0 < settings.createPercent ∧ settings.createPercent < 100) ∨ ∀ answer ∈ answers, answer = .error
  | .get => answers = []
  | .other _ => True

theorem faultless_iff (h : Fresh st) (answers : List Answer) :
    settings.Faultless answers st ↔ settings.Avoids answers := by
  induction answers generalizing st with
  | nil =>
      refine iff_of_true (faultless_nil st) ?_
      unfold Avoids
      split
      · exact .inr fun answer hanswer => absurd hanswer List.not_mem_nil
      · rfl
      · trivial
  | cons answer answers ih =>
      rw [faultless_cons_iff]
      simp only [turn_of_fresh h]
      unfold Avoids at ih ⊢
      cases hop : settings.plan.firstOperation with
      | get => simp
      | other name =>
          rw [hop] at ih
          dsimp only at ih ⊢
          exact iff_of_true ⟨0, st, rfl, (ih h).2 trivial⟩ trivial
      | set =>
          rw [hop] at ih
          dsimp only at ih ⊢
          rw [List.forall_mem_cons]
          by_cases hanswer : answer = .error
          · subst hanswer
            rw [exists_turnSet_error_iff, ih h.backOff]
            simp
          · rw [exists_turnSet_taken_iff hanswer]
            simp [hanswer]

end LoadSettings

/-- **When no turn fails**: for any percentage, distributions and answers of the server, the run divides by zero or
    hangs in none of its turns exactly if the first operation of the sequence is no get and, when it is a set, the
    percentage is neither 0 nor 100 or the server takes no set. -/
theorem run_faultless_iff (settings : LoadSettings) (answers : List Answer) :
    settings.Faultless answers .start ↔ settings.Avoids answers := LoadSettings.faultless_iff .start answers

/-- One operation only. -/
def oneOperation (operation : Operation) (percent : ℕ) (h : percent ≤ 100) : LoadSettings where
  createPercent := percent
  operationDistribution := [(operation, 1)]
  valuesizeDistribution := [(2, 1)]
  limitItems := 0
  limitOperations := 0
  limitSize := 0
  percent_le := h
  operations_ne := List.cons_ne_nil _ _
  valuesizes_ne := by decide

/-- A get at once, and a set at each end of the range. -/
theorem run_faults :
    ¬ (oneOperation .get 50 (by decide)).Faultless [.taken] .start ∧
    ¬ (oneOperation .set 0 (by decide)).Faultless [.taken] .start ∧
    ¬ (oneOperation .set 100 (by decide)).Faultless [.taken] .start := by
  simp only [LoadSettings.faultless_iff .start]
  refine ⟨?_, ?_, ?_⟩
  · simp [LoadSettings.Avoids, LoadSettings.plan, LoadPlan.firstOperation, LoadSettings.operationSequence, oneOperation]
  · simp [LoadSettings.Avoids, LoadSettings.plan, LoadPlan.firstOperation, LoadSettings.operationSequence, oneOperation]
  · simp [LoadSettings.Avoids, LoadSettings.plan, LoadPlan.firstOperation, LoadSettings.operationSequence, oneOperation]

end TestInfra.LoadRunner
