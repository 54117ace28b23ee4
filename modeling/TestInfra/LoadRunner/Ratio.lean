import TestInfra.LoadRunner.Indexes
import Mathlib.Data.List.Sort
import Mathlib.Data.Nat.GCD.Basic

set_option autoImplicit false

/-! # The index functions for every ratio

`LoadThread.__init__` reduces `create_percent` to `create` and `nocreate`, of which one is zero at each end of the
range. `get_mutation_indexes` divides by the one and goes on in steps of the other, so its loop is written here with
the turns it may take: a loop that ends returns the same with any more of them.

With both numbers positive it always ends, with the indexes of the key in order (`getMutationIndexes_returns`). -/

namespace TestInfra.LoadRunner

/-- `self.create` and `self.nocreate`. -/
structure Ratio where
  create : ℕ
  nocreate : ℕ
  sum_pos : 0 < create + nocreate
deriving DecidableEq, Repr

/-- How a call does not return. -/
inductive Fault where
  | zeroDivision
  /-- The loop has not ended in the turns it was given. -/
  | unfinished
deriving DecidableEq, Repr

/-- The variables of the loop of `get_mutation_indexes`. -/
structure ScanState where
  index : ℕ
  incr : ℕ
  mutationIndexes : List ℕ
deriving DecidableEq, Repr

namespace Ratio

/-- `get_mutation_key(index)`. -/
def getMutationKey (r : Ratio) (index : ℕ) : ℕ := index - r.nocreate * (index / (r.create + r.nocreate))

/-- `get_get_key()`. -/
def getGetKey (r : Ratio) (mutationIndex getIndex : ℕ) : Except Fault ℕ :=
  if r.getMutationKey mutationIndex = 0 then .error .zeroDivision
  else .ok (getIndex % r.getMutationKey mutationIndex)

/-- The body of the loop. -/
def scanTurn (r : Ratio) (mutationIndex key : ℕ) (st : ScanState) : ScanState :=
  if st.index ≤ mutationIndex ∧ r.getMutationKey st.index = key then
    { index := st.index + r.nocreate, incr := r.nocreate, mutationIndexes := st.mutationIndexes ++ [st.index] }
  else { st with index := st.index + st.incr }

/-- The loop, for at most so many turns. -/
def scanWithin (r : Ratio) (mutationIndex key indexMax : ℕ) : ℕ → ScanState → Except Fault (List ℕ)
  | 0, st => if st.index ≤ indexMax then .error .unfinished else .ok st.mutationIndexes
  | turns + 1, st =>
      if st.index ≤ indexMax then scanWithin r mutationIndex key indexMax turns (r.scanTurn mutationIndex key st)
      else .ok st.mutationIndexes

/-- `get_mutation_indexes(key)`. -/
def getMutationIndexes (r : Ratio) (turns mutationIndex key : ℕ) : Except Fault (List ℕ) :=
  if r.create = 0 then .error .zeroDivision
  else
    let s := key * (r.nocreate + r.create) / r.create
    r.scanWithin mutationIndex key (s + r.nocreate * r.nocreate) turns ⟨s - r.nocreate * r.nocreate, 1, []⟩

/-! ## The loop -/

variable {r : Ratio} {mutationIndex key indexMax : ℕ}

theorem scanWithin_of_lt {st : ScanState} (h : indexMax < st.index) (turns : ℕ) :
    r.scanWithin mutationIndex key indexMax turns st = .ok st.mutationIndexes := by
  cases turns <;> rw [scanWithin, if_neg (by omega)]

theorem scanWithin_succ {st : ScanState} (h : st.index ≤ indexMax) (turns : ℕ) :
    r.scanWithin mutationIndex key indexMax (turns + 1) st
      = r.scanWithin mutationIndex key indexMax turns (r.scanTurn mutationIndex key st) := by
  rw [scanWithin, if_pos h]

theorem scanWithin_zero {st : ScanState} (h : st.index ≤ indexMax) :
    r.scanWithin mutationIndex key indexMax 0 st = .error .unfinished := by
  rw [scanWithin, if_pos h]

/-- More turns make no difference to a loop that has ended. -/
theorem scanWithin_mono {turns turns' : ℕ} (hle : turns ≤ turns') {st : ScanState} {indexes : List ℕ}
    (h : r.scanWithin mutationIndex key indexMax turns st = .ok indexes) :
    r.scanWithin mutationIndex key indexMax turns' st = .ok indexes := by
  induction turns generalizing turns' st with
  | zero =>
      by_cases hindex : st.index ≤ indexMax
      · rw [scanWithin_zero hindex] at h
        cases h
      · rwa [scanWithin_of_lt (by omega)] at h ⊢
  | succ turns ih =>
      obtain ⟨turns', rfl⟩ : ∃ n, turns' = n + 1 := ⟨turns' - 1, by omega⟩
      by_cases hindex : st.index ≤ indexMax
      · rw [scanWithin_succ hindex] at h ⊢
        exact ih (by omega) h
      · rwa [scanWithin_of_lt (by omega)] at h ⊢

theorem getMutationIndexes_mono {turns turns' : ℕ} (hle : turns ≤ turns') {indexes : List ℕ}
    (h : r.getMutationIndexes turns mutationIndex key = .ok indexes) :
    r.getMutationIndexes turns' mutationIndex key = .ok indexes := by
  unfold getMutationIndexes at h ⊢
  split at h
  · cases h
  · next hcreate =>
      rw [if_neg hcreate]
      exact scanWithin_mono hle h

/-- Without `nocreate` the loop stays at the first index it finds. -/
theorem scanWithin_stays (hnocreate : r.nocreate = 0) (st : ScanState) (hmax : st.index ≤ indexMax)
    (hindex : st.index ≤ mutationIndex) (hkey : r.getMutationKey st.index = key) (turns : ℕ) :
    r.scanWithin mutationIndex key indexMax turns st = .error .unfinished := by
  induction turns generalizing st with
  | zero => exact scanWithin_zero hmax
  | succ turns ih =>
      rw [scanWithin_succ hmax, scanTurn, if_pos ⟨hindex, hkey⟩, hnocreate, Nat.add_zero]
      exact ih _ hmax hindex hkey

/-- Without `nocreate` every index is its own key, and the search for the current one does not end. -/
theorem getMutationIndexes_endless (hnocreate : r.nocreate = 0) (turns mutationIndex : ℕ) :
    r.getMutationIndexes turns mutationIndex (r.getMutationKey mutationIndex) = .error .unfinished := by
  have hcreate : r.create ≠ 0 := by
    have := r.sum_pos
    omega
  have hkey : r.getMutationKey mutationIndex = mutationIndex := by
    rw [getMutationKey, hnocreate, Nat.zero_mul, Nat.sub_zero]
  have hguess : mutationIndex * (r.nocreate + r.create) / r.create = mutationIndex := by
    rw [hnocreate, Nat.zero_add, Nat.mul_div_cancel _ (Nat.pos_of_ne_zero hcreate)]
  rw [getMutationIndexes, if_neg hcreate, hkey]
  dsimp only
  rw [hguess, hnocreate, Nat.mul_zero, Nat.sub_zero, Nat.add_zero]
  exact scanWithin_stays hnocreate ⟨mutationIndex, 1, []⟩ (Nat.le_refl _) (Nat.le_refl _) hkey turns

/-- Without `create` there is no call that returns. -/
theorem getMutationIndexes_zeroDivision (hcreate : r.create = 0) (turns mutationIndex key : ℕ) :
    r.getMutationIndexes turns mutationIndex key = .error .zeroDivision := if_pos hcreate

theorem getMutationKey_zero : r.getMutationKey 0 = 0 := Nat.zero_sub _

end Ratio

/-! ## Both numbers positive -/

namespace Rates

variable {r : Rates} {mutationIndex key indexMax : ℕ}

/-- The ratio with these two numbers. -/
def ratio (r : Rates) : Ratio := ⟨r.create, r.nocreate, Nat.add_pos_left r.create_pos _⟩

theorem getMutationKey_ratio (index : ℕ) : r.ratio.getMutationKey index = r.getMutationKey index := rfl

/-- The loop ends within the window, with what `scan` finds. -/
theorem scanWithin_ratio {turns index incr : ℕ} (hincr : 0 < incr) (hturns : indexMax < index + turns)
    (found : List ℕ) :
    r.ratio.scanWithin mutationIndex key indexMax turns ⟨index, incr, found⟩
      = .ok (found ++ r.scan mutationIndex key indexMax turns index incr) := by
  induction turns generalizing index incr found with
  | zero =>
      rw [Ratio.scanWithin_of_lt hturns, scan, List.append_nil]
  | succ turns ih =>
      by_cases hmax : index ≤ indexMax
      · rw [Ratio.scanWithin_succ hmax, scan, if_pos hmax, Ratio.scanTurn, getMutationKey_ratio]
        by_cases hfound : index ≤ mutationIndex ∧ r.getMutationKey index = key
        · have hnocreate := r.nocreate_pos
          rw [if_pos hfound, if_pos hfound]
          have hnext := @ih (index + r.nocreate) _ hnocreate (by omega) (found ++ [index])
          rw [List.append_assoc] at hnext
          exact hnext
        · rw [if_neg hfound, if_neg hfound]
          exact @ih (index + incr) _ hincr (by omega) found
      · rw [Ratio.scanWithin_of_lt (Nat.lt_of_not_le hmax), scan, if_neg hmax, List.append_nil]

/-- The scan goes up. -/
theorem scan_pairwise {fuel index incr : ℕ} (hincr : 0 < incr) :
    (r.scan mutationIndex key indexMax fuel index incr).Pairwise (· < ·) ∧
      ∀ i ∈ r.scan mutationIndex key indexMax fuel index incr, index ≤ i := by
  induction fuel generalizing index incr with
  | zero => exact ⟨List.Pairwise.nil, fun i hi => absurd hi List.not_mem_nil⟩
  | succ fuel ih =>
      rw [scan]
      split
      · split
        · have hnocreate := r.nocreate_pos
          obtain ⟨hsorted, habove⟩ := @ih (index + r.nocreate) _ hnocreate
          refine ⟨List.pairwise_cons.2 ⟨fun i hi => ?_, hsorted⟩, fun i hi => ?_⟩
          · have := habove i hi
            omega
          · rcases List.mem_cons.1 hi with rfl | hi
            · exact Nat.le_refl _
            · have := habove i hi
              omega
        · obtain ⟨hsorted, habove⟩ := @ih (index + incr) _ hincr
          refine ⟨hsorted, fun i hi => ?_⟩
          have := habove i hi
          omega
      · exact ⟨List.Pairwise.nil, fun i hi => absurd hi List.not_mem_nil⟩

/-- With enough turns the scan finds the indexes of the key, in order. -/
theorem scan_eq_filter {turns : ℕ}
    (hturns : key * (r.nocreate + r.create) / r.create + r.nocreate * r.nocreate < turns) :
    r.scan mutationIndex key (key * (r.nocreate + r.create) / r.create + r.nocreate * r.nocreate) turns
        (key * (r.nocreate + r.create) / r.create - r.nocreate * r.nocreate) 1
      = (List.range (mutationIndex + 1)).filter fun index => r.getMutationKey index = key := by
  have hrange : ((List.range (mutationIndex + 1)).filter fun index => r.getMutationKey index = key).Pairwise (· < ·) :=
    List.pairwise_lt_range.filter _
  refine (scan_pairwise Nat.one_pos).1.eq_of_mem_iff hrange fun index => ?_
  rw [List.mem_filter, List.mem_range, Nat.lt_succ_iff, decide_eq_true_iff]
  refine ⟨of_mem_scan, ?_⟩
  rintro ⟨hle, hkey⟩
  obtain ⟨hstart, hend⟩ := r.index_mem_window hkey
  exact mem_scan hkey hle hend hstart (by omega)

/-- The call returns once it may take as many turns as there are indexes up to the end of the window. -/
theorem getMutationIndexes_eq_filter {turns : ℕ}
    (hturns : key * (r.nocreate + r.create) / r.create + r.nocreate * r.nocreate < turns) :
    r.ratio.getMutationIndexes turns mutationIndex key
      = .ok ((List.range (mutationIndex + 1)).filter fun index => r.getMutationKey index = key) := by
  have hcreate : r.ratio.create ≠ 0 := Nat.ne_of_gt r.create_pos
  have hwindow : key * (r.nocreate + r.create) / r.create + r.nocreate * r.nocreate
      < key * (r.nocreate + r.create) / r.create - r.nocreate * r.nocreate + turns := by omega
  rw [Ratio.getMutationIndexes, if_neg hcreate]
  exact (scanWithin_ratio Nat.one_pos hwindow []).trans (congrArg Except.ok (scan_eq_filter hturns))

/-- With as many turns, the loop returns what the loop of the rates finds. -/
theorem getMutationIndexes_ratio {turns : ℕ}
    (hturns : key * (r.nocreate + r.create) / r.create + r.nocreate * r.nocreate < turns) :
    r.ratio.getMutationIndexes turns mutationIndex key = .ok (r.getMutationIndexes mutationIndex key) := by
  rw [getMutationIndexes_eq_filter hturns]
  exact congrArg Except.ok (scan_eq_filter (Nat.lt_succ_self _)).symm

end Rates

/-- **The inverse is exact**: for any two positive numbers, current index and key, `get_mutation_indexes` ends, and
    it returns in increasing order exactly the indexes up to the current one that have the key. -/
theorem getMutationIndexes_returns (r : Rates) (mutationIndex key : ℕ) :
    ∃ enough, ∀ turns, enough ≤ turns → ∃ indexes,
      r.ratio.getMutationIndexes turns mutationIndex key = .ok indexes ∧ indexes.Pairwise (· < ·) ∧
      ∀ index, index ∈ indexes ↔ index ≤ mutationIndex ∧ r.ratio.getMutationKey index = key := by
  refine ⟨key * (r.nocreate + r.create) / r.create + r.nocreate * r.nocreate + 1, fun turns hturns => ?_⟩
  refine ⟨_, Rates.getMutationIndexes_eq_filter (Nat.lt_of_succ_le hturns), List.pairwise_lt_range.filter _, ?_⟩
  intro index
  rw [List.mem_filter, List.mem_range, Nat.lt_succ_iff, decide_eq_true_iff, Rates.getMutationKey_ratio]

end TestInfra.LoadRunner
