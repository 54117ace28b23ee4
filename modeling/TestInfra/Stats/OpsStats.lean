import Mathlib.Algebra.BigOperators.Group.List.Basic
import Mathlib.Algebra.Order.Ring.Rat
import Mathlib.Data.List.Induction
import Mathlib.Tactic.Ring

set_option autoImplicit false

/-! # Merged operation statistics

`StatsCollector.ops_stats` (`lib/membase/performance/stats.py`) puts the samples aside and merges them when there are
500. `_merge` goes through the pairs of samples next to each other and adds up the first one of each pair, 499 in all.
Then 500 are dropped, so that the last sample of the 500 is not counted. -/

namespace TestInfra.Stats

/-! ## The functions -/

/-- What is counted. -/
inductive Kind where
  | gets
  | sets
  | queries
deriving DecidableEq

/-- `ops_stat`, with the time that `ops_stats` writes into it. -/
structure OpsStat where
  startTime : ℚ
  totGets : ℤ
  totSets : ℤ
  totQueries : ℤ
  time : Option ℚ
deriving DecidableEq

/-- `tot-gets`, `tot-sets` or `tot-queries`. -/
def OpsStat.tot (stat : OpsStat) : Kind → ℤ
  | .gets => stat.totGets
  | .sets => stat.totSets
  | .queries => stat.totQueries

/-- What `_merge` returns. -/
structure Merged where
  startTime : ℚ
  endTime : ℚ
  totalSets : ℤ
  totalGets : ℤ
  totalQueries : ℤ
  queriesPerSec : ℚ
deriving DecidableEq

/-- `totalGets`, `totalSets` or `totalQueries`. -/
def Merged.total (merged : Merged) : Kind → ℤ
  | .gets => merged.totalGets
  | .sets => merged.totalSets
  | .queries => merged.totalQueries

/-- `_task["ops"]`, `_task["ops-temp"]` and `active_mergers`. -/
structure StatsCollector where
  ops : List Merged
  opsTemp : List OpsStat
  activeMergers : ℕ
deriving DecidableEq

/-- After `start`. -/
def StatsCollector.started : StatsCollector := ⟨[], [], 0⟩

/-- The sums in the loop of `_merge`. -/
structure Sums where
  totalgets : ℤ
  totalsets : ℤ
  totalqueries : ℤ
  delta : ℚ

def Sums.total (sums : Sums) : Kind → ℤ
  | .gets => sums.totalgets
  | .sets => sums.totalsets
  | .queries => sums.totalqueries

/-- One round of the loop; `none` is the `IndexError`. -/
def addPair (opsTemp : List OpsStat) (sums : Sums) (i : ℕ) : Option Sums := do
  let current ← opsTemp[i]?
  let next ← opsTemp[i + 1]?
  some {
    totalgets := sums.totalgets + current.totGets
    totalsets := sums.totalsets + current.totSets
    totalqueries := sums.totalqueries + current.totQueries
    delta := sums.delta + (next.startTime - current.startTime)
  }

/-- `_merge`; `none` when it raises, also for a division by zero. -/
def merge (opsTemp : List OpsStat) : Option Merged := do
  let first ← opsTemp[0]?
  let sums ← (List.range 499).foldlM (addPair opsTemp) ⟨0, 0, 0, 0⟩
  if sums.delta = 0 then none
  else
    some {
      startTime := first.startTime
      endTime := first.startTime + sums.delta
      totalSets := sums.totalsets
      totalGets := sums.totalgets
      totalQueries := sums.totalqueries
      queriesPerSec := sums.totalqueries / sums.delta
    }

/-- How a call ends that does not return. -/
inductive Stop where
  /-- For the other merger to end. -/
  | waiting
  | raised
deriving DecidableEq

/-- `ops_stats`, at a time. The count of active mergers goes up and down again around the merge. -/
def opsStats (c : StatsCollector) (call : ℚ × OpsStat) : Except Stop StatsCollector :=
  let opsTemp := c.opsTemp ++ [{ call.2 with time := some call.1 }]
  if opsTemp.length ≥ 500 * (1 + c.activeMergers) then
    if c.activeMergers ≠ 0 then .error .waiting
    else
      match merge opsTemp with
      | none => .error .raised
      | some merged => .ok { c with ops := c.ops ++ [merged], opsTemp := opsTemp.drop 500 }
  else .ok { c with opsTemp }

/-! ## One merge -/

/-- The sums of the first pairs: the first samples, and the time to the next one. -/
theorem foldlM_addPair {opsTemp : List OpsStat} {n : ℕ} (hn : n < opsTemp.length) :
    ∃ sums, (List.range n).foldlM (addPair opsTemp) ⟨0, 0, 0, 0⟩ = some sums ∧
      (∀ kind, sums.total kind = ((opsTemp.take n).map (·.tot kind)).sum) ∧
      sums.delta = opsTemp[n].startTime - opsTemp[0].startTime := by
  induction n with
  | zero => exact ⟨_, rfl, fun kind => by cases kind <;> rfl, (sub_self _).symm⟩
  | succ n ih =>
      obtain ⟨sums, hsums, htotal, hdelta⟩ := ih (by omega)
      refine ⟨⟨sums.totalgets + opsTemp[n].totGets, sums.totalsets + opsTemp[n].totSets,
        sums.totalqueries + opsTemp[n].totQueries,
        sums.delta + (opsTemp[n + 1].startTime - opsTemp[n].startTime)⟩, ?_, fun kind => ?_, ?_⟩
      · rw [List.range_succ, List.foldlM_append, hsums, Option.bind_eq_bind, Option.bind_some, List.foldlM_cons,
          addPair, List.getElem?_eq_getElem (by omega), List.getElem?_eq_getElem hn]
        rfl
      · have hlast : (opsTemp.take (n + 1)).map (·.tot kind)
            = (opsTemp.take n).map (·.tot kind) ++ [opsTemp[n].tot kind] := by
          rw [List.take_succ_eq_append_getElem (by omega), List.map_append, List.map_singleton]
        rw [hlast, List.sum_append, List.sum_singleton, ← htotal]
        cases kind <;> rfl
      · rw [hdelta]
        ring

/-- Of 500 samples the first 499 are merged. -/
theorem merge_eq {opsTemp : List OpsStat} {last : OpsStat} (hlength : opsTemp.length = 499)
    (htimes : ((opsTemp ++ [last]).map (·.startTime)).Pairwise (· < ·)) :
    ∃ merged, merge (opsTemp ++ [last]) = some merged ∧
      ∀ kind, merged.total kind = (opsTemp.map (·.tot kind)).sum := by
  have hlong : 499 < (opsTemp ++ [last]).length := by
    rw [List.length_append, hlength, List.length_singleton]
    decide
  obtain ⟨sums, hsums, htotal, hdelta⟩ := foldlM_addPair hlong
  have hfirst : 0 < (opsTemp ++ [last]).length := by omega
  have hpos : sums.delta ≠ 0 := by
    have hless := List.pairwise_iff_getElem.1 htimes 0 499 (by simp) (by simpa using hlong) (by decide)
    rw [List.getElem_map, List.getElem_map] at hless
    rw [hdelta]
    exact (sub_pos.2 hless).ne'
  refine ⟨⟨(opsTemp ++ [last])[0].startTime, (opsTemp ++ [last])[0].startTime + sums.delta, sums.totalsets,
    sums.totalgets, sums.totalqueries, sums.totalqueries / sums.delta⟩, ?_, fun kind => ?_⟩
  · rw [merge, List.getElem?_eq_getElem hfirst, Option.bind_eq_bind, Option.bind_some, hsums, Option.bind_eq_bind,
      Option.bind_some, if_neg hpos]
  · have hkind := htotal kind
    rw [List.take_left' hlength] at hkind
    rw [← hkind]
    cases kind <;> rfl

/-! ## Runs -/

/-- The samples of calls whose number can be divided by 500, when they are counted from one. -/
def lost (calls : List (ℚ × OpsStat)) (kind : Kind) : ℤ :=
  ((calls.zipIdx.filter fun call => (call.2 + 1) % 500 = 0).map fun call => call.1.2.tot kind).sum

theorem lost_concat (calls : List (ℚ × OpsStat)) (call : ℚ × OpsStat) (kind : Kind) :
    lost (calls ++ [call]) kind
      = lost calls kind + if (calls.length + 1) % 500 = 0 then call.2.tot kind else 0 := by
  rw [lost, List.zipIdx_append, List.filter_append, List.map_append, List.sum_append, ← lost, Nat.zero_add]
  congr 1
  by_cases hlast : (calls.length + 1) % 500 = 0
  · simp [hlast]
  · simp [hlast]

/-- The samples that are counted somewhere. -/
def counted (c : StatsCollector) (kind : Kind) : ℤ :=
  (c.ops.map (·.total kind)).sum + (c.opsTemp.map (·.tot kind)).sum

/-- The samples of the calls. -/
def passed (calls : List (ℚ × OpsStat)) (kind : Kind) : ℤ := (calls.map (·.2.tot kind)).sum

/-- The state after these calls. -/
structure After (calls : List (ℚ × OpsStat)) (c : StatsCollector) : Prop where
  activeMergers : c.activeMergers = 0
  length_eq : c.opsTemp.length = calls.length % 500
  times : c.opsTemp.map (·.startTime) <:+ calls.map (·.2.startTime)
  counted_eq : ∀ kind, counted c kind + lost calls kind = passed calls kind

/-- The start times increase. -/
def Increasing (calls : List (ℚ × OpsStat)) : Prop := (calls.map (·.2.startTime)).Pairwise (· < ·)

theorem After.opsStats {calls : List (ℚ × OpsStat)} {c : StatsCollector} (h : After calls c) {call : ℚ × OpsStat}
    (htimes : Increasing (calls ++ [call])) : ∃ c', opsStats c call = .ok c' ∧ After (calls ++ [call]) c' := by
  set stat : OpsStat := { call.2 with time := some call.1 } with hstat
  have htot : ∀ kind, stat.tot kind = call.2.tot kind := fun kind => by cases kind <;> rfl
  have hsuffix : (c.opsTemp ++ [stat]).map (·.startTime) <:+ (calls ++ [call]).map (·.2.startTime) := by
    rw [List.map_append, List.map_append]
    obtain ⟨before, hbefore⟩ := h.times
    exact ⟨before, by rw [← List.append_assoc, hbefore]; rfl⟩
  have hpassed : ∀ kind, passed (calls ++ [call]) kind = passed calls kind + call.2.tot kind := fun kind => by
    rw [passed, List.map_append, List.sum_append, List.map_singleton, List.sum_singleton, ← passed]
  have hlength := h.length_eq
  by_cases hfull : c.opsTemp.length = 499
  · -- the sample of this call is the one that is lost
    obtain ⟨merged, hmerged, htotal⟩ := merge_eq hfull (htimes.sublist hsuffix.sublist)
    have hall : (c.opsTemp ++ [stat]).length = 500 := by
      rw [List.length_append, hfull, List.length_singleton]
    refine ⟨⟨c.ops ++ [merged], [], c.activeMergers⟩, ?_, h.activeMergers, ?_, List.nil_suffix .., fun kind => ?_⟩
    · simp only [Stats.opsStats, ← hstat, h.activeMergers, hall, hmerged, List.drop_of_length_le hall.le]
      rfl
    · rw [List.length_append, List.length_singleton, List.length_nil]
      omega
    · have hcounted := h.counted_eq kind
      rw [counted] at hcounted
      rw [lost_concat, if_pos (by omega), hpassed, counted, List.map_append, List.sum_append, List.map_singleton,
        List.sum_singleton, htotal, List.map_nil, List.sum_nil]
      omega
  · have hshort : ¬ (c.opsTemp ++ [stat]).length ≥ 500 := by
      rw [List.length_append, List.length_singleton]
      omega
    refine ⟨⟨c.ops, c.opsTemp ++ [stat], c.activeMergers⟩, ?_, h.activeMergers, ?_, hsuffix, fun kind => ?_⟩
    · simp only [Stats.opsStats, ← hstat, h.activeMergers, Nat.add_zero, Nat.mul_one, if_neg hshort]
    · rw [List.length_append, List.length_append, List.length_singleton, List.length_singleton]
      omega
    · have hcounted := h.counted_eq kind
      rw [counted] at hcounted
      rw [lost_concat, if_neg (by omega), hpassed, counted, List.map_append, List.sum_append, List.map_singleton,
        List.sum_singleton, htot]
      dsimp only
      omega

theorem foldlM_opsStats {calls : List (ℚ × OpsStat)} (h : Increasing calls) :
    ∃ c, calls.foldlM opsStats .started = .ok c ∧ After calls c := by
  induction calls using List.reverseRecOn with
  | nil => exact ⟨_, rfl, rfl, rfl, List.suffix_rfl, fun kind => rfl⟩
  | append_singleton calls call ih =>
      have hbefore : Increasing calls := by
        rw [Increasing, List.map_append] at h
        exact (List.pairwise_append.1 h).1
      obtain ⟨c, hc, hafter⟩ := ih hbefore
      obtain ⟨c', hc', hafter'⟩ := hafter.opsStats h
      have hlast : [call].foldlM opsStats c = .ok c' := by
        rw [List.foldlM_cons, hc']
        rfl
      refine ⟨c', ?_, hafter'⟩
      rw [List.foldlM_append, hc]
      exact hlast

/-- **What is merged is counted**: calls with increasing start times return, and after each of them the merged records
    and the samples that are left count what was passed, for gets, sets or queries, if every 500th sample has none of
    them, and only then. -/
theorem opsStats_counted_iff {calls : List (ℚ × OpsStat)} (h : Increasing calls) (kind : Kind) :
    (∀ made, made <+: calls →
        ∃ c, made.foldlM opsStats .started = .ok c ∧ counted c kind = passed made kind)
      ↔ ∀ i call, calls[i]? = some call → (i + 1) % 500 = 0 → call.2.tot kind = 0 := by
  have hrun : ∀ made, made <+: calls → ∃ c, made.foldlM opsStats .started = .ok c ∧
      (counted c kind = passed made kind ↔ lost made kind = 0) := by
    intro made hmade
    obtain ⟨c, hc, hafter⟩ := foldlM_opsStats (h.sublist (hmade.map _).sublist)
    have hcounted := hafter.counted_eq kind
    exact ⟨c, hc, by omega⟩
  constructor
  · intro hall i call hcall hlast
    have hzero : ∀ n, lost (calls.take n) kind = 0 := fun n => by
      obtain ⟨c, hc, hiff⟩ := hrun _ (List.take_prefix n calls)
      obtain ⟨c', hc', hcounted⟩ := hall _ (List.take_prefix n calls)
      obtain rfl : c = c' := Except.ok.inj (hc.symm.trans hc')
      exact hiff.1 hcounted
    obtain ⟨hlt, hget⟩ := List.getElem?_eq_some_iff.1 hcall
    have hnext := hzero (i + 1)
    rwa [List.take_succ_eq_append_getElem hlt, lost_concat, hzero, hget, List.length_take_of_le hlt.le, if_pos hlast,
      zero_add] at hnext
  · intro hzero made hmade
    obtain ⟨c, hc, hiff⟩ := hrun made hmade
    refine ⟨c, hc, hiff.2 (List.sum_eq_zero fun n hn => ?_)⟩
    obtain ⟨⟨call, i⟩, hin, rfl⟩ := List.mem_map.1 hn
    obtain ⟨hin, hlast⟩ := List.mem_filter.1 hin
    have hget := List.mem_zipIdx_iff_getElem?.1 hin
    obtain ⟨rest, rfl⟩ := hmade
    refine hzero i call ?_ (of_decide_eq_true hlast)
    rw [List.getElem?_append_left (List.getElem?_eq_some_iff.1 hget).1, hget]

/-- 501 samples with one get each, but for the 500th, which has none. -/
def merged501 : List (ℚ × OpsStat) :=
  (List.range 501).map fun i : ℕ => (0, ⟨i, if i = 499 then 0 else 1, 0, 0, none⟩)

/-- The first 500 are merged, and no get is lost. -/
theorem opsStats_counted_merged501 :
    ∃ c, merged501.foldlM opsStats .started = .ok c ∧ counted c .gets = passed merged501 .gets := by
  have htimes : Increasing merged501 := by
    rw [Increasing, merged501, List.map_map, List.pairwise_map]
    refine List.pairwise_lt_range.imp fun {i j} hlt => ?_
    exact (Nat.cast_lt.2 hlt : (i : ℚ) < j)
  refine (opsStats_counted_iff htimes .gets).2 ?_ merged501 List.prefix_rfl
  intro i call hcall hlast
  rw [merged501, List.getElem?_map, Option.map_eq_some_iff] at hcall
  obtain ⟨j, hj, rfl⟩ := hcall
  obtain ⟨hlt, hget⟩ := List.getElem?_eq_some_iff.1 hj
  rw [List.getElem_range] at hget
  rw [List.length_range] at hlt
  obtain rfl : i = 499 := by omega
  exact congrArg (fun n : ℕ => if n = 499 then 0 else 1) hget.symm

/-- 500 samples with one get each. -/
def gets500 : List (ℚ × OpsStat) := (List.range 500).map fun i : ℕ => (0, ⟨i, 1, 0, 0, none⟩)

/-- One of 500 gets is lost. -/
theorem opsStats_gets500 : ¬ ∀ (calls : List (ℚ × OpsStat)), Increasing calls →
    ∃ c, calls.foldlM opsStats .started = .ok c ∧ ∀ kind, counted c kind = passed calls kind := by
  intro h
  have htimes : Increasing gets500 := by
    rw [Increasing, gets500, List.map_map, List.pairwise_map]
    refine List.pairwise_lt_range.imp fun {i j} hlt => ?_
    exact (Nat.cast_lt.2 hlt : (i : ℚ) < j)
  obtain ⟨c, hc, hcounted⟩ := h gets500 htimes
  obtain ⟨c', hc', hafter⟩ := foldlM_opsStats htimes
  obtain rfl : c = c' := Except.ok.inj (hc.symm.trans hc')
  have hlost := hafter.counted_eq .gets
  rw [hcounted] at hlost
  have hone : lost gets500 .gets = 1 := by decide +kernel
  omega

end TestInfra.Stats
