import TestInfra.Lib.Dict
import TestInfra.Lib.PyText
import TestInfra.Lib.Raises
import Mathlib.Algebra.Order.BigOperators.Group.Finset
import Mathlib.Data.Finset.Max
import Mathlib.Data.List.Sort
import Mathlib.Data.Rat.Floor

set_option autoImplicit false

/-! # Percentiles of latencies

`histo_percentile` (`lib/membase/performance/stats.py`) goes through the bins of a histogram in their order, with a
running total, and hands out to each bin the percentiles that are reached at it. `StatsCollector.export` writes five of
them for each histogram.

What is compared with a percentile is the integer quotient of the running total and the sum. It is zero before the last
bin, so that all percentiles are reached there. -/

namespace TestInfra.Stats

open Finset

variable {β : Type} [LinearOrder β]

/-! ## The loops -/

/-- `histo[bin]`, for a bin that is there. -/
def count (histo : Dict β ℤ) (bin : β) : ℤ := (histo.get? bin).getD 0

/-- `sorted(list(histo.keys()))`. -/
def bins (histo : Dict β ℤ) : List β := histo.keys.insertionSort (· ≤ ·)

/-- The inner loop: what it appends at a bin, and the percentiles that are left. -/
def popReached (quotient : ℤ) (bin : β) : List ℚ → List (ℚ × β) × List ℚ
  | [] => ([], [])
  | p :: percentiles =>
      if (quotient : ℚ) ≥ p then
        let (rv, left) := popReached quotient bin percentiles
        ((p, bin) :: rv, left)
      else ([], p :: percentiles)

/-- The loop over the bins, with the running total; `none` when it divides by zero. -/
def binLoop (histo : Dict β ℤ) (vSum : ℤ) : List β → ℤ → List ℚ → Option (List (ℚ × β))
  | [], _, _ => some []
  | _ :: _, _, [] => some []
  | bin :: bins, vCur, p :: percentiles =>
      let vCur := vCur + count histo bin
      if vSum = 0 then none
      else
        let (rv, left) := popReached ⌊(vCur : ℚ) / vSum⌋ bin (p :: percentiles)
        (binLoop histo vSum bins vCur left).map (rv ++ ·)

/-- `histo_percentile`. -/
def histoPercentile (histo : Dict β ℤ) (percentiles : List ℚ) : Option (List (ℚ × β)) :=
  binLoop histo ((bins histo).map (count histo)).sum (bins histo) 0 percentiles

/-- A histogram with its time, as `latency_stats` has it. -/
structure Snapshot where
  histo : Dict ℚ ℤ
  time : ℤ
  delta : ℚ

/-- An entry under `percentile-..`. -/
structure Row where
  percentiles : List ℚ
  clientId : PyText.Text
  time : ℤ
  delta : ℚ

/-- What `export` makes of a latency: the entry under `..-histogram`, the ones under `percentile-..` and
    `..-90th-avg`. -/
structure Exported where
  histogram : Option (Dict ℚ ℤ × ℤ × PyText.Text)
  rows : List Row
  average : Option ℤ

def exportPercentiles : List ℚ := [4 / 5, 9 / 10, 19 / 20, 99 / 100, 999 / 1000]

/-- One round of the loop over the histograms. -/
def exportRow (clientId : PyText.Text) (histo : Snapshot) : Option Row :=
  (histoPercentile histo.histo exportPercentiles).map fun p => ⟨p.map Prod.snd, clientId, histo.time, histo.delta⟩

/-- The loop of `export` over a latency; `none` when it raises, also for `temp[1]`. -/
def exportLatency (clientId : PyText.Text) (histos : List Snapshot) : Option Exported := do
  let rows ← histos.mapM (exportRow clientId)
  let per90th ← rows.mapM fun row : Row => row.percentiles[1]?
  some {
    histogram := histos.getLast?.map fun last => (last.histo, last.time, clientId)
    rows
    average := if per90th.sum = 0 then none else some (⌊per90th.sum / (histos.length : ℚ)⌋ * 1000000)
  }

/-- The loop of `export` over the latencies. -/
def exportLatencies (clientId : PyText.Text) (latency : Dict PyText.Text (List Snapshot)) :
    Option (List (PyText.Text × Exported)) :=
  latency.items.mapM fun item => (exportLatency clientId item.2).map fun exported => (item.1, exported)

/-! ## What a percentile is -/

/-- The sum of all counts. -/
def total (histo : Dict β ℤ) : ℤ := ∑ bin ∈ histo.keys.toFinset, count histo bin

/-- The running total at a bin. -/
def cumulative (histo : Dict β ℤ) (bin : β) : ℤ := ∑ b ∈ histo.keys.toFinset with b ≤ bin, count histo b

/-- The counts of all bins but the largest. -/
def belowLargest (histo : Dict β ℤ) : ℤ :=
  ∑ b ∈ histo.keys.toFinset with ∃ b' ∈ histo.keys.toFinset, b < b', count histo b

/-- The smallest bin at which the share of the running total reaches the percentile. -/
structure IsPercentile (histo : Dict β ℤ) (p : ℚ) (bin : β) : Prop where
  mem : bin ∈ histo.keys
  reached : p ≤ cumulative histo bin / total histo
  least : ∀ b ∈ histo.keys, b < bin → (cumulative histo b : ℚ) / total histo < p

/-- A histogram that is not empty, with positive counts. -/
structure Counted (histo : Dict β ℤ) : Prop where
  ne_nil : histo.keys ≠ []
  pos : ∀ bin ∈ histo.keys, 0 < count histo bin

variable {histo : Dict β ℤ}

theorem mem_bins {bin : β} : bin ∈ bins histo ↔ bin ∈ histo.keys := List.mem_insertionSort _

theorem pairwise_bins (histo : Dict β ℤ) : (bins histo).Pairwise (· < ·) := by
  have hsorted : (bins histo).Pairwise (· ≤ ·) := List.pairwise_insertionSort (· ≤ ·) histo.keys
  have hnodup : (bins histo).Nodup := (List.perm_insertionSort (· ≤ ·) histo.keys).nodup_iff.2 histo.nodup_keys
  exact hsorted.imp₂ (fun _ _ hle hne => lt_of_le_of_ne hle hne) hnodup

/-! ## What the loops return -/

omit [LinearOrder β] in
theorem popReached_zero (bin : β) {p : ℚ} (hp : 0 < p) (percentiles : List ℚ) :
    popReached 0 bin (p :: percentiles) = ([], p :: percentiles) := by
  rw [popReached, if_neg]
  exact not_le.2 (by rwa [Int.cast_zero])

omit [LinearOrder β] in
theorem popReached_one (bin : β) {percentiles : List ℚ} (h : ∀ p ∈ percentiles, p ≤ 1) :
    popReached 1 bin percentiles = (percentiles.map fun p => (p, bin), []) := by
  induction percentiles with
  | nil => rfl
  | cons p percentiles ih =>
      rw [List.forall_mem_cons] at h
      rw [popReached, if_pos (by rw [Int.cast_one]; exact h.1), ih h.2]
      rfl

/-- All percentiles are handed out at the last bin. -/
theorem binLoop_eq {vSum vCur : ℤ} {init : List β} {last : β} (hpos : ∀ bin ∈ init ++ [last], 0 < count histo bin)
    (hcur : 0 ≤ vCur) (hsum : vCur + ((init ++ [last]).map (count histo)).sum = vSum) {percentiles : List ℚ}
    (h : ∀ p ∈ percentiles, 0 < p ∧ p ≤ 1) :
    binLoop histo vSum (init ++ [last]) vCur percentiles = some (percentiles.map fun p => (p, last)) := by
  rcases percentiles with _ | ⟨p, percentiles⟩
  · rcases init with _ | ⟨bin, init⟩ <;> rfl
  induction init generalizing vCur with
  | nil =>
      have hlast := hpos last (List.mem_singleton_self last)
      rw [List.nil_append, List.map_singleton, List.sum_singleton] at hsum
      have hquotient : ⌊((vCur + count histo last : ℤ) : ℚ) / vSum⌋ = 1 := by
        rw [hsum, div_self (by norm_cast; omega), Int.floor_one]
      rw [List.nil_append, binLoop, if_neg (by omega), hquotient, popReached_one last fun p hp => (h p hp).2]
      simp only [binLoop, Option.map_some, List.append_nil]
  | cons bin init ih =>
      rw [List.cons_append, List.forall_mem_cons] at hpos
      rw [List.cons_append, List.map_cons, List.sum_cons] at hsum
      have hrest : 0 < ((init ++ [last]).map (count histo)).sum := by
        refine List.sum_pos _ (List.forall_mem_map.2 hpos.2) ?_
        exact mt List.map_eq_nil_iff.1 (List.append_ne_nil_of_right_ne_nil _ (List.cons_ne_nil _ _))
      have hbin := hpos.1
      have hquotient : ⌊((vCur + count histo bin : ℤ) : ℚ) / vSum⌋ = 0 := by
        have hsumPos : (0 : ℚ) < vSum := by norm_cast; omega
        rw [Int.floor_eq_zero_iff, Set.mem_Ico, div_lt_one hsumPos]
        refine ⟨div_nonneg ?_ hsumPos.le, ?_⟩
        · norm_cast
          omega
        · norm_cast
          omega
      have hleft := @ih (vCur + count histo bin) hpos.2 (by omega) (by omega)
      rw [List.cons_append, binLoop, if_neg (by omega), hquotient, popReached_zero bin (h p List.mem_cons_self).1]
      simp only [hleft, Option.map_some, List.nil_append]

/-! ## The largest bin -/

/-- The running totals before the largest bin stay below a bound if that of all bins but the largest does. -/
theorem cumulative_lt_iff {last : β} (hmem : last ∈ histo.keys) (hlast : ∀ b ∈ histo.keys, b ≤ last)
    (hpos : ∀ bin ∈ histo.keys, 0 < count histo bin) {x : ℤ → Prop} (hzero : x 0)
    (hmono : ∀ m n, m ≤ n → x n → x m) :
    (∀ b ∈ histo.keys, b < last → x (cumulative histo b)) ↔ x (belowLargest histo) := by
  have hsmaller : ∀ b, b ∈ histo.keys.toFinset.filter (fun b => ∃ b' ∈ histo.keys.toFinset, b < b')
      ↔ b ∈ histo.keys ∧ b < last := by
    intro b
    rw [mem_filter, List.mem_toFinset]
    refine and_congr_right fun _ => ⟨?_, fun hlt => ⟨last, List.mem_toFinset.2 hmem, hlt⟩⟩
    rintro ⟨b', hb', hlt⟩
    exact lt_of_lt_of_le hlt (hlast b' (List.mem_toFinset.1 hb'))
  constructor
  · intro h
    rw [belowLargest]
    rcases (histo.keys.toFinset.filter fun b => ∃ b' ∈ histo.keys.toFinset, b < b').eq_empty_or_nonempty with
      hempty | hne
    · rw [hempty, sum_empty]
      exact hzero
    · -- the largest of the others has all of them up to it
      obtain ⟨b, hb, hmax⟩ := exists_max_image _ id hne
      obtain ⟨hkey, hlt⟩ := (hsmaller b).1 hb
      have hsame : histo.keys.toFinset.filter (fun b => ∃ b' ∈ histo.keys.toFinset, b < b')
          = histo.keys.toFinset.filter (· ≤ b) := by
        refine Finset.ext fun c => ?_
        rw [hsmaller, mem_filter, List.mem_toFinset]
        refine and_congr_right fun hc => ⟨fun hclt => hmax c ((hsmaller c).2 ⟨hc, hclt⟩), fun hle => ?_⟩
        exact lt_of_le_of_lt hle hlt
      rw [hsame]
      exact h b hkey hlt
  · intro h b _ hlt
    refine hmono _ _ (sum_le_sum_of_subset_of_nonneg ?_ ?_) h
    · intro c hc
      rw [mem_filter, List.mem_toFinset] at hc
      exact (hsmaller c).2 ⟨hc.1, lt_of_le_of_lt hc.2 hlt⟩
    · intro c hc _
      exact (hpos c ((hsmaller c).1 hc).1).le

theorem total_pos (h : Counted histo) : 0 < total histo :=
  sum_pos (fun bin hbin => h.pos bin (List.mem_toFinset.1 hbin)) ((List.toFinset_nonempty_iff _).2 h.ne_nil)

/-- What the code returns. -/
theorem exists_last (h : Counted histo) : ∃ last ∈ histo.keys, (∀ b ∈ histo.keys, b ≤ last) ∧
    ∀ percentiles : List ℚ, (∀ p ∈ percentiles, 0 < p ∧ p ≤ 1) →
      histoPercentile histo percentiles = some (percentiles.map fun p => (p, last)) := by
  have hbins : bins histo ≠ [] := by
    intro hnil
    obtain ⟨bin, hbin⟩ := List.exists_mem_of_ne_nil _ h.ne_nil
    rw [← mem_bins, hnil] at hbin
    exact List.not_mem_nil hbin
  obtain ⟨init, last, hlast⟩ := (List.eq_nil_or_concat (bins histo)).resolve_left hbins
  rw [List.concat_eq_append] at hlast
  have hsorted := pairwise_bins histo
  rw [hlast, List.pairwise_append] at hsorted
  refine ⟨last, mem_bins.1 (by rw [hlast]; simp), fun b hb => ?_, fun percentiles hp => ?_⟩
  · rw [← mem_bins, hlast, List.mem_append, List.mem_singleton] at hb
    rcases hb with hb | rfl
    · exact (hsorted.2.2 b hb last (List.mem_singleton_self last)).le
    · exact le_rfl
  · rw [histoPercentile, hlast]
    refine binLoop_eq (fun bin hbin => h.pos bin (mem_bins.1 (hlast ▸ hbin))) le_rfl (zero_add _) hp

/-- The largest bin is the percentile if the share of the others does not reach it. -/
theorem isPercentile_largest_iff (h : Counted histo) {last : β} (hmem : last ∈ histo.keys)
    (hlast : ∀ b ∈ histo.keys, b ≤ last) {p : ℚ} (hp : 0 < p ∧ p ≤ 1) :
    IsPercentile histo p last ↔ (belowLargest histo : ℚ) / total histo < p := by
  have hpos : (0 : ℚ) < total histo := Int.cast_pos.2 (total_pos h)
  have hall : cumulative histo last = total histo := by
    rw [cumulative, filter_true_of_mem fun b hb => hlast b (List.mem_toFinset.1 hb), total]
  have hless := cumulative_lt_iff hmem hlast h.pos (x := fun m => (m : ℚ) / total histo < p)
    (by rw [Int.cast_zero, zero_div]; exact hp.1)
    (fun m n hle hn => lt_of_le_of_lt (div_le_div_of_nonneg_right (Int.cast_le.2 hle) hpos.le) hn)
  rw [← hless]
  refine ⟨fun hlast => hlast.least, fun hleast => ⟨hmem, ?_, hleast⟩⟩
  rw [hall, div_self hpos.ne']
  exact hp.2

theorem percentile_iff (h : Counted histo) {percentiles : List ℚ} (hp : ∀ p ∈ percentiles, 0 < p ∧ p ≤ 1) :
    ∃ rv, histoPercentile histo percentiles = some rv ∧
      (List.Forall₂ (fun p pair => pair.1 = p ∧ IsPercentile histo p pair.2) percentiles rv
        ↔ ∀ p ∈ percentiles, (belowLargest histo : ℚ) / total histo < p) := by
  obtain ⟨last, hmem, hlast, hresult⟩ := exists_last h
  refine ⟨_, hresult percentiles hp, ?_⟩
  rw [List.forall₂_map_right_iff, List.forall₂_same]
  refine forall₂_congr fun p hin => ?_
  rw [isPercentile_largest_iff h hmem hlast (hp p hin)]
  exact and_iff_right rfl

/-! ## The export -/

/-- What a row says of its histogram: its 90th percentile is one if the samples below the largest bin are fewer than
    nine of ten, and only then. -/
def Reports (snapshot : Snapshot) (row : Row) : Prop :=
  ∃ bin, row.percentiles[1]? = some bin ∧
    (IsPercentile snapshot.histo (9 / 10) bin
      ↔ (belowLargest snapshot.histo : ℚ) / total snapshot.histo < 9 / 10)

theorem exportRow_reports (clientId : PyText.Text) {snapshot : Snapshot} (h : Counted snapshot.histo) :
    ∃ row, exportRow clientId snapshot = some row ∧ Reports snapshot row := by
  obtain ⟨last, hmem, hlast, hresult⟩ := exists_last h
  have hp : ∀ p ∈ exportPercentiles, (0 : ℚ) < p ∧ p ≤ 1 := by
    rw [exportPercentiles]
    norm_num
  refine ⟨_, by rw [exportRow, hresult _ hp]; rfl, last, rfl, ?_⟩
  exact isPercentile_largest_iff h hmem hlast (by norm_num)

theorem exportLatency_reports (clientId : PyText.Text) {histos : List Snapshot}
    (h : ∀ snapshot ∈ histos, Counted snapshot.histo) :
    ∃ exported, exportLatency clientId histos = some exported ∧ List.Forall₂ Reports histos exported.rows := by
  obtain ⟨rows, hrows, hreports⟩ := Raises.exists_mapM fun snapshot hin => exportRow_reports clientId (h snapshot hin)
  have hsecond : ∀ row ∈ rows, ∃ bin, row.percentiles[1]? = some bin ∧ True := by
    have hboth : List.Forall₂ (fun row snapshot => (∃ bin, row.percentiles[1]? = some bin ∧ True) ∧
        Reports snapshot row) rows histos :=
      List.Forall₂.flip (hreports.imp fun _ _ hrow => ⟨⟨_, hrow.choose_spec.1, trivial⟩, hrow⟩)
    exact ((List.forall₂_and_left _ _).1 hboth).1
  obtain ⟨per90th, hper90th, -⟩ := Raises.exists_mapM hsecond
  have hexported : exportLatency clientId histos = some {
      histogram := histos.getLast?.map fun last => (last.histo, last.time, clientId)
      rows
      average := if per90th.sum = 0 then none else some (⌊per90th.sum / (histos.length : ℚ)⌋ * 1000000) } := by
    rw [exportLatency, hrows, Option.bind_eq_bind, Option.bind_some, hper90th]
    rfl
  exact ⟨_, hexported, hreports⟩

/-- **Percentiles**: a histogram that is not empty, with positive counts, gets a bin for each percentile, in order. They
    are the smallest bins at which the share of the running total reaches the percentiles if each percentile is above
    the share of the samples below the largest bin, and only then. In the rows of `export` the 90th percentile is one
    if fewer than nine of ten samples are below the largest bin, and only then. -/
theorem histoPercentile_isPercentile_iff :
    (∀ histo : Dict β ℤ, Counted histo → ∀ percentiles : List ℚ, (∀ p ∈ percentiles, 0 < p ∧ p ≤ 1) →
      ∃ rv, histoPercentile histo percentiles = some rv ∧
        (List.Forall₂ (fun p pair => pair.1 = p ∧ IsPercentile histo p pair.2) percentiles rv
          ↔ ∀ p ∈ percentiles, (belowLargest histo : ℚ) / total histo < p)) ∧
    ∀ clientId (latency : Dict PyText.Text (List Snapshot)),
      (∀ item ∈ latency.items, ∀ snapshot ∈ item.2, Counted snapshot.histo) →
      ∃ exported, exportLatencies clientId latency = some exported ∧
        List.Forall₂ (fun item entry => entry.1 = item.1 ∧ List.Forall₂ Reports item.2 entry.2.rows) latency.items
          exported := by
  refine ⟨fun histo h percentiles hp => percentile_iff h hp, fun clientId latency h => Raises.exists_mapM ?_⟩
  intro item hin
  obtain ⟨exported, hexported, hreports⟩ := exportLatency_reports clientId (h item hin)
  exact ⟨_, by rw [hexported]; rfl, rfl, hreports⟩

/-- Nine samples in the first bin, and one in the second. -/
def nineOfTen : Dict ℕ ℤ := (Dict.empty.set 1 9).set 2 1

theorem counted_nineOfTen : Counted nineOfTen := ⟨by decide, by decide⟩

theorem histoPercentile_top : ∃ rv, histoPercentile nineOfTen [19 / 20] = some rv ∧
    List.Forall₂ (fun p pair => pair.1 = p ∧ IsPercentile nineOfTen p pair.2) [19 / 20] rv := by
  obtain ⟨rv, hrv, hiff⟩ := histoPercentile_isPercentile_iff.1 nineOfTen counted_nineOfTen [19 / 20] (by norm_num)
  refine ⟨rv, hrv, hiff.2 ?_⟩
  have hbelow : belowLargest nineOfTen = 9 := by decide
  have htotal : total nineOfTen = 10 := by decide
  rw [hbelow, htotal]
  norm_num

/-- The median is in the first bin, and the code returns the second one. -/
theorem histoPercentile_median : ¬ ∀ (histo : Dict ℕ ℤ) (percentiles : List ℚ), Counted histo →
    percentiles.Pairwise (· ≤ ·) → (∀ p ∈ percentiles, 0 < p ∧ p ≤ 1) → ∃ rv,
      histoPercentile histo percentiles = some rv ∧
      List.Forall₂ (fun p pair => pair.1 = p ∧ IsPercentile histo p pair.2) percentiles rv := by
  intro h
  obtain ⟨rv, hrv, hall⟩ := h nineOfTen [1 / 2] counted_nineOfTen (List.pairwise_singleton _ _) (by norm_num)
  have hresult : histoPercentile nineOfTen [1 / 2] = some [(1 / 2, 2)] := by decide +kernel
  obtain rfl : [(1 / 2, 2)] = rv := Option.some_inj.1 (hresult.symm.trans hrv)
  have hleast := (List.forall₂_cons.1 hall).1.2.least 1 (by decide) (by decide)
  have hcumulative : cumulative nineOfTen 1 = 9 := by decide
  have htotal : total nineOfTen = 10 := by decide
  rw [hcumulative, htotal] at hleast
  norm_num at hleast

end TestInfra.Stats
