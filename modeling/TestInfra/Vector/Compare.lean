import Mathlib.Algebra.BigOperators.Group.List.Lemmas
import Mathlib.Data.List.Count
import Mathlib.Data.Rat.Lemmas
import Mathlib.Tactic.FieldSimp
import Mathlib.Tactic.Linarith
import Mathlib.Tactic.Positivity

set_option autoImplicit false

/-! # Recall and accuracy of a vector search

`UtilVector.compare_result` (`lib/vector/vector.py`) compares the ids a search returned with those it should have
returned: the recall is how many of them are expected at all, out of all that are expected, and the accuracy how many
of these are near the place where they are expected.

Every entry of the actual list is counted, so an id that it repeats counts again (`compareResult_right_iff`). -/

namespace TestInfra.UtilVector

variable {α : Type*} [DecidableEq α]

def pctAccuracy : ℕ := 5

/-- `expected[max(0, idx-pct_accuracy):idx+pct_accuracy+1]`. -/
def window (expected : List α) (idx : ℕ) : List α := (expected.take (idx + pctAccuracy + 1)).drop (idx - pctAccuracy)

structure Counts where
  recallCount : ℕ
  accuracyCount : ℕ
deriving DecidableEq, Repr

/-- The body of the loop. -/
def countVector (expected : List α) (counts : Counts) (entry : α × ℕ) : Counts :=
  if entry.1 ∈ window expected entry.2 then ⟨counts.recallCount + 1, counts.accuracyCount + 1⟩
  else if entry.1 ∈ expected then ⟨counts.recallCount + 1, counts.accuracyCount⟩
  else counts

def countVectors (actual expected : List α) : Counts := actual.zipIdx.foldl (countVector expected) ⟨0, 0⟩

/-- `compare_vector`, with exact quotients; `none` is a division by zero. -/
def compareVector (actual expected : List α) : Option (ℚ × ℚ) :=
  let counts := countVectors actual expected
  if expected.length = 0 ∨ counts.recallCount = 0 then none
  else some (counts.recallCount / expected.length * 100, counts.accuracyCount / counts.recallCount * 100)

/-- `compare_result`. -/
def compareResult (expected actual : List α) : Option (ℚ × ℚ) :=
  if expected = actual then some (100, 100) else compareVector actual expected

/-- The percentage of the expected ids that occur in the actual list. -/
def percentage (expected actual : List α) : ℚ := expected.countP (· ∈ actual) / expected.length * 100

/-- The comparison returns, both numbers are percentages, and the first is that of the expected ids that occur. -/
def Right (expected actual : List α) : Prop :=
  ∃ pctRecall pctAccurate, compareResult expected actual = some (pctRecall, pctAccurate) ∧
    (0 ≤ pctRecall ∧ pctRecall ≤ 100) ∧ (0 ≤ pctAccurate ∧ pctAccurate ≤ 100) ∧
    pctRecall = percentage expected actual

/-- The ids the lists share, each once. -/
def shared (expected actual : List α) : List α := expected.dedup.filter (· ∈ actual)

/-- The lists are the same; or they share ids, which take as many places in the one list as in the other. -/
def Balanced (expected actual : List α) : Prop :=
  expected = actual ∨ shared expected actual ≠ [] ∧
    ((shared expected actual).map fun id => actual.count id).sum
      = ((shared expected actual).map fun id => expected.count id).sum

instance (expected actual : List α) : Decidable (Balanced expected actual) :=
  inferInstanceAs (Decidable (_ ∨ _ ∧ _))

/-! ## The counters -/

omit [DecidableEq α] in
theorem mem_of_mem_window {expected : List α} {idx : ℕ} {id : α} (h : id ∈ window expected idx) : id ∈ expected :=
  List.mem_of_mem_take (List.mem_of_mem_drop h)

/-- What the loop adds: every entry that is expected, of which some are near their place. -/
theorem foldl_countVector (expected : List α) (entries : List (α × ℕ)) (counts : Counts) :
    (entries.foldl (countVector expected) counts).recallCount
        = counts.recallCount + entries.countP (·.1 ∈ expected) ∧
      (entries.foldl (countVector expected) counts).accuracyCount
        = counts.accuracyCount + entries.countP fun entry => entry.1 ∈ window expected entry.2 := by
  induction entries generalizing counts with
  | nil => exact ⟨rfl, rfl⟩
  | cons entry entries ih =>
      obtain ⟨hrecall, haccuracy⟩ := ih (countVector expected counts entry)
      rw [List.foldl_cons, List.countP_cons, List.countP_cons, hrecall, haccuracy]
      unfold countVector
      by_cases hwindow : entry.1 ∈ window expected entry.2
      · have hmem := mem_of_mem_window hwindow
        simp only [hwindow, hmem, if_true, decide_true]
        omega
      · by_cases hmem : entry.1 ∈ expected
        · simp only [hwindow, hmem, if_true, if_false, decide_true, decide_false, Bool.false_eq_true]
          omega
        · simp only [hwindow, hmem, if_false, decide_false, Bool.false_eq_true]
          omega

theorem recallCount_eq (actual expected : List α) :
    (countVectors actual expected).recallCount = actual.countP (· ∈ expected) := by
  have hfst : actual.countP (· ∈ expected) = actual.zipIdx.countP (·.1 ∈ expected) := by
    conv_lhs => rw [← List.zipIdx_map_fst 0 actual, List.countP_map]
    rfl
  rw [countVectors, (foldl_countVector expected _ _).1, hfst, Nat.zero_add]

theorem accuracyCount_le (actual expected : List α) :
    (countVectors actual expected).accuracyCount ≤ (countVectors actual expected).recallCount := by
  obtain ⟨hrecall, haccuracy⟩ := foldl_countVector expected actual.zipIdx ⟨0, 0⟩
  rw [countVectors, hrecall, haccuracy]
  refine Nat.add_le_add_left (List.countP_mono_left fun entry _ h => ?_) 0
  rw [decide_eq_true_iff] at h ⊢
  exact mem_of_mem_window h

/-! ## Places of shared ids -/

theorem mem_shared_iff {expected actual : List α} {id : α} :
    id ∈ shared expected actual ↔ id ∈ expected ∧ id ∈ actual := by
  rw [shared, List.mem_filter, List.mem_dedup, decide_eq_true_iff]

theorem shared_perm (expected actual : List α) : (shared expected actual).Perm (shared actual expected) := by
  refine (List.perm_ext_iff_of_nodup ((List.nodup_dedup _).filter _) ((List.nodup_dedup _).filter _)).2 fun id => ?_
  rw [← shared, ← shared, mem_shared_iff, mem_shared_iff]
  exact and_comm

/-- The entries of a list that the other one has, by their ids. -/
theorem countP_eq_sum (expected actual : List α) :
    expected.countP (· ∈ actual) = ((shared expected actual).map fun id => expected.count id).sum :=
  (List.sum_map_count_dedup_filter_eq_countP (fun id => decide (id ∈ actual)) expected).symm

theorem countP_eq_sum' (expected actual : List α) :
    actual.countP (· ∈ expected) = ((shared expected actual).map fun id => actual.count id).sum := by
  rw [countP_eq_sum]
  exact ((shared_perm actual expected).map _).sum_eq

theorem countP_eq_zero_iff (expected actual : List α) :
    actual.countP (· ∈ expected) = 0 ↔ shared expected actual = [] := by
  rw [List.countP_eq_zero, List.eq_nil_iff_forall_not_mem]
  simp only [mem_shared_iff, decide_eq_true_iff, not_and]
  exact ⟨fun h id hexpected hactual => h id hactual hexpected, fun h id hactual hexpected => h id hexpected hactual⟩

/-! ## The comparison -/

theorem percentage_self {expected : List α} (h : expected ≠ []) : percentage expected expected = 100 := by
  have hlength : (expected.length : ℚ) ≠ 0 := Nat.cast_ne_zero.2 fun hzero => h (List.length_eq_zero_iff.1 hzero)
  have hall : expected.countP (· ∈ expected) = expected.length :=
    List.countP_eq_length.2 fun id hid => decide_eq_true hid
  rw [percentage, hall, div_self hlength, one_mul]

theorem part_le_hundred {part whole : ℕ} (hwhole : 0 < whole) (h : part ≤ whole) :
    (part / whole * 100 : ℚ) ≤ 100 := by
  have hpos : (0 : ℚ) < whole := Nat.cast_pos.2 hwhole
  have hone : (part / whole : ℚ) ≤ 1 := (div_le_one hpos).2 (Nat.cast_le.2 h)
  linarith

/-- Quotients by the same length are the same percentage only for the same numerator. -/
theorem part_injective {a b whole : ℕ} (hwhole : 0 < whole) (h : (a / whole * 100 : ℚ) = b / whole * 100) : a = b := by
  have hne : (whole : ℚ) ≠ 0 := Nat.cast_ne_zero.2 (Nat.ne_of_gt hwhole)
  have hdiv : (a / whole : ℚ) = b / whole := mul_right_cancel₀ (by norm_num) h
  exact Nat.cast_injective ((div_left_inj' hne).1 hdiv)

/-- **When the comparison is right**: for any expected ids and actual ones, it returns two percentages of which the
    first is that of the expected ids that occur exactly if the lists are balanced. -/
theorem compareResult_right_iff {expected : List α} (hne : expected ≠ []) (actual : List α) :
    Right expected actual ↔ Balanced expected actual := by
  by_cases heq : expected = actual
  · subst heq
    refine iff_of_true ⟨100, 100, if_pos rfl, by norm_num, by norm_num, (percentage_self hne).symm⟩ (.inl rfl)
  have hlength : 0 < expected.length := List.length_pos_of_ne_nil hne
  unfold Right Balanced
  rw [compareResult, if_neg heq, compareVector, recallCount_eq, ← countP_eq_sum, ← countP_eq_sum', ne_eq,
    ← countP_eq_zero_iff]
  constructor
  · rintro ⟨pctRecall, pctAccurate, hsome, -, -, hrecall⟩
    split at hsome
    · cases hsome
    · next hzero =>
        rw [not_or] at hzero
        obtain ⟨rfl, -⟩ := Prod.mk.inj (Option.some.inj hsome)
        exact .inr ⟨hzero.2, part_injective hlength hrecall⟩
  · rintro (h | ⟨hzero, hsum⟩)
    · exact absurd h heq
    · have hle : actual.countP (· ∈ expected) ≤ expected.length := hsum ▸ List.countP_le_length
      have haccuracy := accuracyCount_le actual expected
      rw [recallCount_eq] at haccuracy
      rw [if_neg (not_or.2 ⟨Nat.ne_of_gt hlength, hzero⟩)]
      refine ⟨_, _, rfl, ⟨by positivity, part_le_hundred hlength hle⟩,
        ⟨by positivity, part_le_hundred (Nat.pos_of_ne_zero hzero) haccuracy⟩, ?_⟩
      rw [percentage, hsum]

theorem compareResult_right_sample : Right [1, 2, 3, 4] [4, 9, 1] :=
  (compareResult_right_iff (by decide) [4, 9, 1]).2 (by decide)

/-- Nothing in common is a division by zero, and an id that is returned twice makes 200 per cent. -/
theorem compareResult_wrong : ¬ Right [1] [2] ∧ ¬ Right [1] [1, 1] := by
  have hdisjoint : compareResult [1] [2] = none := by decide
  have htwice : compareResult [1] [1, 1] = some (200, 100) := by decide +kernel
  constructor
  · rintro ⟨pctRecall, pctAccurate, hsome, -⟩
    rw [hdisjoint] at hsome
    cases hsome
  · rintro ⟨pctRecall, pctAccurate, hsome, ⟨-, hle⟩, -⟩
    rw [htwice] at hsome
    obtain ⟨rfl, -⟩ := Prod.mk.inj (Option.some.inj hsome)
    norm_num at hle

end TestInfra.UtilVector
