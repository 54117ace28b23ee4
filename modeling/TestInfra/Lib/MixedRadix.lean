import Mathlib.Algebra.BigOperators.Group.List.Basic
import Mathlib.Algebra.Order.Ring.Int
import Mathlib.Data.List.Forall2
import Mathlib.Data.List.Nodup
import Mathlib.Data.Int.Lemmas

set_option autoImplicit false

/-! # Numbers in mixed radix

`digits radices n` takes `n` apart by remainders and quotients, the first radix first. It repeats with the product of
the radices, and on the numbers below it each combination of digits comes up once. -/

namespace MixedRadix

/-- The digits of a number, the lowest first. -/
def digits : List ℕ → ℤ → List ℕ
  | [], _ => []
  | r :: radices, n => (n % r).toNat :: digits radices (n / r)

/-- The number with these digits. -/
def number : List ℕ → List ℕ → ℕ
  | r :: radices, d :: ds => d + r * number radices ds
  | _, _ => 0

theorem digits_lt {radices : List ℕ} (h : ∀ r ∈ radices, 0 < r) (n : ℤ) :
    List.Forall₂ (· < ·) (digits radices n) radices := by
  induction radices generalizing n with
  | nil => exact .nil
  | cons r radices ih =>
      rw [List.forall_mem_cons] at h
      have hlt := Int.emod_lt_of_pos n (Int.natCast_pos.2 h.1)
      exact .cons (by omega) (ih h.2 (n / r))

theorem number_lt {radices ds : List ℕ} (h : List.Forall₂ (· < ·) ds radices) : number radices ds < radices.prod := by
  induction h with
  | nil => exact Nat.one_pos
  | @cons d r ds radices hd _ ih =>
      rw [number, List.prod_cons]
      calc d + r * number radices ds < r + r * number radices ds := Nat.add_lt_add_right hd _
        _ = r * (number radices ds + 1) := by rw [Nat.mul_add, Nat.mul_one, Nat.add_comm]
        _ ≤ r * radices.prod := Nat.mul_le_mul_left r ih

theorem digits_number {radices ds : List ℕ} (h : List.Forall₂ (· < ·) ds radices) :
    digits radices (number radices ds) = ds := by
  induction h with
  | nil => rfl
  | @cons d r ds radices hd _ ih =>
      have hpos : 0 < r := Nat.zero_lt_of_lt hd
      have hmod : (d + r * number radices ds) % r = d := by rw [Nat.add_mul_mod_self_left, Nat.mod_eq_of_lt hd]
      have hdiv : (d + r * number radices ds) / r = number radices ds := by
        rw [Nat.add_mul_div_left _ _ hpos, Nat.div_eq_of_lt hd, Nat.zero_add]
      rw [number, digits, ← Int.natCast_mod, ← Int.natCast_div, hmod, hdiv, Int.toNat_natCast, ih]

theorem number_digits {radices : List ℕ} (h : ∀ r ∈ radices, 0 < r) {n : ℕ} (hn : n < radices.prod) :
    number radices (digits radices n) = n := by
  induction radices generalizing n with
  | nil => exact (Nat.lt_one_iff.1 hn).symm
  | cons r radices ih =>
      rw [List.forall_mem_cons] at h
      rw [List.prod_cons] at hn
      rw [digits, number, ← Int.natCast_mod, ← Int.natCast_div, Int.toNat_natCast, ih h.2 (Nat.div_lt_of_lt_mul hn)]
      exact Nat.mod_add_div n r

theorem emod_mul_ediv (n : ℤ) {r : ℕ} (hr : 0 < r) (p : ℕ) : n % ((r * p : ℕ) : ℤ) / r = n / r % p := by
  have hr' : (r : ℤ) ≠ 0 := by omega
  have hquot : n / ((r * p : ℕ) : ℤ) = n / r / p := by rw [Nat.cast_mul, Int.ediv_ediv_of_nonneg (Int.natCast_nonneg r)]
  rw [Int.emod_def, Int.emod_def, hquot, Nat.cast_mul, Int.mul_assoc, Int.sub_eq_add_neg, ← Int.mul_neg,
    Int.add_mul_ediv_left _ _ hr', Int.sub_eq_add_neg]

/-- The digits repeat with the product of the radices. -/
theorem digits_emod {radices : List ℕ} (h : ∀ r ∈ radices, 0 < r) (n : ℤ) :
    digits radices (n % radices.prod) = digits radices n := by
  induction radices generalizing n with
  | nil => rfl
  | cons r radices ih =>
      rw [List.forall_mem_cons] at h
      have hmod : n % ((r :: radices).prod : ℕ) % r = n % r := by
        rw [List.prod_cons]
        exact Int.emod_emod_of_dvd n ⟨radices.prod, Nat.cast_mul ..⟩
      have hdiv : n % ((r :: radices).prod : ℕ) / r = n / r % (radices.prod : ℕ) := by
        rw [List.prod_cons]
        exact emod_mul_ediv n h.1 radices.prod
      rw [digits, digits, hmod, hdiv, ih h.2]

/-- The combinations of digits, in the order of the numbers. -/
def combinations (radices : List ℕ) : List (List ℕ) := (List.range radices.prod).map fun n : ℕ => digits radices n

theorem nodup_combinations {radices : List ℕ} (h : ∀ r ∈ radices, 0 < r) : (combinations radices).Nodup := by
  refine List.Nodup.map_on ?_ List.nodup_range
  intro m hm n hn heq
  rw [← number_digits h (List.mem_range.1 hm), ← number_digits h (List.mem_range.1 hn), heq]

/-- **Each combination once**: the digits of the numbers below the product are all there are. -/
theorem mem_combinations_iff {radices : List ℕ} (h : ∀ r ∈ radices, 0 < r) {ds : List ℕ} :
    ds ∈ combinations radices ↔ List.Forall₂ (· < ·) ds radices := by
  rw [combinations, List.mem_map]
  constructor
  · rintro ⟨n, -, rfl⟩
    exact digits_lt h n
  · intro hds
    exact ⟨number radices ds, List.mem_range.2 (number_lt hds), digits_number hds⟩

end MixedRadix
