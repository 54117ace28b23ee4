import Mathlib.Data.List.Basic
import Mathlib.Algebra.Order.Ring.Nat
import Mathlib.Tactic.Ring
import Mathlib.Tactic.Linarith

set_option autoImplicit false

/-! # Mutation indexes and keys

`LoadThread` (`lib/load_runner.py`) numbers its sets and computes the key of a set from its number, so that of
every `create + nocreate` sets the first `create` ones bring keys that are never the first to be set again
later: block `q` of the indexes has the keys from `q * create` on (`getMutationKey_eq_iff`).

`get_mutation_indexes` goes the other way: it scans for the indexes of a key around a guess, one by one up to the
first and then in steps of `nocreate`. `max_getMutationIndexes`: the last of them is always found. -/

namespace TestInfra.LoadRunner

/-- The two numbers the keys are computed with; both positive. -/
structure Rates where
  create : ℕ
  nocreate : ℕ
  create_pos : 0 < create
  nocreate_pos : 0 < nocreate

namespace Rates

/-- `get_mutation_key(index)`. -/
def getMutationKey (r : Rates) (index : ℕ) : ℕ := index - r.nocreate * (index / (r.create + r.nocreate))

/-- The loop of `get_mutation_indexes`; a turn goes on by at least one, so as many turns as there are indexes up to
    `indexMax` are enough. -/
def scan (r : Rates) (mutationIndex key indexMax : ℕ) : ℕ → ℕ → ℕ → List ℕ
  | 0, _, _ => []
  | fuel + 1, index, incr =>
      if index ≤ indexMax then
        if index ≤ mutationIndex ∧ r.getMutationKey index = key then
          -- from the first index on, in steps of `nocreate`
          index :: scan r mutationIndex key indexMax fuel (index + r.nocreate) r.nocreate
        else scan r mutationIndex key indexMax fuel (index + incr) incr
      else []

/-- `get_mutation_indexes(key)`. -/
def getMutationIndexes (r : Rates) (mutationIndex key : ℕ) : List ℕ :=
  let s := key * (r.nocreate + r.create) / r.create
  let indexMax := s + r.nocreate * r.nocreate
  scan r mutationIndex key indexMax (indexMax + 1) (s - r.nocreate * r.nocreate) 1

/-! ## The indexes of a key -/

variable (r : Rates)

/-- The key of an index, by its block. -/
theorem getMutationKey_block {q offset : ℕ} (h : offset < r.create + r.nocreate) :
    r.getMutationKey (q * (r.create + r.nocreate) + offset) = q * r.create + offset := by
  have hpos : 0 < r.create + r.nocreate := Nat.add_pos_left r.create_pos _
  have hdiv : (q * (r.create + r.nocreate) + offset) / (r.create + r.nocreate) = q := by
    rw [Nat.add_comm, Nat.add_mul_div_right _ _ hpos, Nat.div_eq_of_lt h, Nat.zero_add]
  rw [getMutationKey, hdiv, Nat.mul_add, Nat.mul_comm r.nocreate]
  omega

/-- Index `key + q * nocreate` for every block `q` that has the key. -/
theorem getMutationKey_eq_iff (index key : ℕ) :
    r.getMutationKey index = key ↔
      ∃ q, index = key + q * r.nocreate ∧ q * r.create ≤ key ∧ key < q * r.create + (r.create + r.nocreate) := by
  have hpos : 0 < r.create + r.nocreate := Nat.add_pos_left r.create_pos _
  constructor
  · rintro rfl
    have hoffset := Nat.mod_lt index hpos
    have hindex : index / (r.create + r.nocreate) * (r.create + r.nocreate) + index % (r.create + r.nocreate)
        = index := Nat.div_add_mod' index _
    have hkey := r.getMutationKey_block (q := index / (r.create + r.nocreate)) hoffset
    rw [hindex] at hkey
    refine ⟨index / (r.create + r.nocreate), ?_, ?_, ?_⟩
    · rw [hkey]
      rw [Nat.mul_add] at hindex
      omega
    · omega
    · omega
  · rintro ⟨q, rfl, hlow, hhigh⟩
    obtain ⟨offset, rfl⟩ := Nat.exists_eq_add_of_le hlow
    have hoffset : offset < r.create + r.nocreate := by omega
    have hblock := r.getMutationKey_block (q := q) hoffset
    have hindex : q * r.create + offset + q * r.nocreate = q * (r.create + r.nocreate) + offset := by ring
    rw [hindex]
    exact hblock

/-- Only index 0 has key 0. -/
theorem getMutationKey_pos_iff (index : ℕ) : 0 < r.getMutationKey index ↔ 0 < index := by
  obtain ⟨q, hindex, hlow, hhigh⟩ := (r.getMutationKey_eq_iff index _).1 rfl
  refine ⟨fun h => by omega, fun h => Nat.pos_of_ne_zero fun hzero => ?_⟩
  rw [hzero, Nat.le_zero, Nat.mul_eq_zero] at hlow
  rcases hlow with rfl | hcreate
  · omega
  · exact absurd hcreate (Nat.ne_of_gt r.create_pos)

/-- Every key below the current one has been set before. -/
theorem exists_index_of_lt {index key : ℕ} (h : key < r.getMutationKey index) :
    ∃ i, i < index ∧ r.getMutationKey i = key := by
  have hpos : 0 < r.create + r.nocreate := Nat.add_pos_left r.create_pos _
  obtain ⟨q, hindex, hlow, hhigh⟩ := (r.getMutationKey_eq_iff index _).1 rfl
  by_cases hblock : q * r.create ≤ key
  · refine ⟨key + q * r.nocreate, by omega, (r.getMutationKey_eq_iff _ _).2 ⟨q, rfl, hblock, by omega⟩⟩
  · have hq : key / r.create < q := Nat.div_lt_of_lt_mul (by rw [Nat.mul_comm]; omega)
    have hstart := Nat.div_mul_le_self key r.create
    have hrest := Nat.lt_div_mul_add r.create_pos (a := key)
    refine ⟨key + key / r.create * r.nocreate, ?_, (r.getMutationKey_eq_iff _ _).2 ⟨_, rfl, hstart, by omega⟩⟩
    have hless : key / r.create * r.nocreate ≤ q * r.nocreate := Nat.mul_le_mul_right _ (Nat.le_of_lt hq)
    omega

/-- Between two indexes of a key, every step of `nocreate` is one. -/
theorem getMutationKey_between {key index t : ℕ} (hfirst : r.getMutationKey index = key)
    (hlast : r.getMutationKey (index + t * r.nocreate) = key) {j : ℕ} (hj : j ≤ t) :
    r.getMutationKey (index + j * r.nocreate) = key := by
  obtain ⟨q₀, hq₀, -, hhigh⟩ := (r.getMutationKey_eq_iff _ _).1 hfirst
  obtain ⟨q₁, hq₁, hlow, -⟩ := (r.getMutationKey_eq_iff _ _).1 hlast
  have hsteps : q₁ = q₀ + t := by
    have hmul : q₁ * r.nocreate = (q₀ + t) * r.nocreate := by
      rw [Nat.add_mul]
      omega
    exact Nat.eq_of_mul_eq_mul_right r.nocreate_pos hmul
  refine (r.getMutationKey_eq_iff _ _).2 ⟨q₀ + j, by rw [Nat.add_mul]; omega, ?_, ?_⟩
  · refine Nat.le_trans (Nat.mul_le_mul_right _ ?_) hlow
    omega
  · have hmore : q₀ * r.create ≤ (q₀ + j) * r.create := Nat.mul_le_mul_right _ (Nat.le_add_right _ _)
    omega

/-- The scan starts before the indexes of the key and ends behind them. -/
theorem index_mem_window {index key : ℕ} (h : r.getMutationKey index = key) :
    key * (r.nocreate + r.create) / r.create - r.nocreate * r.nocreate ≤ index ∧
      index ≤ key * (r.nocreate + r.create) / r.create + r.nocreate * r.nocreate := by
  obtain ⟨q, rfl, hlow, hhigh⟩ := (r.getMutationKey_eq_iff _ _).1 h
  have hguess : key * (r.nocreate + r.create) / r.create = key + key * r.nocreate / r.create := by
    rw [Nat.mul_add, Nat.add_comm, Nat.mul_comm key r.create, Nat.add_comm, Nat.add_mul_div_left _ _ r.create_pos,
      Nat.add_comm]
  have hc := r.create_pos
  have hn := r.nocreate_pos
  rw [hguess]
  -- the block of the index is at most `nocreate` away from the one the guess is based on
  refine ⟨?_, ?_⟩
  · have hspan : r.create + r.nocreate ≤ r.create * r.nocreate + 1 := by nlinarith
    have hbound : key * r.nocreate ≤ r.create * (q * r.nocreate + r.nocreate * r.nocreate) := by
      have hkey : key ≤ q * r.create + r.create * r.nocreate := by omega
      calc key * r.nocreate ≤ (q * r.create + r.create * r.nocreate) * r.nocreate :=
            Nat.mul_le_mul_right _ hkey
        _ = r.create * (q * r.nocreate + r.nocreate * r.nocreate) := by ring
    have hdiv : key * r.nocreate / r.create ≤ q * r.nocreate + r.nocreate * r.nocreate :=
      Nat.div_le_of_le_mul hbound
    omega
  · have hsteps : q * r.nocreate ≤ key * r.nocreate / r.create := by
      rw [Nat.le_div_iff_mul_le hc]
      calc q * r.nocreate * r.create = q * r.create * r.nocreate := by ring
        _ ≤ key * r.nocreate := Nat.mul_le_mul_right _ hlow
    omega

/-- Two indexes of a key are steps of `nocreate` apart. -/
theorem exists_steps {key index last : ℕ} (hindex : r.getMutationKey index = key)
    (hlast : r.getMutationKey last = key) (hle : index ≤ last) : ∃ t, last = index + t * r.nocreate := by
  obtain ⟨q₀, rfl, -, -⟩ := (r.getMutationKey_eq_iff _ _).1 hindex
  obtain ⟨q₁, rfl, -, -⟩ := (r.getMutationKey_eq_iff _ _).1 hlast
  have hblocks : q₀ ≤ q₁ := Nat.le_of_mul_le_mul_right (by omega) r.nocreate_pos
  refine ⟨q₁ - q₀, ?_⟩
  rw [Nat.sub_mul]
  have := Nat.mul_le_mul_right r.nocreate hblocks
  omega

/-! ## The scan -/

variable {r} {mutationIndex key indexMax : ℕ}

/-- What the scan finds are indexes of the key, none above the current one. -/
theorem of_mem_scan {fuel index incr i : ℕ} (h : i ∈ r.scan mutationIndex key indexMax fuel index incr) :
    i ≤ mutationIndex ∧ r.getMutationKey i = key := by
  induction fuel generalizing index incr with
  | zero => exact absurd h List.not_mem_nil
  | succ fuel ih =>
      rw [scan] at h
      split at h
      · split at h
        · next hmatch =>
            rcases List.mem_cons.1 h with rfl | h
            · exact hmatch
            · exact ih h
        · exact ih h
      · exact absurd h List.not_mem_nil

/-- From an index of the key on, the steps of `nocreate` meet every later one. -/
theorem mem_scan_of_steps {fuel index incr t : ℕ} (hindex : r.getMutationKey index = key)
    (hlast : r.getMutationKey (index + t * r.nocreate) = key) (hle : index + t * r.nocreate ≤ mutationIndex)
    (hmax : index + t * r.nocreate ≤ indexMax) (hfuel : t < fuel) :
    index + t * r.nocreate ∈ r.scan mutationIndex key indexMax fuel index incr := by
  induction t generalizing fuel index incr with
  | zero =>
      obtain ⟨fuel, rfl⟩ := Nat.exists_eq_succ_of_ne_zero (Nat.ne_of_gt hfuel)
      rw [Nat.zero_mul, Nat.add_zero] at *
      rw [scan, if_pos hmax, if_pos ⟨hle, hindex⟩]
      exact List.mem_cons_self
  | succ t ih =>
      obtain ⟨fuel, rfl⟩ := Nat.exists_eq_succ_of_ne_zero (Nat.ne_of_gt (Nat.zero_lt_of_lt hfuel))
      have hstep : index + (t + 1) * r.nocreate = index + r.nocreate + t * r.nocreate := by ring
      have hnext : r.getMutationKey (index + r.nocreate) = key := by
        have hone := r.getMutationKey_between hindex hlast (j := 1) (by omega)
        rwa [Nat.one_mul] at hone
      rw [scan, if_pos (by omega), if_pos ⟨by omega, hindex⟩]
      rw [hstep] at hlast hle hmax ⊢
      exact List.mem_cons_of_mem _ (ih hnext hlast hle hmax (by omega))

/-- Starting one by one, the scan meets every index of the key in the window. -/
theorem mem_scan {fuel index last : ℕ} (hlast : r.getMutationKey last = key) (hle : last ≤ mutationIndex)
    (hmax : last ≤ indexMax) (hindex : index ≤ last) (hfuel : last < index + fuel) :
    last ∈ r.scan mutationIndex key indexMax fuel index 1 := by
  induction fuel generalizing index with
  | zero => omega
  | succ fuel ih =>
      by_cases hkey : r.getMutationKey index = key
      · obtain ⟨t, rfl⟩ := r.exists_steps hkey hlast hindex
        have ht : t ≤ t * r.nocreate := Nat.le_mul_of_pos_right t r.nocreate_pos
        exact mem_scan_of_steps hkey hlast hle hmax (by omega)
      · have hne : index ≠ last := fun h => hkey (h ▸ hlast)
        rw [scan, if_pos (by omega), if_neg fun h => hkey h.2]
        exact ih (by omega) (by omega)

/-- **The indexes that are found** are those of the key, up to the current one. -/
theorem mem_getMutationIndexes_iff (i : ℕ) :
    i ∈ r.getMutationIndexes mutationIndex key ↔ i ≤ mutationIndex ∧ r.getMutationKey i = key := by
  refine ⟨of_mem_scan, ?_⟩
  rintro ⟨hle, hkey⟩
  obtain ⟨hstart, hend⟩ := r.index_mem_window hkey
  exact mem_scan hkey hle hend hstart (by omega)

/-- The last index of a key below the current one: it is before the current one, has been used for that key, and
    no later one has. -/
theorem max_getMutationIndexes (h : key < r.getMutationKey mutationIndex) :
    ∃ last, (r.getMutationIndexes mutationIndex key).max? = some last ∧ last < mutationIndex ∧
      r.getMutationKey last = key ∧ ∀ i, i < mutationIndex → r.getMutationKey i = key → i ≤ last := by
  obtain ⟨i, hi, hkey⟩ := r.exists_index_of_lt h
  have hne : r.getMutationIndexes mutationIndex key ≠ [] :=
    List.ne_nil_of_mem (mem_getMutationIndexes_iff i |>.2 ⟨Nat.le_of_lt hi, hkey⟩)
  obtain ⟨last, hlast⟩ := Option.isSome_iff_exists.1 (List.isSome_max?_of_ne_nil hne)
  obtain ⟨hmem, hall⟩ := List.max?_eq_some_iff.1 hlast
  obtain ⟨hle, hlastKey⟩ := (mem_getMutationIndexes_iff last).1 hmem
  have hcurrent : last ≠ mutationIndex := by
    rintro rfl
    omega
  refine ⟨last, hlast, by omega, hlastKey, ?_⟩
  intro j hj hjkey
  exact hall j ((mem_getMutationIndexes_iff j).2 ⟨Nat.le_of_lt hj, hjkey⟩)

end Rates

end TestInfra.LoadRunner
