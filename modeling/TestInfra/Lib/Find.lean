import Mathlib.Data.List.Range

set_option autoImplicit false

/-! # Looking for a word from a position on

`text.find(sub, start)` is the first position from `start` on at which the word occurs. The occurrences that do not
overlap are found by going on behind the last one. -/

namespace Find

variable {α : Type*}

/-- The word occurs at the position. -/
def OccursAt (sub text : List α) (p : ℕ) : Prop := sub <+: text.drop p

variable {sub text : List α} {p q start : ℕ}

theorem occursAt_cons_iff {a : α} : OccursAt (a :: sub) text p ↔ text[p]? = some a ∧ OccursAt sub text (p + 1) := by
  rw [OccursAt, OccursAt]
  by_cases hp : p < text.length
  · rw [List.drop_eq_getElem_cons hp, List.cons_prefix_cons, List.getElem?_eq_getElem hp, Option.some_inj,
      eq_comm]
  · rw [List.drop_eq_nil_of_le (by omega), List.getElem?_eq_none (by omega), List.prefix_nil]
    exact iff_of_false (List.cons_ne_nil _ _) fun h => Option.some_ne_none a h.1.symm

theorem OccursAt.lt_length (h : OccursAt sub text p) (hsub : sub ≠ []) : p < text.length := by
  by_contra hp
  rw [OccursAt, List.drop_eq_nil_of_le (by omega), List.prefix_nil] at h
  exact hsub h

variable [DecidableEq α]

instance : Decidable (OccursAt sub text p) := decidable_of_iff _ List.isPrefixOf_iff_prefix

/-- `text.find(sub, start)`; `none` is `-1`. -/
def find (sub text : List α) (start : ℕ) : Option ℕ :=
  (List.range' start (text.length - start)).find? fun p => sub.isPrefixOf (text.drop p)

theorem find_eq_some_iff (hsub : sub ≠ []) : find sub text start = some p ↔
    start ≤ p ∧ OccursAt sub text p ∧ ∀ q, start ≤ q → q < p → ¬ OccursAt sub text q := by
  rw [find, List.find?_range'_eq_some, List.isPrefixOf_iff_prefix, List.mem_range'_1]
  simp only [Bool.not_eq_true', Bool.eq_false_iff, ne_eq, List.isPrefixOf_iff_prefix]
  constructor
  · rintro ⟨hp, ⟨hstart, -⟩, hfirst⟩
    exact ⟨hstart, hp, hfirst⟩
  · rintro ⟨hstart, hp, hfirst⟩
    have hlt := hp.lt_length hsub
    exact ⟨hp, ⟨hstart, by omega⟩, hfirst⟩

theorem find_eq_none_iff (hsub : sub ≠ []) :
    find sub text start = none ↔ ∀ q, start ≤ q → ¬ OccursAt sub text q := by
  rw [find, List.find?_eq_none]
  refine forall_congr' fun q => ?_
  rw [List.mem_range'_1, List.isPrefixOf_iff_prefix]
  constructor
  · intro h hstart hq
    have hlt := hq.lt_length hsub
    exact h ⟨hstart, by omega⟩ hq
  · rintro h ⟨hstart, -⟩
    exact h hstart

/-- The occurrences from `start` on that do not overlap, at most so many. -/
def findAll (sub text : List α) : ℕ → ℕ → List ℕ
  | 0, _ => []
  | fuel + 1, start =>
      match find sub text start with
      | none => []
      | some p => p :: findAll sub text fuel (p + sub.length)

/-! ## First positions -/

omit [DecidableEq α]

/-- The first position with a property as a number, `-1` when there is none. -/
def IsFirst (P : ℕ → Prop) (result : ℤ) : Prop :=
  (∃ p : ℕ, result = p ∧ P p ∧ ∀ q < p, ¬ P q) ∨ result = -1 ∧ ∀ q, ¬ P q

/-- The first position with one property is the first one with a stronger property if the stronger one is seen up to
    each position with the weaker one. -/
theorem IsFirst.iff_of_imp {P Q : ℕ → Prop} {result : ℤ} (h : IsFirst P result) (himp : ∀ p, Q p → P p) :
    IsFirst Q result ↔ ∀ p, P p → ∃ q ≤ p, Q q := by
  rcases h with ⟨p, rfl, hp, hfirst⟩ | ⟨rfl, hnone⟩
  · have hbefore : ∀ q < p, ¬ Q q := fun q hq hQ => hfirst q hq (himp q hQ)
    constructor
    · intro hQ r hr
      rcases hQ with ⟨p', heq, hp', -⟩ | ⟨heq, -⟩
      · obtain rfl : p = p' := Int.ofNat_inj.1 heq
        exact ⟨p, not_lt.1 fun hlt => hfirst r hlt hr, hp'⟩
      · omega
    · intro hseen
      obtain ⟨q, hq, hQ⟩ := hseen p hp
      obtain rfl : q = p := le_antisymm hq (not_lt.1 fun hlt => hbefore q hlt hQ)
      exact .inl ⟨q, rfl, hQ, hbefore⟩
  · exact iff_of_true (.inr ⟨rfl, fun q hQ => hnone q (himp q hQ)⟩) fun p hp => absurd hp (hnone p)

end Find
