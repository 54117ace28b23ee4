import Mathlib.Data.List.Basic

set_option autoImplicit false

/-! # Recursion by fuel on a list

A function that calls itself on shorter lists, written with a counter of its calls: the length of the list is
enough of it, and more makes no difference. -/

namespace Fuel

/-- **The length is enough**, if the function reads only what the calls on shorter lists return. -/
theorem eq_length {α β : Type*} {f : ℕ → List α → β} (hnil : ∀ n, f n [] = f 0 [])
    (hstep : ∀ n m l, (∀ rest, rest.length < l.length → f n rest = f m rest) → f (n + 1) l = f (m + 1) l)
    {n : ℕ} {l : List α} (hn : l.length ≤ n) : f n l = f l.length l := by
  induction hlen : l.length using Nat.strongRecOn generalizing n l with
  | _ k ih =>
      rcases l with _ | ⟨a, l⟩
      · rw [hnil n, hnil k]
      rcases n with _ | n
      · exact absurd hn (Nat.not_succ_le_zero _)
      obtain ⟨m, rfl⟩ : ∃ m, k = m + 1 := ⟨l.length, hlen.symm⟩
      refine hstep n m (a :: l) ?_
      intro rest hrest
      rw [hlen] at hrest hn
      have hmost : f n rest = f rest.length rest := ih rest.length hrest (by omega) rfl
      have hleast : f m rest = f rest.length rest := ih rest.length hrest (by omega) rfl
      rw [hmost, hleast]

end Fuel
