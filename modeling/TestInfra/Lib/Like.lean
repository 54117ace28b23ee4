import TestInfra.Lib.PyText
import Mathlib.Data.List.Infix

set_option autoImplicit false

/-! # The patterns of `LIKE`

In a pattern `%` stands for any characters, `_` for any one of them, and a character after a backslash for itself. A
pattern without a backslash matches itself (`like_self`), and parts that match can be put together (`like_append`). -/

namespace Like

open PyText

/-- `text LIKE pattern`. -/
def like : Text → Text → Bool
  | [], text => text.isEmpty
  | '%' :: pattern, text => text.tails.any fun rest => like pattern rest
  | '\\' :: c :: pattern, text => text.head? = some c && like pattern text.tail
  | '_' :: pattern, text => !text.isEmpty && like pattern text.tail
  | c :: pattern, text => text.head? = some c && like pattern text.tail

/-- A character of a pattern that is not special stands for itself. -/
theorem like_cons {c : Char} (hpercent : c ≠ '%') (hbackslash : c ≠ '\\') (hunderscore : c ≠ '_')
    (pattern text : Text) : like (c :: pattern) text = (text.head? = some c && like pattern text.tail) := by
  rw [like]
  · exact fun h => hpercent h
  · exact fun _ _ h _ => hbackslash h
  · exact fun h => hunderscore h

theorem like_percent_iff {pattern text : Text} :
    like ('%' :: pattern) text = true ↔ ∃ rest, rest <:+ text ∧ like pattern rest = true := by
  simp only [like, List.any_eq_true, List.mem_tails]

theorem like_underscore_cons (pattern : Text) (c : Char) (text : Text) :
    like ('_' :: pattern) (c :: text) = like pattern text := by
  simp [like]

/-- Two texts, each with its pattern. -/
theorem like_append {pattern pattern' text text' : Text} (hplain : '\\' ∉ pattern) (h : like pattern text = true)
    (h' : like pattern' text' = true) : like (pattern ++ pattern') (text ++ text') = true := by
  induction pattern generalizing text with
  | nil =>
      obtain rfl : text = [] := by simpa [like] using h
      exact h'
  | cons c pattern ih =>
      rw [List.mem_cons, not_or] at hplain
      have hbackslash : c ≠ '\\' := Ne.symm hplain.1
      rw [List.cons_append]
      by_cases hpercent : c = '%'
      · subst hpercent
        obtain ⟨rest, hrest, hmatch⟩ := like_percent_iff.1 h
        refine like_percent_iff.2 ⟨rest ++ text', ?_, ih hplain.2 hmatch⟩
        obtain ⟨front, rfl⟩ := hrest
        exact ⟨front, (List.append_assoc _ _ _).symm⟩
      by_cases hunderscore : c = '_'
      · subst hunderscore
        rcases text with _ | ⟨d, text⟩
        · simp [like] at h
        · rw [like_underscore_cons] at h
          rw [List.cons_append, like_underscore_cons]
          exact ih hplain.2 h
      rw [like_cons hpercent hbackslash hunderscore] at h ⊢
      rcases text with _ | ⟨d, text⟩
      · simp at h
      · simp only [List.head?_cons, List.tail_cons, Bool.and_eq_true] at h
        simp only [List.cons_append, List.head?_cons, List.tail_cons, Bool.and_eq_true]
        exact ⟨h.1, ih hplain.2 h.2⟩

/-- A text without a backslash, as a pattern for itself: its `%` and `_` match what they are. -/
theorem like_self {text : Text} (hplain : '\\' ∉ text) : like text text = true := by
  induction text with
  | nil => rfl
  | cons c text ih =>
      rw [List.mem_cons, not_or] at hplain
      have hrest := ih hplain.2
      by_cases hpercent : c = '%'
      · subst hpercent
        exact like_percent_iff.2 ⟨text, List.suffix_cons _ _, hrest⟩
      by_cases hunderscore : c = '_'
      · subst hunderscore
        rw [like_underscore_cons, hrest]
      rw [like_cons hpercent (Ne.symm hplain.1) hunderscore, List.tail_cons, hrest]
      simp

end Like
