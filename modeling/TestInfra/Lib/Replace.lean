import TestInfra.Lib.PyText
import TestInfra.Lib.SplitText
import Mathlib.Data.List.Infix

set_option autoImplicit false

/-! # Replacing a word

`text.replace(old, new)` goes through the text and writes the new word for each occurrence of the old one that does not
overlap the one before. -/

namespace PyText

variable {old new new' text : Text}

/-- A text without the old word stays. -/
theorem replaceMost_of_not_infix (h : ¬ old <:+: text) (n : ℕ) : replaceMost old new n text = text := by
  induction n generalizing text with
  | zero => rfl
  | succ n ih =>
      rcases text with _ | ⟨c, rest⟩
      · rfl
      have hhere : ¬ old.isPrefixOf (c :: rest) := fun hprefix => h (List.isPrefixOf_iff_prefix.1 hprefix).isInfix
      rw [replaceMost, if_neg hhere, ih fun hrest => h (List.infix_cons hrest)]

theorem replace_of_absent (h : ¬ old <:+: text) : replace old new text = text := replaceMost_of_not_infix h _

/-- New words that are as long make texts that are as long. -/
theorem length_replaceMost (h : new.length = new'.length) (n : ℕ) (text : Text) :
    (replaceMost old new n text).length = (replaceMost old new' n text).length := by
  induction n generalizing text with
  | zero => rfl
  | succ n ih =>
      rcases text with _ | ⟨c, rest⟩
      · rfl
      rw [replaceMost, replaceMost]
      split
      · rw [List.length_append, List.length_append, h, ih]
      · rw [List.length_cons, List.length_cons, ih]

theorem length_replace (h : new.length = new'.length) (text : Text) :
    (replace old new text).length = (replace old new' text).length := length_replaceMost h text.length text

/-- The first occurrence of the old word shows the new one. -/
theorem eq_of_replaceMost_eq (hold : old ≠ []) (h : new.length = new'.length) {n : ℕ} (hn : text.length ≤ n)
    (hocc : old <:+: text) (heq : replaceMost old new n text = replaceMost old new' n text) : new = new' := by
  induction n generalizing text with
  | zero =>
      rw [List.eq_nil_of_length_eq_zero (Nat.le_zero.1 hn), List.infix_nil] at hocc
      exact absurd hocc hold
  | succ n ih =>
      rcases text with _ | ⟨c, rest⟩
      · exact absurd (List.infix_nil.1 hocc) hold
      rw [replaceMost, replaceMost] at heq
      by_cases hprefix : old.isPrefixOf (c :: rest)
      · rw [if_pos hprefix, if_pos hprefix] at heq
        exact (List.append_inj heq h).1
      · rw [if_neg hprefix, if_neg hprefix, List.cons.injEq] at heq
        rcases List.infix_cons_iff.1 hocc with hhere | hrest
        · exact absurd (List.isPrefixOf_iff_prefix.2 hhere) hprefix
        · exact ih (Nat.succ_le_succ_iff.1 hn) hrest heq.2

theorem eq_of_replace_eq (hold : old ≠ []) (h : new.length = new'.length) (hocc : old <:+: text)
    (heq : replace old new text = replace old new' text) : new = new' :=
  eq_of_replaceMost_eq hold h le_rfl hocc heq

/-! ## Replacing as splitting -/

theorem replaceMost_eq_replace (hold : old ≠ []) {n : ℕ} (hn : text.length ≤ n) :
    replaceMost old new n text = replace old new text := by
  have hpos : 0 < old.length := List.length_pos_of_ne_nil hold
  refine Fuel.eq_length (f := replaceMost old new) ?_ ?_ hn
  · intro n
    cases n <;> rfl
  · intro n m text ih
    rcases text with _ | ⟨c, rest⟩
    · rfl
    rw [replaceMost, replaceMost, ih rest (Nat.lt_succ_self _), ih ((c :: rest).drop old.length) ?_]
    rw [List.length_drop, List.length_cons]
    omega

theorem replace_cons (hold : old ≠ []) (c : Char) (rest : Text) : replace old new (c :: rest) =
    if old.isPrefixOf (c :: rest) then new ++ replace old new ((c :: rest).drop old.length)
    else c :: replace old new rest := by
  have hpos : 0 < old.length := List.length_pos_of_ne_nil hold
  have hdrop : ((c :: rest).drop old.length).length ≤ rest.length := by
    rw [List.length_drop, List.length_cons]
    omega
  rw [replace, List.length_cons, replaceMost, replaceMost_eq_replace hold hdrop, replaceMost_eq_replace hold le_rfl]

/-- The first occurrence is replaced, and then the rest. -/
theorem replace_append (hold : old ≠ []) {a : Text} (h : SplitText.Free old (a ++ old.dropLast)) (b : Text) :
    replace old new (a ++ old ++ b) = a ++ new ++ replace old new b := by
  induction a with
  | nil =>
      obtain ⟨c, word, rfl⟩ := List.exists_cons_of_ne_nil hold
      have hhere : (c :: word).isPrefixOf (c :: (word ++ b)) :=
        List.isPrefixOf_iff_prefix.2 (List.prefix_append (c :: word) b)
      have hrest : (c :: (word ++ b)).drop (c :: word).length = b := List.drop_left' rfl
      rw [List.nil_append, List.nil_append, List.cons_append, replace_cons hold, if_pos hhere, hrest]
  | cons c a ih =>
      have hlong : old.dropLast ++ [old.getLast hold] = old := List.dropLast_append_getLast hold
      have hnot : ¬ old.isPrefixOf (c :: (a ++ old ++ b)) := by
        rw [List.isPrefixOf_iff_prefix]
        intro hprefix
        have hstart : c :: a ++ old.dropLast <+: c :: (a ++ old ++ b) :=
          ⟨[old.getLast hold] ++ b, by rw [← List.append_assoc, List.append_assoc (c :: a), hlong]; simp⟩
        have hle : old.length ≤ (c :: a ++ old.dropLast).length := by
          rw [List.length_append, List.length_dropLast, List.length_cons]
          omega
        exact h (List.prefix_of_prefix_length_le hprefix hstart hle).isInfix
      have hrest := ih (h.of_part (List.infix_cons (List.infix_refl _)))
      rw [List.cons_append, List.cons_append, replace_cons hold, if_neg hnot, hrest]
      simp

/-- **`text.replace(old, new)` is `new.join(text.split(old))`.** -/
theorem replace_eq_intercalate (hold : old ≠ []) (new text : Text) :
    replace old new text = List.intercalate new (SplitText.split old text) := by
  refine SplitText.split_induct (motive := fun text pieces => replace old new text = List.intercalate new pieces) hold
    ?_ ?_ text
  · intro text hfree
    rw [replace_of_absent hfree, List.intercalate_singleton]
  · intro a b hfirst ih
    obtain ⟨first, others, hpieces⟩ := List.exists_cons_of_ne_nil (SplitText.split_ne_nil hold b)
    rw [replace_append hold hfirst, ih, hpieces, List.intercalate_cons_cons, List.append_assoc]

end PyText
