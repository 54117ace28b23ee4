import TestInfra.Lib.Fuel
import Mathlib.Algebra.BigOperators.Group.List.Defs
import Mathlib.Data.List.Infix

set_option autoImplicit false

/-! # Splitting at a word

`text.split(sep)` for a separator of several characters: the text is cut at the occurrences of the separator from the
left that do not overlap. Where the next cut is depends on where the separator occurs first, so the rules below are
about words that do not occur: `Free`.

A word occurs in `a ++ b` if it does in one of them, or if it begins in `a` and ends in `b`. -/

namespace SplitText

variable {α : Type*}

/-! ## Words that do not occur -/

/-- The word does not occur in the text. -/
def Free (word text : List α) : Prop := ¬ word <:+: text

instance [DecidableEq α] (word text : List α) : Decidable (Free word text) := inferInstanceAs (Decidable (¬ _))

variable {word text a b : List α}

theorem Free.of_part (h : Free word text) {part : List α} (hpart : part <:+: text) : Free word part :=
  fun hword => h (hword.trans hpart)

theorem Free.left (h : Free word (a ++ b)) : Free word a := h.of_part ⟨[], b, rfl⟩

theorem Free.right (h : Free word (a ++ b)) : Free word b := h.of_part ⟨a, [], by rw [List.append_nil]⟩

/-- A word is in one of two texts, or begins in the first one and ends in the second one. -/
theorem infix_append_iff : word <:+: a ++ b ↔
    word <:+: a ∨ word <:+: b ∨ ∃ u v, u ≠ [] ∧ v ≠ [] ∧ word = u ++ v ∧ u <:+ a ∧ v <+: b := by
  constructor
  · rintro ⟨before, after, h⟩
    rw [List.append_assoc] at h
    rcases List.append_eq_append_iff.1 h with ⟨rest, rfl, hrest⟩ | ⟨rest, rfl, rfl⟩
    · rcases List.append_eq_append_iff.1 hrest with ⟨tail, rfl, rfl⟩ | ⟨tail, rfl, rfl⟩
      · exact .inl ⟨before, tail, by rw [List.append_assoc]⟩
      · rcases eq_or_ne rest [] with rfl | hu
        · exact .inr (.inl ⟨[], after, by simp⟩)
        · rcases eq_or_ne tail [] with rfl | hv
          · exact .inl ⟨before, [], by simp⟩
          · exact .inr (.inr ⟨rest, tail, hu, hv, rfl, List.suffix_append .., List.prefix_append ..⟩)
    · exact .inr (.inl ⟨rest, after, by rw [List.append_assoc]⟩)
  · rintro (⟨before, after, rfl⟩ | ⟨before, after, rfl⟩ | ⟨u, v, -, -, rfl, ⟨before, rfl⟩, ⟨after, rfl⟩⟩)
    · exact ⟨before, after ++ b, by simp⟩
    · exact ⟨a ++ before, after, by simp⟩
    · exact ⟨before, after, by simp⟩

/-- The word begins before the character and ends behind it. -/
def Crosses (word : List α) (c : α) (a b : List α) : Prop := ∃ u v, word = u ++ c :: v ∧ u <:+ a ∧ v <+: b

theorem infix_append_cons_iff {c : α} : word <:+: a ++ c :: b ↔ word <:+: a ∨ word <:+: b ∨ Crosses word c a b := by
  constructor
  · rintro ⟨before, after, h⟩
    rw [List.append_assoc] at h
    rcases List.append_eq_append_iff.1 h with ⟨rest, rfl, hrest⟩ | ⟨rest, rfl, hrest⟩
    · rcases List.append_eq_append_iff.1 hrest with ⟨tail, rfl, htail⟩ | ⟨tail, rfl, htail⟩
      · exact .inl ⟨before, tail, by rw [List.append_assoc]⟩
      · rcases tail with _ | ⟨d, tail⟩
        · exact .inl ⟨before, [], by simp⟩
        · rw [List.cons_append, List.cons.injEq] at htail
          obtain ⟨rfl, rfl⟩ := htail
          exact .inr (.inr ⟨rest, tail, rfl, List.suffix_append .., List.prefix_append ..⟩)
    · rcases rest with _ | ⟨d, rest⟩
      · rcases word with _ | ⟨d, word⟩
        · exact .inl (List.nil_infix)
        · rw [List.nil_append, List.cons_append, List.cons.injEq] at hrest
          obtain ⟨rfl, rfl⟩ := hrest
          exact .inr (.inr ⟨[], word, rfl, List.nil_suffix, List.prefix_append ..⟩)
      · rw [List.cons_append, List.cons.injEq] at hrest
        obtain ⟨rfl, rfl⟩ := hrest
        exact .inr (.inl ⟨rest, after, by rw [List.append_assoc]⟩)
  · rintro (⟨before, after, rfl⟩ | ⟨before, after, rfl⟩ | ⟨u, v, rfl, ⟨before, rfl⟩, ⟨after, rfl⟩⟩)
    · exact ⟨before, after ++ c :: b, by simp⟩
    · exact ⟨a ++ c :: before, after, by simp⟩
    · exact ⟨before, after, by simp⟩

theorem free_append_cons_iff {c : α} :
    Free word (a ++ c :: b) ↔ Free word a ∧ Free word b ∧ ¬ Crosses word c a b := by
  unfold Free
  rw [infix_append_cons_iff, not_or, not_or]

/-! ## The first occurrence -/

variable [DecidableEq α] {sep : List α}

theorem dropInfix?_of_first (hsep : sep ≠ []) (h : Free sep (a ++ sep.dropLast)) (b : List α) :
    (a ++ sep ++ b).dropInfix? sep = some (a, b) := by
  rw [List.dropInfix?_eq_some_iff]
  refine ⟨⟨sep, rfl, beq_self_eq_true sep⟩, fun before word after heq hword => ?_⟩
  obtain rfl : word = sep := eq_of_beq hword
  by_contra hlt
  -- an earlier occurrence ends before the last character of this one
  have hlong : word.dropLast ++ [word.getLast hsep] = word := List.dropLast_append_getLast hsep
  have hhere : a ++ word.dropLast <+: a ++ word ++ b :=
    ⟨[word.getLast hsep] ++ b, by rw [← List.append_assoc, List.append_assoc a, hlong]⟩
  have hthere : before ++ word <+: a ++ word ++ b := ⟨after, heq.symm⟩
  have hpos : 0 < word.length := List.length_pos_of_ne_nil hsep
  have hle : (before ++ word).length ≤ (a ++ word.dropLast).length := by
    rw [List.length_append, List.length_append, List.length_dropLast]
    omega
  have hearlier := List.prefix_of_prefix_length_le hthere hhere hle
  exact h (List.infix_append_right.trans hearlier.isInfix)

/-- Where the separator occurs, there is a first occurrence. -/
theorem exists_first (hsep : sep ≠ []) (h : ¬ Free sep text) :
    ∃ a b, text = a ++ sep ++ b ∧ Free sep (a ++ sep.dropLast) := by
  obtain ⟨before, after, rfl⟩ := not_not.1 h
  induction hn : before.length using Nat.strongRecOn generalizing before after with
  | _ n ih =>
      subst hn
      by_cases hfree : Free sep (before ++ sep.dropLast)
      · exact ⟨before, after, rfl, hfree⟩
      · obtain ⟨start, rest, hstart⟩ := not_not.1 hfree
        have hpos : 0 < sep.length := List.length_pos_of_ne_nil hsep
        have hshort : start.length < before.length := by
          have hlength := congrArg List.length hstart
          rw [List.length_append, List.length_append, List.length_append, List.length_dropLast] at hlength
          omega
        have hlong : sep.dropLast ++ [sep.getLast hsep] = sep := List.dropLast_append_getLast hsep
        have htext : before ++ sep ++ after = start ++ sep ++ (rest ++ [sep.getLast hsep] ++ after) :=
          calc before ++ sep ++ after = before ++ sep.dropLast ++ [sep.getLast hsep] ++ after := by
                rw [List.append_assoc before sep.dropLast, hlong]
            _ = start ++ sep ++ (rest ++ [sep.getLast hsep] ++ after) := by
                rw [← hstart]
                simp only [List.append_assoc]
        rw [htext]
        exact ih start.length hshort start _ (by rw [← htext]; exact h) rfl

theorem dropInfix?_of_free (h : Free sep text) : text.dropInfix? sep = none := by
  cases hdrop : text.dropInfix? sep with
  | none => rfl
  | some found =>
      obtain ⟨⟨word, heq, hword⟩, -⟩ := List.dropInfix?_eq_some_iff.1 hdrop
      obtain rfl : word = sep := eq_of_beq hword
      exact absurd ⟨found.1, found.2, heq.symm⟩ h

/-! ## Splitting -/

/-- `text.split(sep, most)`. -/
def splitMost (sep : List α) : ℕ → List α → List (List α)
  | 0, text => [text]
  | most + 1, text =>
      match text.dropInfix? sep with
      | none => [text]
      | some (before, after) => before :: splitMost sep most after

/-- `text.split(sep)`, for a separator that is not empty. -/
def split (sep text : List α) : List (List α) := splitMost sep text.length text

theorem split_of_free (h : Free sep text) : split sep text = [text] := by
  unfold split
  cases text.length with
  | zero => rfl
  | succ most => rw [splitMost, dropInfix?_of_free h]

theorem splitMost_eq_split (hsep : sep ≠ []) {most : ℕ} (hmost : text.length ≤ most) :
    splitMost sep most text = split sep text := by
  refine Fuel.eq_length (f := splitMost sep) ?_ ?_ hmost
  · intro most
    cases most with
    | zero => rfl
    | succ most =>
        have hnone : ([] : List α).dropInfix? sep = none := dropInfix?_of_free fun h => hsep (List.infix_nil.1 h)
        simp only [splitMost, hnone]
  · intro n m text ih
    rw [splitMost, splitMost]
    cases hdrop : text.dropInfix? sep with
    | none => rfl
    | some found =>
        obtain ⟨⟨word, heq, hword⟩, -⟩ := List.dropInfix?_eq_some_iff.1 hdrop
        obtain rfl : word = sep := eq_of_beq hword
        have hpos : 0 < word.length := List.length_pos_of_ne_nil hsep
        refine congrArg _ (ih found.2 ?_)
        rw [heq, List.length_append, List.length_append]
        omega

/-- The first piece ends at the first occurrence. -/
theorem split_append (hsep : sep ≠ []) (h : Free sep (a ++ sep.dropLast)) (b : List α) :
    split sep (a ++ sep ++ b) = a :: split sep b := by
  have hpos : 0 < sep.length := List.length_pos_of_ne_nil hsep
  obtain ⟨most, hmost⟩ : ∃ most, (a ++ sep ++ b).length = most + 1 :=
    ⟨a.length + sep.length + b.length - 1, by rw [List.length_append, List.length_append]; omega⟩
  rw [split, hmost, splitMost, dropInfix?_of_first hsep h]
  refine congrArg _ (splitMost_eq_split hsep ?_)
  rw [List.length_append, List.length_append] at hmost
  omega

/-- **The rule for splits**: a text without the separator, or what is before its first occurrence and the rest. -/
theorem split_induct {motive : List α → List (List α) → Prop} (hsep : sep ≠ [])
    (whole : ∀ text, Free sep text → motive text [text])
    (cut : ∀ a b, Free sep (a ++ sep.dropLast) → motive b (split sep b) → motive (a ++ sep ++ b) (a :: split sep b))
    (text : List α) : motive text (split sep text) := by
  induction hn : text.length using Nat.strongRecOn generalizing text with
  | _ n ih =>
      subst hn
      by_cases hfree : Free sep text
      · rw [split_of_free hfree]
        exact whole text hfree
      · obtain ⟨a, b, rfl, hfirst⟩ := exists_first hsep hfree
        have hpos : 0 < sep.length := List.length_pos_of_ne_nil hsep
        rw [split_append hsep hfirst]
        refine cut a b hfirst (ih b.length ?_ b rfl)
        rw [List.length_append, List.length_append]
        omega

theorem split_ne_nil (hsep : sep ≠ []) (text : List α) : split sep text ≠ [] :=
  split_induct (motive := fun _ pieces => pieces ≠ []) hsep (fun _ _ => List.cons_ne_nil _ _)
    (fun _ _ _ _ => List.cons_ne_nil _ _) text

/-- `sep.join(text.split(sep))`. -/
theorem intercalate_split (hsep : sep ≠ []) (text : List α) : List.intercalate sep (split sep text) = text := by
  refine split_induct (motive := fun text pieces => List.intercalate sep pieces = text) hsep ?_ ?_ text
  · exact fun text _ => List.intercalate_singleton
  · intro a b _ ih
    obtain ⟨first, others, hpieces⟩ := List.exists_cons_of_ne_nil (split_ne_nil hsep b)
    rw [hpieces] at ih ⊢
    rw [List.intercalate_cons_cons, ih]

/-- No piece holds the separator. -/
theorem free_of_mem_split (hsep : sep ≠ []) (text : List α) : ∀ piece ∈ split sep text, Free sep piece := by
  refine split_induct (motive := fun _ pieces => ∀ piece ∈ pieces, Free sep piece) hsep ?_ ?_ text
  · intro text hfree piece hpiece
    rwa [List.mem_singleton.1 hpiece]
  · intro a b hfirst ih piece hpiece
    rcases List.mem_cons.1 hpiece with rfl | hpiece
    · exact hfirst.left
    · exact ih piece hpiece

/-- The pieces are parts of the text. -/
theorem infix_of_mem_split (hsep : sep ≠ []) (text : List α) : ∀ piece ∈ split sep text, piece <:+: text := by
  refine split_induct (motive := fun text pieces => ∀ piece ∈ pieces, piece <:+: text) hsep ?_ ?_ text
  · intro text _ piece hpiece
    rw [List.mem_singleton.1 hpiece]
  · intro a b _ ih piece hpiece
    rcases List.mem_cons.1 hpiece with rfl | hpiece
    · exact ⟨[], sep ++ b, by simp⟩
    · exact (ih piece hpiece).trans (List.suffix_append ..).isInfix

end SplitText
