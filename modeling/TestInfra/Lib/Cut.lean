import TestInfra.Lib.SplitText
import Mathlib.Data.List.TakeWhile

set_option autoImplicit false

/-! # Cutting a text at a word

What stands before the first occurrence of a word, and what stands behind the last one. The rules are for words whose
first character is nowhere else in them: such a word does not begin in one text and end in the next one if the next
one starts with that character.

`upTo` and `past` cut at a character, `cutLast` at the last occurrence of a word. -/

namespace SplitText

variable {α : Type*} {word text a b : List α} {c : α}

/-! ## Words that do not occur -/

theorem Free.of_not_mem (hc : c ∈ word) (h : c ∉ text) : Free word text := fun hword => h (hword.subset hc)

theorem free_reverse_iff : Free word.reverse text.reverse ↔ Free word text := not_congr List.reverse_infix

/-- Two texts are put together where the second one starts like the word. -/
theorem Free.append_of_head (hc : c ∉ word) (ha : Free (c :: word) a) (hb : Free (c :: word) (c :: b)) :
    Free (c :: word) (a ++ c :: b) := by
  unfold Free
  rw [infix_append_iff]
  rintro (h | h | ⟨u, v, hu, hv, heq, -, hstart⟩)
  · exact ha h
  · exact hb h
  · obtain ⟨d, u, rfl⟩ := List.exists_cons_of_ne_nil hu
    obtain ⟨e, v, rfl⟩ := List.exists_cons_of_ne_nil hv
    obtain ⟨rfl, -⟩ := List.cons_prefix_cons.1 hstart
    rw [List.cons_append, List.cons.injEq] at heq
    exact hc (heq.2 ▸ List.mem_append_right u List.mem_cons_self)

/-- The character is not in the word. -/
theorem free_append_cons_iff_of_not_mem (hc : c ∉ word) : Free word (a ++ c :: b) ↔ Free word a ∧ Free word b := by
  rw [free_append_cons_iff]
  refine and_congr_right fun _ => and_iff_left ?_
  rintro ⟨u, v, rfl, -, -⟩
  exact hc (List.mem_append_right u List.mem_cons_self)

theorem disjoint_of_all [DecidableEq α] (h : b.all fun c => c ∉ word) : b.Disjoint word := by
  intro c hb hword
  have hc := List.all_eq_true.1 h c hb
  exact of_decide_eq_true hc hword

/-- No character of the second text is in the word. -/
theorem free_append_append_iff (hb : b ≠ []) (hdisjoint : b.Disjoint word) {d : List α} :
    Free word (a ++ b ++ d) ↔ Free word a ∧ Free word d := by
  induction b generalizing a with
  | nil => exact absurd rfl hb
  | cons c b ih =>
      rw [List.disjoint_cons_left] at hdisjoint
      rcases eq_or_ne b [] with rfl | hne
      · rw [List.append_assoc, List.singleton_append, free_append_cons_iff_of_not_mem hdisjoint.1]
      · have htext : a ++ c :: b ++ d = a ++ [c] ++ b ++ d := by simp
        have hend : Free word (a ++ [c]) ↔ Free word a ∧ Free word [] := free_append_cons_iff_of_not_mem hdisjoint.1
        rw [htext, ih hne hdisjoint.2, hend, and_assoc]
        refine and_congr_right fun ha => and_iff_right ?_
        exact ha.of_part List.nil_infix

/-- The last character of the word is not in the second text. -/
theorem Free.append_of_last (hword : word ≠ []) (ha : Free word a) (hlast : word.getLast hword ∉ b) :
    Free word (a ++ b) := by
  obtain ⟨word, c, rfl⟩ := (List.eq_nil_or_concat word).resolve_left hword
  have hc : c ∉ b := by
    simp only [List.concat_eq_append, List.getLast_concat] at hlast
    exact hlast
  rw [List.concat_eq_append] at *
  unfold Free
  rw [infix_append_iff]
  rintro (h | h | ⟨u, v, -, hv, heq, -, hstart⟩)
  · exact ha h
  · exact hc (h.subset (List.mem_append_right word List.mem_cons_self))
  · obtain ⟨v, d, rfl⟩ := (List.eq_nil_or_concat v).resolve_left hv
    rw [List.concat_eq_append, ← List.append_assoc] at heq
    obtain ⟨-, hcd⟩ := List.append_inj' heq rfl
    obtain rfl := List.singleton_inj.1 hcd
    exact hc (hstart.subset (by simp))

/-! ## The first and the last occurrence -/

variable [DecidableEq α]

/-- What stands before the first occurrence of the word. -/
def beforeFirst (word text : List α) : List α :=
  match text.dropInfix? word with
  | some (before, _) => before
  | none => text

/-- What stands behind the last occurrence of the word. -/
def behindLast (word text : List α) : List α := (beforeFirst word.reverse text.reverse).reverse

theorem beforeFirst_of_free (h : Free word text) : beforeFirst word text = text := by
  rw [beforeFirst, dropInfix?_of_free h]

theorem dropInfix?_append (hword : word ≠ []) (hhead : word.head hword ∉ word.tail) (ha : Free word a)
    (b : List α) : (a ++ word ++ b).dropInfix? word = some (a, b) := by
  obtain ⟨c, word, rfl⟩ := List.exists_cons_of_ne_nil hword
  have hc : c ∉ word := hhead
  refine dropInfix?_of_first hword ?_ b
  rcases word with _ | ⟨d, word⟩
  · rwa [List.dropLast_singleton, List.append_nil]
  · refine ha.append_of_head hc fun h => ?_
    have hle := h.length_le
    simp only [List.length_cons, List.length_dropLast] at hle
    omega

theorem beforeFirst_append (hword : word ≠ []) (hhead : word.head hword ∉ word.tail) (ha : Free word a)
    (b : List α) : beforeFirst word (a ++ word ++ b) = a := by
  rw [beforeFirst, dropInfix?_append hword hhead ha]

/-- The last occurrence is the first one from behind. -/
theorem dropInfix?_reverse_append (hword : word ≠ []) (hlast : word.getLast hword ∉ word.dropLast)
    (hb : Free word b) (a : List α) :
    (a ++ word ++ b).reverse.dropInfix? word.reverse = some (b.reverse, a.reverse) := by
  have hhead : word.reverse.head (List.reverse_ne_nil_iff.2 hword) ∉ word.reverse.tail := by
    rw [List.head_reverse, List.tail_reverse, List.mem_reverse]
    exact hlast
  have htext : (a ++ word ++ b).reverse = b.reverse ++ word.reverse ++ a.reverse := by
    rw [List.reverse_append, List.reverse_append, List.append_assoc]
  rw [htext, dropInfix?_append (List.reverse_ne_nil_iff.2 hword) hhead (free_reverse_iff.2 hb)]

theorem behindLast_append (hword : word ≠ []) (hlast : word.getLast hword ∉ word.dropLast) (hb : Free word b)
    (a : List α) : behindLast word (a ++ word ++ b) = b := by
  rw [behindLast, beforeFirst, dropInfix?_reverse_append hword hlast hb, List.reverse_reverse]

/-- The text before and behind the last occurrence of the word: `text.rsplit(word, 1)` where there is one. -/
def cutLast (word text : List α) : Option (List α × List α) :=
  (text.reverse.dropInfix? word.reverse).map fun found => (found.2.reverse, found.1.reverse)

theorem cutLast_append (hword : word ≠ []) (hlast : word.getLast hword ∉ word.dropLast) (hb : Free word b)
    (a : List α) : cutLast word (a ++ word ++ b) = some (a, b) := by
  rw [cutLast, dropInfix?_reverse_append hword hlast hb, Option.map_some, List.reverse_reverse, List.reverse_reverse]

theorem eq_of_cutLast (h : cutLast word text = some (a, b)) : text = a ++ word ++ b := by
  obtain ⟨found, hfound, heq⟩ := Option.map_eq_some_iff.1 h
  obtain ⟨⟨part, htext, hpart⟩, -⟩ := List.dropInfix?_eq_some_iff.1 hfound
  obtain rfl := eq_of_beq hpart
  rw [Prod.mk.injEq] at heq
  rw [← List.reverse_reverse text, htext, ← heq.1, ← heq.2]
  simp

/-! ## Cutting at a character -/

/-- `text.split(c, 1)[0]`. -/
def upTo (c : α) (text : List α) : List α := text.takeWhile (· ≠ c)

/-- `text.split(c, 1)[1]` where the character is in the text. -/
def past (c : α) (text : List α) : List α := (text.dropWhile (· ≠ c)).tail

theorem upTo_append (h : c ∉ a) (b : List α) : upTo c (a ++ c :: b) = a := by
  have hall : ∀ d ∈ a, decide (d ≠ c) = true := fun d hd => decide_eq_true fun heq => h (heq ▸ hd)
  rw [upTo, List.takeWhile_append_of_pos hall, List.takeWhile_cons_of_neg (by simp), List.append_nil]

theorem past_append (h : c ∉ a) (b : List α) : past c (a ++ c :: b) = b := by
  have hall : ∀ d ∈ a, decide (d ≠ c) = true := fun d hd => decide_eq_true fun heq => h (heq ▸ hd)
  rw [past, List.dropWhile_append_of_pos hall, List.dropWhile_cons_of_neg (by simp), List.tail_cons]

theorem past_of_not_mem (h : c ∉ text) : past c text = [] := by
  have hall : ∀ d ∈ text, decide (d ≠ c) = true := fun d hd => decide_eq_true fun heq => h (heq ▸ hd)
  have hnil : text.dropWhile (· ≠ c) = [] := by
    rw [← List.append_nil text, List.dropWhile_append_of_pos hall, List.dropWhile_nil]
  rw [past, hnil, List.tail_nil]

theorem eq_upTo_append_past (h : c ∈ text) : text = upTo c text ++ c :: past c text := by
  obtain ⟨a, b, rfl, ha⟩ := List.eq_append_cons_of_mem h
  rw [upTo_append ha, past_append ha]

theorem not_mem_upTo (c : α) (text : List α) : c ∉ upTo c text := by
  intro h
  have hc := List.mem_takeWhile_imp h
  simp at hc

end SplitText
