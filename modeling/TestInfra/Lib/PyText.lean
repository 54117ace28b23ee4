import Mathlib.Data.List.Basic

set_option autoImplicit false

/-! # Python's operations on texts

A `str` is the list of its characters. `join` and `split` are `List.intercalate` and `List.splitOn`. -/

namespace PyText

abbrev Text := List Char

instance (word : Text) (words : List Text) : Decidable (word ∈ words) := List.instDecidableMemOfLawfulBEq word words

/-- The characters `str.isspace` accepts. -/
def isSpace (c : Char) : Bool :=
  let n := c.toNat
  (9 ≤ n && n ≤ 13) || (28 ≤ n && n ≤ 32) || n = 0x85 || n = 0xA0 || n = 0x1680 ||
    (0x2000 ≤ n && n ≤ 0x200A) || n = 0x2028 || n = 0x2029 || n = 0x202F || n = 0x205F || n = 0x3000

/-- `text.lstrip(..)` of the characters in the class. -/
def lstrip (p : Char → Bool) (text : Text) : Text := text.dropWhile p

/-- `text.rstrip(..)` of the characters in the class. -/
def rstrip (p : Char → Bool) (text : Text) : Text := (text.reverse.dropWhile p).reverse

/-- `text.strip()`. -/
def strip (text : Text) : Text := rstrip isSpace (lstrip isSpace text)

/-- `sep.join(words)` for a separator of one character. -/
def join (sep : Char) (words : List Text) : Text := List.intercalate [sep] words

/-- `text.replace(old, new)` with at most so many steps. -/
def replaceMost (old new : Text) : ℕ → Text → Text
  | 0, text => text
  | _, [] => []
  | n + 1, c :: rest =>
      if old.isPrefixOf (c :: rest) then new ++ replaceMost old new n ((c :: rest).drop old.length)
      else c :: replaceMost old new n rest

/-- `text.replace(old, new)` for a text `old` that is not empty. -/
def replace (old new text : Text) : Text := replaceMost old new text.length text

/-- The text neither starts nor ends with white space. -/
def Trimmed (text : Text) : Prop :=
  (∀ c ∈ text.head?, isSpace c = false) ∧ ∀ c ∈ text.getLast?, isSpace c = false

instance (text : Text) : Decidable (Trimmed text) :=
  decidable_of_iff
    ((text.head?.all fun c => !isSpace c) = true ∧ (text.getLast?.all fun c => !isSpace c) = true)
    (by simp only [Option.all_eq_true, Bool.not_eq_true', Trimmed, Option.mem_def])

theorem dropWhile_eq_self {p : Char → Bool} {text : Text} (h : ∀ c ∈ text.head?, p c = false) :
    text.dropWhile p = text := by
  rcases text with _ | ⟨c, rest⟩
  · rfl
  · rw [List.dropWhile_cons_of_neg]
    rw [h c rfl]
    exact Bool.false_ne_true

/-- `strip` leaves such a text as it is. -/
theorem Trimmed.strip_eq {text : Text} (h : Trimmed text) : strip text = text := by
  have hfirst : lstrip isSpace text = text := dropWhile_eq_self h.1
  have hlast : text.reverse.dropWhile isSpace = text.reverse := by
    apply dropWhile_eq_self
    rw [List.head?_reverse]
    exact h.2
  rw [strip, hfirst, rstrip, hlast, List.reverse_reverse]

theorem join_cons_cons (sep : Char) (word next : Text) (rest : List Text) :
    join sep (word :: next :: rest) = word ++ sep :: join sep (next :: rest) := by
  rw [join, join, List.intercalate_cons_cons, List.append_assoc]
  rfl

@[simp] theorem join_singleton (sep : Char) (word : Text) : join sep [word] = word :=
  List.intercalate_singleton

/-- Every word but the first comes behind a separator. -/
theorem join_cons (sep : Char) (word : Text) (words : List Text) :
    join sep (word :: words) = word ++ words.flatMap fun word => sep :: word := by
  induction words generalizing word with
  | nil => simp
  | cons next words ih => rw [join_cons_cons, ih, List.flatMap_cons, List.cons_append]

/-- The characters of a joined text: the separator and those of the words. -/
theorem mem_join {sep c : Char} {words : List Text} (h : c ∈ join sep words) :
    c = sep ∨ ∃ word ∈ words, c ∈ word := by
  induction words with
  | nil => cases h
  | cons word rest ih =>
      rcases rest with _ | ⟨next, rest⟩
      · rw [join_singleton] at h
        exact .inr ⟨word, List.mem_singleton_self word, h⟩
      · rw [join_cons_cons, List.mem_append, List.mem_cons] at h
        rcases h with h | rfl | h
        · exact .inr ⟨word, List.mem_cons_self, h⟩
        · exact .inl rfl
        · rcases ih h with rfl | ⟨w, hw, hc⟩
          · exact .inl rfl
          · exact .inr ⟨w, List.mem_cons_of_mem _ hw, hc⟩

theorem getLast?_append_cons (a b : Text) (c : Char) : (a ++ c :: b).getLast? = (c :: b).getLast? := by
  rw [List.getLast?_append_of_ne_nil _ (List.cons_ne_nil c b)]

/-- A text joined from trimmed words is trimmed when the separator is no white space. -/
theorem trimmed_join {sep : Char} (hsep : isSpace sep = false) {words : List Text}
    (h : ∀ word ∈ words, Trimmed word) : Trimmed (join sep words) := by
  induction words with
  | nil => exact ⟨fun _ hc => (nomatch hc), fun _ hc => (nomatch hc)⟩
  | cons word rest ih =>
      rcases rest with _ | ⟨next, rest⟩
      · rw [join_singleton]
        exact h word (List.mem_singleton_self word)
      · have hword := h word List.mem_cons_self
        have hrest := ih fun w hw => h w (List.mem_cons_of_mem _ hw)
        rw [join_cons_cons]
        refine ⟨?_, ?_⟩
        · rcases word with _ | ⟨c, word⟩
          · intro c hc
            cases hc
            exact hsep
          · exact hword.1
        · intro c hc
          rw [getLast?_append_cons] at hc
          rcases hj : join sep (next :: rest) with _ | ⟨d, text⟩
          · rw [hj] at hc
            cases hc
            exact hsep
          · rw [hj, List.getLast?_cons_cons] at hc
            exact hrest.2 c (by rw [hj]; exact hc)

theorem toList_toString (n : ℕ) : (toString n).toList = Nat.toDigits 10 n := Nat.toList_repr

theorem ofDigitChars_toString (n : ℕ) : Nat.ofDigitChars 10 (toString n).toList 0 = n := by
  rw [toList_toString]
  exact Nat.ofDigitChars_toDigits (by decide) (by decide)

/-- Numbers are told apart by their decimal texts. -/
theorem toString_toList_injective {i j : ℕ} (h : (toString i).toList = (toString j).toList) : i = j := by
  rw [← ofDigitChars_toString i, h, ofDigitChars_toString]

theorem isDigit_of_mem {n : ℕ} : ∀ c ∈ (toString n).toList, c.isDigit = true := by
  intro c hc
  rw [toList_toString] at hc
  exact Nat.isDigit_of_mem_toDigits (by decide) (by decide) hc

theorem toString_cons (n : ℕ) : ∃ d rest, (toString n).toList = d :: rest ∧ d.isDigit = true := by
  have hne : (toString n).toList ≠ [] := by
    rw [toList_toString]
    exact Nat.toDigits_ne_nil
  obtain ⟨d, rest, hcons⟩ := List.exists_cons_of_ne_nil hne
  exact ⟨d, rest, hcons, isDigit_of_mem d (by rw [hcons]; exact List.mem_cons_self)⟩

end PyText
