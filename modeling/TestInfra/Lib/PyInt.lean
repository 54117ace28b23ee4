import TestInfra.Lib.PyText
import Mathlib.Algebra.Group.Nat.Defs
import Mathlib.Data.Int.Notation

set_option autoImplicit false

/-! # Numbers as texts

`int(text)` and `str(number)`. `int` takes the decimal digits of all scripts, white space around and single
underscores inside; the limit that newer interpreters put on the number of digits is left out. -/

namespace PyText

/-- The digits zero, with the other nine behind each of them. -/
def decimalZeros : List ℕ :=
  [0x30, 0x660, 0x6F0, 0x7C0, 0x966, 0x9E6, 0xA66, 0xAE6, 0xB66, 0xBE6, 0xC66, 0xCE6, 0xD66, 0xDE6, 0xE50, 0xED0,
   0xF20, 0x1040, 0x1090, 0x17E0, 0x1810, 0x1946, 0x19D0, 0x1A80, 0x1A90, 0x1B50, 0x1BB0, 0x1C40, 0x1C50, 0xA620,
   0xA8D0, 0xA900, 0xA9D0, 0xA9F0, 0xAA50, 0xABF0, 0xFF10, 0x104A0, 0x10D30, 0x11066, 0x110F0, 0x11136, 0x111D0,
   0x112F0, 0x11450, 0x114D0, 0x11650, 0x116C0, 0x11730, 0x118E0, 0x11950, 0x11C50, 0x11D50, 0x11DA0, 0x16A60,
   0x16AC0, 0x16B50, 0x1D7CE, 0x1D7D8, 0x1D7E2, 0x1D7EC, 0x1D7F6, 0x1E140, 0x1E2F0, 0x1E950, 0x1FBF0]

/-- The value of a decimal digit, `unicodedata.decimal`. -/
def decimalValue (c : Char) : Option ℕ :=
  (decimalZeros.find? fun low => low ≤ c.toNat && c.toNat < low + 10).map (c.toNat - ·)

/-- The white space `int` takes; of the ASCII characters, not the separators. -/
def isIntSpace (c : Char) : Bool :=
  if c.toNat < 0x80 then (9 ≤ c.toNat && c.toNat ≤ 13) || c = ' ' else isSpace c

/-- The digits behind a first one. -/
def readDigits (value : ℕ) : Text → Option ℕ
  | [] => some value
  | [c] => (decimalValue c).map (10 * value + ·)
  | c :: d :: rest =>
      if c = '_' then (decimalValue d).bind fun digit => readDigits (10 * value + digit) rest
      else (decimalValue c).bind fun digit => readDigits (10 * value + digit) (d :: rest)

def readNat : Text → Option ℕ
  | [] => none
  | c :: rest => (decimalValue c).bind fun digit => readDigits digit rest

/-- `int(text)`; `none` is the `ValueError`. -/
def readInt (text : Text) : Option ℤ :=
  match rstrip isIntSpace (lstrip isIntSpace text) with
  | '-' :: rest => (readNat rest).map fun n => -n
  | '+' :: rest => (readNat rest).map fun n => n
  | rest => (readNat rest).map fun n => n

/-- `str(number)`. -/
def intText (i : ℤ) : Text := if i < 0 then '-' :: (toString i.natAbs).toList else (toString i.natAbs).toList

/-! ## Numbers whose texts start alike -/

/-- The first digits of a number are the text of a number. -/
theorem exists_toDigits_of_append {j : ℕ} (hj : 1 ≤ j) {s : Text} :
    ∀ {w : Text}, w ≠ [] → Nat.toDigits 10 j = w ++ s → ∃ k, 1 ≤ k ∧ w = Nat.toDigits 10 k := by
  induction s generalizing j with
  | nil =>
      intro w _ h
      exact ⟨j, hj, by rw [h, List.append_nil]⟩
  | cons c s ih =>
      intro w hw h
      have hlonger : w ++ [c] ≠ [] := List.append_ne_nil_of_right_ne_nil _ (List.cons_ne_nil c [])
      obtain ⟨k, hk, hwk⟩ := ih hj hlonger (by rw [h, List.append_assoc]; rfl)
      by_cases hsmall : k < 10
      · -- one digit is left, so nothing stands before it
        rw [Nat.toDigits_of_lt_base hsmall] at hwk
        have hlength := congrArg List.length hwk
        rw [List.length_append, List.length_singleton, List.length_singleton] at hlength
        exact absurd (List.length_eq_zero_iff.1 (Nat.succ.inj hlength)) hw
      · rw [Nat.toDigits_of_base_le (by decide) (Nat.not_lt.1 hsmall)] at hwk
        exact ⟨k / 10, by omega, (List.append_inj' hwk rfl).1⟩

/-- The number of a text that is put behind another one. -/
theorem ofDigitChars_append_toDigits (k i : ℕ) :
    Nat.ofDigitChars 10 (Nat.toDigits 10 k ++ Nat.toDigits 10 i) 0 = 10 ^ (Nat.toDigits 10 i).length * k + i := by
  rw [Nat.ofDigitChars_append, Nat.ofDigitChars_toDigits (by decide) (by decide),
    Nat.ofDigitChars_eq_ofDigitChars_zero, Nat.ofDigitChars_toDigits (by decide) (by decide)]

/-! ## Reading a written number -/

theorem decimalValue_of_isDigit {c : Char} (h : c.isDigit = true) : decimalValue c = some (c.toNat - '0'.toNat) := by
  have hrange : 48 ≤ c.toNat ∧ c.toNat ≤ 57 := by
    simpa [Char.isDigit, UInt32.le_iff_toNat_le] using h
  have hlow : (decide (0x30 ≤ c.toNat) && decide (c.toNat < 0x30 + 10)) = true := by
    rw [Bool.and_eq_true, decide_eq_true_eq, decide_eq_true_eq]
    omega
  have hfind : decimalZeros.find? (fun low => low ≤ c.toNat && c.toNat < low + 10) = some 0x30 :=
    List.find?_cons_of_pos hlow
  rw [decimalValue, hfind]
  rfl

theorem readDigits_digits {digits : Text} (h : ∀ c ∈ digits, c.isDigit = true) (value : ℕ) :
    readDigits value digits = some (Nat.ofDigitChars 10 digits value) := by
  induction digits generalizing value with
  | nil => rfl
  | cons c digits ih =>
      rw [List.forall_mem_cons] at h
      have hc := decimalValue_of_isDigit h.1
      rcases digits with _ | ⟨d, rest⟩
      · rw [readDigits, hc]
        rfl
      · have hsep : c ≠ '_' := by
          rintro rfl
          exact absurd h.1 (by decide)
        rw [readDigits, if_neg hsep, hc, Option.bind_some, ih h.2]
        rfl

theorem isIntSpace_of_isDigit {c : Char} (h : c.isDigit = true) : isIntSpace c = false := by
  have hrange : 48 ≤ c.toNat ∧ c.toNat ≤ 57 := by
    simpa [Char.isDigit, UInt32.le_iff_toNat_le] using h
  have hspace : c ≠ ' ' := by
    rintro rfl
    exact absurd h (by decide)
  rw [isIntSpace, if_pos (by omega), Bool.or_eq_false_iff, Bool.and_eq_false_iff]
  exact ⟨.inr (decide_eq_false (by omega)), decide_eq_false hspace⟩

theorem isSpace_of_isDigit {c : Char} (h : c.isDigit = true) : isSpace c = false := by
  have hrange : 48 ≤ c.toNat ∧ c.toNat ≤ 57 := by
    simpa [Char.isDigit, UInt32.le_iff_toNat_le] using h
  simp only [isSpace, Bool.or_eq_false_iff, Bool.and_eq_false_iff, decide_eq_false_iff_not]
  omega

/-- The text of a number has no white space around it. -/
theorem trimmed_toString (n : ℕ) : Trimmed (toString n).toList :=
  ⟨fun c hc => isSpace_of_isDigit (isDigit_of_mem c (List.mem_of_mem_head? hc)),
    fun c hc => isSpace_of_isDigit (isDigit_of_mem c (List.mem_of_mem_getLast? hc))⟩

/-- `int(str(n))`. -/
theorem readInt_toString (n : ℕ) : readInt (toString n).toList = some (n : ℤ) := by
  have hdigits : ∀ c ∈ (toString n).toList, c.isDigit = true := isDigit_of_mem
  obtain ⟨d, rest, hcons, hd⟩ := toString_cons n
  have hfirst : lstrip isIntSpace (toString n).toList = (toString n).toList := by
    refine dropWhile_eq_self fun c hc => isIntSpace_of_isDigit (hdigits c ?_)
    exact List.mem_of_mem_head? hc
  have hlast : rstrip isIntSpace (toString n).toList = (toString n).toList := by
    rw [rstrip, dropWhile_eq_self, List.reverse_reverse]
    intro c hc
    exact isIntSpace_of_isDigit (hdigits c (List.mem_reverse.1 (List.mem_of_mem_head? hc)))
  have hread : readNat (toString n).toList = some n := by
    rw [hcons, List.forall_mem_cons] at hdigits
    have hvalue := ofDigitChars_toString n
    rw [hcons] at hvalue ⊢
    rw [Nat.ofDigitChars_cons, Nat.mul_zero, Nat.zero_add] at hvalue
    rw [readNat, decimalValue_of_isDigit hd, Option.bind_some, readDigits_digits hdigits.2]
    exact congrArg some hvalue
  rw [readInt, hfirst, hlast]
  split
  · next rest' heq =>
      rw [hcons] at heq
      rw [(List.cons.inj heq).1] at hd
      exact absurd hd (by decide)
  · next rest' heq =>
      rw [hcons] at heq
      rw [(List.cons.inj heq).1] at hd
      exact absurd hd (by decide)
  · rw [hread]
    rfl

/-! ## Decimal texts -/

/-- The digits `str.isdigit` accepts besides the decimal ones, from the first to the last of each row of them:
    superscripts, circled digits and the like. `int` does not take them. -/
def otherDigits : List (ℕ × ℕ) :=
  [(0xB2, 0xB3), (0xB9, 0xB9), (0x1369, 0x1371), (0x19DA, 0x19DA), (0x2070, 0x2070), (0x2074, 0x2079),
   (0x2080, 0x2089), (0x2460, 0x2468), (0x2474, 0x247C), (0x2488, 0x2490), (0x24EA, 0x24EA), (0x24F5, 0x24FD),
   (0x24FF, 0x24FF), (0x2776, 0x277E), (0x2780, 0x2788), (0x278A, 0x2792), (0x10A40, 0x10A43), (0x10E60, 0x10E68),
   (0x11052, 0x1105A), (0x1F100, 0x1F10A)]

/-- `text.isdigit()`. -/
def isdigit (text : Text) : Bool :=
  !text.isEmpty && text.all fun c =>
    (decimalValue c).isSome || otherDigits.any fun row => row.1 ≤ c.toNat && c.toNat ≤ row.2

/-- `text.isdecimal()`. -/
def Decimal (text : Text) : Prop := text ≠ [] ∧ ∀ c ∈ text, (decimalValue c).isSome = true

instance (text : Text) : Decidable (Decimal text) :=
  decidable_of_iff (text ≠ [] ∧ (text.all fun c => (decimalValue c).isSome) = true)
    (by simp only [List.all_eq_true, Decimal])

theorem isdigit_of_decimal {text : Text} (h : Decimal text) : isdigit text = true := by
  simp only [isdigit, Bool.and_eq_true, List.all_eq_true, Bool.or_eq_true]
  exact ⟨by simpa using h.1, fun c hc => .inl (h.2 c hc)⟩

theorem exists_zero_of_decimal {c : Char} (h : (decimalValue c).isSome = true) :
    ∃ low ∈ decimalZeros, low ≤ c.toNat ∧ c.toNat < low + 10 := by
  rw [decimalValue, Option.isSome_map] at h
  obtain ⟨low, hlow⟩ := Option.isSome_iff_exists.1 h
  have hrange := List.find?_some hlow
  rw [Bool.and_eq_true, decide_eq_true_eq, decide_eq_true_eq] at hrange
  exact ⟨low, List.mem_of_find?_eq_some hlow, hrange⟩

/-- No digit is white space or a sign or an underscore. -/
theorem isIntSpace_of_decimal {c : Char} (h : (decimalValue c).isSome = true) : isIntSpace c = false := by
  obtain ⟨low, hmem, hlow, hhigh⟩ := exists_zero_of_decimal h
  have hzeros : ∀ low ∈ decimalZeros, (low = 0x30 ∨ 0x660 ≤ low) ∧
      (low + 10 ≤ 0x1680 ∨ (0x1681 ≤ low ∧ low + 10 ≤ 0x2000) ∨ 0x3001 ≤ low) := by decide
  have := hzeros low hmem
  have hspace : c ≠ ' ' := by
    rintro rfl
    exact absurd h (by decide)
  unfold isIntSpace isSpace
  split
  · simp [hspace]
    omega
  · simp
    omega

theorem exists_readDigits {text : Text} (h : ∀ c ∈ text, (decimalValue c).isSome = true) (value : ℕ) :
    ∃ n, readDigits value text = some n := by
  induction text generalizing value with
  | nil => exact ⟨value, rfl⟩
  | cons c text ih =>
      rw [List.forall_mem_cons] at h
      obtain ⟨digit, hdigit⟩ := Option.isSome_iff_exists.1 h.1
      rcases text with _ | ⟨d, rest⟩
      · exact ⟨10 * value + digit, by simp [readDigits, hdigit]⟩
      · have hsep : c ≠ '_' := by
          rintro rfl
          exact absurd h.1 (by decide)
        rw [readDigits, if_neg hsep, hdigit, Option.bind_some]
        exact ih h.2 _

/-- `int` takes a decimal text. -/
theorem exists_readInt {text : Text} (h : Decimal text) : ∃ n, readInt text = some n := by
  obtain ⟨hne, hdecimal⟩ := h
  have hfirst : lstrip isIntSpace text = text :=
    dropWhile_eq_self fun c hc => isIntSpace_of_decimal (hdecimal c (List.mem_of_mem_head? hc))
  have hlast : rstrip isIntSpace text = text := by
    rw [rstrip, dropWhile_eq_self, List.reverse_reverse]
    exact fun c hc => isIntSpace_of_decimal (hdecimal c (List.mem_reverse.1 (List.mem_of_mem_head? hc)))
  obtain ⟨c, rest, rfl⟩ := List.exists_cons_of_ne_nil hne
  rw [List.forall_mem_cons] at hdecimal
  obtain ⟨digit, hdigit⟩ := Option.isSome_iff_exists.1 hdecimal.1
  obtain ⟨n, hn⟩ := exists_readDigits hdecimal.2 digit
  have hminus : c ≠ '-' := by
    rintro rfl
    exact absurd hdecimal.1 (by decide)
  have hplus : c ≠ '+' := by
    rintro rfl
    exact absurd hdecimal.1 (by decide)
  refine ⟨n, ?_⟩
  unfold readInt
  rw [hfirst, hlast]
  split
  · next heq => exact absurd (List.cons.inj heq).1 hminus
  · next heq => exact absurd (List.cons.inj heq).1 hplus
  · simp [readNat, hdigit, hn]

end PyText
