import TestInfra.Lib.PyText
import TestInfra.Lib.Utf8
import Mathlib.Data.List.SplitBy

set_option autoImplicit false

/-! # Percent encoding

`urllib.parse.quote` and `unquote`. A text is quoted by its UTF-8 bytes: letters, digits and a few signs stand for
themselves, and every other byte becomes a percent sign and two digits. `unquote` reads the percent signs of each
ASCII part back as bytes and decodes them, with a replacement character for what is no UTF-8. What has been quoted
reads back as it was (`unquote_quote`). -/

namespace Percent

open PyText Utf8

/-! ## Texts and bytes -/

/-- A character as a code point. -/
def point (c : Char) : CodePoint := ⟨c.toNat, by
  have := c.valid
  simp only [UInt32.isValidChar, Nat.isValidChar] at this
  show c.val.toNat < _
  omega⟩

/-- `text.encode('utf-8')`; a character is no surrogate, so there are no errors. -/
def encodeText (text : Text) : List UInt8 := text.flatMap fun c => (encodeOne (point c)).getD []

/-- How many bytes one replacement character stands for: a first byte that cannot be one, or a form that breaks off,
    as far as it goes. -/
def malformedLength : List UInt8 → ℕ
  | [] => 0
  | [_] => 1
  | a :: b :: rest =>
      -- the second byte of some forms has a smaller range
      let low := if a = 0xE0 then 0xA0 else if a = 0xF0 then 0x90 else 0x80
      let high := if a = 0xED then 0xA0 else if a = 0xF4 then 0x90 else 0xC0
      if a.toNat < 0xC2 ∨ 0xF5 ≤ a.toNat ∨ b.toNat < low ∨ high ≤ b.toNat then 1
      else if a.toNat < 0xF0 then 2
      else if rest.head?.any isTail then 3 else 2

/-- The characters of bytes that hold at most so many. -/
def decodeReplaceMost : ℕ → List UInt8 → Text
  | 0, _ => []
  | _, [] => []
  | n + 1, a :: rest =>
      match decodeOne (a :: rest) with
      | some (c, rest) => Char.ofNat c.val :: decodeReplaceMost n rest
      | none => '\uFFFD' :: decodeReplaceMost n ((a :: rest).drop (malformedLength (a :: rest)))

/-- `bytes.decode('utf-8', 'replace')`. -/
def decodeReplace (bytes : List UInt8) : Text := decodeReplaceMost bytes.length bytes

/-! ## Quoting -/

def isAscii (c : Char) : Bool := c.toNat < 0x80

/-- The characters that stand for themselves: letters, digits, `_.-~`, and `/`. -/
def isSafe (c : Char) : Bool :=
  ('A' ≤ c && c ≤ 'Z') || ('a' ≤ c && c ≤ 'z') || ('0' ≤ c && c ≤ '9') || c = '_' || c = '.' || c = '-' || c = '~' ||
    c = '/'

def hexDigit (n : ℕ) : Char := Char.ofNat (if n < 10 then 0x30 + n else 0x41 + (n - 10))

def quoteByte (b : UInt8) : Text :=
  let c := Char.ofNat b.toNat
  if isSafe c then [c] else ['%', hexDigit (b.toNat / 16), hexDigit (b.toNat % 16)]

/-- `urllib.parse.quote(text)`. -/
def quote (text : Text) : Text := (encodeText text).flatMap quoteByte

/-- The characters that stand for themselves in a form; `/` does not. -/
def isSafePlus (c : Char) : Bool := isSafe c && c ≠ '/'

/-- A byte, where these characters stand for themselves. -/
def quoteByteWith (safe : Char → Bool) (b : UInt8) : Text :=
  let c := Char.ofNat b.toNat
  if safe c then [c] else ['%', hexDigit (b.toNat / 16), hexDigit (b.toNat % 16)]

/-- `urllib.parse.quote_plus(text)`. -/
def quotePlus (text : Text) : Text :=
  if ' ' ∈ text then
    ((encodeText text).flatMap (quoteByteWith fun c => isSafePlus c || c = ' ')).map fun c => if c = ' ' then '+' else c
  else (encodeText text).flatMap (quoteByteWith isSafePlus)

/-- `urllib.parse.urlencode({name: value})`. -/
def urlencode (name value : Text) : Text := quotePlus name ++ '=' :: quotePlus value

/-! ## Unquoting -/

def hexValue (c : Char) : Option ℕ :=
  if '0' ≤ c ∧ c ≤ '9' then some (c.toNat - 0x30)
  else if 'A' ≤ c ∧ c ≤ 'F' then some (c.toNat - 0x41 + 10)
  else if 'a' ≤ c ∧ c ≤ 'f' then some (c.toNat - 0x61 + 10)
  else none

/-- The byte of two digits. -/
def hexByte (high low : Char) : Option UInt8 := do
  let h ← hexValue high
  let l ← hexValue low
  return .ofNat (16 * h + l)

/-- `unquote_to_bytes` of an ASCII text; a percent sign without two digits stands for itself. -/
def unquoteToBytes : Text → List UInt8
  | [] => []
  | c :: rest =>
      if c = '%' then
        match rest with
        | high :: low :: rest' =>
            match hexByte high low with
            | some b => b :: unquoteToBytes rest'
            | none => .ofNat c.toNat :: unquoteToBytes (high :: low :: rest')
        | [d] => .ofNat c.toNat :: unquoteToBytes [d]
        | [] => [.ofNat c.toNat]
      else .ofNat c.toNat :: unquoteToBytes rest

/-- The parts of a text that are ASCII and that are not, in turn. -/
def asciiRuns (text : Text) : List Text := text.splitBy fun c d => isAscii c == isAscii d

/-- `urllib.parse.unquote(text)`. -/
def unquote (text : Text) : Text :=
  if '%' ∈ text then
    (asciiRuns text).flatMap fun run =>
      if run.head?.any isAscii then decodeReplace (unquoteToBytes run) else run
  else text

/-! ## What has been quoted -/

theorem hexValue_hexDigit {n : ℕ} (h : n < 16) : hexValue (hexDigit n) = some n := by
  have hall : ∀ n < 16, hexValue (hexDigit n) = some n := by decide
  exact hall n h

theorem hexByte_hexDigit (b : UInt8) : hexByte (hexDigit (b.toNat / 16)) (hexDigit (b.toNat % 16)) = some b := by
  have hb := b.toNat_lt
  have hval : 16 * (b.toNat / 16) + b.toNat % 16 = b.toNat := by omega
  rw [hexByte, hexValue_hexDigit (by omega), hexValue_hexDigit (by omega)]
  show some (UInt8.ofNat (16 * (b.toNat / 16) + b.toNat % 16)) = some b
  rw [hval, UInt8.ofNat_toNat]

theorem isSafe_percent : isSafe '%' = false := by decide

theorem toNat_ofNat_byte (b : UInt8) : (Char.ofNat b.toNat).toNat = b.toNat := by
  have hb := b.toNat_lt
  have hvalid : b.toNat.isValidChar := by
    left
    omega
  rw [Char.ofNat, dif_pos hvalid]
  rfl

theorem unquoteToBytes_cons_of_ne {c : Char} (h : c ≠ '%') (rest : Text) :
    unquoteToBytes (c :: rest) = .ofNat c.toNat :: unquoteToBytes rest := by
  rcases rest with _ | ⟨d, _ | ⟨e, rest⟩⟩
  · simp [unquoteToBytes, h]
  · simp [unquoteToBytes, h]
  · simp [unquoteToBytes, h]

/-- A quoted byte is read back, whatever follows. -/
theorem unquoteToBytes_quoteByteWith {safe : Char → Bool} (hpercent : safe '%' = false) (b : UInt8) (text : Text) :
    unquoteToBytes (quoteByteWith safe b ++ text) = b :: unquoteToBytes text := by
  rw [quoteByteWith]
  split
  · next hsafe =>
      have hne : Char.ofNat b.toNat ≠ '%' := by
        intro heq
        rw [heq, hpercent] at hsafe
        cases hsafe
      rw [List.singleton_append, unquoteToBytes_cons_of_ne hne, toNat_ofNat_byte, UInt8.ofNat_toNat]
  · show unquoteToBytes ('%' :: hexDigit (b.toNat / 16) :: hexDigit (b.toNat % 16) :: text) = _
    rw [unquoteToBytes, if_pos rfl]
    simp only [hexByte_hexDigit]

theorem unquoteToBytes_flatMap_quoteByteWith {safe : Char → Bool} (hpercent : safe '%' = false) (bytes : List UInt8) :
    unquoteToBytes (bytes.flatMap (quoteByteWith safe)) = bytes := by
  induction bytes with
  | nil => rfl
  | cons b bytes ih => rw [List.flatMap_cons, unquoteToBytes_quoteByteWith hpercent, ih]

theorem unquoteToBytes_flatMap_quoteByte (bytes : List UInt8) : unquoteToBytes (bytes.flatMap quoteByte) = bytes :=
  unquoteToBytes_flatMap_quoteByteWith isSafe_percent bytes

/-- Characters are no surrogates, so they can be encoded. -/
theorem encodeOne_point (c : Char) : ∃ bytes, encodeOne (point c) = some bytes ∧ bytes ≠ [] := by
  have hvalid : c.toNat < 0xD800 ∨ (0xDFFF < c.toNat ∧ c.toNat < 0x110000) := c.valid
  have hval : (point c).val = c.toNat := rfl
  simp only [encodeOne, hval]
  split
  · exact ⟨_, rfl, List.cons_ne_nil _ _⟩
  split
  · exact ⟨_, rfl, List.cons_ne_nil _ _⟩
  rw [if_neg (by omega)]
  split
  · exact ⟨_, rfl, List.cons_ne_nil _ _⟩
  · exact ⟨_, rfl, List.cons_ne_nil _ _⟩

theorem ofNat_point (c : Char) : Char.ofNat (point c).val = c := Char.ofNat_toNat c

/-- What has been encoded is decoded without a replacement. -/
theorem decodeReplace_encodeText (text : Text) : decodeReplace (encodeText text) = text := by
  have hmost : ∀ n, (encodeText text).length ≤ n → decodeReplaceMost n (encodeText text) = text := by
    induction text with
    | nil =>
        intro n _
        cases n with
        | zero => rfl
        | succ n => rfl
    | cons c text ih =>
        intro n hn
        obtain ⟨bytes, hbytes, hne⟩ := encodeOne_point c
        have hencode : encodeText (c :: text) = bytes ++ encodeText text := by
          rw [encodeText, List.flatMap_cons, hbytes]
          rfl
        obtain ⟨b, tail, rfl⟩ := List.exists_cons_of_ne_nil hne
        rw [hencode, List.length_append, List.length_cons] at hn
        obtain ⟨n, rfl⟩ : ∃ m, n = m + 1 := ⟨n - 1, by omega⟩
        have hdecode := decodeOne_encodeOne hbytes (encodeText text)
        rw [hencode]
        simp only [List.cons_append] at hdecode ⊢
        simp only [decodeReplaceMost, hdecode, ofNat_point]
        rw [ih n (by omega)]
  exact hmost _ (Nat.le_refl _)

theorem isAscii_of_isSafe {c : Char} (h : isSafe c = true) : isAscii c = true := by
  simp only [isSafe, Bool.or_eq_true, Bool.and_eq_true, decide_eq_true_eq, Char.le_def, UInt32.le_iff_toNat_le] at h
  show decide (c.val.toNat < 0x80) = true
  rw [decide_eq_true_eq]
  rcases h with ((((((h | h) | h) | rfl) | rfl) | rfl) | rfl) | rfl
  · exact Nat.lt_of_le_of_lt h.2 (by decide)
  · exact Nat.lt_of_le_of_lt h.2 (by decide)
  · exact Nat.lt_of_le_of_lt h.2 (by decide)
  all_goals decide

theorem isAscii_hexDigit {n : ℕ} (h : n < 16) : isAscii (hexDigit n) = true := by
  have hall : ∀ n < 16, isAscii (hexDigit n) = true := by decide
  exact hall n h

theorem isAscii_quoteByte (b : UInt8) : ∀ c ∈ quoteByte b, isAscii c = true := by
  have hb := b.toNat_lt
  rw [quoteByte]
  split
  · next hsafe =>
      rw [List.forall_mem_singleton]
      exact isAscii_of_isSafe hsafe
  · rw [List.forall_mem_cons, List.forall_mem_cons, List.forall_mem_singleton]
    exact ⟨by decide, isAscii_hexDigit (by omega), isAscii_hexDigit (by omega)⟩

theorem unquoteToBytes_of_not_mem {text : Text} (h : '%' ∉ text) :
    unquoteToBytes text = text.map fun c => .ofNat c.toNat := by
  induction text with
  | nil => rfl
  | cons c text ih =>
      rw [List.mem_cons, not_or] at h
      rw [unquoteToBytes_cons_of_ne (Ne.symm h.1), ih h.2, List.map_cons]

theorem encodeText_of_ascii {text : Text} (h : ∀ c ∈ text, isAscii c = true) :
    encodeText text = text.map fun c => .ofNat c.toNat := by
  induction text with
  | nil => rfl
  | cons c text ih =>
      rw [List.forall_mem_cons] at h
      have hone : encodeOne (point c) = some [.ofNat c.toNat] := if_pos (of_decide_eq_true h.1)
      rw [encodeText, List.flatMap_cons, hone, List.map_cons, ← ih h.2]
      rfl

theorem asciiRuns_of_ascii {text : Text} (h : ∀ c ∈ text, isAscii c = true) (hne : text ≠ []) :
    asciiRuns text = [text] := by
  refine List.splitBy_of_isChain hne (List.Pairwise.isChain ?_)
  refine List.pairwise_of_forall_mem_list fun c hc d hd => ?_
  rw [h c hc, h d hd]
  rfl

/-- An ASCII text is unquoted in one part, with or without a percent sign. -/
theorem unquote_of_ascii {text : Text} (h : ∀ c ∈ text, isAscii c = true) :
    unquote text = decodeReplace (unquoteToBytes text) := by
  rw [unquote]
  split
  · next hmem =>
      obtain ⟨c, rest, rfl⟩ := List.exists_cons_of_ne_nil (List.ne_nil_of_mem hmem)
      rw [asciiRuns_of_ascii h (List.cons_ne_nil c rest), List.flatMap_singleton]
      exact if_pos (h c List.mem_cons_self)
  · next hnot => rw [unquoteToBytes_of_not_mem hnot, ← encodeText_of_ascii h, decodeReplace_encodeText]

/-- **What has been quoted reads back as it was.** -/
theorem unquote_quote (text : Text) : unquote (quote text) = text := by
  have hascii : ∀ c ∈ quote text, isAscii c = true := by
    intro c hc
    obtain ⟨b, -, hb⟩ := List.mem_flatMap.1 hc
    exact isAscii_quoteByte b c hb
  rw [unquote_of_ascii hascii, quote, unquoteToBytes_flatMap_quoteByte, decodeReplace_encodeText]

/-! ## Forms -/

/-- The characters of a form: those that stand for themselves, the percent sign, and `+`. -/
def isForm (c : Char) : Bool := isSafePlus c || c = '%' || c = '+'

theorem isSafePlus_hexDigit {n : ℕ} (h : n < 16) : isSafePlus (hexDigit n) = true := by
  have hall : ∀ n < 16, isSafePlus (hexDigit n) = true := by decide
  exact hall n h

theorem mem_quoteByteWith {safe : Char → Bool} {b : UInt8} {c : Char} (h : c ∈ quoteByteWith safe b) :
    safe c = true ∨ isSafePlus c = true ∨ c = '%' := by
  have hb := b.toNat_lt
  rw [quoteByteWith] at h
  split at h
  · next hsafe =>
      rw [List.mem_singleton] at h
      exact .inl (h ▸ hsafe)
  · simp only [List.mem_cons, List.not_mem_nil, or_false] at h
    rcases h with rfl | rfl | rfl
    · exact .inr (.inr rfl)
    · exact .inr (.inl (isSafePlus_hexDigit (by omega)))
    · exact .inr (.inl (isSafePlus_hexDigit (by omega)))

/-- What is quoted for a form has characters of a form only. -/
theorem isForm_of_mem_quotePlus {text : Text} {c : Char} (h : c ∈ quotePlus text) : isForm c = true := by
  simp only [isForm, Bool.or_eq_true, decide_eq_true_eq]
  rw [quotePlus] at h
  split at h
  · obtain ⟨d, hd, rfl⟩ := List.mem_map.1 h
    obtain ⟨b, -, hb⟩ := List.mem_flatMap.1 hd
    split
    · exact .inr rfl
    · next hspace =>
        have := mem_quoteByteWith hb
        simp only [Bool.or_eq_true, decide_eq_true_eq, hspace, or_false] at this
        rcases this with h | h | h
        · exact .inl (.inl h)
        · exact .inl (.inl h)
        · exact .inl (.inr h)
  · obtain ⟨b, -, hb⟩ := List.mem_flatMap.1 h
    rcases mem_quoteByteWith hb with h | h | h
    · exact .inl (.inl h)
    · exact .inl (.inl h)
    · exact .inl (.inr h)

theorem not_mem_quotePlus {c : Char} (h : isForm c = false) (text : Text) : c ∉ quotePlus text := by
  intro hmem
  rw [isForm_of_mem_quotePlus hmem] at h
  cases h

/-- The bytes of a text are read back from what is quoted for a form, with spaces for `+`. -/
theorem unquoteToBytes_quotePlus (text : Text) :
    unquoteToBytes ((quotePlus text).map fun c => if c = '+' then ' ' else c) = encodeText text := by
  have hback : (quotePlus text).map (fun c => if c = '+' then ' ' else c)
      = (encodeText text).flatMap (quoteByteWith fun c => isSafePlus c || (c = ' ' && ' ' ∈ text)) := by
    have hplus : ∀ safe : Char → Bool, safe '+' = false → ∀ b, '+' ∉ quoteByteWith safe b := by
      intro safe hsafe b hmem
      rcases mem_quoteByteWith hmem with h | h | h
      · rw [hsafe] at h
        cases h
      · revert h
        decide
      · revert h
        decide
    rw [quotePlus]
    split
    · next hspace =>
        simp only [hspace, decide_true, Bool.and_true, List.map_map]
        refine (List.map_congr_left fun c hc => ?_).trans (List.map_id _)
        obtain ⟨b, -, hb⟩ := List.mem_flatMap.1 hc
        have hc : c ≠ '+' := fun heq => hplus _ (by decide) b (heq ▸ hb)
        by_cases hs : c = ' '
        · simp [hs]
        · simp [hs, hc]
    · next hspace =>
        simp only [hspace, decide_false, Bool.and_false, Bool.or_false]
        refine (List.map_congr_left fun c hc => ?_).trans (List.map_id _)
        obtain ⟨b, -, hb⟩ := List.mem_flatMap.1 hc
        have hc : c ≠ '+' := fun heq => hplus _ (by decide) b (heq ▸ hb)
        simp [hc]
  have hpercent : isSafePlus '%' = false := by decide
  rw [hback, unquoteToBytes_flatMap_quoteByteWith (by simp [hpercent])]

/-- Texts are told apart by what is quoted for them. -/
theorem quotePlus_injective {a b : Text} (h : quotePlus a = quotePlus b) : a = b := by
  have hbytes : encodeText a = encodeText b := by
    rw [← unquoteToBytes_quotePlus a, h, unquoteToBytes_quotePlus b]
  rw [← decodeReplace_encodeText a, hbytes, decodeReplace_encodeText]

/-! ## What quoting leaves as it is -/

theorem quote_append (text text' : Text) : quote (text ++ text') = quote text ++ quote text' := by
  simp only [quote, encodeText, List.flatMap_append]

theorem quoteByte_of_isSafe {c : Char} (h : isSafe c = true) : quoteByte (.ofNat c.toNat) = [c] := by
  have hascii : c.toNat < 0x80 := of_decide_eq_true (isAscii_of_isSafe h)
  have hbyte : Char.ofNat (UInt8.ofNat c.toNat).toNat = c := by
    rw [UInt8.toNat_ofNat', Nat.mod_eq_of_lt (by omega), Char.ofNat_toNat]
  simp only [quoteByte, hbyte, h, if_true]

theorem quote_of_safe {text : Text} (h : ∀ c ∈ text, isSafe c = true) : quote text = text := by
  rw [quote, encodeText_of_ascii fun c hc => isAscii_of_isSafe (h c hc), List.flatMap_map]
  induction text with
  | nil => rfl
  | cons c text ih =>
      rw [List.forall_mem_cons] at h
      rw [List.flatMap_cons, quoteByte_of_isSafe h.1, ih h.2, List.singleton_append]

theorem not_mem_quote {c : Char} (h : isSafe c = false) (hpercent : c ≠ '%') (text : Text) : c ∉ quote text := by
  intro hmem
  obtain ⟨b, -, hb⟩ := List.mem_flatMap.1 hmem
  have hcases : isSafe c = true ∨ isSafePlus c = true ∨ c = '%' := mem_quoteByteWith hb
  rcases hcases with hsafe | hsafe | hc
  · rw [h] at hsafe
    cases hsafe
  · rw [isSafePlus, h] at hsafe
    cases hsafe
  · exact hpercent hc

end Percent
