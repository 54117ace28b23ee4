import TestInfra.Lib.Find
import TestInfra.Lib.PyText
import Mathlib.Data.List.Nodup

set_option autoImplicit false

/-! # Words written in another way

`text.replace(word, word.upper())` for one word after the other: each word is rewritten character by character, at the
places where a scan from the left finds it. If the words do not share a character that changes, the places are those in
the first text for all of them (`getElem?_foldl_replace`). -/

open Find

namespace PyText

variable {word text text' : Text} {f : Char → Char} {p q : ℕ}

/-! ## Places -/

/-- The places of a scan that goes on behind what it has found. -/
def placesFrom (P : ℕ → Prop) [DecidablePred P] (len : ℕ) : ℕ → ℕ → List ℕ
  | 0, _ => []
  | fuel + 1, p => if P p then p :: placesFrom P len fuel (p + len) else placesFrom P len fuel (p + 1)

/-- The places at which `text.replace(word, ...)` writes. -/
def places (word text : Text) : List ℕ := placesFrom (OccursAt word text) word.length text.length 0

theorem placesFrom_congr {P Q : ℕ → Prop} [DecidablePred P] [DecidablePred Q] (h : ∀ p, P p ↔ Q p) (len fuel p : ℕ) :
    placesFrom P len fuel p = placesFrom Q len fuel p := by
  induction fuel generalizing p with
  | zero => rfl
  | succ fuel ih =>
      rw [placesFrom, placesFrom, ih, ih]
      exact if_congr (h p) rfl rfl

theorem mem_placesFrom {P : ℕ → Prop} [DecidablePred P] {len fuel : ℕ} (h : q ∈ placesFrom P len fuel p) :
    p ≤ q ∧ P q := by
  induction fuel generalizing p with
  | zero => cases h
  | succ fuel ih =>
      rw [placesFrom] at h
      split at h
      · next hP =>
          rcases List.mem_cons.1 h with rfl | h
          · exact ⟨le_rfl, hP⟩
          · exact ⟨Nat.le_of_add_right_le (ih h).1, (ih h).2⟩
      · exact ⟨Nat.le_of_succ_le (ih h).1, (ih h).2⟩

theorem occursAt_of_mem_places (h : q ∈ places word text) : OccursAt word text q := (mem_placesFrom h).2

/-! ## One word -/

/-- Some of the places has the word over `p`. -/
def Covers (len : ℕ) (starts : List ℕ) (p : ℕ) : Prop := ∃ q ∈ starts, q ≤ p ∧ p < q + len

instance (len : ℕ) (starts : List ℕ) (p : ℕ) : Decidable (Covers len starts p) :=
  inferInstanceAs (Decidable (∃ q ∈ starts, _))

theorem getElem?_of_occursAt (h : OccursAt word text p) {k : ℕ} (hk : k < word.length) : text[p + k]? = word[k]? := by
  rw [← List.getElem?_drop]
  exact ((List.prefix_iff_getElem?.1 h k hk).trans (List.getElem?_eq_getElem hk).symm)

theorem covers_cons_iff {len : ℕ} {starts : List ℕ} : Covers len (q :: starts) p ↔
    q ≤ p ∧ p < q + len ∨ Covers len starts p := by
  simp only [Covers, List.mem_cons, or_and_right, exists_or, exists_eq_left]

theorem getElem?_replaceMost (word : Text) (f : Char → Char) (fuel : ℕ) (text : Text) (p k : ℕ) :
    (replaceMost word (word.map f) fuel (text.drop p))[k]?
      = if Covers word.length (placesFrom (OccursAt word text) word.length fuel p) (p + k) then (text[p + k]?).map f
        else text[p + k]? := by
  induction fuel generalizing p k with
  | zero =>
      have hnone : ¬ Covers word.length (placesFrom (OccursAt word text) word.length 0 p) (p + k) :=
        fun ⟨_, hq, _⟩ => absurd hq List.not_mem_nil
      rw [if_neg hnone, ← List.getElem?_drop]
      rfl
  | succ fuel ih =>
      rcases htail : text.drop p with _ | ⟨c, rest⟩
      · have hend : text[p + k]? = none := by rw [← List.getElem?_drop, htail, List.getElem?_nil]
        rw [hend, Option.map_none, ite_self]
        exact List.getElem?_nil
      · have hrest : rest = text.drop (p + 1) := by
          rw [← List.tail_drop, htail, List.tail_cons]
        rw [replaceMost, placesFrom]
        by_cases hhere : OccursAt word text p
        · have hprefix : word.isPrefixOf (c :: rest) := by
            rw [List.isPrefixOf_iff_prefix, ← htail]
            exact hhere
          rw [if_pos hprefix, if_pos hhere, ← htail, List.drop_drop, List.getElem?_append, List.length_map,
            List.getElem?_map]
          by_cases hk : k < word.length
          · -- the place is the one of the word found here
            have hcovers : Covers word.length
                (p :: placesFrom (OccursAt word text) word.length fuel (p + word.length)) (p + k) :=
              covers_cons_iff.2 (.inl ⟨Nat.le_add_right p k, Nat.add_lt_add_left hk p⟩)
            rw [if_pos hk, if_pos hcovers, getElem?_of_occursAt hhere hk]
          · have hplace : p + word.length + (k - word.length) = p + k := by omega
            have hcovers : Covers word.length
                (p :: placesFrom (OccursAt word text) word.length fuel (p + word.length)) (p + k) ↔
                Covers word.length (placesFrom (OccursAt word text) word.length fuel (p + word.length)) (p + k) := by
              rw [covers_cons_iff]
              exact or_iff_right (by omega)
            rw [if_neg hk, ih, hplace]
            exact if_congr hcovers.symm rfl rfl
        · have hprefix : ¬ word.isPrefixOf (c :: rest) := by
            rw [List.isPrefixOf_iff_prefix, ← htail]
            exact hhere
          rw [if_neg hprefix, if_neg hhere, hrest]
          rcases k with _ | k
          · have hnone : ¬ Covers word.length (placesFrom (OccursAt word text) word.length fuel (p + 1)) (p + 0) := by
              rintro ⟨q, hq, hle, -⟩
              have hlow := (mem_placesFrom hq).1
              omega
            rw [if_neg hnone, ← List.getElem?_drop, htail]
            rfl
          · rw [List.getElem?_cons_succ, ih, show p + 1 + k = p + (k + 1) by omega]

/-- A word is rewritten where the scan finds it. -/
theorem getElem?_replace (word : Text) (f : Char → Char) (text : Text) (p : ℕ) :
    (replace word (word.map f) text)[p]?
      = if Covers word.length (places word text) p then (text[p]?).map f else text[p]? := by
  have h := getElem?_replaceMost word f text.length text 0 p
  rwa [List.drop_zero, Nat.zero_add] at h

/-! ## Some words -/

/-- Words that begin in one another share no character that changes. -/
def Untangled (f : Char → Char) (words : List Text) : Prop :=
  (∀ c ∈ words.flatten, f c ∈ words.flatten → f c = c) ∧
    ∀ a ∈ words, ∀ b ∈ words, a ≠ b → ∀ d < a.length, a.drop d <+: b ∨ b <+: a.drop d →
      ∀ c ∈ (a.drop d).take b.length, f c = c

instance (f : Char → Char) (words : List Text) : Decidable (Untangled f words) :=
  have (text : Text) (p : Char → Prop) [DecidablePred p] : Decidable (∀ c ∈ text, p c) := List.decidableBAll p text
  inferInstanceAs (Decidable (_ ∧ _))

/-- The place is rewritten for one of the words. -/
def Rewritten (words : List Text) (text : Text) (p : ℕ) : Prop :=
  ∃ word ∈ words, Covers word.length (places word text) p

instance (words : List Text) (text : Text) (p : ℕ) : Decidable (Rewritten words text p) :=
  inferInstanceAs (Decidable (∃ word ∈ words, _))

/-- `for word in words: text = text.replace(word, word.upper())`. -/
def rewrite (f : Char → Char) (words : List Text) (text : Text) : Text :=
  words.foldl (fun text word => replace word (word.map f) text) text

/-- A character two of the words have in common does not change: the second word begins in the first one. -/
theorem Untangled.eq_of_begins {words : List Text} (h : Untangled f words) {a b : Text} (ha : a ∈ words)
    (hb : b ∈ words) (hne : a ≠ b) {r : ℕ} (hp : OccursAt a text p) (hr : r < p + a.length) (hq : OccursAt b text q)
    (hpq : p ≤ q) (hqr : q ≤ r ∧ r < q + b.length) : ∀ c ∈ text[r]?, f c = c := by
  intro c hc
  have hdrop : a.drop (q - p) <+: text.drop q := by
    obtain ⟨behind, hbehind⟩ := hp
    refine ⟨behind, ?_⟩
    rw [← List.drop_append_of_le_length (by omega), hbehind, List.drop_drop, Nat.add_sub_cancel' hpq]
  have hchar : (a.drop (q - p))[r - q]? = some c := by
    have hin := getElem?_of_occursAt hp (k := r - p) (by omega)
    rw [show p + (r - p) = r by omega, hc] at hin
    rw [List.getElem?_drop, hin, show q - p + (r - q) = r - p by omega]
  refine h.2 a ha b hb hne (q - p) (by omega) (List.prefix_or_prefix_of_prefix hdrop hq) c ?_
  refine List.mem_of_getElem? (i := r - q) ?_
  rwa [List.getElem?_take_of_lt (by omega)]

theorem Untangled.eq_of_overlap {words : List Text} (h : Untangled f words) {a b : Text} (ha : a ∈ words)
    (hb : b ∈ words) (hne : a ≠ b) {r : ℕ} (hp : OccursAt a text p) (hpr : p ≤ r ∧ r < p + a.length)
    (hq : OccursAt b text q) (hqr : q ≤ r ∧ r < q + b.length) : ∀ c ∈ text[r]?, f c = c := by
  rcases le_total p q with hpq | hpq
  · exact h.eq_of_begins ha hb hne hp hpr.2 hq hpq hqr
  · exact h.eq_of_begins hb ha hne.symm hq hqr.2 hp hpq hpr

theorem occursAt_iff_getElem? : OccursAt word text p ↔ ∀ k < word.length, text[p + k]? = word[k]? := by
  refine ⟨fun h k hk => getElem?_of_occursAt h hk, fun h => List.prefix_iff_getElem?.2 fun k hk => ?_⟩
  rw [List.getElem?_drop, h k hk, List.getElem?_eq_getElem hk]

/-- A further word is where it was before the words were rewritten. -/
theorem Untangled.occursAt_iff {words : List Text} (h : Untangled f words) {done : List Text}
    (hdone : ∀ a ∈ done, a ∈ words) (hword : word ∈ words) (hnew : word ∉ done)
    (htext : ∀ p, text'[p]? = if Rewritten done text p then (text[p]?).map f else text[p]?) (q : ℕ) :
    OccursAt word text' q ↔ OccursAt word text q := by
  have hchar {k : ℕ} (hk : k < word.length) : ∃ e, word[k]? = some e ∧ e ∈ words.flatten :=
    ⟨word[k], List.getElem?_eq_getElem hk, List.mem_flatten.2 ⟨word, hword, List.getElem_mem hk⟩⟩
  rw [occursAt_iff_getElem?, occursAt_iff_getElem?]
  constructor
  · intro hocc k hk
    have hhere := hocc k hk
    rw [htext] at hhere
    split at hhere
    · next hrewritten =>
        -- what was written there is in no word, if it is not what was there before
        obtain ⟨a, ha, p, hp, hpk⟩ := hrewritten
        obtain ⟨e, he, hmem⟩ := hchar hk
        have hin := getElem?_of_occursAt (occursAt_of_mem_places hp) (k := q + k - p) (by omega)
        rw [Nat.add_sub_cancel' hpk.1, List.getElem?_eq_getElem (l := a) (by omega)] at hin
        have hc : a[q + k - p] ∈ words.flatten :=
          List.mem_flatten.2 ⟨a, hdone a ha, List.getElem_mem _⟩
        rw [hin, Option.map_some, he, Option.some_inj] at hhere
        rw [hin, he, ← hhere, h.1 _ hc (hhere ▸ hmem)]
    · exact hhere
  · intro hocc k hk
    rw [htext]
    split
    · next hrewritten =>
        obtain ⟨a, ha, p, hp, hpk⟩ := hrewritten
        have hne : a ≠ word := fun heq => hnew (heq ▸ ha)
        have hsame := h.eq_of_overlap (hdone a ha) hword hne (occursAt_of_mem_places hp) hpk
          (occursAt_iff_getElem?.2 hocc) ⟨Nat.le_add_right q k, Nat.add_lt_add_left hk q⟩
        obtain ⟨e, he, -⟩ := hchar hk
        rw [hocc k hk, he] at hsame ⊢
        rw [Option.map_some, hsame e rfl]
    · exact hocc k hk

theorem length_eq_of_getElem? {P : ℕ → Prop} [DecidablePred P]
    (h : ∀ p, text'[p]? = if P p then (text[p]?).map f else text[p]?) : text'.length = text.length := by
  apply le_antisymm
  · rw [← List.getElem?_eq_none_iff, h, List.getElem?_eq_none le_rfl, Option.map_none, ite_self]
  · have hend := h text'.length
    rw [List.getElem?_eq_none le_rfl] at hend
    rw [← List.getElem?_eq_none_iff]
    split at hend
    · exact Option.map_eq_none_iff.1 hend.symm
    · exact hend.symm

theorem rewritten_concat_iff {done : List Text} :
    Rewritten (done ++ [word]) text p ↔ Rewritten done text p ∨ Covers word.length (places word text) p := by
  simp only [Rewritten, List.mem_append, List.mem_singleton, or_and_right, exists_or, exists_eq_left]

/-- The rewriting of one more word. -/
theorem Untangled.step {words : List Text} (h : Untangled f words) {done : List Text} (hdone : ∀ a ∈ done, a ∈ words)
    (hword : word ∈ words) (hnew : word ∉ done)
    (htext : ∀ p, text'[p]? = if Rewritten done text p then (text[p]?).map f else text[p]?) (p : ℕ) :
    (replace word (word.map f) text')[p]?
      = if Rewritten (done ++ [word]) text p then (text[p]?).map f else text[p]? := by
  have hplaces : places word text' = places word text := by
    rw [places, places, length_eq_of_getElem? htext]
    exact placesFrom_congr (h.occursAt_iff hdone hword hnew htext) ..
  rw [getElem?_replace, hplaces, htext]
  by_cases hcovers : Covers word.length (places word text) p
  · rw [if_pos hcovers, if_pos (rewritten_concat_iff.2 (.inr hcovers))]
    split
    · next hrewritten =>
        -- rewritten twice: the words have this character in common
        obtain ⟨a, ha, q, hq, hqp⟩ := hrewritten
        obtain ⟨q', hq', hqp'⟩ := hcovers
        have hne : a ≠ word := fun heq => hnew (heq ▸ ha)
        have hsame := h.eq_of_overlap (hdone a ha) hword hne (occursAt_of_mem_places hq) hqp
          (occursAt_of_mem_places hq') hqp'
        cases hc : text[p]? with
        | none => rfl
        | some c => simp only [Option.map_some, hsame c hc]
    · rfl
  · rw [if_neg hcovers]
    exact if_congr (rewritten_concat_iff.trans (or_iff_left hcovers)).symm rfl rfl

/-- **The words are rewritten where they are in the first text.** -/
theorem getElem?_rewrite {words : List Text} (h : Untangled f words) (hnodup : words.Nodup) (text : Text) (p : ℕ) :
    (rewrite f words text)[p]? = if Rewritten words text p then (text[p]?).map f else text[p]? := by
  have hrun (todo : List Text) : ∀ done text', done ++ todo = words →
      (∀ p, text'[p]? = if Rewritten done text p then (text[p]?).map f else text[p]?) →
      (rewrite f todo text')[p]? = if Rewritten words text p then (text[p]?).map f else text[p]? := by
    induction todo with
    | nil =>
        intro done text' hwords htext
        rw [List.append_nil] at hwords
        subst hwords
        exact htext p
    | cons word todo ih =>
        intro done text' hwords htext
        subst hwords
        have hnew : word ∉ done := fun hmem =>
          (List.nodup_append.1 hnodup).2.2 word hmem word List.mem_cons_self rfl
        exact ih (done ++ [word]) (replace word (word.map f) text') (by simp)
          (h.step (fun a ha => List.mem_append_left _ ha) (by simp) hnew htext)
  exact hrun words [] text rfl fun p => (if_neg fun ⟨_, hmem, _⟩ => absurd hmem List.not_mem_nil).symm

end PyText
