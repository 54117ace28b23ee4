import TestInfra.Lib.PyText
import TestInfra.Lib.SplitOn
import Mathlib.Data.List.TakeWhile

set_option autoImplicit false

/-! # The words of a text

`text.split()`: what is left of a text when its white space is not looked at. Texts with the same words differ in their
spacing only. -/

namespace PyText

/-- `text.split()`. -/
def words (text : Text) : List Text := (text.splitOnP isSpace).filter fun word => word ≠ []

@[simp] theorem words_nil : words [] = [] := rfl

/-- White space ends a word. -/
theorem words_append_cons {c : Char} (hc : isSpace c = true) (a b : Text) :
    words (a ++ c :: b) = words a ++ words b := by
  rw [words, List.splitOnP_append_cons a b hc, List.filter_append]
  rfl

theorem words_cons {c : Char} (hc : isSpace c = true) (text : Text) : words (c :: text) = words text :=
  words_append_cons hc [] text

theorem words_concat {c : Char} (hc : isSpace c = true) (text : Text) : words (text ++ [c]) = words text := by
  rw [words_append_cons hc, words_nil, List.append_nil]

theorem strip_cons {c : Char} (hc : isSpace c = true) (text : Text) : strip (c :: text) = strip text := by
  rw [strip, lstrip, List.dropWhile_cons_of_pos hc]
  rfl

theorem strip_concat {c : Char} (hc : isSpace c = true) (text : Text) : strip (text ++ [c]) = strip text := by
  rw [strip, strip, lstrip, lstrip, List.dropWhile_append]
  split
  · next hblank =>
      rw [List.isEmpty_iff.1 hblank, List.dropWhile_cons_of_pos hc]
      rfl
  · rw [rstrip, rstrip, List.reverse_append, List.reverse_singleton, List.singleton_append,
      List.dropWhile_cons_of_pos hc]

/-- A text between white space. -/
theorem exists_strip (text : Text) :
    ∃ before after, text = before ++ strip text ++ after ∧ (∀ c ∈ before, isSpace c = true) ∧
      ∀ c ∈ after, isSpace c = true := by
  have hfirst : text.takeWhile isSpace ++ lstrip isSpace text = text := List.takeWhile_append_dropWhile
  have hlast : strip text ++ ((lstrip isSpace text).reverse.takeWhile isSpace).reverse = lstrip isSpace text := by
    rw [strip, rstrip, ← List.reverse_append, List.takeWhile_append_dropWhile, List.reverse_reverse]
  refine ⟨text.takeWhile isSpace, ((lstrip isSpace text).reverse.takeWhile isSpace).reverse, ?_, ?_, ?_⟩
  · rw [List.append_assoc, hlast, hfirst]
  · exact fun c hc => List.mem_takeWhile_imp hc
  · intro c hc
    exact List.mem_takeWhile_imp (List.mem_reverse.1 hc)

theorem strip_part (text : Text) : strip text <:+: text := by
  obtain ⟨before, after, htext, -, -⟩ := exists_strip text
  exact ⟨before, after, htext.symm⟩

theorem trimmed_strip (text : Text) : Trimmed (strip text) := by
  have hfirst (l : Text) : ∀ c ∈ (l.dropWhile isSpace).head?, isSpace c = false := by
    intro c hc
    have hnot := List.head?_dropWhile_not isSpace l
    rw [hc] at hnot
    simpa using hnot
  refine ⟨fun c hc => hfirst text c ?_, fun c hc => ?_⟩
  · have hlast : strip text ++ ((lstrip isSpace text).reverse.takeWhile isSpace).reverse = lstrip isSpace text := by
      rw [strip, rstrip, ← List.reverse_append, List.takeWhile_append_dropWhile, List.reverse_reverse]
    obtain ⟨rest, hrest⟩ := List.head?_eq_some_iff.1 hc
    rw [hrest] at hlast
    exact List.head?_eq_some_iff.2 ⟨_, hlast.symm⟩
  · rw [strip, rstrip, List.getLast?_reverse] at hc
    exact hfirst _ c hc

theorem strip_strip (text : Text) : strip (strip text) = strip text := (trimmed_strip text).strip_eq

theorem strip_append_left {before : Text} (h : ∀ c ∈ before, isSpace c = true) (text : Text) :
    strip (before ++ text) = strip text := by
  induction before with
  | nil => rfl
  | cons c before ih =>
      rw [List.cons_append, strip_cons (h c List.mem_cons_self)]
      exact ih fun d hd => h d (List.mem_cons_of_mem c hd)

theorem strip_append_right {after : Text} (h : ∀ c ∈ after, isSpace c = true) (text : Text) :
    strip (text ++ after) = strip text := by
  induction after generalizing text with
  | nil => rw [List.append_nil]
  | cons c after ih =>
      have hafter := ih (fun d hd => h d (List.mem_cons_of_mem c hd)) (text ++ [c])
      rw [List.append_assoc, List.singleton_append] at hafter
      rw [hafter, strip_concat (h c List.mem_cons_self)]

/-- Stripping at the start stops at a character that is no white space. -/
theorem lstrip_append_cons {c : Char} (hc : isSpace c = false) (a b : Text) :
    lstrip isSpace (a ++ c :: b) = lstrip isSpace a ++ c :: b := by
  have hstop : (c :: b).dropWhile isSpace = c :: b := List.dropWhile_cons_of_neg (Bool.eq_false_iff.1 hc)
  rw [lstrip, lstrip, List.dropWhile_append]
  split
  · next hblank => rw [List.isEmpty_iff.1 hblank, List.nil_append, hstop]
  · rfl

theorem rstrip_append_cons {c : Char} (hc : isSpace c = false) (a b : Text) :
    rstrip isSpace (a ++ c :: b) = a ++ c :: rstrip isSpace b := by
  have hrev : (a ++ c :: b).reverse = b.reverse ++ c :: a.reverse := by simp
  have hstop := lstrip_append_cons hc b.reverse a.reverse
  rw [lstrip, lstrip] at hstop
  rw [rstrip, rstrip, hrev, hstop]
  simp

theorem strip_lstrip (text : Text) : strip (lstrip isSpace text) = strip text := by
  have hblank : ∀ c ∈ text.takeWhile isSpace, isSpace c = true := fun c hc => List.mem_takeWhile_imp hc
  have htext := strip_append_left hblank (text.dropWhile isSpace)
  rw [List.takeWhile_append_dropWhile] at htext
  exact htext.symm

theorem words_append_left {before : Text} (h : ∀ c ∈ before, isSpace c = true) (text : Text) :
    words (before ++ text) = words text := by
  induction before with
  | nil => rfl
  | cons c before ih =>
      rw [List.cons_append, words_cons (h c List.mem_cons_self)]
      exact ih fun d hd => h d (List.mem_cons_of_mem c hd)

/-- White space has no words. -/
theorem words_eq_nil {text : Text} (h : ∀ c ∈ text, isSpace c = true) : words text = [] := by
  have hwords := words_append_left h []
  rwa [List.append_nil] at hwords

theorem words_append_right {after : Text} (h : ∀ c ∈ after, isSpace c = true) (text : Text) :
    words (text ++ after) = words text := by
  cases after with
  | nil => rw [List.append_nil]
  | cons c after =>
      rw [words_append_cons (h c List.mem_cons_self), words_eq_nil fun d hd => h d (List.mem_cons_of_mem c hd),
        List.append_nil]

/-- Stripping keeps the words. -/
theorem words_strip (text : Text) : words (strip text) = words text := by
  obtain ⟨before, after, htext, hbefore, hafter⟩ := exists_strip text
  have hwords := congrArg words htext
  rw [words_append_right hafter, words_append_left hbefore] at hwords
  exact hwords.symm

/-- Stripping keeps the words of the pieces. -/
theorem map_words_splitOn_strip {sep : Char} (hsep : isSpace sep = false) (text : Text) :
    ((strip text).splitOn sep).map words = (text.splitOn sep).map words := by
  have hwhole {blank : Text} (h : ∀ c ∈ blank, isSpace c = true) : blank.splitOn sep = [blank] := by
    refine List.splitOn_eq_singleton fun hmem => ?_
    rw [h sep hmem] at hsep
    cases hsep
  obtain ⟨before, after, htext, hbefore, hafter⟩ := exists_strip text
  generalize strip text = stripped at htext ⊢
  subst htext
  obtain ⟨init, last, hpieces⟩ := SplitOn.exists_pieces sep (before ++ stripped)
  obtain ⟨first, others, hfirst⟩ := List.exists_cons_of_ne_nil (List.splitOn_ne_nil sep stripped)
  have hleft := (SplitOn.pieces_of_whole (hwhole hbefore)).append hfirst
  have hright := hpieces.append (hwhole hafter)
  rw [hpieces.splitOn_eq] at hleft
  calc (stripped.splitOn sep).map words = words first :: others.map words := by rw [hfirst, List.map_cons]
    _ = (init ++ [last]).map words := by
        rw [hleft, List.nil_append, List.map_cons, words_append_left hbefore]
    _ = ((before ++ stripped ++ after).splitOn sep).map words := by
        rw [hright, List.map_append, List.map_append, List.map_singleton, List.map_singleton,
          words_append_right hafter]

theorem words_join {sep : Char} (hsep : isSpace sep = true) (pieces : List Text) :
    words (join sep pieces) = pieces.flatMap words := by
  induction pieces with
  | nil => rfl
  | cons piece pieces ih =>
      rcases pieces with _ | ⟨next, pieces⟩
      · rw [join_singleton, List.flatMap_singleton]
      · rw [join_cons_cons, words_append_cons hsep, ih]
        rfl

/-! ## Texts with the same spacing -/

/-- What is left of the words: where the white space is. -/
def spacing (text : Text) : List (Option Char) := text.map fun c => if isSpace c then some c else none

theorem mem_spacing {c : Char} (hc : isSpace c = true) {text : Text} : some c ∈ spacing text ↔ c ∈ text := by
  rw [spacing, List.mem_map]
  constructor
  · rintro ⟨d, hd, heq⟩
    split at heq
    · rwa [← Option.some.inj heq]
    · cases heq
  · exact fun h => ⟨c, h, if_pos hc⟩

/-- The characters of the words. -/
def solid (text : Text) : Text := text.filter fun c => !isSpace c

theorem solid_append (a b : Text) : solid (a ++ b) = solid a ++ solid b := List.filter_append ..

theorem flatten_words (text : Text) : (words text).flatten = solid text := by
  have hfilter (pieces : List Text) : (pieces.filter fun word => word ≠ []).flatten = pieces.flatten := by
    induction pieces with
    | nil => rfl
    | cons piece pieces ih =>
        rcases piece with _ | ⟨c, piece⟩
        · exact ih
        · exact congrArg ((c :: piece) ++ ·) ih
  rw [words, hfilter]
  induction text with
  | nil => rfl
  | cons c text ih =>
      obtain ⟨first, others, hpieces⟩ := List.exists_cons_of_ne_nil (List.splitOnP_ne_nil isSpace text)
      rw [List.splitOnP_cons_eq_if_modifyHead, solid]
      cases hc : isSpace c with
      | true => simpa [hc, solid] using ih
      | false =>
          rw [hpieces] at ih ⊢
          simpa [hc, solid] using ih

theorem length_solid (text : Text) : (solid text).length = (spacing text).count none := by
  induction text with
  | nil => rfl
  | cons c text ih =>
      rw [solid, spacing] at ih ⊢
      cases hc : isSpace c <;> simp [hc, ih]

/-- Where the white space is the same, the words say what the texts are. -/
theorem eq_of_solid_eq {a b : Text} (hspacing : spacing a = spacing b) (h : solid a = solid b) : a = b := by
  induction a generalizing b with
  | nil => exact (List.map_eq_nil_iff.1 hspacing.symm).symm
  | cons c a ih =>
      obtain ⟨d, b, rfl⟩ : ∃ d b', b = d :: b' := by
        rcases b with _ | ⟨d, b⟩
        · cases hspacing
        · exact ⟨d, b, rfl⟩
      rw [spacing, spacing, List.map_cons, List.map_cons, List.cons.injEq] at hspacing
      obtain ⟨hfirst, hspacing⟩ := hspacing
      cases hc : isSpace c with
      | true =>
          have hd : isSpace d = true := by
            by_contra hd
            simp [hc, hd] at hfirst
          rw [hc, hd] at hfirst
          obtain rfl : c = d := by simpa using hfirst
          rw [solid, solid, List.filter_cons_of_neg (by simp [hc]), List.filter_cons_of_neg (by simp [hc])] at h
          rw [ih hspacing h]
      | false =>
          have hd : isSpace d = false := by
            by_contra hd
            simp [hc, hd] at hfirst
          rw [solid, solid, List.filter_cons_of_pos (by simp [hc]), List.filter_cons_of_pos (by simp [hd]),
            List.cons.injEq] at h
          rw [h.1, ih hspacing h.2]

/-- Piece by piece, too. -/
theorem eq_of_words_eq {a b : List Text} (hspacing : a.map spacing = b.map spacing)
    (h : a.flatMap words = b.flatMap words) : a = b := by
  have hflatten (pieces : List Text) : (pieces.flatMap words).flatten = solid pieces.flatten := by
    induction pieces with
    | nil => rfl
    | cons piece pieces ih =>
        rw [List.flatMap_cons, List.flatten_append, flatten_words, ih, List.flatten_cons, solid_append]
  replace h := congrArg List.flatten h
  rw [hflatten, hflatten] at h
  induction a generalizing b with
  | nil => exact (List.map_eq_nil_iff.1 hspacing.symm).symm
  | cons piece a ih =>
      obtain ⟨other, b, rfl⟩ : ∃ other b', b = other :: b' := by
        rcases b with _ | ⟨other, b⟩
        · cases hspacing
        · exact ⟨other, b, rfl⟩
      rw [List.map_cons, List.map_cons, List.cons.injEq] at hspacing
      obtain ⟨hfirst, hspacing⟩ := hspacing
      rw [List.flatten_cons, List.flatten_cons, solid_append, solid_append] at h
      obtain ⟨hsolid, hothers⟩ := List.append_inj h (by rw [length_solid, length_solid, hfirst])
      rw [eq_of_solid_eq hfirst hsolid, ih hspacing hothers]

/-! ## The words of what is left of a text -/

/-- A first word and others; a first word without characters is none. -/
def closed (parts : Text × List Text) : List Text := if parts.1 = [] then parts.2 else parts.1 :: parts.2

/-- What a text begins with before white space, and the words behind that. -/
def firstWord : Text → Text × List Text
  | [] => ([], [])
  | c :: text => if isSpace c then ([], closed (firstWord text)) else (c :: (firstWord text).1, (firstWord text).2)

theorem closed_nil (others : List Text) : closed ([], others) = others := rfl

theorem firstWord_of_space {c : Char} (hc : isSpace c = true) (text : Text) :
    firstWord (c :: text) = ([], closed (firstWord text)) := by
  rw [firstWord, if_pos hc]

theorem firstWord_of_not_space {c : Char} (hc : isSpace c = false) (text : Text) :
    firstWord (c :: text) = (c :: (firstWord text).1, (firstWord text).2) := by
  simp only [firstWord, hc, Bool.false_eq_true, if_false]

theorem closed_firstWord (text : Text) : closed (firstWord text) = words text := by
  obtain ⟨others, hpieces, hothers⟩ : ∃ others, text.splitOnP isSpace = (firstWord text).1 :: others ∧
      others.filter (fun word => word ≠ []) = (firstWord text).2 := by
    induction text with
    | nil => exact ⟨[], rfl, rfl⟩
    | cons c text ih =>
        obtain ⟨others, hpieces, hothers⟩ := ih
        rw [List.splitOnP_cons_eq_if_modifyHead, firstWord, hpieces]
        cases isSpace c with
        | true =>
            refine ⟨(firstWord text).1 :: others, rfl, ?_⟩
            by_cases hnil : (firstWord text).1 = [] <;> simp [closed, hnil, ← hothers]
        | false => exact ⟨others, rfl, hothers⟩
  rw [words, hpieces, closed, ← hothers]
  by_cases hnil : (firstWord text).1 = [] <;> simp [hnil]

/-- How large words are: one for each of them, and one for each of their characters. -/
def size : List Text → Nat
  | [] => 0
  | word :: texts => word.length + 1 + size texts

@[simp] theorem size_nil : size [] = 0 := rfl

@[simp] theorem size_cons (word : Text) (texts : List Text) : size (word :: texts) = word.length + 1 + size texts := rfl

@[simp] theorem size_append (a b : List Text) : size (a ++ b) = size a + size b := by
  induction a with
  | nil => simp
  | cons word a ih =>
      rw [List.cons_append, size_cons, size_cons, ih]
      omega

theorem size_congr {a b : List Text} (h : a.map List.length = b.map List.length) : size a = size b := by
  induction a generalizing b with
  | nil => rw [List.map_eq_nil_iff.1 h.symm]
  | cons word a ih =>
      obtain ⟨other, b, rfl⟩ := List.exists_cons_of_ne_nil (fun hnil => by simp [hnil] at h : b ≠ [])
      rw [List.map_cons, List.map_cons, List.cons.injEq] at h
      rw [size_cons, size_cons, h.1, ih h.2]

theorem size_closed (parts : Text × List Text) :
    size (closed parts) = parts.1.length + size parts.2 + if parts.1 = [] then 0 else 1 := by
  rw [closed]
  split
  · next hnil => simp [hnil]
  · rw [size_cons]
    omega

/-- With characters left out, both the words behind an open one and all the words are no larger, and they are the same
    where they are as large. -/
theorem firstWord_filter (p : Char → Bool) (text : Text) :
    let left := firstWord (text.filter p)
    let whole := firstWord text
    (left.1.length + size left.2 ≤ whole.1.length + size whole.2 ∧
      (left.1.length + size left.2 = whole.1.length + size whole.2 → left = whole)) ∧
    size (closed left) ≤ size (closed whole) ∧
      (size (closed left) = size (closed whole) → closed left = closed whole) := by
  induction text with
  | nil => simp [firstWord]
  | cons c text ih =>
      obtain ⟨⟨hopen, hsame⟩, hclosed, hsame'⟩ := ih
      have hleft := size_closed (firstWord (text.filter p))
      have hwhole := size_closed (firstWord text)
      rw [List.filter_cons]
      cases hc : isSpace c with
      | true =>
          cases p c with
          | true =>
              simp only [if_true, firstWord_of_space hc, closed_nil, List.length_nil, Nat.zero_add]
              exact ⟨⟨hclosed, fun h => by rw [hsame' h]⟩, hclosed, hsame'⟩
          | false =>
              simp only [Bool.false_eq_true, if_false, firstWord_of_space hc, closed_nil, List.length_nil, Nat.zero_add]
              refine ⟨⟨by omega, fun h => ?_⟩, hclosed, hsame'⟩
              -- no word is open in front of the white space that was left out
              have hopen' : (firstWord (text.filter p)).1 = [] := by
                by_contra hne
                rw [if_neg hne] at hleft
                omega
              rw [if_pos hopen'] at hleft
              have hall := hsame' (by omega)
              rw [← hall, closed, if_pos hopen', ← hopen']
      | false =>
          cases p c with
          | true =>
              simp only [if_true, firstWord_of_not_space hc, size_closed, List.length_cons, reduceCtorEq, if_false]
              refine ⟨⟨by omega, fun h => ?_⟩, by omega, fun h => ?_⟩
              · rw [hsame (by omega)]
              · rw [hsame (by omega)]
          | false =>
              simp only [Bool.false_eq_true, if_false, firstWord_of_not_space hc, size_closed, List.length_cons,
                reduceCtorEq] at hclosed ⊢
              refine ⟨⟨by omega, fun h => by omega⟩, ?_, fun h => ?_⟩
              · split at hclosed <;> split at hclosed <;> split <;> omega
              · exfalso
                split at hclosed <;> split at hclosed <;> split at h <;> omega

theorem size_words_filter (p : Char → Bool) (text : Text) : size (words (text.filter p)) ≤ size (words text) := by
  rw [← closed_firstWord, ← closed_firstWord]
  exact (firstWord_filter p text).2.1

/-- Where characters can be left out and the words are as large, they are the same. -/
theorem words_filter (p : Char → Bool) (text : Text) (h : size (words text) ≤ size (words (text.filter p))) :
    words (text.filter p) = words text := by
  have heq := Nat.le_antisymm (size_words_filter p text) h
  rw [← closed_firstWord, ← closed_firstWord] at heq ⊢
  exact (firstWord_filter p text).2.2 heq

theorem words_eq_nil_iff {text : Text} : words text = [] ↔ strip text = [] := by
  constructor
  · intro h
    have hsolid : solid text = [] := by rw [← flatten_words, h, List.flatten_nil]
    have hall : ∀ c ∈ text, isSpace c = true := by simpa [solid, List.filter_eq_nil_iff] using hsolid
    have hstrip := strip_append_left hall []
    rwa [List.append_nil] at hstrip
  · intro h
    rw [← words_strip, h, words_nil]

end PyText
