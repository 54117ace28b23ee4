import TestInfra.Lib.Fuel
import Mathlib.Data.List.Infix

set_option autoImplicit false

/-! # Backtracking patterns

The part of Python's `re` that splitting a text needs: a pattern is matched from a position with its
alternatives tried in order (the greedy one first), the first position where it matches wins, and `split`
returns what stands between the matches together with the groups. Only patterns that consume something are
meant here: `search` does not look for a match of the empty text. -/

/-- Patterns over characters `α`. -/
inductive Regex (α : Type*) where
  /-- One character of the class. -/
  | one (p : α → Bool)
  /-- `[..]?`: a character of the class, or nothing when the rest cannot follow it. -/
  | opt (p : α → Bool)
  /-- `[..]+`: as many characters of the class as let the rest follow, one at least. -/
  | many (p : α → Bool)
  /-- `(..)`. -/
  | group (r : Regex α)
  | seq (r s : Regex α)

namespace Regex

variable {α β : Type*}

/-- What the rest of a pattern makes of the groups so far and the text that is left. -/
abbrev Cont (α β : Type*) := List (List α) → List α → Option β

/-- `[..]+`, the longest run first. -/
def runMany (p : α → Bool) (k : Cont α β) (groups : List (List α)) : List α → Option β
  | [] => none
  | c :: text => if p c then (runMany p k groups text).or (k groups text) else none

/-- Match the pattern at the start of the text and go on with `k`. -/
def run : Regex α → Cont α β → Cont α β
  | one p, k, groups, text =>
      match text with
      | [] => none
      | c :: rest => if p c then k groups rest else none
  | opt p, k, groups, text =>
      match text with
      | [] => k groups []
      | c :: rest => if p c then (k groups rest).or (k groups (c :: rest)) else k groups (c :: rest)
  | many p, k, groups, text => runMany p k groups text
  | group r, k, groups, text =>
      -- groups are numbered by where they open, so the ones inside come after this one
      run r (fun inner rest =>
        k (groups ++ [text.take (text.length - rest.length)] ++ inner.drop groups.length) rest) groups text
  | seq r s, k, groups, text => run r (run s k) groups text

/-- `re.match`: the groups and what is left of the text. -/
def matchAt (r : Regex α) (text : List α) : Option (List (List α) × List α) :=
  run r (fun groups rest => some (groups, rest)) [] text

/-- `re.search`: what stands before the first match, its groups and what is left. -/
def search (r : Regex α) : List α → Option (List α × List (List α) × List α)
  | [] => none
  | c :: text =>
      match matchAt r (c :: text) with
      | some (groups, rest) => some ([], groups, rest)
      | none => (search r text).map fun found => (c :: found.1, found.2)

/-- `re.split` with at most so many matches. -/
def splitMost (r : Regex α) : Nat → List α → List (List α)
  | 0, text => [text]
  | n + 1, text =>
      match search r text with
      | none => [text]
      | some (before, groups, rest) => before :: groups ++ splitMost r n rest

/-- `re.split`. -/
def split (r : Regex α) (text : List α) : List (List α) := splitMost r text.length text

/-! ## Matching -/

/-- A run that nothing inside the class may follow is taken whole. -/
theorem runMany_of_blocked {p : α → Bool} {k : Cont α β} {groups : List (List α)}
    (hk : ∀ c rest, p c = true → k groups (c :: rest) = none) (text : List α) :
    runMany p k groups text
      = if text.takeWhile p = [] then none else k groups (text.dropWhile p) := by
  induction text with
  | nil => rfl
  | cons c text ih =>
      rw [runMany]
      by_cases hc : p c = true
      · rw [if_pos hc, List.takeWhile_cons_of_pos hc, List.dropWhile_cons_of_pos hc, ih,
          if_neg (List.cons_ne_nil _ _)]
        rcases text with _ | ⟨d, text⟩
        · rfl
        · by_cases hd : p d = true
          · rw [List.takeWhile_cons_of_pos hd, if_neg (List.cons_ne_nil _ _), hk d text hd, Option.or_none]
          · rw [List.takeWhile_cons_of_neg hd, if_pos rfl, List.dropWhile_cons_of_neg hd, Option.none_or]
      · rw [if_neg hc, List.takeWhile_cons_of_neg hc, if_pos rfl]

theorem run_opt_cons (p : α → Bool) (k : Cont α β) (groups : List (List α)) (c : α) (rest : List α) :
    run (.opt p) k groups (c :: rest)
      = if p c then (k groups rest).or (k groups (c :: rest)) else k groups (c :: rest) := rfl

/-- A captured run that nothing inside the class may follow. -/
theorem run_group_many {p : α → Bool} {k : Cont α β}
    (hk : ∀ groups c rest, p c = true → k groups (c :: rest) = none) (groups : List (List α))
    (text : List α) :
    run (.group (.many p)) k groups text
      = if text.takeWhile p = [] then none else k (groups ++ [text.takeWhile p]) (text.dropWhile p) := by
  have hlen : text.length = (text.takeWhile p).length + (text.dropWhile p).length := by
    rw [← List.length_append, List.takeWhile_append_dropWhile]
  have htake : text.take (text.length - (text.dropWhile p).length) = text.takeWhile p := by
    rw [hlen, Nat.add_sub_cancel]
    exact List.prefix_iff_eq_take.1 (List.takeWhile_prefix p) |>.symm
  rw [run, run, runMany_of_blocked]
  · rw [htake, List.drop_length, List.append_nil]
  · intro c rest hc
    exact hk _ c rest hc

/-! ## Searching and splitting -/

/-- Every match of the pattern consumes something. -/
def Consumes (r : Regex α) : Prop :=
  ∀ text groups rest, matchAt r text = some (groups, rest) → rest.length < text.length

/-- No match starts inside `before` when `text` follows it. -/
def Skips (r : Regex α) (before text : List α) : Prop :=
  ∀ s, s ≠ [] → s <:+ before → matchAt r (s ++ text) = none

theorem Skips.tail {r : Regex α} {c : α} {before text : List α} (h : Skips r (c :: before) text) :
    Skips r before text := by
  intro s hs hsuffix
  exact h s hs (hsuffix.trans (List.suffix_cons c before))

theorem search_of_match {r : Regex α} {before text : List α} {groups : List (List α)} {rest : List α}
    (hskip : Skips r before text) (hne : text ≠ []) (hmatch : matchAt r text = some (groups, rest)) :
    search r (before ++ text) = some (before, groups, rest) := by
  induction before with
  | nil =>
      obtain ⟨c, text, rfl⟩ := List.exists_cons_of_ne_nil hne
      rw [List.nil_append, search, hmatch]
  | cons c before ih =>
      have hhead : matchAt r (c :: (before ++ text)) = none :=
        hskip (c :: before) (List.cons_ne_nil _ _) List.suffix_rfl
      rw [List.cons_append, search, hhead, ih hskip.tail]
      rfl

theorem search_of_skips {r : Regex α} {text : List α} (hskip : Skips r text []) :
    search r text = none := by
  induction text with
  | nil => rfl
  | cons c text ih =>
      have hhead : matchAt r (c :: text) = none := by
        rw [← List.append_nil (c :: text)]
        exact hskip (c :: text) (List.cons_ne_nil _ _) List.suffix_rfl
      rw [search, hhead, ih hskip.tail]
      rfl

theorem length_search {r : Regex α} (hr : Consumes r) {text before rest : List α}
    {groups : List (List α)} (h : search r text = some (before, groups, rest)) :
    rest.length < text.length := by
  induction text generalizing before with
  | nil => cases h
  | cons c text ih =>
      rw [search] at h
      split at h
      · next groups' rest' hmatch =>
          cases h
          exact hr _ _ _ hmatch
      · obtain ⟨⟨before', found⟩, hsearch, hfound⟩ := Option.map_eq_some_iff.1 h
        cases hfound
        exact Nat.lt_succ_of_lt (ih hsearch)

/-- More matches than characters are never needed. -/
theorem splitMost_eq {r : Regex α} (hr : Consumes r) {n : ℕ} {text : List α} (hn : text.length ≤ n) :
    splitMost r n text = split r text := by
  refine Fuel.eq_length ?_ ?_ hn
  · intro n
    rcases n with _ | n
    · rfl
    · rfl
  · intro n m text hrest
    rw [splitMost, splitMost]
    rcases hsearch : search r text with _ | ⟨before, groups, rest⟩
    · rfl
    · dsimp only
      rw [hrest rest (length_search hr hsearch)]

/-- `re.split`, match by match. -/
theorem split_eq {r : Regex α} (hr : Consumes r) (text : List α) :
    split r text = match search r text with
      | none => [text]
      | some (before, groups, rest) => before :: groups ++ split r rest := by
  rw [← splitMost_eq hr (Nat.le_succ text.length), splitMost]
  cases hsearch : search r text with
  | none => rfl
  | some found =>
      obtain ⟨before, groups, rest⟩ := found
      have hrest := length_search hr hsearch
      simp only [splitMost_eq hr (Nat.le_of_lt hrest)]

end Regex
