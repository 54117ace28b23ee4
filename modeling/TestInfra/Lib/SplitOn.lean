import Mathlib.Data.List.Basic

set_option autoImplicit false

/-! # Cutting a list at a separator, piece by piece

`(a ++ b).splitOn x` from the pieces of `a` and of `b`: the last piece of `a` and the first of `b` are one
piece. A stream that is read in parts can be split part by part, as long as the last piece is kept back. -/

namespace SplitOn

variable {α : Type*} [BEq α]

/-- The pieces of `a`: the last one, which holds no separator, and those before it. -/
structure Pieces (x : α) (a : List α) (init : List (List α)) (last : List α) : Prop where
  splitOn_eq : a.splitOn x = init ++ [last]
  last_whole : last.splitOn x = [last]

theorem exists_pieces (x : α) (a : List α) : ∃ init last, Pieces x a init last := by
  induction a with
  | nil => exact ⟨[], [], List.splitOn_nil x, List.splitOn_nil x⟩
  | cons c rest ih =>
      obtain ⟨init, last, hrest, hlast⟩ := ih
      by_cases hc : c == x
      · refine ⟨[] :: init, last, ?_, hlast⟩
        rw [List.splitOn_cons_eq_if_modifyHead, if_pos hc, hrest]
        rfl
      · cases init with
        | nil =>
            refine ⟨[], c :: last, ?_, ?_⟩
            · rw [List.splitOn_cons_eq_if_modifyHead, if_neg hc, hrest]
              rfl
            · rw [List.splitOn_cons_eq_if_modifyHead, if_neg hc, hlast]
              rfl
        | cons first init =>
            refine ⟨(c :: first) :: init, last, ?_, hlast⟩
            rw [List.splitOn_cons_eq_if_modifyHead, if_neg hc, hrest]
            rfl

/-- The pieces of `a ++ b`. -/
theorem Pieces.append {x : α} {a : List α} {init : List (List α)} {last : List α}
    (h : Pieces x a init last) {b first : List α} {others : List (List α)}
    (hb : b.splitOn x = first :: others) : (a ++ b).splitOn x = init ++ (last ++ first) :: others := by
  obtain ⟨h, -⟩ := h
  induction a generalizing init last with
  | nil =>
      rw [List.splitOn_nil] at h
      cases init with
      | nil =>
          cases h
          exact hb
      | cons _ init => simp at h
  | cons c rest ih =>
      obtain ⟨init', last', hrest, -⟩ := exists_pieces x rest
      have hglued := ih hrest
      rw [List.splitOn_cons_eq_if_modifyHead, hrest] at h
      rw [List.cons_append, List.splitOn_cons_eq_if_modifyHead, hglued]
      by_cases hc : c == x
      · rw [if_pos hc] at h ⊢
        have heq : ([] :: init') ++ [last'] = init ++ [last] := h
        obtain ⟨rfl, hl⟩ := List.append_inj' heq rfl
        cases hl
        rfl
      · rw [if_neg hc] at h ⊢
        cases init' with
        | nil =>
            have heq : [] ++ [c :: last'] = init ++ [last] := h
            obtain ⟨rfl, hl⟩ := List.append_inj' heq rfl
            cases hl
            rfl
        | cons piece init' =>
            have heq : ((c :: piece) :: init') ++ [last'] = init ++ [last] := h
            obtain ⟨rfl, hl⟩ := List.append_inj' heq rfl
            cases hl
            rfl

/-- A list without a separator is its own only piece. -/
theorem pieces_of_whole {x : α} {a : List α} (h : a.splitOn x = [a]) : Pieces x a [] a := ⟨h, h⟩

/-- There is one piece more than there are separators. -/
theorem length_splitOn (x : α) (a : List α) : (a.splitOn x).length = a.count x + 1 := by
  induction a with
  | nil => rfl
  | cons c rest ih =>
      rw [List.splitOn_cons_eq_if_modifyHead, List.count_cons]
      split
      · rw [List.length_cons, ih]
      · rw [List.length_modifyHead, ih, Nat.add_zero]

/-- No piece holds the separator. -/
theorem not_mem_of_mem_splitOn [LawfulBEq α] {x : α} {a piece : List α} (h : piece ∈ a.splitOn x) : x ∉ piece := by
  induction a generalizing piece with
  | nil =>
      rw [List.splitOn_nil, List.mem_singleton] at h
      rw [h]
      exact List.not_mem_nil
  | cons c rest ih =>
      rw [List.splitOn_cons_eq_if_modifyHead] at h
      split at h
      · rcases List.mem_cons.1 h with rfl | h
        · exact List.not_mem_nil
        · exact ih h
      · next hc =>
          obtain ⟨first, others, hrest⟩ := List.exists_cons_of_ne_nil (List.splitOn_ne_nil x rest)
          rw [hrest] at ih
          rw [hrest, List.modifyHead_cons] at h
          rcases List.mem_cons.1 h with rfl | h
          · rw [List.mem_cons, not_or]
            exact ⟨fun heq => hc (by simp [heq]), ih List.mem_cons_self⟩
          · exact ih (List.mem_cons_of_mem _ h)

/-- Splitting after a function that makes separators of separators and of nothing else. -/
theorem splitOn_map {β : Type*} [BEq β] {f : α → β} {x : α} {y : β} (h : ∀ c, (f c == y) = (c == x)) (a : List α) :
    (a.map f).splitOn y = (a.splitOn x).map (List.map f) := by
  induction a with
  | nil => rfl
  | cons c rest ih =>
      obtain ⟨first, others, hrest⟩ := List.exists_cons_of_ne_nil (List.splitOn_ne_nil x rest)
      rw [List.map_cons, List.splitOn_cons_eq_if_modifyHead, List.splitOn_cons_eq_if_modifyHead, ih, h c, hrest]
      cases c == x <;> rfl

omit [BEq α] in
/-- A list with its separators written in another way: the pieces, joined again. -/
theorem intercalate_map_splitOnP {β : Type*} (p : α → Bool) (f : α → List β) (sep : List β) (a : List α) :
    List.intercalate sep ((a.splitOnP p).map fun piece => piece.flatMap f)
      = a.flatMap fun c => if p c then sep else f c := by
  induction a with
  | nil => rfl
  | cons c rest ih =>
      obtain ⟨first, others, hrest⟩ := List.exists_cons_of_ne_nil (List.splitOnP_ne_nil p rest)
      rw [hrest] at ih
      rw [List.splitOnP_cons_eq_if_modifyHead, hrest, List.flatMap_cons]
      by_cases hc : p c
      · rw [if_pos hc, if_pos hc, ← ih]
        simp
      · rw [if_neg hc, if_neg hc, ← ih, List.modifyHead_cons, List.map_cons, List.flatMap_cons]
        cases others <;> simp

end SplitOn
