import Mathlib.Data.List.Forall2

set_option autoImplicit false

/-! # Items met in order

A list that goes by meets the wanted items in order when it has items related to them in that order
(`List.SublistForall₂`). Whoever waits for the first item not met yet, and for the next one when it has come, has
met as many as there can be: `Next` says which item is waited for after a part of the list, and what one more item
of the list does to it. -/

namespace InOrder

open List

variable {α β : Type*} {R : α → β → Prop} {wanted before after : List α} {want : α} {seen : List β} {item : β}

theorem reverse_iff (wanted : List α) (seen : List β) :
    SublistForall₂ R wanted.reverse seen.reverse ↔ SublistForall₂ R wanted seen := by
  have himp : ∀ {wanted : List α} {seen : List β}, SublistForall₂ R wanted seen →
      SublistForall₂ R wanted.reverse seen.reverse := by
    intro wanted seen h
    obtain ⟨l, hl, hsub⟩ := sublistForall₂_iff.1 h
    exact sublistForall₂_iff.2 ⟨l.reverse, forall₂_reverse_iff.2 hl, hsub.reverse⟩
  refine ⟨?_, himp⟩
  intro h
  have h := himp h
  rwa [reverse_reverse, reverse_reverse] at h

theorem cons_cons_iff :
    SublistForall₂ R (want :: wanted) (item :: seen)
      ↔ (R want item ∧ SublistForall₂ R wanted seen) ∨ SublistForall₂ R (want :: wanted) seen := by
  constructor
  · intro h
    rcases h with _ | ⟨hitem, hrest⟩ | hrest
    · exact .inl ⟨hitem, hrest⟩
    · exact .inr hrest
  · rintro (⟨hitem, hrest⟩ | hrest)
    · exact .cons hitem hrest
    · exact .cons_right hrest

/-- The last wanted item is met by the last item of the list, or before it. -/
theorem concat_concat_iff :
    SublistForall₂ R (wanted ++ [want]) (seen ++ [item])
      ↔ (R want item ∧ SublistForall₂ R wanted seen) ∨ SublistForall₂ R (wanted ++ [want]) seen := by
  rw [← reverse_iff (wanted ++ [want]) (seen ++ [item]), ← reverse_iff wanted, ← reverse_iff (wanted ++ [want]) seen,
    reverse_append, reverse_append, reverse_singleton, reverse_singleton, singleton_append, singleton_append,
    cons_cons_iff]

/-- What is met is met for every relation that holds there. -/
theorem imp {S : α → β → Prop} (h : SublistForall₂ R wanted seen)
    (himp : ∀ want ∈ wanted, ∀ item ∈ seen, R want item → S want item) : SublistForall₂ S wanted seen := by
  induction h with
  | nil => exact .nil
  | cons hitem _ ih =>
      rw [List.forall_mem_cons] at himp
      refine .cons (himp.1 _ List.mem_cons_self hitem) (ih ?_)
      exact fun want hwant item hmem => himp.2 want hwant item (List.mem_cons_of_mem _ hmem)
  | cons_right _ ih =>
      exact .cons_right (ih fun want hwant item hmem => himp want hwant item (List.mem_cons_of_mem _ hmem))

/-- What has been met stays met. -/
theorem append_right (h : SublistForall₂ R wanted seen) (more : List β) : SublistForall₂ R wanted (seen ++ more) := by
  obtain ⟨l, hl, hsub⟩ := sublistForall₂_iff.1 h
  exact sublistForall₂_iff.2 ⟨l, hl, hsub.trans (sublist_append_left seen more)⟩

theorem of_append_left {more : List α} (h : SublistForall₂ R (wanted ++ more) seen) : SublistForall₂ R wanted seen := by
  obtain ⟨l, hl, hsub⟩ := sublistForall₂_iff.1 h
  refine sublistForall₂_iff.2 ⟨l.take wanted.length, ?_, (take_sublist _ _).trans hsub⟩
  exact forall₂_take_append l wanted more (hl.flip.imp fun _ _ h => h) |>.flip

/-- The items before `want` have been met, and `want` has not. -/
structure Next (R : α → β → Prop) (before : List α) (want : α) (seen : List β) : Prop where
  met : SublistForall₂ R before seen
  waiting : ¬ SublistForall₂ R (before ++ [want]) seen

theorem next_nil (want : α) : Next R [] want ([] : List β) :=
  ⟨.nil, fun h => by cases h⟩

/-- Any other item is passed over. -/
theorem Next.miss (h : Next R before want seen) (hitem : ¬ R want item) : Next R before want (seen ++ [item]) := by
  refine ⟨append_right h.met _, ?_⟩
  intro hmet
  rcases concat_concat_iff.1 hmet with ⟨hitem', -⟩ | hmet
  · exact hitem hitem'
  · exact h.waiting hmet

theorem Next.met_of_hit (h : Next R before want seen) (hitem : R want item) :
    SublistForall₂ R (before ++ [want]) (seen ++ [item]) := concat_concat_iff.2 (.inl ⟨hitem, h.met⟩)

/-- When the item has come, the next one is waited for. -/
theorem Next.hit (h : Next R before want seen) (hitem : R want item) (next : α) :
    Next R (before ++ [want]) next (seen ++ [item]) := by
  refine ⟨h.met_of_hit hitem, ?_⟩
  intro hmet
  rcases concat_concat_iff.1 hmet with ⟨-, hmet⟩ | hmet
  · exact h.waiting hmet
  · exact h.waiting (of_append_left hmet)

/-- While an item is waited for, not all have been met. -/
theorem Next.not_all (h : Next R before want seen) (after : List α) :
    ¬ SublistForall₂ R (before ++ want :: after) seen := by
  rw [append_cons]
  exact fun hmet => h.waiting (of_append_left hmet)

/-- Only one item is waited for. -/
theorem Next.unique {before' after' : List α} {want' : α} (h : Next R before want seen)
    (h' : Next R before' want' seen) (heq : before ++ want :: after = before' ++ want' :: after') :
    before = before' ∧ want = want' := by
  rcases append_eq_append_iff.1 heq with ⟨as, rfl, hwant⟩ | ⟨as, rfl, hwant⟩
  · rcases as with _ | ⟨a, as⟩
    · exact ⟨(append_nil before).symm, (cons.inj hwant).1⟩
    · obtain rfl : want = a := (cons.inj hwant).1
      exact absurd h'.met (h.not_all as)
  · rcases as with _ | ⟨a, as⟩
    · exact ⟨append_nil before', (cons.inj hwant).1.symm⟩
    · obtain rfl : want' = a := (cons.inj hwant).1
      exact absurd h.met (h'.not_all as)

end InOrder
