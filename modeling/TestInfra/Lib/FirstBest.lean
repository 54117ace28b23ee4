import Mathlib.Order.Lattice
import Mathlib.Data.List.Induction

set_option autoImplicit false

/-! # The first of the best items

Whoever goes through a list and keeps an item until one of a higher rank comes ends with the first of those with the
highest rank. `kept` is what is kept when the item at hand is judged by something else than its rank, and
`kept_eq_some_iff` says which item that is. -/

namespace FirstBest

variable {ρ β : Type*} [LinearOrder β] (rank : ρ → β)

/-- The item has the highest rank, and none before it has. -/
def IsFirstBest (items : List ρ) (item : ρ) : Prop :=
  ∃ before after, items = before ++ item :: after ∧ (∀ x ∈ before, rank x < rank item) ∧
    ∀ x ∈ after, rank x ≤ rank item

/-- What is at hand after one more item: the new one if its rank is above what is seen of the one at hand. -/
def keep (seen : ρ → β) : Option ρ → ρ → Option ρ
  | none, item => some item
  | some stored, item => if seen stored < rank item then some item else some stored

def kept (seen : ρ → β) (items : List ρ) : Option ρ := items.foldl (keep rank seen) none

variable {rank} {seen : ρ → β} {items : List ρ} {item : ρ}

theorem kept_append (items more : List ρ) :
    kept rank seen (items ++ more) = more.foldl (keep rank seen) (kept rank seen items) := List.foldl_append ..

theorem kept_concat (items : List ρ) (item : ρ) :
    kept rank seen (items ++ [item]) = keep rank seen (kept rank seen items) item := kept_append ..

/-- An item stays while nothing above it comes. -/
theorem foldl_keep_of_le {more : List ρ} (h : ∀ x ∈ more, rank x ≤ seen item) :
    more.foldl (keep rank seen) (some item) = some item := by
  induction more with
  | nil => rfl
  | cons x more ih =>
      rw [List.forall_mem_cons] at h
      rw [List.foldl_cons, keep, if_neg (not_lt.2 h.1)]
      exact ih h.2

/-- The item kept was above the one at hand when it came, and nothing above it came later. -/
theorem kept_eq_some_iff :
    kept rank seen items = some item ↔ ∃ before after, items = before ++ item :: after ∧
      (∀ stored ∈ kept rank seen before, seen stored < rank item) ∧ ∀ x ∈ after, rank x ≤ seen item := by
  constructor
  · intro h
    induction items using List.reverseRecOn with
    | nil => cases h
    | append_singleton items x ih =>
        rw [kept_concat] at h
        have hnew : (∀ stored ∈ kept rank seen items, seen stored < rank x) → x = item →
            ∃ before after, items ++ [x] = before ++ item :: after ∧
              (∀ stored ∈ kept rank seen before, seen stored < rank item) ∧ ∀ y ∈ after, rank y ≤ seen item := by
          rintro hbefore rfl
          exact ⟨items, [], rfl, hbefore, by simp⟩
        cases hkept : kept rank seen items with
        | none =>
            rw [hkept] at h hnew
            exact hnew (by simp) (Option.some.inj h)
        | some stored =>
            rw [hkept, keep] at h
            split at h
            · next hlt => exact hnew (by simpa [hkept] using hlt) (Option.some.inj h)
            · next hle =>
                obtain ⟨before, after, heq, hbefore, hafter⟩ := ih (hkept.trans h)
                refine ⟨before, after ++ [x], by rw [heq]; simp, hbefore, ?_⟩
                obtain rfl := Option.some.inj h
                simpa [or_imp, forall_and] using ⟨hafter, not_lt.1 hle⟩
  · rintro ⟨before, after, rfl, hbefore, hafter⟩
    rw [kept_append, List.foldl_cons]
    have hitem : keep rank seen (kept rank seen before) item = some item := by
      cases hkept : kept rank seen before with
      | none => rfl
      | some stored => rw [keep, if_pos (hbefore stored hkept)]
    rw [hitem, foldl_keep_of_le hafter]

theorem mem_of_kept (h : kept rank seen items = some item) : item ∈ items := by
  obtain ⟨before, after, rfl, -⟩ := kept_eq_some_iff.1 h
  simp

/-- Something is kept of some items. -/
theorem exists_kept (rank seen : ρ → β) (h : items ≠ []) : ∃ item, kept rank seen items = some item := by
  induction items using List.reverseRecOn with
  | nil => exact absurd rfl h
  | append_singleton items last _ =>
      rw [kept_concat]
      cases kept rank seen items with
      | none => exact ⟨last, rfl⟩
      | some stored =>
          rw [keep]
          split
          · exact ⟨last, rfl⟩
          · exact ⟨stored, rfl⟩

/-- Where the rank itself is seen, no item is above the one kept. -/
theorem le_of_kept (h : kept rank rank items = some item) {x : ρ} (hx : x ∈ items) : rank x ≤ rank item := by
  induction items using List.reverseRecOn generalizing item with
  | nil => cases h
  | append_singleton items last ih =>
      rw [kept_concat] at h
      rw [List.mem_append, List.mem_singleton] at hx
      cases hkept : kept rank rank items with
      | none =>
          have hnil : items = [] := by
            by_contra hne
            obtain ⟨stored, hstored⟩ := exists_kept rank rank hne
            rw [hkept] at hstored
            cases hstored
          rw [hkept, keep, Option.some.injEq] at h
          simp [hnil] at hx
          rw [hx, h]
      | some stored =>
          rw [hkept, keep] at h
          split at h <;> obtain rfl := Option.some.inj h
          · next hlt =>
              rcases hx with hx | rfl
              · exact le_of_lt (lt_of_le_of_lt (ih hkept hx) hlt)
              · exact le_refl _
          · next hle =>
              rcases hx with hx | rfl
              · exact ih hkept hx
              · exact not_lt.1 hle

/-- Where the rank itself is seen, the first of the best items is kept. -/
theorem kept_rank_eq_some_iff : kept rank rank items = some item ↔ IsFirstBest rank items item := by
  rw [kept_eq_some_iff]
  refine exists_congr fun before => exists_congr fun after => and_congr_right fun _ => and_congr_left' ?_
  constructor
  · intro h x hx
    obtain ⟨stored, hstored⟩ := exists_kept rank rank (List.ne_nil_of_mem hx)
    exact lt_of_le_of_lt (le_of_kept hstored hx) (h stored hstored)
  · exact fun h stored hstored => h stored (mem_of_kept hstored)

end FirstBest
