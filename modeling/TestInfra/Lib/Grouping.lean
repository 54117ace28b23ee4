import Mathlib.Data.List.Dedup
import Mathlib.Data.List.Induction

set_option autoImplicit false

/-! # Grouping by a key

Each item goes into the first group with its key, or into a new group at the end (`Grouping.put`). The groups are
then those of the keys, in the order of their first items, and each has been given the items with its key, in their
order (`Grouping.foldl_put`). -/

namespace Grouping

variable {α γ κ : Type*} [DecidableEq κ]

/-! ## Keys in the order of their first occurrence -/

/-- The keys without the later occurrences. -/
def firsts (keys : List κ) : List κ := keys.reverse.dedup.reverse

@[simp] theorem mem_firsts {keys : List κ} {k : κ} : k ∈ firsts keys ↔ k ∈ keys := by
  rw [firsts, List.mem_reverse, List.mem_dedup, List.mem_reverse]

theorem nodup_firsts (keys : List κ) : (firsts keys).Nodup := List.nodup_reverse.2 (List.nodup_dedup _)

theorem firsts_concat (keys : List κ) (k : κ) :
    firsts (keys ++ [k]) = if k ∈ keys then firsts keys else firsts keys ++ [k] := by
  rw [firsts, List.reverse_concat, List.dedup_cons]
  by_cases hk : k ∈ keys
  · rw [if_pos hk, if_pos (List.mem_reverse.2 hk), firsts]
  · rw [if_neg hk, if_neg (mt List.mem_reverse.1 hk), List.reverse_cons, firsts]

/-- A longer list begins with the same keys. -/
theorem firsts_isPrefix_append (keys more : List κ) : firsts keys <+: firsts (keys ++ more) := by
  induction more using List.reverseRecOn with
  | nil => exact (List.append_nil keys).symm ▸ List.prefix_rfl
  | append_singleton more k ih =>
      rw [← List.append_assoc, firsts_concat]
      split
      · exact ih
      · exact ih.trans (List.prefix_append _ _)

/-! ## Groups -/

/-- Change the first group called `k`, or a new one that comes last. -/
def put (name : γ → κ) (k : κ) (new : γ) (change : γ → γ) : List γ → List γ
  | [] => [change new]
  | g :: rest => if name g = k then change g :: rest else g :: put name k new change rest

variable {name : γ → κ} {k : κ} {new : γ} {change : γ → γ}

theorem put_of_forall_ne {groups : List γ} (h : ∀ g ∈ groups, name g ≠ k) :
    put name k new change groups = groups ++ [change new] := by
  induction groups with
  | nil => rfl
  | cons g rest ih =>
      rw [put, if_neg (h g List.mem_cons_self), ih fun g hg => h g (List.mem_cons_of_mem _ hg)]
      rfl

/-- Among groups with names of their own the one called `k` is changed. -/
theorem put_map {group : κ → γ} (hgroup : ∀ j, name (group j) = j) {keys : List κ} (hnod : keys.Nodup)
    (hk : k ∈ keys) :
    put name k new change (keys.map group) = keys.map fun j => if j = k then change (group j) else group j := by
  induction keys with
  | nil => cases hk
  | cons j rest ih =>
      rw [List.nodup_cons] at hnod
      rw [List.map_cons, List.map_cons, put, hgroup]
      by_cases hj : j = k
      · subst hj
        rw [if_pos rfl, if_pos rfl]
        congr 1
        apply List.map_congr_left
        intro i hi
        have hij : i ≠ j := fun heq => hnod.1 (heq ▸ hi)
        rw [if_neg hij]
      · have hrest : k ∈ rest := (List.mem_cons.1 hk).resolve_left (Ne.symm hj)
        rw [if_neg hj, if_neg hj, ih hnod.2 hrest]

variable {key : α → κ} {empty : κ → γ} {add : γ → α → γ}

/-- The items with this key, in their order. -/
def withKey (key : α → κ) (k : κ) (items : List α) : List α := items.filter fun x => key x = k

theorem withKey_append (key : α → κ) (k : κ) (items more : List α) :
    withKey key k (items ++ more) = withKey key k items ++ withKey key k more := List.filter_append _ _

theorem withKey_singleton (key : α → κ) (k : κ) (x : α) : withKey key k [x] = if key x = k then [x] else [] := by
  by_cases h : key x = k <;> simp [withKey, h]

theorem withKey_eq_nil {items : List α} (h : k ∉ items.map key) : withKey key k items = [] := by
  rw [withKey, List.filter_eq_nil_iff]
  intro x hx hkey
  exact h (List.mem_map.2 ⟨x, hx, of_decide_eq_true hkey⟩)

omit [DecidableEq κ] in
/-- What stays the same when an item is added stays the same when all are. -/
theorem name_foldl_add (hadd : ∀ g x, name (add g x) = name g) (items : List α) (g : γ) :
    name (items.foldl add g) = name g := by
  induction items generalizing g with
  | nil => rfl
  | cons x rest ih => rw [List.foldl_cons, ih, hadd]

/-- Every key has one group, and it has been given the items with the key. -/
theorem foldl_put (hempty : ∀ k, name (empty k) = k) (hadd : ∀ g x, name (add g x) = name g) (items : List α) :
    items.foldl (fun groups x => put name (key x) (empty (key x)) (add · x) groups) []
      = (firsts (items.map key)).map fun k => (withKey key k items).foldl add (empty k) := by
  induction items using List.reverseRecOn with
  | nil => rfl
  | append_singleton items x ih =>
      have hgroup : ∀ k, name ((withKey key k items).foldl add (empty k)) = k := fun k => by
        rw [name_foldl_add hadd, hempty]
      rw [List.foldl_concat, ih, List.map_append, List.map_singleton, firsts_concat]
      by_cases hx : key x ∈ items.map key
      · rw [if_pos hx, put_map hgroup (nodup_firsts _) (mem_firsts.2 hx)]
        apply List.map_congr_left
        intro k _
        rw [withKey_append, withKey_singleton, List.foldl_append]
        by_cases hk : k = key x
        · rw [if_pos hk, if_pos hk.symm]
          rfl
        · rw [if_neg hk, if_neg (Ne.symm hk)]
          rfl
      · have hne : ∀ g ∈ (firsts (items.map key)).map fun k => (withKey key k items).foldl add (empty k),
            name g ≠ key x := by
          intro g hg hname
          obtain ⟨k, hk, rfl⟩ := List.mem_map.1 hg
          rw [hgroup] at hname
          exact hx (hname ▸ mem_firsts.1 hk)
        rw [if_neg hx, put_of_forall_ne hne, List.map_append, List.map_singleton]
        congr 1
        · apply List.map_congr_left
          intro k hk
          have hkx : key x ≠ k := fun heq => hx (heq ▸ mem_firsts.1 hk)
          rw [withKey_append, withKey_singleton, if_neg hkx, List.append_nil]
        · rw [withKey_append, withKey_singleton, if_pos rfl, withKey_eq_nil hx]
          rfl

end Grouping
