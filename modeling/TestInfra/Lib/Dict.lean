import Mathlib.Data.List.Nodup
import Mathlib.Tactic.Abel

set_option autoImplicit false

/-! # Insertion-ordered dictionaries

`Dict κ ν` is the finite map with one entry per key that remembers the order in which the keys were
first stored, as a Python `dict` does: storing under a present key overwrites the value **in
place**, storing under a new key appends, deleting closes the gap. The key-uniqueness invariant is a
field, so every map that can be built has it.

Everything a client needs is stated through two observers: `get?` (the map) and `keys` (its domain,
in order). `entries` is only inspected here. -/

/-! ## Association lists -/

namespace Assoc

variable {κ ν : Type*} [DecidableEq κ]

/-- The value stored under `k`. -/
def find (k : κ) : List (κ × ν) → Option ν
  | [] => none
  | (k', v) :: rest => if k' = k then some v else find k rest

/-- Store `v` under `k`: in place when `k` is present, at the end otherwise. -/
def store (k : κ) (v : ν) : List (κ × ν) → List (κ × ν)
  | [] => [(k, v)]
  | (k', v') :: rest => if k' = k then (k', v) :: rest else (k', v') :: store k v rest

theorem find_store (k : κ) (v : ν) (l : List (κ × ν)) (j : κ) :
    find j (store k v l) = if j = k then some v else find j l := by
  induction l with
  | nil => simp only [store, find, eq_comm]
  | cons e rest ih =>
      obtain ⟨k', v'⟩ := e
      simp only [store]
      by_cases hk : k' = k
      · subst hk
        by_cases hj : j = k'
        · simp [find, hj]
        · simp [find, hj, Ne.symm hj]
      · by_cases hj : k' = j
        · subst hj; simp [find, hk]
        · simp [find, hk, hj, ih]

theorem map_fst_store (k : κ) (v : ν) (l : List (κ × ν)) :
    (store k v l).map Prod.fst
      = if k ∈ l.map Prod.fst then l.map Prod.fst else l.map Prod.fst ++ [k] := by
  induction l with
  | nil => simp [store]
  | cons e rest ih =>
      obtain ⟨k', v'⟩ := e
      by_cases hk : k' = k
      · simp [store, hk]
      · simp only [store, if_neg hk, List.map_cons, ih, List.mem_cons, Ne.symm hk, false_or]
        split <;> rfl

theorem find_filter_ne (k : κ) (l : List (κ × ν)) (j : κ) :
    find j (l.filter (fun e => e.1 ≠ k)) = if j = k then none else find j l := by
  induction l with
  | nil => simp [find]
  | cons e rest ih =>
      obtain ⟨k', v'⟩ := e
      by_cases hk : k' = k
      · rw [List.filter_cons_of_neg (by simpa using hk), ih]
        by_cases hj : j = k
        · simp [hj]
        · have : k' ≠ j := fun h => hj (h ▸ hk)
          simp [find, hj, this]
      · rw [List.filter_cons_of_pos (by simpa using hk)]
        by_cases hj : k' = j
        · subst hj; simp [find, hk]
        · simp only [find, if_neg hj, ih]

theorem find_isSome_iff (k : κ) (l : List (κ × ν)) :
    (find k l).isSome ↔ k ∈ l.map Prod.fst := by
  induction l with
  | nil => simp [find]
  | cons e rest ih =>
      obtain ⟨k', v'⟩ := e
      by_cases hk : k' = k
      · simp [find, hk]
      · simp only [find, if_neg hk, ih, List.map_cons, List.mem_cons, Ne.symm hk, false_or]

theorem find_eq_none_iff (k : κ) (l : List (κ × ν)) : find k l = none ↔ k ∉ l.map Prod.fst := by
  rw [← find_isSome_iff, Option.not_isSome_iff_eq_none]

theorem find_eq_some_iff (k : κ) (v : ν) (l : List (κ × ν)) (hnod : (l.map Prod.fst).Nodup) :
    find k l = some v ↔ (k, v) ∈ l := by
  induction l with
  | nil => simp [find]
  | cons e rest ih =>
      obtain ⟨k', v'⟩ := e
      rw [List.map_cons, List.nodup_cons] at hnod
      by_cases hk : k' = k
      · subst hk
        have hfresh : (k', v) ∉ rest := fun hm => hnod.1 (List.mem_map.2 ⟨_, hm, rfl⟩)
        simp [find, hfresh, eq_comm]
      · simp only [find, if_neg hk, ih hnod.2, List.mem_cons, Prod.mk.injEq, Ne.symm hk, false_and,
          false_or]

/-- Storing under a new key appends. -/
theorem mem_store {k : κ} {v : ν} {l : List (κ × ν)} {e : κ × ν} (h : e ∈ store k v l) : e = (k, v) ∨ e ∈ l := by
  induction l with
  | nil => exact .inl (List.mem_singleton.1 h)
  | cons e' rest ih =>
      by_cases hk : e'.1 = k
      · rw [store, if_pos hk, List.mem_cons, hk] at h
        exact h.imp id (List.mem_cons_of_mem _)
      · rw [store, if_neg hk, List.mem_cons] at h
        rcases h with rfl | h
        · exact .inr List.mem_cons_self
        · exact (ih h).imp id (List.mem_cons_of_mem _)

theorem store_store (k : κ) (v w : ν) (l : List (κ × ν)) : store k w (store k v l) = store k w l := by
  induction l with
  | nil => simp [store]
  | cons e rest ih =>
      by_cases hk : e.1 = k
      · simp [store, hk]
      · simp [store, hk, ih]

/-- Stores under different keys can be made in either order, when one of the keys is there. -/
theorem store_comm {k k' : κ} (hne : k ≠ k') {l : List (κ × ν)} (h : (find k l).isSome) (v v' : ν) :
    store k' v' (store k v l) = store k v (store k' v' l) := by
  induction l with
  | nil => exact absurd h Bool.false_ne_true
  | cons e rest ih =>
      obtain ⟨j, w⟩ := e
      by_cases hj : j = k
      · have hj' : j ≠ k' := fun h => hne (hj.symm.trans h)
        simp [store, hj, hne]
      · have hrest : (find k rest).isSome := by
          rwa [find, if_neg hj] at h
        by_cases hj' : j = k'
        · simp [store, hj', Ne.symm hne]
        · simp [store, hj, hj', ih hrest]

theorem store_of_not_mem {k : κ} {l : List (κ × ν)} (h : k ∉ l.map Prod.fst) (v : ν) :
    store k v l = l ++ [(k, v)] := by
  induction l with
  | nil => rfl
  | cons e rest ih =>
      rw [List.map_cons, List.mem_cons, not_or] at h
      rw [store, if_neg (Ne.symm h.1), ih h.2]
      rfl

theorem find_append (k : κ) (l l' : List (κ × ν)) : find k (l ++ l') = (find k l).or (find k l') := by
  induction l with
  | nil => rfl
  | cons e rest ih =>
      obtain ⟨k', v'⟩ := e
      by_cases hk : k' = k
      · simp [find, hk]
      · simp [find, hk, ih]

/-- The value under a key, when every value is changed in a way that depends on its key. -/
theorem find_map {μ : Type*} (f : κ → ν → μ) (k : κ) (l : List (κ × ν)) :
    find k (l.map fun e => (e.1, f e.1 e.2)) = (find k l).map (f k) := by
  induction l with
  | nil => rfl
  | cons e rest ih =>
      obtain ⟨k', v'⟩ := e
      by_cases hk : k' = k
      · simp [find, hk]
      · simp [find, hk, ih]

/-- The entries of a class of keys. -/
theorem find_filter (p : κ → Bool) (k : κ) (l : List (κ × ν)) :
    find k (l.filter fun e => p e.1) = if p k then find k l else none := by
  induction l with
  | nil => simp [find]
  | cons e rest ih =>
      obtain ⟨k', v'⟩ := e
      by_cases hp : p k' = true
      · rw [List.filter_cons, if_pos hp, find, find, ih]
        by_cases hk : k' = k
        · simp [← hk, hp]
        · simp [hk]
      · rw [List.filter_cons, if_neg hp, ih, find]
        by_cases hk : k' = k
        · simp [← hk, hp]
        · simp [hk]

/-- Entries with the same keys, in the same order, are the same when each key has the same value. -/
theorem ext_of_find {l m : List (κ × ν)} (hkeys : l.map Prod.fst = m.map Prod.fst) (hnod : (l.map Prod.fst).Nodup)
    (h : ∀ k, find k l = find k m) : l = m := by
  have hsame : ∀ e ∈ l, e ∈ m := by
    intro e he
    rw [← find_eq_some_iff _ _ _ (hkeys ▸ hnod), ← h, find_eq_some_iff _ _ _ hnod]
    exact he
  refine List.ext_getElem (by simpa using congrArg List.length hkeys) fun i hl hm => ?_
  have hkey : l[i].1 = m[i].1 := by
    have := List.getElem_of_eq hkeys (i := i) (by simpa using hl)
    simpa using this
  have hleft : find l[i].1 m = some l[i].2 :=
    (find_eq_some_iff _ _ _ (hkeys ▸ hnod)).2 (hsame _ (List.getElem_mem hl))
  have hright : find l[i].1 m = some m[i].2 := by
    rw [hkey]
    exact (find_eq_some_iff _ _ _ (hkeys ▸ hnod)).2 (List.getElem_mem hm)
  exact Prod.ext hkey (Option.some.inj (hleft.symm.trans hright))

/-- A store passes over entries under other keys. -/
theorem store_append_of_find {k : κ} {l : List (κ × ν)} (h : find k l = none) (v : ν) (l' : List (κ × ν)) :
    store k v (l ++ l') = l ++ store k v l' := by
  induction l with
  | nil => rfl
  | cons e rest ih =>
      obtain ⟨k', v'⟩ := e
      have hk : k' ≠ k := by
        rintro rfl
        simp [find] at h
      rw [find, if_neg hk] at h
      simp [store, hk, ih h]

/-- Stored one after the other, pairs with keys of their own are appended. -/
theorem foldl_store_of_nodup {pairs l : List (κ × ν)} (h : ((l ++ pairs).map Prod.fst).Nodup) :
    pairs.foldl (fun l p => store p.1 p.2 l) l = l ++ pairs := by
  induction pairs generalizing l with
  | nil => exact (List.append_nil l).symm
  | cons p pairs ih =>
      have hnew : p.1 ∉ l.map Prod.fst := by
        rw [List.map_append, List.map_cons] at h
        intro hmem
        exact (List.nodup_append.1 h).2.2 p.1 hmem p.1 List.mem_cons_self rfl
      rw [List.append_cons] at h
      rw [List.foldl_cons, store_of_not_mem hnew, ih h, ← List.append_cons]

/-- Pairs under the keys that come next are stored in their places, those that are left at the end. -/
theorem foldl_store_of_isPrefix {pairs front back : List (κ × ν)} (hnod : ((front ++ pairs).map Prod.fst).Nodup)
    (hback : back.map Prod.fst <+: pairs.map Prod.fst) :
    pairs.foldl (fun l p => store p.1 p.2 l) (front ++ back) = front ++ pairs := by
  induction pairs generalizing front back with
  | nil =>
      rw [List.map_nil, List.prefix_nil, List.map_eq_nil_iff] at hback
      rw [hback]
      rfl
  | cons p pairs ih =>
      have hnew : find p.1 front = none := by
        rw [find_eq_none_iff]
        rw [List.map_append, List.map_cons] at hnod
        intro hmem
        exact (List.nodup_append.1 hnod).2.2 p.1 hmem p.1 List.mem_cons_self rfl
      rw [List.append_cons] at hnod
      rcases back with _ | ⟨e, back⟩
      · have hstore : store p.1 p.2 (front ++ []) = front ++ [p] ++ [] := by
          rw [store_append_of_find hnew, store, List.append_nil]
        rw [List.foldl_cons, hstore, @ih _ [] hnod List.nil_prefix, ← List.append_cons]
      · rw [List.map_cons, List.map_cons, List.cons_prefix_cons] at hback
        obtain ⟨hkey, hback⟩ := hback
        have hstore : store p.1 p.2 (front ++ e :: back) = front ++ [p] ++ back := by
          rw [store_append_of_find hnew, store, if_pos hkey, hkey, ← List.append_cons]
        rw [List.foldl_cons, hstore, ih hnod hback, ← List.append_cons]

/-- An entry in place of another adds no more than its own amount. -/
theorem sum_store_le (f : κ × ν → ℕ) (k : κ) (v : ν) (l : List (κ × ν)) :
    ((store k v l).map f).sum ≤ (l.map f).sum + f (k, v) := by
  induction l with
  | nil => simp [store]
  | cons e rest ih =>
      obtain ⟨k', v'⟩ := e
      rw [store]
      split
      · next hk =>
          simp only [List.map_cons, List.sum_cons, hk]
          omega
      · simp only [List.map_cons, List.sum_cons]
        omega

theorem sum_foldl_store_le (f : κ × ν → ℕ) (pairs l : List (κ × ν)) :
    ((pairs.foldl (fun l p => store p.1 p.2 l) l).map f).sum ≤ (l.map f).sum + (pairs.map f).sum := by
  induction pairs generalizing l with
  | nil => exact Nat.le_refl _
  | cons p pairs ih =>
      obtain ⟨k, v⟩ := p
      have hrest := ih (store k v l)
      have hone := sum_store_le f k v l
      simp only [List.foldl_cons, List.map_cons, List.sum_cons]
      omega

/-- Where a value was found. -/
theorem exists_append_of_find {k : κ} {v : ν} {l : List (κ × ν)} (h : find k l = some v) :
    ∃ before after, l = before ++ (k, v) :: after := by
  induction l with
  | nil => cases h
  | cons e rest ih =>
      obtain ⟨k', v'⟩ := e
      by_cases hk : k' = k
      · rw [find, if_pos hk, Option.some.injEq] at h
        exact ⟨[], rest, by rw [hk, h]; rfl⟩
      · rw [find, if_neg hk] at h
        obtain ⟨before, after, rfl⟩ := ih h
        exact ⟨(k', v') :: before, after, rfl⟩

theorem find_append_cons_of_ne {j k : κ} (hj : j ≠ k) (v : ν) (before after : List (κ × ν)) :
    find j (before ++ (k, v) :: after) = find j (before ++ after) := by
  induction before with
  | nil => rw [List.nil_append, List.nil_append, find, if_neg (Ne.symm hj)]
  | cons e before ih =>
      obtain ⟨k', v'⟩ := e
      rw [List.cons_append, List.cons_append, find, find, ih]

/-- Entries under different keys, each with an entry of its key that is no less, sum up to no more. -/
theorem sum_le_sum_of_find {f : κ × ν → ℕ} {l : List (κ × ν)} (hnod : (l.map Prod.fst).Nodup) {m : List (κ × ν)}
    (h : ∀ e ∈ l, ∃ v, find e.1 m = some v ∧ f e ≤ f (e.1, v)) : (l.map f).sum ≤ (m.map f).sum := by
  induction l generalizing m with
  | nil => exact Nat.zero_le _
  | cons e rest ih =>
      rw [List.map_cons, List.nodup_cons] at hnod
      rw [List.forall_mem_cons] at h
      obtain ⟨⟨v, hfind, hle⟩, h⟩ := h
      obtain ⟨before, after, rfl⟩ := exists_append_of_find hfind
      have hrest : ∀ e' ∈ rest, ∃ v', find e'.1 (before ++ after) = some v' ∧ f e' ≤ f (e'.1, v') := by
        intro e' he'
        have hne : e'.1 ≠ e.1 := fun heq => hnod.1 (heq ▸ List.mem_map_of_mem he')
        have he' := h e' he'
        rwa [find_append_cons_of_ne hne] at he'
      have hsum := ih hnod.2 hrest
      simp only [List.map_append, List.map_cons, List.sum_append, List.sum_cons] at hsum ⊢
      omega

end Assoc

/-! ## Dictionaries -/

/-- A finite map in insertion order; no key occurs twice. -/
@[ext] structure Dict (κ ν : Type*) where
  entries : List (κ × ν)
  nodup : (entries.map Prod.fst).Nodup

namespace Dict

variable {κ ν : Type*}

deriving instance DecidableEq for Dict

/-- The empty dictionary. -/
def empty : Dict κ ν := ⟨[], by simp⟩

instance : EmptyCollection (Dict κ ν) := ⟨empty⟩

instance : Inhabited (Dict κ ν) := ⟨∅⟩

/-- The keys, in insertion order (`list(d.keys())`). -/
def keys (d : Dict κ ν) : List κ := d.entries.map Prod.fst

/-- The key/value pairs, in insertion order (`list(d.items())`). -/
def items (d : Dict κ ν) : List (κ × ν) := d.entries

theorem nodup_keys (d : Dict κ ν) : d.keys.Nodup := d.nodup

variable [DecidableEq κ]

/-- `d.get(k)`. -/
def get? (d : Dict κ ν) (k : κ) : Option ν := Assoc.find k d.entries

/-- `d[k] = v`. -/
def set (d : Dict κ ν) (k : κ) (v : ν) : Dict κ ν :=
  ⟨Assoc.store k v d.entries, by
    rw [Assoc.map_fst_store]
    split
    · exact d.nodup
    · next h => exact d.nodup.append (List.nodup_singleton k) (List.disjoint_singleton.2 h)⟩

/-- `del d[k]`; unchanged when `k` is absent. -/
def del (d : Dict κ ν) (k : κ) : Dict κ ν :=
  ⟨d.entries.filter (fun e => e.1 ≠ k), d.nodup.sublist (List.filter_sublist.map Prod.fst)⟩

/-- `d.update(e)`: store every entry of `e`, in `e`'s order. -/
def update (d e : Dict κ ν) : Dict κ ν :=
  e.entries.foldl (fun acc p => acc.set p.1 p.2) d

/-- Delete every key of `ks`. -/
def delAll (d : Dict κ ν) (ks : List κ) : Dict κ ν := ks.foldl del d

@[simp] theorem get?_empty (k : κ) : (∅ : Dict κ ν).get? k = none := rfl

omit [DecidableEq κ] in
@[simp] theorem keys_empty : (∅ : Dict κ ν).keys = [] := rfl

@[simp] theorem get?_set (d : Dict κ ν) (k : κ) (v : ν) (j : κ) :
    (d.set k v).get? j = if j = k then some v else d.get? j :=
  Assoc.find_store k v d.entries j

@[simp] theorem get?_del (d : Dict κ ν) (k j : κ) :
    (d.del k).get? j = if j = k then none else d.get? j :=
  Assoc.find_filter_ne k d.entries j

theorem mem_keys_iff (d : Dict κ ν) (k : κ) : k ∈ d.keys ↔ (d.get? k).isSome :=
  (Assoc.find_isSome_iff k d.entries).symm

theorem mem_keys_iff_exists {d : Dict κ ν} {k : κ} : k ∈ d.keys ↔ ∃ v, d.get? k = some v := by
  rw [mem_keys_iff, Option.isSome_iff_exists]

theorem mem_keys_of_get? {d : Dict κ ν} {k : κ} {v : ν} (h : d.get? k = some v) : k ∈ d.keys :=
  mem_keys_iff_exists.2 ⟨v, h⟩

theorem not_mem_keys_iff (d : Dict κ ν) (k : κ) : k ∉ d.keys ↔ d.get? k = none := by
  rw [mem_keys_iff, Option.not_isSome_iff_eq_none]

theorem get?_eq_some_iff (d : Dict κ ν) (k : κ) (v : ν) :
    d.get? k = some v ↔ (k, v) ∈ d.items :=
  Assoc.find_eq_some_iff k v d.entries d.nodup

theorem keys_set (d : Dict κ ν) (k : κ) (v : ν) :
    (d.set k v).keys = if k ∈ d.keys then d.keys else d.keys ++ [k] :=
  Assoc.map_fst_store k v d.entries

@[simp] theorem mem_keys_set (d : Dict κ ν) (k : κ) (v : ν) (j : κ) :
    j ∈ (d.set k v).keys ↔ j = k ∨ j ∈ d.keys := by
  simp only [mem_keys_iff, get?_set]
  split <;> simp_all

@[simp] theorem mem_keys_del (d : Dict κ ν) (k j : κ) :
    j ∈ (d.del k).keys ↔ j ≠ k ∧ j ∈ d.keys := by
  simp only [mem_keys_iff, get?_del]
  split <;> simp_all

/-- A fold of stores reads back the last entry stored under the key, or the original value. -/
theorem get?_foldl_set (l : List (κ × ν)) (hnod : (l.map Prod.fst).Nodup) (d : Dict κ ν) (k : κ) :
    (l.foldl (fun acc p => acc.set p.1 p.2) d).get? k = (Assoc.find k l).or (d.get? k) := by
  induction l generalizing d with
  | nil => simp [Assoc.find]
  | cons e rest ih =>
      obtain ⟨k', v'⟩ := e
      rw [List.map_cons, List.nodup_cons] at hnod
      rw [List.foldl_cons, ih hnod.2, get?_set]
      by_cases hk : k' = k
      · subst hk
        have hnone : Assoc.find k' rest = none := (Assoc.find_eq_none_iff _ _).2 hnod.1
        simp [Assoc.find, hnone]
      · simp [Assoc.find, hk, Ne.symm hk]

/-- A loop over the items that takes the value under one key, if there is one. -/
theorem observe_foldl_items {σ : Type*} (observe : σ → ν) (name : Option κ) {read : σ → κ × ν → σ}
    (hread : ∀ s e, observe (read s e) = if name = some e.1 then e.2 else observe s) (d : Dict κ ν) (s : σ) :
    observe (d.items.foldl read s) = (name.bind d.get?).getD (observe s) := by
  have hitems : ∀ (items : List (κ × ν)) (s : σ), (items.map Prod.fst).Nodup →
      observe (items.foldl read s) = (name.bind fun k => Assoc.find k items).getD (observe s) := by
    intro items
    induction items with
    | nil =>
        intro s _
        rcases name with _ | k <;> rfl
    | cons e items ih =>
        intro s hnodup
        rw [List.map_cons, List.nodup_cons] at hnodup
        rw [List.foldl_cons, ih _ hnodup.2, hread]
        rcases name with _ | k
        · rfl
        · by_cases hk : e.1 = k
          · have hnone : Assoc.find k items = none := (Assoc.find_eq_none_iff _ _).2 (hk ▸ hnodup.1)
            simp [Assoc.find, hk, hnone]
          · simp [Assoc.find, hk, Ne.symm hk]
  exact hitems d.items s d.nodup

/-- Stores on top of a dictionary read back as they do on their own, or as it does. -/
theorem get?_foldl_set_or (l : List (κ × ν)) (d : Dict κ ν) (k : κ) :
    (l.foldl (fun acc p => acc.set p.1 p.2) d).get? k
      = ((l.foldl (fun acc p => acc.set p.1 p.2) (∅ : Dict κ ν)).get? k).or (d.get? k) := by
  induction l generalizing d with
  | nil => rfl
  | cons e rest ih =>
      rw [List.foldl_cons, List.foldl_cons, ih (d.set e.1 e.2), ih (Dict.set ∅ e.1 e.2), Option.or_assoc]
      by_cases hk : k = e.1 <;> simp [hk]

/-- What is stored can be changed first, in a way that depends on its key. -/
theorem get?_foldl_set_map {μ : Type*} (f : κ → ν → μ) (l : List (κ × ν)) (k : κ) :
    (l.foldl (fun acc p => acc.set p.1 (f p.1 p.2)) (∅ : Dict κ μ)).get? k
      = ((l.foldl (fun acc p => acc.set p.1 p.2) (∅ : Dict κ ν)).get? k).map (f k) := by
  have hall : ∀ (d : Dict κ μ) (d' : Dict κ ν), d.get? k = (d'.get? k).map (f k) →
      (l.foldl (fun acc p => acc.set p.1 (f p.1 p.2)) d).get? k
        = ((l.foldl (fun acc p => acc.set p.1 p.2) d').get? k).map (f k) := by
    induction l with
    | nil => exact fun _ _ h => h
    | cons e rest ih =>
        intro d d' h
        refine ih _ _ ?_
        by_cases hk : k = e.1
        · simp [hk]
        · simp [hk, h]
  exact hall ∅ ∅ rfl

/-- The items of what is written are those that were written. -/
theorem mem_items_foldl_set {l : List (κ × ν)} {d : Dict κ ν} {e : κ × ν}
    (h : e ∈ (l.foldl (fun d e => d.set e.1 e.2) d).items) : e ∈ l ∨ e ∈ d.items := by
  induction l generalizing d with
  | nil => exact .inr h
  | cons a l ih =>
      rcases ih h with h | h
      · exact .inl (List.mem_cons_of_mem a h)
      · rcases Assoc.mem_store h with rfl | h
        · exact .inl List.mem_cons_self
        · exact .inr h

theorem mem_keys_foldl_set (l : List (κ × ν)) (d : Dict κ ν) (k : κ) :
    k ∈ (l.foldl (fun acc p => acc.set p.1 p.2) d).keys ↔ k ∈ l.map Prod.fst ∨ k ∈ d.keys := by
  induction l generalizing d with
  | nil => simp
  | cons e rest ih =>
      rw [List.foldl_cons, ih, mem_keys_set, List.map_cons, List.mem_cons, or_left_comm, or_assoc]

/-- Stores keep the keys in their order and add new ones behind them. -/
theorem exists_keys_foldl_set {ι : Type*} (key : ι → κ) (value : ι → ν) (l : List ι) (d : Dict κ ν) :
    ∃ extra, (l.foldl (fun acc p => acc.set (key p) (value p)) d).keys = d.keys ++ extra := by
  induction l generalizing d with
  | nil => exact ⟨[], (List.append_nil _).symm⟩
  | cons p rest ih =>
      obtain ⟨extra, hextra⟩ := ih (d.set (key p) (value p))
      rw [List.foldl_cons, hextra, keys_set]
      split
      · exact ⟨extra, rfl⟩
      · exact ⟨key p :: extra, by rw [List.append_assoc]; rfl⟩

@[simp] theorem get?_update (d e : Dict κ ν) (k : κ) :
    (d.update e).get? k = (e.get? k).or (d.get? k) :=
  get?_foldl_set e.entries e.nodup d k

@[simp] theorem mem_keys_update (d e : Dict κ ν) (k : κ) :
    k ∈ (d.update e).keys ↔ k ∈ e.keys ∨ k ∈ d.keys := by
  simp [mem_keys_iff, Option.isSome_or]

@[simp] theorem get?_delAll (ks : List κ) (d : Dict κ ν) (k : κ) :
    (d.delAll ks).get? k = if k ∈ ks then none else d.get? k := by
  induction ks generalizing d with
  | nil => simp [delAll]
  | cons a rest ih =>
      have := ih (d.del a)
      simp only [delAll, List.foldl_cons] at this ⊢
      rw [this, get?_del]
      by_cases hr : k ∈ rest <;> by_cases ha : k = a <;> simp [hr, ha]

@[simp] theorem mem_keys_delAll (ks : List κ) (d : Dict κ ν) (k : κ) :
    k ∈ (d.delAll ks).keys ↔ k ∉ ks ∧ k ∈ d.keys := by
  simp only [mem_keys_iff, get?_delAll]
  split <;> simp_all

theorem items_set_of_not_mem {d : Dict κ ν} {k : κ} (h : k ∉ d.keys) (v : ν) :
    (d.set k v).items = d.items ++ [(k, v)] := Assoc.store_of_not_mem h v

/-- Storing entries under new keys lists them in order after what was there. -/
theorem items_foldl_set {l : List (κ × ν)} (hnod : (l.map Prod.fst).Nodup) {d : Dict κ ν}
    (hnew : ∀ k ∈ l.map Prod.fst, k ∉ d.keys) :
    (l.foldl (fun acc p => acc.set p.1 p.2) d).items = d.items ++ l := by
  induction l generalizing d with
  | nil => rw [List.foldl_nil, List.append_nil]
  | cons e rest ih =>
      rw [List.map_cons, List.nodup_cons] at hnod
      have hrest : ∀ k ∈ rest.map Prod.fst, k ∉ (d.set e.1 e.2).keys := by
        intro k hk hmem
        rcases (mem_keys_set _ _ _ _).1 hmem with rfl | hmem
        · exact hnod.1 hk
        · exact hnew k (by rw [List.map_cons]; exact List.mem_cons_of_mem _ hk) hmem
      have hhead : e.1 ∉ d.keys := hnew e.1 (by rw [List.map_cons]; exact List.mem_cons_self)
      rw [List.foldl_cons, ih hnod.2 hrest, items_set_of_not_mem hhead, List.append_assoc]
      rfl

/-- Storing entries that begin with the keys that are there: they are all there is. -/
theorem items_foldl_set_of_isPrefix {l : List (κ × ν)} (hnod : (l.map Prod.fst).Nodup) {d : Dict κ ν}
    (hkeys : d.keys <+: l.map Prod.fst) : (l.foldl (fun acc p => acc.set p.1 p.2) d).items = l := by
  have hentries : ∀ (l : List (κ × ν)) (d : Dict κ ν),
      (l.foldl (fun acc p => acc.set p.1 p.2) d).entries
        = l.foldl (fun acc p => Assoc.store p.1 p.2 acc) d.entries := by
    intro l
    induction l with
    | nil => exact fun _ => rfl
    | cons p l ih => exact fun d => ih (d.set p.1 p.2)
  have hstore := @Assoc.foldl_store_of_isPrefix κ ν _ l [] d.entries hnod hkeys
  exact (hentries l d).trans hstore

/-- When only the entry of one key counts, it is all that counts. -/
theorem flatMap_items_of_key {μ : Type*} {f : κ × ν → List μ} {k : κ} (d : Dict κ ν)
    (hf : ∀ e ∈ d.items, e.1 ≠ k → f e = []) : d.items.flatMap f = ((d.get? k).map fun v => f (k, v)).getD [] := by
  cases hget : d.get? k with
  | none =>
      have hnone : d.items.flatMap f = [] := by
        rw [List.flatMap_eq_nil_iff]
        intro e he
        refine hf e he fun hkey => ?_
        have hmem : k ∈ d.keys := List.mem_map.2 ⟨e, he, hkey⟩
        exact (not_mem_keys_iff d k).2 hget hmem
      rw [hnone]
      rfl
  | some v =>
      obtain ⟨before, after, hitems⟩ : ∃ before after, d.items = before ++ (k, v) :: after :=
        List.append_of_mem ((get?_eq_some_iff d k v).1 hget)
      have hother : ∀ e ∈ before ++ after, f e = [] := by
        intro e he
        have hnod : (before ++ (k, v) :: after).map Prod.fst |>.Nodup := hitems ▸ d.nodup
        rw [List.map_append, List.map_cons, List.nodup_middle, List.nodup_cons, ← List.map_append] at hnod
        refine hf e ?_ fun hkey => hnod.1 (List.mem_map.2 ⟨e, he, hkey⟩)
        rw [hitems]
        exact List.mem_append.2 ((List.mem_append.1 he).imp id (List.mem_cons_of_mem _))
      rw [← List.flatMap_eq_nil_iff, List.flatMap_append, List.append_eq_nil_iff] at hother
      rw [hitems, List.flatMap_append, List.flatMap_cons, hother.1, hother.2, List.append_nil, List.nil_append]
      rfl

/-- Storing under a key outside a class of keys leaves the entries of the class as they are. -/
theorem filter_items_set_of_neg {p : κ → Bool} {k : κ} (hk : p k = false) (d : Dict κ ν) (v : ν) :
    (d.set k v).items.filter (fun e => p e.1) = d.items.filter (fun e => p e.1) := by
  have hstore : ∀ l : List (κ × ν),
      (Assoc.store k v l).filter (fun e => p e.1) = l.filter (fun e => p e.1) := by
    intro l
    induction l with
    | nil => simp [Assoc.store, hk]
    | cons e rest ih =>
        obtain ⟨k', v'⟩ := e
        rw [Assoc.store]
        split
        · next h => simp [h, hk]
        · rw [List.filter_cons, List.filter_cons, ih]
  exact hstore d.entries

/-- Storing under the only key of a class: its entry is all there is of the class. -/
theorem filter_items_set_of_only {p : κ → Bool} {k : κ} (hk : p k = true) {d : Dict κ ν}
    (honly : ∀ j ∈ d.keys, p j = true → j = k) (v : ν) :
    (d.set k v).items.filter (fun e => p e.1) = [(k, v)] := by
  have hstore : ∀ l : List (κ × ν), (l.map Prod.fst).Nodup →
      (∀ j ∈ l.map Prod.fst, p j = true → j = k) →
      (Assoc.store k v l).filter (fun e => p e.1) = [(k, v)] := by
    intro l
    induction l with
    | nil => simp [Assoc.store, hk]
    | cons e rest ih =>
        obtain ⟨k', v'⟩ := e
        intro hnod honly
        rw [List.map_cons, List.nodup_cons] at hnod
        have hrest : ∀ j ∈ rest.map Prod.fst, p j = true → j = k :=
          fun j hj => honly j (List.mem_cons_of_mem _ hj)
        rw [Assoc.store]
        split
        · next h =>
            subst h
            -- the key occurs nowhere else, so nothing else of the class does
            have hnone : rest.filter (fun e => p e.1) = [] := by
              rw [List.filter_eq_nil_iff]
              intro e he hpe
              have hmem : e.1 ∈ rest.map Prod.fst := List.mem_map_of_mem he
              exact hnod.1 (hrest e.1 hmem hpe ▸ hmem)
            rw [List.filter_cons, if_pos hk, hnone]
        · next h =>
            have hpk' : ¬ p k' = true := fun hp => h (honly k' List.mem_cons_self hp)
            rw [List.filter_cons, if_neg hpk']
            exact ih hnod.2 hrest
  exact hstore d.entries d.nodup honly

/-- `UPDATE d SET f WHERE p`: every value that satisfies `p` is replaced. -/
def updateWhere (p : ν → Bool) (f : ν → ν) (d : Dict κ ν) : Dict κ ν :=
  ⟨d.entries.map fun e => (e.1, if p e.2 then f e.2 else e.2), by
    rw [List.map_map]
    exact d.nodup⟩

omit [DecidableEq κ] in
theorem mem_items_updateWhere {p : ν → Bool} {f : ν → ν} {d : Dict κ ν} {k : κ} {v : ν} :
    (k, v) ∈ (d.updateWhere p f).items ↔ ∃ v', (k, v') ∈ d.items ∧ v = if p v' then f v' else v' := by
  rw [items, updateWhere, List.mem_map]
  constructor
  · rintro ⟨⟨k', v'⟩, hmem, heq⟩
    obtain ⟨rfl, rfl⟩ := Prod.mk.inj heq
    exact ⟨v', hmem, rfl⟩
  · rintro ⟨v', hmem, rfl⟩
    exact ⟨(k, v'), hmem, rfl⟩

/-! ## Totals -/

section Total

variable {M : Type*} [AddCommGroup M]

/-- The sum of the stored values. -/
def total (d : Dict κ M) : M := (d.entries.map Prod.snd).sum

omit [DecidableEq κ] in
@[simp] theorem total_empty : (∅ : Dict κ M).total = 0 := rfl

/-- Storing under a key exchanges what was stored there. -/
theorem total_set (d : Dict κ M) (k : κ) (v : M) :
    (d.set k v).total = d.total - (d.get? k).getD 0 + v := by
  have hstore : ∀ l : List (κ × M), ((Assoc.store k v l).map Prod.snd).sum
      = (l.map Prod.snd).sum - (Assoc.find k l).getD 0 + v := by
    intro l
    induction l with
    | nil => simp [Assoc.store, Assoc.find]
    | cons e rest ih =>
        obtain ⟨k', v'⟩ := e
        by_cases hk : k' = k
        · simp only [Assoc.store, Assoc.find, if_pos hk, List.map_cons, List.sum_cons,
            Option.getD_some]
          abel
        · simp only [Assoc.store, Assoc.find, if_neg hk, List.map_cons, List.sum_cons, ih]
          abel
  exact hstore d.entries

/-- Deleting a key takes what was stored there out of the total. -/
theorem total_del (d : Dict κ M) (k : κ) : (d.del k).total = d.total - (d.get? k).getD 0 := by
  have hfilter : ∀ l : List (κ × M), (l.map Prod.fst).Nodup →
      ((l.filter fun e => e.1 ≠ k).map Prod.snd).sum
        = (l.map Prod.snd).sum - (Assoc.find k l).getD 0 := by
    intro l
    induction l with
    | nil => simp [Assoc.find]
    | cons e rest ih =>
        obtain ⟨k', v'⟩ := e
        intro hnod
        rw [List.map_cons, List.nodup_cons] at hnod
        by_cases hk : k' = k
        · -- the key occurs nowhere else
          have hfresh : Assoc.find k rest = none := (Assoc.find_eq_none_iff _ _).2 (hk ▸ hnod.1)
          rw [List.filter_cons_of_neg (by simpa using hk), ih hnod.2]
          simp only [Assoc.find, if_pos hk, hfresh, List.map_cons, List.sum_cons, Option.getD_none,
            Option.getD_some]
          abel
        · rw [List.filter_cons_of_pos (by simpa using hk)]
          simp only [Assoc.find, if_neg hk, List.map_cons, List.sum_cons, ih hnod.2]
          abel
  exact hfilter d.entries d.nodup

end Total

end Dict
