import TestInfra.KVStore.Basic

set_option autoImplicit false

/-! # Loading a set of documents, key by key

`set` and `merge` act on each key separately. `view` is all a partition knows of one key, and
`Loads docs kv kv'` says that `kv'` is `kv` after every document of `docs` was set once and nothing else
happened. It depends only on **which** documents there are, not on their order or grouping, so direct
sets, batches and merges of separately filled stores can all be compared through it. -/

namespace TestInfra

/-- All a partition knows of one key. -/
structure KeyView (V : Type*) where
  entry : Option (Entry V)
  deleted : Option V
  timestamp : Option Int
  expiredCount : Nat

namespace Partition

variable {V : Type*}

def view (p : Partition V) (k : String) : KeyView V :=
  ⟨p.valid.get? k, p.deleted.get? k, p.timestamp.get? k, p.expiredKeys.count k⟩

/-- A key right after `set`. -/
def setView (now : Int) (value : V) (exp flag : Int) (old : KeyView V) : KeyView V :=
  ⟨some ⟨value, if exp ≠ 0 then now + exp else exp, flag⟩, none, some now, old.expiredCount - 1⟩

theorem view_set (now : Int) (key : String) (value : V) (exp flag : Int) (p : Partition V)
    (k : String) :
    (p.set now key value exp flag).view k
      = if k = key then setView now value exp flag (p.view k) else p.view k := by
  by_cases hk : k = key
  · subst hk
    simp [view, set, setView, List.count_erase_self]
  · simp [view, set, hk, List.count_erase_of_ne hk]

theorem count_foldl_erase {ks : List String} (hks : ks.Nodup) (l : List String) (k : String) :
    (ks.foldl List.erase l).count k = l.count k - if k ∈ ks then 1 else 0 := by
  induction ks generalizing l with
  | nil => simp
  | cons a rest ih =>
      rw [List.nodup_cons] at hks
      rw [List.foldl_cons, ih hks.2]
      by_cases hk : k = a
      · subst hk
        simp [hks.1, List.count_erase_self]
      · simp [hk, List.count_erase_of_ne hk]

/-- `merge` overwrites exactly the keys valid on the other side. -/
theorem view_merge (p q : Partition V) (k : String) :
    (p.merge q).view k =
      match q.valid.get? k with
      | some e =>
          ⟨some e, none, (q.timestamp.get? k).or (p.timestamp.get? k), (p.view k).expiredCount - 1⟩
      | none => { p.view k with timestamp := (q.timestamp.get? k).or (p.timestamp.get? k) } := by
  have hnod : (q.valid.keys.filter (· ∈ p.expiredKeys)).Nodup := q.valid.nodup_keys.filter _
  have hdel : p.deleted.get? k = none ∨ k ∈ p.deleted.keys := by
    rw [Dict.mem_keys_iff]
    cases p.deleted.get? k <;> simp
  have hexp : p.expiredKeys.count k = 0 ∨ k ∈ p.expiredKeys := by
    by_cases hk : k ∈ p.expiredKeys
    · exact Or.inr hk
    · exact Or.inl (List.count_eq_zero.2 hk)
  cases hq : q.valid.get? k with
  | some e =>
      have hk : k ∈ q.valid.keys := Dict.mem_keys_of_get? hq
      simp only [view, merge, Dict.get?_update, hq, Option.some_or, Dict.get?_delAll,
        count_foldl_erase hnod, List.mem_filter, hk, true_and, decide_eq_true_eq]
      congr 1
      · rcases hdel with h | h <;> simp [h]
      · rcases hexp with h | h <;> simp [h]
  | none =>
      have hk : k ∉ q.valid.keys := by rw [Dict.not_mem_keys_iff, hq]
      simp only [view, merge, Dict.get?_update, hq, Option.none_or, Dict.get?_delAll,
        count_foldl_erase hnod, List.mem_filter, hk, false_and, if_false, Nat.sub_zero]

end Partition

namespace KVStore

variable {n : Nat} {V : Type*}

/-! ## Merging the partitions of another store -/

/-- On a store with no lock held `merge_partitions` runs through, merges slot by slot, and leaves no
    lock behind. -/
theorem mergePartitions_of_free (partitions : Fin n → Partition V) {kv : KVStore n V}
    (hkv : kv.Free) :
    ∃ kv', kv.mergePartitions partitions = some kv' ∧ kv'.Free ∧
      kv'.acquireLock = kv.acquireLock ∧ ∀ i, kv'.part i = (kv.part i).merge (partitions i) := by
  -- the loop over any list of slots, each named once
  have hloop : ∀ is : List (Fin n), is.Nodup → ∀ kv : KVStore n V, kv.Free →
      ∃ kv', is.foldlM (mergeSlot partitions) kv = some kv' ∧ kv'.Free ∧
        kv'.acquireLock = kv.acquireLock ∧
        ∀ i, kv'.part i = if i ∈ is then (kv.part i).merge (partitions i) else kv.part i := by
    intro is
    induction is with
    | nil => exact fun _ kv hkv => ⟨kv, rfl, hkv, rfl, by simp⟩
    | cons i rest ih =>
        intro hnod kv hkv
        rw [List.nodup_cons] at hnod
        have hslot : mergeSlot partitions kv i
            = some (kv.setPartition i ((kv.part i).merge (partitions i))) := by
          have hacq : kv.acquire i = some (kv.setLock i true) := acquire_eq_some.2 ⟨hkv i, rfl⟩
          simp only [mergeSlot, hacq, Option.bind_eq_bind, Option.bind_some, part_setLock]
          exact release_setPartition (hkv i) _
        obtain ⟨kv', hrun, hfree, hacq, hpart⟩ :=
          ih hnod.2 _ (hkv.setPartition i ((kv.part i).merge (partitions i)))
        refine ⟨kv', ?_, hfree, hacq, ?_⟩
        · rw [List.foldlM_cons, hslot]
          exact hrun
        · intro j
          rw [hpart j, part_setPartition]
          by_cases hj : j = i
          · subst hj
            simp [hnod.1]
          · simp [hj]
  obtain ⟨kv', hrun, hfree, hacq, hpart⟩ := hloop (List.finRange n) (List.nodup_finRange n) kv hkv
  exact ⟨kv', hrun, hfree, hacq, fun i => by rw [hpart i, if_pos (List.mem_finRange i)]⟩

/-- A merge that runs through found no lock held. -/
theorem free_of_mergePartitions {partitions : Fin n → Partition V} {kv kv' : KVStore n V}
    (h : kv.mergePartitions partitions = some kv') : kv.Free := by
  have hloop : ∀ (is : List (Fin n)) (kv : KVStore n V), is.foldlM (mergeSlot partitions) kv = some kv' →
      ∀ i ∈ is, kv.locked i = false := by
    intro is
    induction is with
    | nil => exact fun _ _ i hi => absurd hi (by simp)
    | cons i rest ih =>
        intro kv h
        rw [List.foldlM_cons] at h
        obtain ⟨mid, hslot, hrest⟩ := Option.bind_eq_some_iff.1 h
        obtain ⟨held, hacq, hrel⟩ := Option.bind_eq_some_iff.1 hslot
        obtain ⟨hfree, rfl⟩ := acquire_eq_some.1 hacq
        obtain ⟨-, rfl⟩ := release_eq_some.1 hrel
        intro j hj
        rcases List.mem_cons.1 hj with rfl | hj
        · exact hfree
        · by_cases hji : j = i
          · rw [hji]
            exact hfree
          · have hlock := ih _ hrest j hj
            simpa [hji] using hlock
  exact fun i => hloop (List.finRange n) kv h i (List.mem_finRange i)

/-! ## Stores that loaded the same documents -/

/-- How documents are stored: where a key lives, when it is set, and with which expiry and flag. -/
structure LoadSpec (n : Nat) where
  slot : String → Fin n
  clock : String → Int
  exp : Int
  flag : Int

/-- `kv'` is `kv` after each of the documents was set once. -/
structure Loads (spec : LoadSpec n) (docs : List (String × V)) (kv kv' : KVStore n V) : Prop where
  loaded : ∀ k v, (k, v) ∈ docs → (kv'.part (spec.slot k)).view k
    = Partition.setView (spec.clock k) v spec.exp spec.flag ((kv.part (spec.slot k)).view k)
  other : ∀ i k, k ∉ docs.map Prod.fst ∨ spec.slot k ≠ i → (kv'.part i).view k = (kv.part i).view k

/-- One `set` in the slot of its key. -/
def setDoc (spec : LoadSpec n) (kv : KVStore n V) (doc : String × V) : KVStore n V :=
  kv.setPartition (spec.slot doc.1)
    ((kv.part (spec.slot doc.1)).set (spec.clock doc.1) doc.1 doc.2 spec.exp spec.flag)

/-- `Partition.set` for every document, one after the other. -/
def setAll (spec : LoadSpec n) (docs : List (String × V)) (kv : KVStore n V) : KVStore n V :=
  docs.foldl (setDoc spec) kv

theorem locked_setAll (spec : LoadSpec n) (docs : List (String × V)) (kv : KVStore n V) (i : Fin n) :
    (kv.setAll spec docs).locked i = kv.locked i := by
  induction docs generalizing kv with
  | nil => rfl
  | cons doc rest ih => exact (ih (kv.setDoc spec doc)).trans (locked_setPartition _ _ _ _)

theorem acquireLock_setAll (spec : LoadSpec n) (docs : List (String × V)) (kv : KVStore n V) :
    (kv.setAll spec docs).acquireLock = kv.acquireLock := by
  induction docs generalizing kv with
  | nil => rfl
  | cons doc rest ih => exact ih (kv.setDoc spec doc)

namespace Loads

variable {spec : LoadSpec n} {docs docs' : List (String × V)} {kv kv' kv'' : KVStore n V}

theorem nil (kv : KVStore n V) : Loads spec [] kv kv := ⟨by simp, fun _ _ _ => rfl⟩

theorem setDoc (spec : LoadSpec n) (kv : KVStore n V) (doc : String × V) :
    Loads spec [doc] kv (kv.setDoc spec doc) := by
  refine ⟨?_, ?_⟩
  · intro k v hmem
    rw [List.mem_singleton] at hmem
    subst hmem
    simp only [KVStore.setDoc, part_setPartition, if_pos, Partition.view_set]
  · intro i k hout
    simp only [KVStore.setDoc, part_setPartition]
    split
    · next hi =>
        rw [Partition.view_set, hi, if_neg]
        rintro rfl
        rcases hout with hout | hout
        · exact hout (by simp)
        · exact hout hi.symm
    · rfl

/-- Loading one set of documents and then another, with no key in common. -/
theorem append (h : Loads spec docs kv kv') (h' : Loads spec docs' kv' kv'')
    (hdis : (docs.map Prod.fst).Disjoint (docs'.map Prod.fst)) :
    Loads spec (docs ++ docs') kv kv'' := by
  have hkey : ∀ {l : List (String × V)} {k v}, (k, v) ∈ l → k ∈ l.map Prod.fst :=
    fun hmem => List.mem_map_of_mem (f := Prod.fst) hmem
  refine ⟨?_, ?_⟩
  · intro k v hmem
    rcases List.mem_append.1 hmem with hmem | hmem
    · rw [h'.other _ k (Or.inl (hdis (hkey hmem))), h.loaded k v hmem]
    · rw [h'.loaded k v hmem, h.other _ k (Or.inl fun hk => hdis hk (hkey hmem))]
  · intro i k hout
    rw [List.map_append, List.mem_append, not_or] at hout
    rw [h'.other i k (hout.imp_left And.right), h.other i k (hout.imp_left And.left)]

/-- The keys that are valid afterwards: those loaded and those that were. -/
theorem mem_valid_iff (h : Loads spec docs kv kv') (i : Fin n) (k : String) :
    k ∈ (kv'.part i).valid.keys ↔
      (k ∈ docs.map Prod.fst ∧ spec.slot k = i) ∨ k ∈ (kv.part i).valid.keys := by
  rw [Dict.mem_keys_iff, Dict.mem_keys_iff]
  by_cases hin : k ∈ docs.map Prod.fst ∧ spec.slot k = i
  · obtain ⟨hk, rfl⟩ := hin
    obtain ⟨⟨_, v⟩, hdoc, rfl⟩ := List.mem_map.1 hk
    have hentry := congrArg KeyView.entry (h.loaded _ v hdoc)
    simp only [Partition.view, Partition.setView] at hentry
    rw [hentry]
    exact iff_of_true rfl (Or.inl ⟨hk, rfl⟩)
  · have hentry := congrArg KeyView.entry (h.other i k (not_and_or.1 hin))
    simp only [Partition.view] at hentry
    rw [hentry]
    exact ⟨Or.inr, fun h => h.resolve_left hin⟩

/-- Only which documents there are matters. -/
theorem of_mem_iff (h : Loads spec docs kv kv') (hmem : ∀ e, e ∈ docs ↔ e ∈ docs') :
    Loads spec docs' kv kv' := by
  refine ⟨fun k v hdoc => h.loaded k v ((hmem _).2 hdoc), fun i k hout => h.other i k ?_⟩
  simp only [List.mem_map, hmem] at hout ⊢
  exact hout

/-- Only the partitions matter, not the locks. -/
theorem of_part_eq {kv₁ kv₁' : KVStore n V} (h : Loads spec docs kv kv')
    (hpart : ∀ i, kv₁.part i = kv.part i) (hpart' : ∀ i, kv₁'.part i = kv'.part i) :
    Loads spec docs kv₁ kv₁' :=
  ⟨fun k v hdoc => by rw [hpart, hpart']; exact h.loaded k v hdoc,
    fun i k hout => by rw [hpart, hpart']; exact h.other i k hout⟩

theorem setAll (spec : LoadSpec n) {docs : List (String × V)} (hnod : (docs.map Prod.fst).Nodup)
    (kv : KVStore n V) : Loads spec docs kv (kv.setAll spec docs) := by
  induction docs generalizing kv with
  | nil => exact nil kv
  | cons doc rest ih =>
      rw [List.map_cons, List.nodup_cons] at hnod
      refine (setDoc spec kv doc).append (ih hnod.2 _) ?_
      rw [List.map_singleton, List.singleton_disjoint]
      exact hnod.1

/-- A store filled from empty is merged: the same as loading its documents directly. -/
theorem merge (hchild : Loads spec docs (new n V) kv') (hkv : kv.Free) :
    ∃ merged, kv.mergePartitions kv'.getPartitions = some merged ∧ merged.Free ∧
      merged.acquireLock = kv.acquireLock ∧ Loads spec docs kv merged := by
  obtain ⟨merged, hrun, hfree, hacq, hpart⟩ := mergePartitions_of_free kv'.getPartitions hkv
  refine ⟨merged, hrun, hfree, hacq, ?_, ?_⟩
  · intro k v hmem
    have hview := hchild.loaded k v hmem
    have hvalid : (kv'.part (spec.slot k)).valid.get? k = some _ := congrArg KeyView.entry hview
    have htime : (kv'.part (spec.slot k)).timestamp.get? k = some _ :=
      congrArg KeyView.timestamp hview
    rw [hpart, Partition.view_merge]
    simp only [getPartitions, hvalid, htime]
    rfl
  · intro i k hout
    have hview := hchild.other i k hout
    have hvalid : (kv'.part i).valid.get? k = none := congrArg KeyView.entry hview
    have htime : (kv'.part i).timestamp.get? k = none := congrArg KeyView.timestamp hview
    rw [hpart, Partition.view_merge]
    simp only [getPartitions, hvalid, htime]
    rfl

end Loads

/-- Two stores have the same valid items, and the same deleted and expired keys. -/
structure SameItems (kv kv' : KVStore n V) : Prop where
  valid : ∀ i k, (kv.part i).valid.get? k = (kv'.part i).valid.get? k
  deleted : ∀ i k, k ∈ (kv.part i).deleted.keys ↔ k ∈ (kv'.part i).deleted.keys
  expired : ∀ i k, k ∈ (kv.part i).expiredKeys ↔ k ∈ (kv'.part i).expiredKeys

/-- **Loading the same documents into the same store gives the same content**, however it was done. -/
theorem Loads.sameItems {spec : LoadSpec n} {docs : List (String × V)} {kv kv' kv'' : KVStore n V}
    (h' : Loads spec docs kv kv') (h'' : Loads spec docs kv kv'') : SameItems kv' kv'' := by
  have hview : ∀ i k, (kv'.part i).view k = (kv''.part i).view k := by
    intro i k
    by_cases hk : k ∈ docs.map Prod.fst ∧ spec.slot k = i
    · obtain ⟨hmem, rfl⟩ := hk
      obtain ⟨⟨k', v⟩, hdoc, rfl⟩ := List.mem_map.1 hmem
      rw [h'.loaded k' v hdoc, h''.loaded k' v hdoc]
    · rw [h'.other i k (by tauto), h''.other i k (by tauto)]
  refine ⟨fun i k => congrArg KeyView.entry (hview i k), ?_, ?_⟩
  · intro i k
    have hdel : (kv'.part i).deleted.get? k = (kv''.part i).deleted.get? k :=
      congrArg KeyView.deleted (hview i k)
    rw [Dict.mem_keys_iff, Dict.mem_keys_iff, hdel]
  · intro i k
    have hcount : (kv'.part i).expiredKeys.count k = (kv''.part i).expiredKeys.count k :=
      congrArg KeyView.expiredCount (hview i k)
    rw [← List.count_pos_iff, ← List.count_pos_iff, hcount]

/-- **Loading other values under the same keys gives other content.** -/
theorem Loads.sameItems_iff {spec : LoadSpec n} {docs docs' : List (String × V)} {kv kv' kv'' : KVStore n V}
    (h' : Loads spec docs kv kv') (h'' : Loads spec docs' kv kv'')
    (hkeys : docs.map Prod.fst = docs'.map Prod.fst) :
    SameItems kv' kv'' ↔ ∀ e, e ∈ docs ↔ e ∈ docs' := by
  -- two stores with the same items hold the same value under a key of both lists
  have hvalue : SameItems kv' kv'' → ∀ k v v', (k, v) ∈ docs → (k, v') ∈ docs' → v = v' := by
    intro hsame k v v' hdoc hdoc'
    have hentry : (kv'.part (spec.slot k)).valid.get? k = some _ :=
      congrArg KeyView.entry (h'.loaded k v hdoc)
    have hentry' : (kv''.part (spec.slot k)).valid.get? k = some _ :=
      congrArg KeyView.entry (h''.loaded k v' hdoc')
    rw [hsame.valid, hentry', Option.some.injEq, Entry.mk.injEq] at hentry
    exact hentry.1.symm
  constructor
  · rintro hsame ⟨k, v⟩
    constructor
    · intro hdoc
      have hk : k ∈ docs'.map Prod.fst := hkeys ▸ List.mem_map_of_mem (f := Prod.fst) hdoc
      obtain ⟨⟨_, v'⟩, hdoc', rfl⟩ := List.mem_map.1 hk
      rw [hvalue hsame _ v v' hdoc hdoc']
      exact hdoc'
    · intro hdoc'
      have hk : k ∈ docs.map Prod.fst := hkeys ▸ List.mem_map_of_mem (f := Prod.fst) hdoc'
      obtain ⟨⟨_, v'⟩, hdoc, rfl⟩ := List.mem_map.1 hk
      rw [← hvalue hsame _ v' v hdoc hdoc']
      exact hdoc
  · intro hmem
    exact (h'.of_mem_iff hmem).sameItems h''

end KVStore

end TestInfra
