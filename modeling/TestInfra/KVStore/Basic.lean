import TestInfra.Lib.Crc32
import TestInfra.KVStore.KeyStatus
import Mathlib.Logic.Function.Basic
import Mathlib.Data.Fin.Basic
import Mathlib.Data.List.FinRange

set_option autoImplicit false

/-! # The lock table and the partitions of `KVStore`

`KVStore n V` has `n` slots, each a lock and a partition, and the extra `acquire_lock` that serialises
`acquire_partitions`. Keys are spread over the slots by CRC-32; a key addressed to a named collection
goes to the slot of the **collection's** name instead.

Locks are plain booleans, as `threading.Lock` has no owner. A step that would wait for a held lock has
no result (`none`), and so has the release of a free lock (`RuntimeError`): a caller's result is `some`
exactly when it runs through. What happens when several threads step in turn is the subject of
`KVStore/Locking.lean`. -/

namespace TestInfra

/-- The `bucket`, `scope` and `collection` arguments that address an operation. -/
structure Addr where
  bucket : String := "default"
  scope : Option String := none
  collection : Option String := none
deriving DecidableEq, Repr

/-- `str(x)` of an optional name. -/
def pyStr : Option String → String
  | none => "None"
  | some s => s

/-- `if collection:` holds; the empty name is false. -/
def Addr.HasCollection (a : Addr) : Prop := ∃ c, a.collection = some c ∧ c ≠ ""

instance (a : Addr) : Decidable a.HasCollection :=
  match h : a.collection with
  | none => isFalse (fun ⟨_, hc, _⟩ => by rw [h] at hc; cases hc)
  | some c =>
      if hc : c = "" then isFalse (fun ⟨_, hc', hne⟩ => by rw [h] at hc'; cases hc'; exact hne hc)
      else isTrue ⟨c, h, hc⟩

/-- The dotted name a collection is hashed by. -/
def Addr.name (a : Addr) : String := a.bucket ++ "." ++ pyStr a.scope ++ "." ++ pyStr a.collection

/-- `self.cache[itr]`. -/
structure Slot (V : Type*) where
  lock : Bool
  partition : Partition V

/-- A store with `num_locks = n` slots. -/
structure KVStore (n : Nat) (V : Type*) where
  cache : Fin n → Slot V
  acquireLock : Bool

namespace KVStore

variable {n : Nat} {V : Type*}

/-- `KVStore(num_locks)`: every lock free, every partition empty. -/
def new (n : Nat) (V : Type*) : KVStore n V :=
  { cache := fun i => ⟨false, Partition.new i⟩, acquireLock := false }

/-- `_hash`: the key's slot, or the collection's slot when the operation names a collection. -/
def hash (n : Nat) [NeZero n] (key : String) (a : Addr) : Fin n :=
  if a.HasCollection then Fin.ofNat n (Crc32.crc32 a.name.toUTF8.toList).toNat
  else Fin.ofNat n (Crc32.crc32 key.toUTF8.toList).toNat

/-- With a collection the key plays no part (`key_set` passes `None` for it). -/
theorem hash_collection [NeZero n] {a : Addr} (h : a.HasCollection) (key key' : String) :
    hash n key a = hash n key' a := by
  simp only [hash, if_pos h]

/-! ## Slots -/

def setLock (kv : KVStore n V) (i : Fin n) (b : Bool) : KVStore n V :=
  { kv with cache := Function.update kv.cache i { kv.cache i with lock := b } }

def setPartition (kv : KVStore n V) (i : Fin n) (p : Partition V) : KVStore n V :=
  { kv with cache := Function.update kv.cache i { kv.cache i with partition := p } }

/-- The partition in slot `i`. -/
def part (kv : KVStore n V) (i : Fin n) : Partition V := (kv.cache i).partition

/-- The lock of slot `i` is held. -/
def locked (kv : KVStore n V) (i : Fin n) : Bool := (kv.cache i).lock

@[ext] theorem ext {kv kv' : KVStore n V} (hlock : ∀ i, kv.locked i = kv'.locked i)
    (hpart : ∀ i, kv.part i = kv'.part i) (hacq : kv.acquireLock = kv'.acquireLock) : kv = kv' := by
  obtain ⟨c, a⟩ := kv
  obtain ⟨c', a'⟩ := kv'
  have hcache : c = c' := by
    funext i
    have h1 := hlock i
    have h2 := hpart i
    simp only [locked, part] at h1 h2
    cases hc : c i
    cases hc' : c' i
    simp_all
  simp_all

@[simp] theorem locked_setLock (kv : KVStore n V) (i : Fin n) (b : Bool) (j : Fin n) :
    (kv.setLock i b).locked j = if j = i then b else kv.locked j := by
  by_cases h : j = i
  · subst h; simp [locked, setLock]
  · simp [locked, setLock, h]

@[simp] theorem part_setLock (kv : KVStore n V) (i : Fin n) (b : Bool) (j : Fin n) :
    (kv.setLock i b).part j = kv.part j := by
  by_cases h : j = i
  · subst h; simp [part, setLock]
  · simp [part, setLock, h]

@[simp] theorem acquireLock_setLock (kv : KVStore n V) (i : Fin n) (b : Bool) :
    (kv.setLock i b).acquireLock = kv.acquireLock := rfl

@[simp] theorem locked_setPartition (kv : KVStore n V) (i : Fin n) (p : Partition V) (j : Fin n) :
    (kv.setPartition i p).locked j = kv.locked j := by
  by_cases h : j = i
  · subst h; simp [locked, setPartition]
  · simp [locked, setPartition, h]

@[simp] theorem part_setPartition (kv : KVStore n V) (i : Fin n) (p : Partition V) (j : Fin n) :
    (kv.setPartition i p).part j = if j = i then p else kv.part j := by
  by_cases h : j = i
  · subst h; simp [part, setPartition]
  · simp [part, setPartition, h]

@[simp] theorem acquireLock_setPartition (kv : KVStore n V) (i : Fin n) (p : Partition V) :
    (kv.setPartition i p).acquireLock = kv.acquireLock := rfl

/-- No lock is held. -/
def Free (kv : KVStore n V) : Prop := ∀ i, kv.locked i = false

theorem free_new (n : Nat) (V : Type*) : (new n V).Free := fun _ => rfl

theorem Free.setPartition {kv : KVStore n V} (hkv : kv.Free) (i : Fin n) (p : Partition V) :
    (kv.setPartition i p).Free := fun j => by rw [locked_setPartition]; exact hkv j

/-! ## Taking and giving back locks -/

/-- `lock.acquire()` of slot `i`. -/
def acquire (i : Fin n) (kv : KVStore n V) : Option (KVStore n V) :=
  if kv.locked i then none else some (kv.setLock i true)

/-- `lock.release()` of slot `i`. -/
def release (i : Fin n) (kv : KVStore n V) : Option (KVStore n V) :=
  if kv.locked i then some (kv.setLock i false) else none

/-- `acquire_partition`. -/
def acquirePartition [NeZero n] (key : String) (a : Addr) (kv : KVStore n V) :
    Option (KVStore n V) := kv.acquire (hash n key a)

/-- `release_partition` of a text key. -/
def releasePartition [NeZero n] (key : String) (a : Addr) (kv : KVStore n V) :
    Option (KVStore n V) := kv.release (hash n key a)

/-- `part_obj_keys[partition_obj].append(key)`, the list created on first use. Partitions compare by
    their id, so the slot number stands for the partition object. -/
def appendKey (d : Dict (Fin n) (List String)) (i : Fin n) (key : String) :
    Dict (Fin n) (List String) :=
  d.set i ((d.get? i).getD [] ++ [key])

/-- One round of the loop of `acquire_partitions`. -/
def acquireKey [NeZero n] (a : Addr) (st : Dict (Fin n) (List String) × KVStore n V)
    (key : String) : Option (Dict (Fin n) (List String) × KVStore n V) :=
  let i := hash n key a
  if i ∈ st.1.keys then some (appendKey st.1 i key, st.2)
  else (st.2.acquire i).map fun kv => (appendKey st.1 i key, kv)

/-- `acquire_partitions`: take `acquire_lock`, then the lock of each key's slot on first use, then
    free `acquire_lock`. Returns the keys grouped by slot. -/
def acquirePartitions [NeZero n] (keys : List String) (a : Addr) (kv : KVStore n V) :
    Option (Dict (Fin n) (List String) × KVStore n V) :=
  if kv.acquireLock then none
  else (keys.foldlM (acquireKey a) (∅, { kv with acquireLock := true })).map fun st =>
    (st.1, { st.2 with acquireLock := false })

/-- `release_partitions`. -/
def releasePartitions (is : List (Fin n)) (kv : KVStore n V) : Option (KVStore n V) :=
  is.foldlM (fun kv i => kv.release i) kv

/-! ## Queries and merging -/

/-- One slot of `key_set`: lock, read both key sets, free. -/
def keySetSlot (now : Int) (st : (List String × List String) × KVStore n V) (i : Fin n) :
    Option ((List String × List String) × KVStore n V) := do
  let kv ← st.2.acquire i
  let (valid, p) := (kv.part i).validKeySet now
  let (deleted, p) := p.deletedKeySet now
  let kv ← (kv.setPartition i p).release i
  pure ((st.1.1 ++ valid, st.1.2 ++ deleted), kv)

/-- `key_set`: the collection's slot, or all slots in order when no collection is named. -/
def keySet [NeZero n] (now : Int) (a : Addr) (kv : KVStore n V) :
    Option ((List String × List String) × KVStore n V) :=
  if a.HasCollection then keySetSlot now (([], []), kv) (hash n "" a)
  else (List.finRange n).foldlM (keySetSlot now) (([], []), kv)

/-- `get_partitions`. -/
def getPartitions (kv : KVStore n V) : Fin n → Partition V := kv.part

/-- One slot of `merge_partitions`. -/
def mergeSlot (partitions : Fin n → Partition V) (kv : KVStore n V) (i : Fin n) :
    Option (KVStore n V) := do
  let kv ← kv.acquire i
  let kv := kv.setPartition i ((kv.part i).merge (partitions i))
  kv.release i

/-- `merge_partitions`, with the partitions of a store of the same size. -/
def mergePartitions (partitions : Fin n → Partition V) (kv : KVStore n V) : Option (KVStore n V) :=
  (List.finRange n).foldlM (mergeSlot partitions) kv

/-! ## What the calls do -/

theorem acquire_eq_some {i : Fin n} {kv kv' : KVStore n V} :
    kv.acquire i = some kv' ↔ kv.locked i = false ∧ kv' = kv.setLock i true := by
  unfold acquire
  cases h : kv.locked i <;> simp [eq_comm]

theorem release_eq_some {i : Fin n} {kv kv' : KVStore n V} :
    kv.release i = some kv' ↔ kv.locked i = true ∧ kv' = kv.setLock i false := by
  unfold release
  cases h : kv.locked i <;> simp [eq_comm]

/-- A slot that is written to under its lock. -/
theorem release_setPartition {i : Fin n} {kv : KVStore n V} (hfree : kv.locked i = false) (p : Partition V) :
    ((kv.setLock i true).setPartition i p).release i = some (kv.setPartition i p) := by
  refine release_eq_some.2 ⟨by simp, KVStore.ext (fun j => ?_) (fun j => ?_) rfl⟩
  · by_cases hj : j = i <;> simp [hj, hfree]
  · simp

/-- The keys grouped by slot, in the order of `acquire_partitions`. -/
def groupKeys (n : Nat) [NeZero n] (a : Addr) (keys : List String) : Dict (Fin n) (List String) :=
  keys.foldl (fun d key => appendKey d (hash n key a) key) ∅

theorem get?_appendKey (d : Dict (Fin n) (List String)) (i : Fin n) (key : String) (j : Fin n) :
    (appendKey d i key).get? j
      = if j = i then some ((d.get? i).getD [] ++ [key]) else d.get? j := by
  simp [appendKey]

theorem mem_keys_appendKey (d : Dict (Fin n) (List String)) (i : Fin n) (key : String)
    (j : Fin n) : j ∈ (appendKey d i key).keys ↔ j = i ∨ j ∈ d.keys := by
  simp [appendKey]

theorem mem_keys_foldl_appendKey [NeZero n] (a : Addr) (keys : List String)
    (d : Dict (Fin n) (List String)) (i : Fin n) :
    i ∈ (keys.foldl (fun d key => appendKey d (hash n key a) key) d).keys
      ↔ i ∈ d.keys ∨ ∃ key ∈ keys, hash n key a = i := by
  induction keys generalizing d with
  | nil => simp
  | cons key rest ih =>
      rw [List.foldl_cons, ih, mem_keys_appendKey]
      simp only [List.mem_cons, exists_eq_or_imp, eq_comm (a := i)]
      tauto

theorem mem_keys_groupKeys [NeZero n] (a : Addr) (keys : List String) (i : Fin n) :
    i ∈ (groupKeys n a keys).keys ↔ ∃ key ∈ keys, hash n key a = i := by
  simp [groupKeys, mem_keys_foldl_appendKey]

theorem getD_foldl_appendKey [NeZero n] (a : Addr) (keys : List String)
    (d : Dict (Fin n) (List String)) (i : Fin n) :
    ((keys.foldl (fun d key => appendKey d (hash n key a) key) d).get? i).getD []
      = (d.get? i).getD [] ++ keys.filter (fun key => hash n key a = i) := by
  induction keys generalizing d with
  | nil => simp
  | cons key rest ih =>
      rw [List.foldl_cons, ih, get?_appendKey]
      by_cases h : hash n key a = i
      · subst h
        simp
      · rw [if_neg (Ne.symm h), List.filter_cons_of_neg (by simpa using h)]

/-- **The grouping is exact**: a slot that some key hashes to lists these keys, in order and each as
    often as it was given; any other slot is not listed. -/
theorem get?_groupKeys [NeZero n] (a : Addr) (keys : List String) (i : Fin n) :
    (groupKeys n a keys).get? i
      = if ∃ key ∈ keys, hash n key a = i then some (keys.filter (fun key => hash n key a = i))
        else none := by
  have hval := getD_foldl_appendKey a keys ∅ i
  have hmem := mem_keys_groupKeys a keys i
  rw [Dict.mem_keys_iff] at hmem
  rw [Dict.get?_empty, Option.getD_none, List.nil_append] at hval
  change ((groupKeys n a keys).get? i).getD [] = _ at hval
  cases hg : (groupKeys n a keys).get? i with
  | none =>
      rw [hg] at hmem
      rw [if_neg (fun h => by simpa using hmem.2 h)]
  | some l =>
      rw [hg] at hmem hval
      rw [if_pos (hmem.1 rfl), ← hval]
      rfl

/-- `kv'` is `kv` with exactly the locks of `is` taken on top. -/
structure Locks (is : List (Fin n)) (kv kv' : KVStore n V) : Prop where
  free : ∀ i ∈ is, kv.locked i = false
  locked : ∀ i, kv'.locked i = (kv.locked i || decide (i ∈ is))
  part : ∀ i, kv'.part i = kv.part i

/-- The loop of `acquire_partitions`, from the groups `d` built so far. -/
theorem foldlM_acquireKey_eq_some [NeZero n] (a : Addr) (keys : List String) {kv0 kv : KVStore n V}
    {d : Dict (Fin n) (List String)} {st' : Dict (Fin n) (List String) × KVStore n V}
    (hst : Locks d.keys kv0 kv) (h : keys.foldlM (acquireKey a) (d, kv) = some st') :
    st'.1 = keys.foldl (fun d key => appendKey d (hash n key a) key) d ∧
      Locks st'.1.keys kv0 st'.2 := by
  induction keys generalizing d kv with
  | nil =>
      simp only [List.foldlM_nil, Option.pure_def, Option.some.injEq] at h
      subst h
      exact ⟨rfl, hst⟩
  | cons key rest ih =>
      rw [List.foldlM_cons, Option.bind_eq_bind, Option.bind_eq_some_iff] at h
      obtain ⟨st1, hstep, hrest⟩ := h
      simp only [acquireKey] at hstep
      split at hstep
      · next hin =>
          cases hstep
          have hnext : Locks (appendKey d (hash n key a) key).keys kv0 kv := by
            refine ⟨?_, ?_, hst.part⟩
            · intro i hi
              rcases (mem_keys_appendKey _ _ _ _).1 hi with rfl | hi
              · exact hst.free _ hin
              · exact hst.free i hi
            · intro i
              rw [hst.locked]
              congr 2
              rw [mem_keys_appendKey, eq_iff_iff]
              exact ⟨Or.inr, fun hi => hi.elim (fun he => he ▸ hin) id⟩
          exact ih hnext hrest
      · next hout =>
          obtain ⟨kv1, hacq, rfl⟩ := Option.map_eq_some_iff.1 hstep
          obtain ⟨hfree, rfl⟩ := acquire_eq_some.1 hacq
          have hfree0 : kv0.locked (hash n key a) = false := by
            have := hst.locked (hash n key a)
            rw [hfree] at this
            simpa [hout] using this.symm
          have hnext : Locks (appendKey d (hash n key a) key).keys kv0
              (kv.setLock (hash n key a) true) := by
            refine ⟨?_, ?_, ?_⟩
            · intro i hi
              rcases (mem_keys_appendKey _ _ _ _).1 hi with rfl | hi
              · exact hfree0
              · exact hst.free i hi
            · intro i
              rw [locked_setLock, hst.locked]
              by_cases hi : i = hash n key a <;> simp [hi, mem_keys_appendKey]
            · intro i
              rw [part_setLock, hst.part]
          exact ih hnext hrest

/-- `acquire_partitions` that runs through returns the exact grouping and has taken, on top of what
    was held, exactly the locks of the listed slots, all of them free before. -/
theorem acquirePartitions_eq_some [NeZero n] {keys : List String} {a : Addr}
    {kv kv' : KVStore n V} {d : Dict (Fin n) (List String)}
    (h : kv.acquirePartitions keys a = some (d, kv')) :
    d = groupKeys n a keys ∧ Locks d.keys kv kv' ∧ kv'.acquireLock = false := by
  unfold acquirePartitions at h
  split at h
  · cases h
  · obtain ⟨st, hfold, heq⟩ := Option.map_eq_some_iff.1 h
    have hinit : Locks (∅ : Dict (Fin n) (List String)).keys kv { kv with acquireLock := true } :=
      ⟨by simp, fun i => by simp [locked], fun _ => rfl⟩
    obtain ⟨hd, hl⟩ := foldlM_acquireKey_eq_some a keys hinit hfold
    cases heq
    exact ⟨hd, ⟨hl.free, hl.locked, hl.part⟩, rfl⟩

theorem foldlM_acquireKey_isSome [NeZero n] (a : Addr) (keys : List String)
    (d : Dict (Fin n) (List String)) (kv : KVStore n V)
    (hfree : ∀ key ∈ keys, hash n key a ∉ d.keys → kv.locked (hash n key a) = false) :
    (keys.foldlM (acquireKey a) (d, kv)).isSome := by
  induction keys generalizing d kv with
  | nil => rfl
  | cons key rest ih =>
      rw [List.foldlM_cons]
      simp only [acquireKey]
      split
      · refine ih _ _ fun key' hk' hout => hfree key' (List.mem_cons_of_mem _ hk') ?_
        exact fun hin => hout ((mem_keys_appendKey _ _ _ _).2 (Or.inr hin))
      · next hout =>
          have hacq := acquire_eq_some.2 ⟨hfree key List.mem_cons_self hout, rfl⟩
          rw [hacq]
          refine ih _ _ fun key' hk' hout' => ?_
          rw [mem_keys_appendKey, not_or] at hout'
          rw [locked_setLock, if_neg hout'.1]
          exact hfree key' (List.mem_cons_of_mem _ hk') hout'.2

/-- `acquire_partitions` runs through when `acquire_lock` and the locks it needs are free. -/
theorem acquirePartitions_isSome [NeZero n] {keys : List String} {a : Addr} {kv : KVStore n V}
    (hacq : kv.acquireLock = false) (hfree : ∀ key ∈ keys, kv.locked (hash n key a) = false) :
    (kv.acquirePartitions keys a).isSome := by
  simp only [acquirePartitions, hacq, Bool.false_eq_true, if_false, Option.isSome_map]
  exact foldlM_acquireKey_isSome a keys ∅ _ fun key hkey _ => hfree key hkey

/-- `release_partitions` of held slots, each named once, frees exactly these. -/
theorem releasePartitions_spec {is : List (Fin n)} (hnod : is.Nodup) {kv : KVStore n V}
    (hheld : ∀ i ∈ is, kv.locked i = true) :
    ∃ kv', kv.releasePartitions is = some kv' ∧
      (∀ i, kv'.locked i = (kv.locked i && decide (i ∉ is))) ∧
      (∀ i, kv'.part i = kv.part i) ∧ kv'.acquireLock = kv.acquireLock := by
  induction is generalizing kv with
  | nil => exact ⟨kv, rfl, by simp, fun _ => rfl, rfl⟩
  | cons i rest ih =>
      rw [List.nodup_cons] at hnod
      have hrel := release_eq_some.2 ⟨hheld i List.mem_cons_self, rfl⟩
      have hrest : ∀ j ∈ rest, (kv.setLock i false).locked j = true := by
        intro j hj
        have hne : j ≠ i := fun he => hnod.1 (he ▸ hj)
        rw [locked_setLock, if_neg hne]
        exact hheld j (List.mem_cons_of_mem _ hj)
      obtain ⟨kv', hrun, hlock, hpart, hacq⟩ := ih hnod.2 hrest
      refine ⟨kv', ?_, ?_, ?_, hacq⟩
      · rw [releasePartitions, List.foldlM_cons, hrel]
        exact hrun
      · intro j
        rw [hlock, locked_setLock]
        by_cases hj : j = i
        · simp [hj]
        · simp [hj]
      · intro j
        rw [hpart, part_setLock]

end KVStore

end TestInfra
