import TestInfra.Lib.Interleave
import TestInfra.KVStore.Basic

set_option autoImplicit false

/-! # Threads on one store

Any number of threads call `acquire_partition`/`release_partition`, `acquire_partitions`/
`release_partitions`, `key_set` and `merge_partitions` on one store, one call after the other and never
one inside the other. Each lock operation is one atomic step (`Thread.next`); while it holds a slot a
thread may change that slot's partition at will, which covers every use made of the partitions.

`acquire_partitions` takes its locks in the order of the keys, so two batches can want the same slots in
opposite orders. What saves the day is that only the thread inside `acquire_lock` ever waits while it
holds something. -/

namespace TestInfra

namespace KVStore

variable {n : Nat} {V : Type*}

/-- A call, from its first lock step to its last. -/
inductive Call where
  /-- `acquire_partition(key)`, some work, `release_partition(key)`. -/
  | single (key : String) (a : Addr)
  /-- `acquire_partitions(keys)`, some work, `release_partitions` of the returned partitions. -/
  | batch (keys : List String) (a : Addr)
  | keySet (a : Addr)
  | mergePartitions

/-- Where a thread is inside its current call. -/
inductive Pc (n : Nat) where
  | idle
  /-- `acquire_partition` has returned. -/
  | holding (key : String) (a : Addr)
  /-- In the loop of `acquire_partitions`: the groups so far, the keys to come. -/
  | grouping (a : Addr) (d : Dict (Fin n) (List String)) (rest : List String)
  /-- `acquire_partitions` has returned `d`. -/
  | returned (a : Addr) (d : Dict (Fin n) (List String))
  /-- In the loop of `release_partitions`. -/
  | releasing (is : List (Fin n))
  /-- In the loop of `key_set` or `merge_partitions`, between two slots. -/
  | sweeping (is : List (Fin n))
  /-- In that loop, holding slot `i`. -/
  | inSlot (i : Fin n) (is : List (Fin n))

/-- A thread: its place, and its calls, the current one first. -/
structure Thread (n : Nat) where
  pc : Pc n
  todo : List Call

/-- The call is over. -/
def Thread.done (th : Thread n) : Thread n := ⟨.idle, th.todo.tail⟩

def Thread.goto (th : Thread n) (pc : Pc n) : Thread n := ⟨pc, th.todo⟩

/-- The slots that `key_set` visits. -/
def keySetSlots (n : Nat) [NeZero n] (a : Addr) : List (Fin n) :=
  if a.HasCollection then [hash n "" a] else List.finRange n

/-- The next lock step of a thread; `none` when it has to wait (or has nothing left to do). -/
def Thread.next [NeZero n] (th : Thread n) (kv : KVStore n V) : Option (Thread n × KVStore n V) :=
  match th.pc with
  | .idle =>
      match th.todo with
      | [] => none
      | .single key a :: _ => (kv.acquirePartition key a).map fun kv => (th.goto (.holding key a), kv)
      | .batch keys a :: _ =>
          if kv.acquireLock then none
          else some (th.goto (.grouping a ∅ keys), { kv with acquireLock := true })
      | .keySet a :: _ => some (th.goto (.sweeping (keySetSlots n a)), kv)
      | .mergePartitions :: _ => some (th.goto (.sweeping (List.finRange n)), kv)
  | .holding key a => (kv.releasePartition key a).map fun kv => (th.done, kv)
  | .grouping a d [] =>
      if kv.acquireLock then some (th.goto (.returned a d), { kv with acquireLock := false })
      else none
  | .grouping a d (key :: rest) =>
      (acquireKey a (d, kv) key).map fun st => (th.goto (.grouping a st.1 rest), st.2)
  | .returned _ d => some (th.goto (.releasing d.keys), kv)
  | .releasing [] => some (th.done, kv)
  | .releasing (i :: is) => (kv.release i).map fun kv => (th.goto (.releasing is), kv)
  | .sweeping [] => some (th.done, kv)
  | .sweeping (i :: is) => (kv.acquire i).map fun kv => (th.goto (.inSlot i is), kv)
  | .inSlot i is => (kv.release i).map fun kv => (th.goto (.sweeping is), kv)

/-- Nothing left to do. -/
def Thread.Finished (th : Thread n) : Prop := th.pc = .idle ∧ th.todo = []

/-- The slots a thread holds: taken and not yet given back. -/
def Thread.held [NeZero n] (th : Thread n) : List (Fin n) :=
  match th.pc with
  | .idle | .sweeping _ => []
  | .holding key a => [hash n key a]
  | .grouping _ d _ | .returned _ d => d.keys
  | .releasing is => is
  | .inSlot i _ => [i]

/-- The thread is inside `acquire_lock`. -/
def Thread.InAcquire (th : Thread n) : Prop := ∃ a d rest, th.pc = .grouping a d rest

/-- The steps of a thread: its lock steps, and work on a partition it holds. -/
def lockStep [NeZero n] {T : Type*} (_ : T) (kv : KVStore n V) (th : Thread n) (kv' : KVStore n V)
    (th' : Thread n) : Prop :=
  th.next kv = some (th', kv') ∨ ∃ i ∈ th.held, ∃ p, kv' = kv.setPartition i p ∧ th' = th

/-! ## What one step does -/

/-- What a thread knows of its own call. -/
def Thread.Ok [NeZero n] (th : Thread n) : Prop :=
  match th.pc with
  | .grouping a d rest => ∃ taken todo, th.todo = .batch (taken ++ rest) a :: todo ∧
      d = groupKeys n a taken
  | .returned a d => ∃ keys todo, th.todo = .batch keys a :: todo ∧ d = groupKeys n a keys
  | .releasing is => is.Nodup
  | _ => True

/-- The effect of a lock step on what the thread holds and on the locks. -/
inductive Effect [NeZero n] (th th' : Thread n) (kv kv' : KVStore n V) : Prop where
  | stay : th'.held = th.held → (th'.InAcquire ↔ th.InAcquire) → kv' = kv → Effect th th' kv kv'
  | take (i : Fin n) : kv.locked i = false → (∀ j, j ∈ th'.held ↔ j = i ∨ j ∈ th.held) →
      (th'.InAcquire ↔ th.InAcquire) → kv' = kv.setLock i true → Effect th th' kv kv'
  | free (i : Fin n) : i ∉ th'.held → (∀ j, j ∈ th.held ↔ j = i ∨ j ∈ th'.held) →
      (th'.InAcquire ↔ th.InAcquire) → kv' = kv.setLock i false → Effect th th' kv kv'
  | enter : kv.acquireLock = false → th'.held = th.held → ¬ th.InAcquire → th'.InAcquire →
      kv' = { kv with acquireLock := true } → Effect th th' kv kv'
  | leave : th'.held = th.held → th.InAcquire → ¬ th'.InAcquire →
      kv' = { kv with acquireLock := false } → Effect th th' kv kv'

theorem groupKeys_append [NeZero n] (a : Addr) (keys : List String) (key : String) :
    groupKeys n a (keys ++ [key]) = appendKey (groupKeys n a keys) (hash n key a) key := by
  simp [groupKeys, List.foldl_append]

/-- A step that waits for a slot and takes it. -/
theorem map_acquire_eq_some {th₁ th' : Thread n} {kv kv' : KVStore n V} {i : Fin n}
    (h : (kv.acquire i).map (fun kv => (th₁, kv)) = some (th', kv')) :
    th' = th₁ ∧ kv.locked i = false ∧ kv' = kv.setLock i true := by
  obtain ⟨kv₁, hacq, heq⟩ := Option.map_eq_some_iff.1 h
  cases heq
  obtain ⟨hfree, rfl⟩ := acquire_eq_some.1 hacq
  exact ⟨rfl, hfree, rfl⟩

/-- A step that gives a slot back. -/
theorem map_release_eq_some {th₁ th' : Thread n} {kv kv' : KVStore n V} {i : Fin n}
    (h : (kv.release i).map (fun kv => (th₁, kv)) = some (th', kv')) :
    th' = th₁ ∧ kv' = kv.setLock i false := by
  obtain ⟨kv₁, hrel, heq⟩ := Option.map_eq_some_iff.1 h
  cases heq
  obtain ⟨-, rfl⟩ := release_eq_some.1 hrel
  exact ⟨rfl, rfl⟩

/-- The first step of a call. -/
theorem next_effect_idle [NeZero n] {todo : List Call} {th' : Thread n} {kv kv' : KVStore n V}
    (h : (⟨.idle, todo⟩ : Thread n).next kv = some (th', kv')) :
    th'.Ok ∧ Effect ⟨.idle, todo⟩ th' kv kv' := by
  cases todo with
  | nil => cases h
  | cons call rest =>
      cases call with
      | single key a =>
          obtain ⟨rfl, hfree, rfl⟩ := map_acquire_eq_some h
          refine ⟨trivial, .take (hash n key a) hfree ?_ ?_ rfl⟩
          · simp [Thread.held, Thread.goto]
          · simp [Thread.InAcquire, Thread.goto]
      | batch keys a =>
          simp only [Thread.next] at h
          split at h
          · cases h
          · next hfree =>
              cases h
              refine ⟨⟨[], rest, rfl, rfl⟩, .enter (by simpa using hfree) rfl ?_ ?_ rfl⟩
              · simp [Thread.InAcquire]
              · exact ⟨a, ∅, keys, rfl⟩
      | keySet a =>
          cases h
          exact ⟨trivial, .stay rfl (by simp [Thread.InAcquire, Thread.goto]) rfl⟩
      | mergePartitions =>
          cases h
          exact ⟨trivial, .stay rfl (by simp [Thread.InAcquire, Thread.goto]) rfl⟩

/-- A round of the loop of `acquire_partitions`, or its end. -/
theorem next_effect_grouping [NeZero n] {a : Addr} {d : Dict (Fin n) (List String)}
    {rest : List String} {todo : List Call} {th' : Thread n} {kv kv' : KVStore n V}
    (hok : (⟨.grouping a d rest, todo⟩ : Thread n).Ok)
    (h : (⟨.grouping a d rest, todo⟩ : Thread n).next kv = some (th', kv')) :
    th'.Ok ∧ Effect ⟨.grouping a d rest, todo⟩ th' kv kv' := by
  obtain ⟨taken, todo', rfl, rfl⟩ := hok
  cases rest with
  | nil =>
      simp only [Thread.next] at h
      split at h
      · cases h
        refine ⟨⟨taken, todo', by rw [List.append_nil]; rfl, rfl⟩, .leave rfl ?_ ?_ rfl⟩
        · exact ⟨a, _, [], rfl⟩
        · simp [Thread.InAcquire, Thread.goto]
      · cases h
  | cons key rest =>
      obtain ⟨st, hst, heq⟩ := Option.map_eq_some_iff.1 h
      cases heq
      have hcall : (taken ++ key :: rest) = (taken ++ [key]) ++ rest := by simp
      simp only [acquireKey] at hst
      split at hst
      · next hin =>
          -- the slot is already held
          cases hst
          refine ⟨⟨taken ++ [key], todo', by rw [← hcall]; rfl, (groupKeys_append _ _ _).symm⟩,
            .stay ?_ ?_ rfl⟩
          · simp only [Thread.held, Thread.goto, appendKey, Dict.keys_set, if_pos hin]
          · simp [Thread.InAcquire, Thread.goto]
      · obtain ⟨kv1, hacq, rfl⟩ := Option.map_eq_some_iff.1 hst
        obtain ⟨hfree, rfl⟩ := acquire_eq_some.1 hacq
        refine ⟨⟨taken ++ [key], todo', by rw [← hcall]; rfl, (groupKeys_append _ _ _).symm⟩,
          .take (hash n key a) hfree ?_ ?_ rfl⟩
        · exact fun j => mem_keys_appendKey _ _ _ _
        · simp [Thread.InAcquire, Thread.goto]

/-- **What a lock step does**: one of the five effects, and the thread still knows its call. -/
theorem next_effect [NeZero n] {th th' : Thread n} {kv kv' : KVStore n V} (hok : th.Ok)
    (h : th.next kv = some (th', kv')) : th'.Ok ∧ Effect th th' kv kv' := by
  obtain ⟨pc, todo⟩ := th
  cases pc with
  | idle => exact next_effect_idle h
  | grouping a d rest => exact next_effect_grouping hok h
  | holding key a =>
      obtain ⟨rfl, rfl⟩ := map_release_eq_some h
      refine ⟨trivial, .free (hash n key a) ?_ ?_ ?_ rfl⟩
      · simp [Thread.held, Thread.done]
      · simp [Thread.held, Thread.done]
      · simp [Thread.InAcquire, Thread.done]
  | returned a d =>
      cases h
      exact ⟨d.nodup_keys, .stay rfl (by simp [Thread.InAcquire, Thread.goto]) rfl⟩
  | releasing is =>
      cases is with
      | nil =>
          cases h
          exact ⟨trivial, .stay rfl (by simp [Thread.InAcquire, Thread.done]) rfl⟩
      | cons i is =>
          obtain ⟨hi, hnod⟩ := List.nodup_cons.1 (show (i :: is).Nodup from hok)
          obtain ⟨rfl, rfl⟩ := map_release_eq_some h
          refine ⟨hnod, .free i hi ?_ ?_ rfl⟩
          · simp [Thread.held, Thread.goto]
          · simp [Thread.InAcquire, Thread.goto]
  | sweeping is =>
      cases is with
      | nil =>
          cases h
          exact ⟨trivial, .stay rfl (by simp [Thread.InAcquire, Thread.done]) rfl⟩
      | cons i is =>
          obtain ⟨rfl, hfree, rfl⟩ := map_acquire_eq_some h
          refine ⟨trivial, .take i hfree ?_ ?_ rfl⟩
          · simp [Thread.held, Thread.goto]
          · simp [Thread.InAcquire, Thread.goto]
  | inSlot i is =>
      obtain ⟨rfl, rfl⟩ := map_release_eq_some h
      refine ⟨trivial, .free i ?_ ?_ ?_ rfl⟩
      · simp [Thread.held, Thread.goto]
      · simp [Thread.held, Thread.goto]
      · simp [Thread.InAcquire, Thread.goto]

/-! ## The lock invariant -/

section Invariant

variable [NeZero n] {T : Type*}

open Interleave

/-- Every taken lock has exactly one holder, and so has `acquire_lock`. -/
structure LockInv (s : State T (KVStore n V) (Thread n)) : Prop where
  ok : ∀ t, (s.thread t).Ok
  owner : ∀ i, s.shared.locked i = true ↔ ∃ t, i ∈ (s.thread t).held
  unique : ∀ t u i, i ∈ (s.thread t).held → i ∈ (s.thread u).held → t = u
  acquire : s.shared.acquireLock = true ↔ ∃ t, (s.thread t).InAcquire
  acquire_unique : ∀ t u, (s.thread t).InAcquire → (s.thread u).InAcquire → t = u

/-- A fresh store, and threads that have not started. -/
def Started (s : State T (KVStore n V) (Thread n)) : Prop :=
  s.shared.acquireLock = false ∧ (∀ i, s.shared.locked i = false) ∧ ∀ t, (s.thread t).pc = .idle

theorem LockInv.of_started {s : State T (KVStore n V) (Thread n)} (h : Started s) : LockInv s := by
  obtain ⟨hacq, hfree, hidle⟩ := h
  have hheld : ∀ t, (s.thread t).held = [] := fun t => by simp [Thread.held, hidle t]
  have hout : ∀ t, ¬ (s.thread t).InAcquire := by
    rintro t ⟨a, d, rest, hpc⟩
    rw [hidle t] at hpc
    cases hpc
  refine ⟨fun t => by simp [Thread.Ok, hidle t], fun i => ?_, fun t u i hi => ?_, ?_,
    fun t u ht => absurd ht (hout t)⟩
  · simp [hfree i, hheld]
  · rw [hheld t] at hi; cases hi
  · simp [hacq, hout]

/-- The holders of a lock, one thread told apart from the others. -/
theorem LockInv.locked_iff {s : State T (KVStore n V) (Thread n)} (hs : LockInv s) (t : T)
    (j : Fin n) :
    s.shared.locked j = true ↔
      j ∈ (s.thread t).held ∨ ∃ u, u ≠ t ∧ j ∈ (s.thread u).held :=
  (hs.owner j).trans (State.exists_iff (P := fun th : Thread n => j ∈ th.held) s t)

theorem LockInv.acquire_iff {s : State T (KVStore n V) (Thread n)} (hs : LockInv s) (t : T) :
    s.shared.acquireLock = true ↔
      (s.thread t).InAcquire ∨ ∃ u, u ≠ t ∧ (s.thread u).InAcquire :=
  hs.acquire.trans (State.exists_iff s t)

/-! ## Nobody waits for ever -/

/-- A thread that holds a slot and is not inside `acquire_lock` has only to let go. -/
theorem next_of_holds {s : State T (KVStore n V) (Thread n)} (hs : LockInv s) {t : T} {i : Fin n}
    (hi : i ∈ (s.thread t).held) (hout : ¬ (s.thread t).InAcquire) :
    ((s.thread t).next s.shared).isSome := by
  have hlocked : ∀ j ∈ (s.thread t).held, s.shared.locked j = true :=
    fun j hj => (hs.owner j).2 ⟨t, hj⟩
  cases hth : s.thread t with
  | mk pc todo =>
      rw [hth] at hi hout hlocked
      cases pc with
      | idle => cases hi
      | sweeping is => cases hi
      | grouping a d rest => exact absurd ⟨a, d, rest, rfl⟩ hout
      | returned a d => rfl
      | holding key a =>
          have := hlocked (hash n key a) (by simp [Thread.held])
          simp [Thread.next, releasePartition, release, this]
      | releasing is =>
          cases is with
          | nil => rfl
          | cons j is =>
              have := hlocked j (by simp [Thread.held])
              simp [Thread.next, release, this]
      | inSlot j is =>
          have := hlocked j (by simp [Thread.held])
          simp [Thread.next, release, this]

/-- The thread inside `acquire_lock` can go on, unless some other thread holds the slot it wants. -/
theorem next_of_inAcquire {s : State T (KVStore n V) (Thread n)} (hs : LockInv s) {t : T}
    (hin : (s.thread t).InAcquire) :
    ((s.thread t).next s.shared).isSome ∨ ∃ u i, u ≠ t ∧ i ∈ (s.thread u).held := by
  have hacq : s.shared.acquireLock = true := hs.acquire.2 ⟨t, hin⟩
  obtain ⟨a, d, rest, hpc⟩ := hin
  have hheld : (s.thread t).held = d.keys := by simp [Thread.held, hpc]
  cases rest with
  | nil => exact Or.inl (by simp [Thread.next, hpc, hacq])
  | cons key rest =>
      by_cases hmem : hash n key a ∈ d.keys
      · exact Or.inl (by simp [Thread.next, hpc, acquireKey, hmem])
      · cases hl : s.shared.locked (hash n key a) with
        | false => exact Or.inl (by simp [Thread.next, hpc, acquireKey, hmem, acquire, hl])
        | true =>
            rcases (hs.locked_iff t _).1 hl with hmine | ⟨u, hut, hu⟩
            · rw [hheld] at hmine
              exact absurd hmine hmem
            · exact Or.inr ⟨u, _, hut, hu⟩

/-- With no lock taken at all, every unfinished thread can go on. -/
theorem next_of_all_free {s : State T (KVStore n V) (Thread n)} {t : T}
    (hfree : ∀ i, s.shared.locked i = false) (hacq : s.shared.acquireLock = false)
    (hheld : (s.thread t).held = []) (hout : ¬ (s.thread t).InAcquire)
    (hmore : ¬ (s.thread t).Finished) : ((s.thread t).next s.shared).isSome := by
  cases hth : s.thread t with
  | mk pc todo =>
      rw [hth] at hheld hout hmore
      cases pc with
      | idle =>
          cases todo with
          | nil => exact absurd ⟨rfl, rfl⟩ hmore
          | cons call rest =>
              cases call <;> simp [Thread.next, acquirePartition, acquire, hfree, hacq]
      | holding key a => cases hheld
      | grouping a d rest => exact absurd ⟨a, d, rest, rfl⟩ hout
      | returned a d => rfl
      | releasing is =>
          cases is with
          | nil => rfl
          | cons i is => cases hheld
      | sweeping is =>
          cases is with
          | nil => rfl
          | cons i is => simp [Thread.next, acquire, hfree]
      | inSlot i is => cases hheld

theorem finished_held {th : Thread n} (h : th.Finished) : th.held = [] := by
  simp [Thread.held, h.1]

theorem LockInv.progress {s : State T (KVStore n V) (Thread n)} (hs : LockInv s)
    (hmore : ∃ t, ¬ (s.thread t).Finished) :
    ∃ t, ¬ (s.thread t).Finished ∧ ((s.thread t).next s.shared).isSome := by
  have hbusy : ∀ {t i}, i ∈ (s.thread t).held → ¬ (s.thread t).Finished := by
    intro t i hi hf
    rw [finished_held hf] at hi
    cases hi
  by_cases hletgo : ∃ t i, i ∈ (s.thread t).held ∧ ¬ (s.thread t).InAcquire
  · obtain ⟨t, i, hi, hout⟩ := hletgo
    exact ⟨t, hbusy hi, next_of_holds hs hi hout⟩
  · -- whoever holds something is the one thread inside `acquire_lock`
    by_cases hin : ∃ t, (s.thread t).InAcquire
    · obtain ⟨t, ht⟩ := hin
      rcases next_of_inAcquire hs ht with hnext | ⟨u, i, hut, hu⟩
      · refine ⟨t, ?_, hnext⟩
        intro hf
        obtain ⟨a, d, rest, hpc⟩ := ht
        rw [hf.1] at hpc
        cases hpc
      · refine absurd ⟨u, i, hu, fun hu' => ?_⟩ hletgo
        exact hut (hs.acquire_unique u t hu' ht)
    · have hnone : ∀ t i, i ∉ (s.thread t).held :=
        fun t i hi => hletgo ⟨t, i, hi, fun h => hin ⟨t, h⟩⟩
      have hfree : ∀ i, s.shared.locked i = false := by
        intro i
        rw [← Bool.not_eq_true, hs.owner i]
        rintro ⟨t, hi⟩
        exact hnone t i hi
      have hacq : s.shared.acquireLock = false := by
        rw [← Bool.not_eq_true, hs.acquire]
        exact hin
      obtain ⟨t, ht⟩ := hmore
      exact ⟨t, ht, next_of_all_free hfree hacq (List.eq_nil_iff_forall_not_mem.2 (hnone t))
        (fun h => hin ⟨t, h⟩) ht⟩

/-! ## Every step keeps the invariant -/

variable [DecidableEq T]

section Effect

variable {s : State T (KVStore n V) (Thread n)} {t : T} {th' : Thread n} {kv' : KVStore n V}

omit [DecidableEq T] in
/-- The slot locks after an effect: no other thread holds one of the thread's, and a slot is locked when the
    thread or another one holds it. -/
theorem LockInv.effect_slots (hs : LockInv s) (heff : Effect (s.thread t) th' s.shared kv') :
    (∀ j ∈ th'.held, ∀ u, u ≠ t → j ∉ (s.thread u).held) ∧
      ∀ j, kv'.locked j = true ↔ j ∈ th'.held ∨ ∃ u, u ≠ t ∧ j ∈ (s.thread u).held := by
  have hothers : ∀ j ∈ (s.thread t).held, ∀ u, u ≠ t → j ∉ (s.thread u).held :=
    fun j hj u hut hu => hut (hs.unique u t j hu hj)
  cases heff with
  | stay hheld hin hkv =>
      subst hkv
      rw [hheld]
      exact ⟨hothers, hs.locked_iff t⟩
  | take i hfree hheld hin hkv =>
      subst hkv
      refine ⟨?_, ?_⟩
      · intro j hj u hut hu
        rcases (hheld j).1 hj with rfl | hj
        · have hlocked := (hs.owner j).2 ⟨u, hu⟩
          rw [hfree] at hlocked
          cases hlocked
        · exact hothers j hj u hut hu
      · intro j
        rw [locked_setLock, hheld j]
        by_cases hj : j = i
        · simp [hj]
        · simp only [hj, if_false, false_or]
          exact hs.locked_iff t j
  | free i hi hheld hin hkv =>
      subst hkv
      refine ⟨fun j hj => hothers j ((hheld j).2 (Or.inr hj)), ?_⟩
      intro j
      rw [locked_setLock]
      by_cases hj : j = i
      · subst hj
        have hmine : j ∈ (s.thread t).held := (hheld j).2 (Or.inl rfl)
        simp only [if_true, Bool.false_eq_true, hi, false_or, false_iff, not_exists, not_and]
        exact hothers j hmine
      · rw [if_neg hj, hs.locked_iff t j, hheld j]
        simp [hj]
  | enter hfree hheld hout hin hkv =>
      subst hkv
      rw [hheld]
      exact ⟨hothers, hs.locked_iff t⟩
  | leave hheld hin hout hkv =>
      subst hkv
      rw [hheld]
      exact ⟨hothers, hs.locked_iff t⟩

omit [DecidableEq T] in
/-- The same of `acquire_lock`. -/
theorem LockInv.effect_acquire (hs : LockInv s) (heff : Effect (s.thread t) th' s.shared kv') :
    (th'.InAcquire → ∀ u, u ≠ t → ¬ (s.thread u).InAcquire) ∧
      (kv'.acquireLock = true ↔ th'.InAcquire ∨ ∃ u, u ≠ t ∧ (s.thread u).InAcquire) := by
  have hothers : (s.thread t).InAcquire → ∀ u, u ≠ t → ¬ (s.thread u).InAcquire :=
    fun ht u hut hu => hut (hs.acquire_unique u t hu ht)
  cases heff with
  | stay hheld hin hkv =>
      subst hkv
      rw [hin]
      exact ⟨hothers, hs.acquire_iff t⟩
  | take i hfree hheld hin hkv =>
      subst hkv
      rw [hin]
      exact ⟨hothers, hs.acquire_iff t⟩
  | free i hi hheld hin hkv =>
      subst hkv
      rw [hin]
      exact ⟨hothers, hs.acquire_iff t⟩
  | enter hfree hheld hout hin hkv =>
      subst hkv
      have hnone : ∀ u, ¬ (s.thread u).InAcquire := by
        intro u hu
        have hheldA := hs.acquire.2 ⟨u, hu⟩
        rw [hfree] at hheldA
        cases hheldA
      exact ⟨fun _ u _ => hnone u, by simp [hin]⟩
  | leave hheld hin hout hkv =>
      subst hkv
      refine ⟨fun h => absurd h hout, ?_⟩
      simp only [Bool.false_eq_true, hout, false_or, false_iff, not_exists, not_and]
      exact hothers hin

theorem LockInv.effect (hs : LockInv s) (hok : th'.Ok) (heff : Effect (s.thread t) th' s.shared kv') :
    LockInv (s.move t kv' th') := by
  obtain ⟨hnew, hlocked⟩ := hs.effect_slots heff
  obtain ⟨hnewA, hlockedA⟩ := hs.effect_acquire heff
  refine ⟨?_, ?_, ?_, ?_, ?_⟩
  · exact State.forall_move (P := fun _ th => th.Ok) s t kv' th' hok fun u _ => hs.ok u
  · intro i
    rw [State.exists_move (P := fun th : Thread n => i ∈ th.held)]
    exact hlocked i
  · intro u v i
    exact State.unique_move (P := fun th : Thread n => i ∈ th.held) s t kv' th'
      (fun u v => hs.unique u v i) (hnew i) u v
  · rw [State.exists_move (P := Thread.InAcquire)]
    exact hlockedA
  · exact State.unique_move s t kv' th' hs.acquire_unique hnewA

end Effect

theorem LockInv.step {s : State T (KVStore n V) (Thread n)} (hs : LockInv s) {t : T}
    {th' : Thread n} {kv' : KVStore n V} (h : lockStep t s.shared (s.thread t) kv' th') :
    LockInv (s.move t kv' th') := by
  rcases h with hnext | ⟨i, _, p, rfl, rfl⟩
  · obtain ⟨hok, heff⟩ := next_effect (hs.ok t) hnext
    exact hs.effect hok heff
  · -- work on a partition moves no lock
    have hmove : (s.move t (s.shared.setPartition i p) (s.thread t))
        = ⟨s.shared.setPartition i p, s.thread⟩ := by
      simp [State.move]
    rw [hmove]
    exact ⟨hs.ok, fun j => by rw [locked_setPartition]; exact hs.owner j, hs.unique, hs.acquire,
      hs.acquire_unique⟩

theorem LockInv.of_reachable {s₀ s : State T (KVStore n V) (Thread n)} (h₀ : Started s₀)
    (h : Reachable lockStep s₀ s) : LockInv s :=
  h.invariant (LockInv.of_started h₀) fun _ _ _ _ hs hact => hs.step hact

/-- **Locking.** In every interleaving of any number of threads on a fresh store: a partition has at
    most one holder (and its lock is taken exactly while it has one); a batch that
    `acquire_partitions` returned groups exactly the given keys by slot, each slot held by the caller;
    and as long as some thread is not finished, some unfinished thread can take its next step. -/
theorem locking_safe {s₀ s : State T (KVStore n V) (Thread n)} (h₀ : Started s₀)
    (h : Reachable lockStep s₀ s) :
    (∀ t u i, i ∈ (s.thread t).held → i ∈ (s.thread u).held → t = u) ∧
    (∀ i, s.shared.locked i = true ↔ ∃ t, i ∈ (s.thread t).held) ∧
    (∀ t a d, (s.thread t).pc = .returned a d →
      ∃ keys todo, (s.thread t).todo = .batch keys a :: todo ∧
        (∀ i, d.get? i = if ∃ key ∈ keys, hash n key a = i
          then some (keys.filter (fun key => hash n key a = i)) else none) ∧
        ∀ i ∈ d.keys, i ∈ (s.thread t).held) ∧
    ((∃ t, ¬ (s.thread t).Finished) →
      ∃ t, ¬ (s.thread t).Finished ∧ ((s.thread t).next s.shared).isSome) := by
  have hs := LockInv.of_reachable h₀ h
  refine ⟨hs.unique, hs.owner, ?_, hs.progress⟩
  intro t a d hpc
  have hok := hs.ok t
  simp only [Thread.Ok, hpc] at hok
  obtain ⟨keys, todo, htodo, rfl⟩ := hok
  refine ⟨keys, todo, htodo, get?_groupKeys a keys, fun i hi => ?_⟩
  simpa [Thread.held, hpc] using hi

end Invariant

/-- Two threads about to take overlapping batches on a store of the default size. -/
def twoBatches : Interleave.State Bool (KVStore 1000 String) (Thread 1000) :=
  ⟨new 1000 String, fun b =>
    ⟨.idle, [.batch (if b then ["doc-1", "doc-2"] else ["doc-2", "doc-1"]) {}, .keySet {}]⟩⟩

/-- The same two threads after the first of them has entered `acquire_lock`. -/
theorem locking_safe_two_batches :
    let s := twoBatches.move true { new 1000 String with acquireLock := true }
      ((twoBatches.thread true).goto (.grouping {} ∅ ["doc-1", "doc-2"]))
    ∃ t, ¬ (s.thread t).Finished ∧ ((s.thread t).next s.shared).isSome := by
  intro s
  have hreach : Interleave.Reachable lockStep twoBatches s :=
    Relation.ReflTransGen.single ⟨true, _, _, Or.inl rfl, rfl⟩
  have hstart : Started twoBatches := ⟨rfl, fun _ => rfl, fun _ => rfl⟩
  refine (locking_safe hstart hreach).2.2.2 ⟨false, fun hf => ?_⟩
  cases hf.2

end KVStore

end TestInfra
