import TestInfra.KVStore.Basic

set_option autoImplicit false

/-! # Collections on one store

Operations name a bucket, scope and collection, but the store keeps neither: a named collection is sent
to one of the `n` slots by the hash of its dotted name, and an operation without a collection to the
slot of its key. This file says exactly which collections are kept apart by that (`Apart`), over every
history of operations on a fresh store. -/

namespace TestInfra

namespace KVStore

variable {n : Nat} {V : Type*}

/-! ## Operations addressed to a collection -/

/-- What is done to the key. -/
inductive Act (V : Type*) where
  | set (value : V) (exp flag : Int)
  | delete
  | getValid
  | getDeleted
  | getFlag

/-- An operation on one key, with the collection it is addressed to. -/
structure Access (V : Type*) where
  addr : Addr
  key : String
  act : Act V

def Access.op (x : Access V) : Partition.Op V :=
  match x.act with
  | .set value exp flag => .set x.key value exp flag
  | .delete => .delete x.key
  | .getValid => .getValid x.key
  | .getDeleted => .getDeleted x.key
  | .getFlag => .getFlag x.key

/-- The slot the operation goes to. -/
def Access.slot (n : Nat) [NeZero n] (x : Access V) : Fin n := hash n x.key x.addr

/-- `acquire_partition`, the operation on the partition, `release_partition`. -/
def access [NeZero n] (now : Int) (x : Access V) (kv : KVStore n V) : Option (KVStore n V) := do
  let kv ← kv.acquirePartition x.key x.addr
  let kv := kv.setPartition (x.slot n) ((kv.part (x.slot n)).apply now x.op)
  kv.releasePartition x.key x.addr

def runAccesses [NeZero n] (h : List (Int × Access V)) (kv : KVStore n V) : Option (KVStore n V) :=
  h.foldlM (fun kv e => kv.access e.1 e.2) kv

/-- `get_valid` of the partition that the key of this collection is addressed to. -/
def getValid [NeZero n] (now : Int) (key : String) (a : Addr) (kv : KVStore n V) : Option V :=
  ((kv.part (hash n key a)).getValid now key).1

/-- `get_deleted`, likewise. -/
def getDeleted [NeZero n] (now : Int) (key : String) (a : Addr) (kv : KVStore n V) : Option V :=
  ((kv.part (hash n key a)).getDeleted now key).1

/-- On a store with no lock held, an operation changes its slot's partition and nothing else. -/
theorem access_of_free [NeZero n] {kv : KVStore n V} (hkv : kv.Free) (now : Int) (x : Access V) :
    kv.access now x
      = some (kv.setPartition (x.slot n) ((kv.part (x.slot n)).apply now x.op)) := by
  have hacq : kv.acquirePartition x.key x.addr = some (kv.setLock (x.slot n) true) :=
    acquire_eq_some.2 ⟨hkv _, rfl⟩
  simp only [access, hacq, Option.bind_eq_bind, Option.bind_some, part_setLock]
  exact release_setPartition (hkv _) _

/-- A history on a free store runs through, and no lock is left behind. -/
theorem runAccesses_free [NeZero n] (h : List (Int × Access V)) {kv : KVStore n V} (hkv : kv.Free) :
    ∃ kv', kv.runAccesses h = some kv' ∧ kv'.Free := by
  induction h generalizing kv with
  | nil => exact ⟨kv, rfl, hkv⟩
  | cons e rest ih =>
      obtain ⟨kv', hrun, hfree⟩ := ih (hkv.setPartition (e.2.slot n)
        ((kv.part (e.2.slot n)).apply e.1 e.2.op))
      refine ⟨kv', ?_, hfree⟩
      rw [runAccesses, List.foldlM_cons, access_of_free hkv]
      exact hrun

/-! ## What `key_set` returns -/

/-- The two key sets of one partition, as `key_set` reads them. -/
def slotKeys (now : Int) (p : Partition V) : List String × List String :=
  ((p.validKeySet now).1, ((p.validKeySet now).2.deletedKeySet now).1)

theorem keySetSlot_of_free {kv : KVStore n V} (hkv : kv.Free) (now : Int)
    (acc : List String × List String) (i : Fin n) :
    keySetSlot now (acc, kv) i
      = some ((acc.1 ++ (slotKeys now (kv.part i)).1, acc.2 ++ (slotKeys now (kv.part i)).2),
          kv.setPartition i (((kv.part i).validKeySet now).2.deletedKeySet now).2) := by
  have hacq : kv.acquire i = some (kv.setLock i true) := acquire_eq_some.2 ⟨hkv i, rfl⟩
  simp only [keySetSlot, hacq, Option.bind_eq_bind, Option.bind_some, part_setLock, slotKeys]
  set p := (((kv.part i).validKeySet now).2.deletedKeySet now).2
  rw [release_setPartition (hkv i) p]
  rfl

theorem foldlM_keySetSlot (now : Int) (is : List (Fin n)) (hnod : is.Nodup) {kv : KVStore n V}
    (hkv : kv.Free) (acc : List String × List String) :
    ∃ kv', is.foldlM (keySetSlot now) (acc, kv)
      = some ((acc.1 ++ is.flatMap (fun i => (slotKeys now (kv.part i)).1),
          acc.2 ++ is.flatMap (fun i => (slotKeys now (kv.part i)).2)), kv') := by
  induction is generalizing kv acc with
  | nil => exact ⟨kv, by simp⟩
  | cons i rest ih =>
      rw [List.nodup_cons] at hnod
      rw [List.foldlM_cons, keySetSlot_of_free hkv]
      obtain ⟨kv', hrun⟩ := ih hnod.2 (hkv.setPartition i
        (((kv.part i).validKeySet now).2.deletedKeySet now).2)
        (acc.1 ++ (slotKeys now (kv.part i)).1, acc.2 ++ (slotKeys now (kv.part i)).2)
      -- the slots still to be read are not the one just swept
      have hother : ∀ j ∈ rest, slotKeys now ((kv.setPartition i
          (((kv.part i).validKeySet now).2.deletedKeySet now).2).part j)
            = slotKeys now (kv.part j) := by
        intro j hj
        have hne : j ≠ i := fun he => hnod.1 (he ▸ hj)
        rw [part_setPartition, if_neg hne]
      have hvalid := List.flatMap_congr (fun j hj => congrArg Prod.fst (hother j hj))
      have hdeleted := List.flatMap_congr (fun j hj => congrArg Prod.snd (hother j hj))
      refine ⟨kv', hrun.trans ?_⟩
      rw [hvalid, hdeleted]
      simp only [List.flatMap_cons, List.append_assoc]

/-- The answer of `key_set` on a free store: the collection's slot, or all slots in order. -/
theorem keySet_answer [NeZero n] (now : Int) (a : Addr) {kv : KVStore n V} (hkv : kv.Free) :
    (kv.keySet now a).map Prod.fst
      = some (if a.HasCollection then slotKeys now (kv.part (hash n "" a))
          else ((List.finRange n).flatMap (fun i => (slotKeys now (kv.part i)).1),
            (List.finRange n).flatMap (fun i => (slotKeys now (kv.part i)).2))) := by
  unfold keySet
  split
  · rw [keySetSlot_of_free hkv]
    simp
  · obtain ⟨kv', hrun⟩ := foldlM_keySetSlot now (List.finRange n) (List.nodup_finRange n) hkv
      ([], [])
    rw [hrun]
    simp

/-! ## Isolation -/

/-- Nothing read from collection `b` distinguishes the two stores. -/
def SameAnswers [NeZero n] (now : Int) (b : Addr) (kv kv' : KVStore n V) : Prop :=
  (kv.keySet now b).map Prod.fst = (kv'.keySet now b).map Prod.fst ∧
  (∀ key, kv.getValid now key b = kv'.getValid now key b) ∧
  ∀ key, kv.getDeleted now key b = kv'.getDeleted now key b

/-- After any history, an operation addressed to `a` changes nothing that `key_set`, `get_valid` or
    `get_deleted` return at any time when addressed to `b`. -/
def Isolated (n : Nat) [NeZero n] (V : Type*) (a b : Addr) : Prop :=
  ∀ (h : List (Int × Access V)) (t : Int) (x : Access V) (kv kv' : KVStore n V), x.addr = a →
    (new n V).runAccesses h = some kv → kv.access t x = some kv' →
    ∀ now, SameAnswers now b kv kv'

/-- `b` is a named collection, and no key addressed to `a` goes to its slot. -/
def Apart (n : Nat) [NeZero n] (a b : Addr) : Prop :=
  b.HasCollection ∧ ∀ key, hash n key a ≠ hash n "" b

theorem Apart.isolated [NeZero n] {a b : Addr} (h : Apart n a b) : Isolated n V a b := by
  intro hist t x kv kv' hx hrun hacc now
  obtain ⟨hcoll, hslot⟩ := h
  obtain ⟨kv0, hrun0, hfree⟩ := runAccesses_free hist (free_new n V)
  rw [hrun] at hrun0
  cases hrun0
  rw [access_of_free hfree] at hacc
  cases hacc
  -- the slot of `b` is not the one that was written
  have hpart : ∀ key, (kv.setPartition (x.slot n) ((kv.part (x.slot n)).apply t x.op)).part
      (hash n key b) = kv.part (hash n key b) := by
    intro key
    have hne : hash n key b ≠ x.slot n := by
      rw [hash_collection hcoll key "", Access.slot, hx]
      exact (hslot x.key).symm
    rw [part_setPartition, if_neg hne]
  refine ⟨?_, ?_, ?_⟩
  · rw [keySet_answer now b hfree, keySet_answer now b (hfree.setPartition _ _), if_pos hcoll,
      if_pos hcoll, hpart]
  · intro key
    simp only [getValid, hpart]
  · intro key
    simp only [getDeleted, hpart]

/-- The keys of a partition that holds one fresh entry. -/
theorem slotKeys_set_new (now t : Int) (i : Nat) (key : String) (value : V) :
    (slotKeys now ((Partition.new i).set t key value 0 0)).1 = [key] := by
  simp [slotKeys, Partition.validKeySet, Partition.expireValid, Partition.set, Partition.new,
    Partition.expireKeys, Partition.expireKey, Entry.Lapsed, Dict.keys_set]

/-- A first set through `a` that `key_set` of `b` gets to read: `b` is not isolated. -/
theorem not_isolated_of_reads [NeZero n] [Inhabited V] {a b : Addr} (key : String)
    (h : b.HasCollection → hash n key a = hash n "" b) : ¬ Isolated n V a b := by
  intro hiso
  let x : Access V := ⟨a, key, .set default 0 0⟩
  have hacc := access_of_free (free_new n V) 0 x
  have hkeys := (hiso [] 0 x _ _ rfl rfl hacc 0).1
  rw [keySet_answer 0 b (free_new n V), keySet_answer 0 b ((free_new n V).setPartition _ _),
    Option.some.injEq] at hkeys
  have hwritten : (slotKeys 0 (((new n V).setPartition (x.slot n)
      (((new n V).part (x.slot n)).apply 0 x.op)).part (x.slot n))).1 = [key] := by
    rw [part_setPartition, if_pos rfl]
    exact slotKeys_set_new 0 0 _ key default
  by_cases hb : b.HasCollection
  · rw [if_pos hb, if_pos hb, ← h hb] at hkeys
    have hfst := congrArg Prod.fst hkeys
    rw [show hash n key a = x.slot n from rfl, hwritten] at hfst
    cases hfst
  · rw [if_neg hb, if_neg hb] at hkeys
    obtain ⟨hfst, _⟩ := Prod.mk.inj hkeys
    have hmem : key ∈ (List.finRange n).flatMap (fun i => (slotKeys 0 ((new n V).part i)).1) := by
      rw [hfst]
      exact List.mem_flatMap.2 ⟨x.slot n, List.mem_finRange _, by rw [hwritten]; simp⟩
    obtain ⟨i, _, hi⟩ := List.mem_flatMap.1 hmem
    cases hi

/-- The operations of a history that are addressed to `b`, as a history of one partition. -/
def ownHistory (b : Addr) (h : List (Int × Access V)) : Partition.History V :=
  (h.filter (fun e => e.2.addr = b)).map (fun e => (e.1, e.2.op))

/-- When every other address in the history is apart from `b`, the partition of `b` is what `b`'s own
    operations made of it. -/
theorem part_eq_run_own [NeZero n] {b : Addr} (hb : b.HasCollection) (h : List (Int × Access V))
    (hapart : ∀ e ∈ h, e.2.addr ≠ b → Apart n e.2.addr b) {kv kv' : KVStore n V} (hkv : kv.Free)
    (hrun : kv.runAccesses h = some kv') :
    kv'.part (hash n "" b) = Partition.run (ownHistory b h) (kv.part (hash n "" b)) := by
  induction h generalizing kv with
  | nil =>
      simp only [runAccesses, List.foldlM_nil, Option.pure_def, Option.some.injEq] at hrun
      subst hrun
      rfl
  | cons e rest ih =>
      rw [runAccesses, List.foldlM_cons, access_of_free hkv] at hrun
      have hrest := ih (fun e' he' => hapart e' (List.mem_cons_of_mem _ he')) (hkv.setPartition _ _)
        hrun
      rw [hrest, part_setPartition]
      by_cases haddr : e.2.addr = b
      · have hslot : hash n "" b = e.2.slot n := by
          rw [Access.slot, haddr, hash_collection hb]
        rw [if_pos hslot, ownHistory, ownHistory, List.filter_cons_of_pos (by simpa using haddr),
          ← hslot]
        rfl
      · have hslot : hash n "" b ≠ e.2.slot n :=
          ((hapart e List.mem_cons_self haddr).2 e.2.key).symm
        rw [if_neg hslot, ownHistory, ownHistory, List.filter_cons_of_neg (by simpa using haddr)]

/-- **Isolation of collections.** Operations addressed to `a` never show through `b` exactly when `b`
    is a named collection whose slot no key of `a` goes to; and then, in every history whose other
    addresses are all apart from `b`, the slot of `b` holds exactly what was written to `b`. -/
theorem collections_isolated_iff [NeZero n] [Inhabited V] (b : Addr) :
    (∀ a, Isolated n V a b ↔ Apart n a b) ∧
    ∀ (h : List (Int × Access V)) (kv : KVStore n V), b.HasCollection →
      (∀ e ∈ h, e.2.addr ≠ b → Apart n e.2.addr b) → (new n V).runAccesses h = some kv →
      kv.part (hash n "" b)
        = Partition.run (ownHistory b h) (Partition.new (hash n "" b : Fin n)) := by
  refine ⟨fun a => ⟨fun hiso => ?_, Apart.isolated⟩, fun h kv hb hapart hrun => ?_⟩
  · by_contra hnot
    by_cases hb : b.HasCollection
    · obtain ⟨key, hkey⟩ : ∃ key, hash n key a = hash n "" b := by
        by_contra hall
        exact hnot ⟨hb, fun key hk => hall ⟨key, hk⟩⟩
      exact not_isolated_of_reads key (fun _ => hkey) hiso
    · exact not_isolated_of_reads "" (fun h => absurd h hb) hiso
  · exact part_eq_run_own hb h hapart (free_new n V) hrun

/-- Two collections of the default store that are apart. -/
theorem collections_isolated_iff_c1_c2 :
    Isolated 1000 String ⟨"default", some "s1", some "c1"⟩ ⟨"default", some "s1", some "c2"⟩ := by
  refine ((collections_isolated_iff (n := 1000) _).1 _).2 ⟨by decide +kernel, fun key => ?_⟩
  have hc : Addr.HasCollection ⟨"default", some "s1", some "c1"⟩ := by decide +kernel
  rw [hash_collection hc key ""]
  decide +kernel

/-- The default collection and `s1.c1` share slot 640 of the default store: a document written to
    `s1.c1` is listed as a document of the default collection. -/
theorem default_collection_not_isolated :
    (⟨"default", some "s1", some "c1"⟩ : Addr) ≠ ⟨"default", some "_default", some "_default"⟩ ∧
    ¬ Isolated 1000 String ⟨"default", some "s1", some "c1"⟩
      ⟨"default", some "_default", some "_default"⟩ := by
  refine ⟨by decide, ?_⟩
  intro h
  have hkeys := (h [] 1 ⟨⟨"default", some "s1", some "c1"⟩, "doc1", .set "{}" 0 0⟩ _ _ rfl rfl
    (access_of_free (free_new 1000 String) 1 _) 1).1
  revert hkeys
  decide +kernel

end KVStore

end TestInfra
