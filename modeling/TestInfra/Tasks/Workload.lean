import TestInfra.Tasks.Unlocked

set_option autoImplicit false

/-! # Random operations under a partition lock

`WorkloadTask` (`lib/tasks/task.py`) runs operations on random keys: `acquire_random_partition` searches for a
partition that has keys, takes its lock and returns the partition with its number, and the operation hands that
number to `release_partitions`, which iterates over partition objects.

A number cannot be iterated over. So an operation gives its lock back exactly when the search found no partition
(`op_keeps_locks_iff`), and the first operation of a run that finds one raises out of the run with the lock taken
(`run_free_iff`).

The task has no attribute `flag`, so every `client.set` of its operations raises `AttributeError` while its
arguments are evaluated. -/

namespace TestInfra

open Raises Raises.Prog

/-! ## The store -/

namespace Partition

variable {V : Type*}

/-- `has_valid_keys` or `has_deleted_keys`. -/
def hasKeys (hasValid : Bool) (p : Partition V) : Bool := if hasValid then p.hasValidKeys else p.hasDeletedKeys

/-- `get_random_valid_key`: a drawn key, `None` when there is none. -/
def getRandomValidKey (now : Int) (draw : ℕ) (p : Partition V) : Option String × Partition V :=
  let (keys, p) := p.validKeySet now
  (keys[draw % keys.length]?, p)

/-- `get_random_deleted_key`; nothing expires. -/
def getRandomDeletedKey (draw : ℕ) (p : Partition V) : Option String :=
  p.deleted.keys[draw % p.deleted.keys.length]?

end Partition

namespace KVStore

variable {n : Nat} {V : Type*}

/-- The loop of `acquire_random_partition` over the partition numbers that are left. -/
def searchPartition (hasValid : Bool) : List (Fin n) → KVStore n V → Option (Option (Fin n) × KVStore n V)
  | [], kv => some (none, kv)
  | i :: rest, kv =>
      match kv.acquire i with
      | none => none
      | some kv =>
          if (kv.part i).hasKeys hasValid then some (some i, kv)
          else
            match kv.release i with
            | none => none
            | some kv => searchPartition hasValid rest kv

/-- `(seed + itr) % self.num_locks` for every `itr`. -/
def partNums (seed : Fin n) : List (Fin n) :=
  (List.range n).map fun itr => ⟨(seed + itr) % n, Nat.mod_lt _ seed.pos⟩

/-- `acquire_random_partition` for a drawn seed: the number of the partition, with its lock taken. -/
def acquireRandomPartition (hasValid : Bool) (seed : Fin n) (kv : KVStore n V) :
    Option (Option (Fin n) × KVStore n V) :=
  searchPartition hasValid (partNums seed) kv

/-- What `release_partitions` is called with: partition objects, or the number of a partition. -/
inductive PartitionsArg (n : Nat) where
  | objs (is : List (Fin n))
  | number (i : Fin n)

/-- `release_partitions`: a number is not iterable. -/
def releasePartitionsArg (arg : PartitionsArg n) (kv : KVStore n V) : Except Exn (KVStore n V) :=
  match arg with
  | .objs is =>
      match kv.releasePartitions is with
      | some kv => .ok kv
      | none => .error .runtimeError
  | .number _ => .error .typeError

end KVStore

/-! ## The operations -/

namespace Unlocked

variable {C : Type*}

/-- `_unlocked_read`. -/
def unlockedRead (env : UnlockedEnv) (key : String) : Prog (Unlocked C) ClientError := fun st =>
  match env.get with
  | .ok _ => (.ok (), st)
  | .error (.raised (.memcachedError status)) =>
      if status = errNotFound then
        let (value, st) := st.getValid env key
        match value with
        | none => (.ok (), st)
        | some _ => (.ok (), st.fail (.raised (.memcachedError status)))
      else (.ok (), st.fail (.raised (.memcachedError status)))
  | .error e => (.error e, st)

/-- What the value processing of `_unlocked_create` sees of the outside. -/
def valueEnv (env : UnlockedEnv) : Env :=
  { json := env.json, draw := fun _ => env.draw, readClock := fun _ => env.readClock
    setClock := fun _ => env.setClock, set := .ok (), setMulti := .ok (), getMulti := .ok (),
    delete := fun _ => .ok () }

/-- `self.flag` of a task without that attribute. -/
def noFlag : ClientError := .raised .attributeError

/-- `_unlocked_create` of a `WorkloadTask`: what the value processing raises leaves the operation, and the missing
    attribute is noted. -/
def workloadCreate (env : UnlockedEnv) (key : String) (value : PyValue) : Prog (Unlocked C) ClientError := fun st =>
  match Throughput.createValueSingle (valueEnv env) false key value with
  | .error e => (.error (.raised e), st)
  | .ok _ => (.ok (), st.fail noFlag)

/-- `_unlocked_update` of a `WorkloadTask`: the second `try` block raises before it calls the client. -/
def workloadUpdate (cfg : LoadConfig) (env : UnlockedEnv) (key : String) : Prog (Unlocked C) ClientError :=
  unlockedUpdate cfg { env with set := .error noFlag } key

end Unlocked

/-- A `WorkloadTask` at work: the store, whether `state` is `FINISHED`, the future of the task, and the writes the
    server took. -/
structure Workload (n : Nat) (C : Type*) where
  kv : KVStore n PyValue
  finished : Bool
  future : Future Bool ClientError C
  sent : List ServerWrite

/-- The outside of one operation: the draws of `random.choice` over the partitions and over the keys, the clock
    of the look at the keys, and the outside of the operation on the key. -/
structure WorkEnv (n : Nat) where
  seed : Fin n
  draw : ℕ
  clock : Int
  unlocked : UnlockedEnv

namespace Workload

variable {n : Nat} {C : Type*}

/-- The operation on the partition object that the search returned. -/
def onPartition (i : Fin n) (body : Prog (Unlocked C) ClientError) : Prog (Workload n C) ClientError := fun st =>
  let (res, u) := body ⟨st.kv.part i, st.finished, st.future, st.sent⟩
  (res, ⟨st.kv.setPartition i u.partition, u.finished, u.future, u.sent⟩)

/-- `self.kv_store.release_partitions(part_num)`. -/
def releasePartNum (i : Fin n) : Prog (Workload n C) ClientError := fun st =>
  match st.kv.releasePartitionsArg (.number i) with
  | .ok kv => (.ok (), { st with kv := kv })
  | .error e => (.error (.raised e), st)

/-- The shape of the four operations: search, choose a key (and what else is needed), work on it, release. The
    result is `none` while the search waits for a lock. -/
def withRandomPartition {A : Type} (hasValid : Bool) (seed : Fin n)
    (choose : Partition PyValue → Option A × Partition PyValue) (body : A → Prog (Unlocked C) ClientError)
    (st : Workload n C) : Option (Except ClientError Unit × Workload n C) :=
  match st.kv.acquireRandomPartition hasValid seed with
  | none => none
  | some (none, kv) => some (.ok (), { st with kv := kv })
  | some (some i, kv) =>
      let (chosen, p) := choose (kv.part i)
      let st := { st with kv := kv.setPartition i p }
      match chosen with
      -- the exit without a key releases as the last line does
      | none => some (releasePartNum i st)
      | some a => some ((onPartition i (body a)).seq (releasePartNum i) st)

/-- `_get_random_key`. -/
def getRandomKey (env : WorkEnv n) : Workload n C → Option (Except ClientError Unit × Workload n C) :=
  withRandomPartition true env.seed (Partition.getRandomValidKey env.clock env.draw)
    (Unlocked.unlockedRead env.unlocked)

/-- A deleted key and its value, when it has one. -/
def chooseDeleted (env : WorkEnv n) (p : Partition PyValue) : Option (String × PyValue) × Partition PyValue :=
  match p.getRandomDeletedKey env.draw with
  | none => (none, p)
  | some key =>
      let (value, p) := p.getDeleted env.clock key
      match value with
      | none | some .none => (none, p)
      | some value => (some (key, value), p)

/-- `_create_random_key`. -/
def createRandomKey (env : WorkEnv n) : Workload n C → Option (Except ClientError Unit × Workload n C) :=
  withRandomPartition false env.seed (chooseDeleted env) fun (key, value) =>
    Unlocked.workloadCreate env.unlocked key value

/-- `_update_random_key`. -/
def updateRandomKey (cfg : LoadConfig) (env : WorkEnv n) :
    Workload n C → Option (Except ClientError Unit × Workload n C) :=
  withRandomPartition true env.seed (Partition.getRandomValidKey env.clock env.draw)
    (Unlocked.workloadUpdate cfg env.unlocked)

/-- `_delete_random_key`. -/
def deleteRandomKey (env : WorkEnv n) : Workload n C → Option (Except ClientError Unit × Workload n C) :=
  withRandomPartition true env.seed (Partition.getRandomValidKey env.clock env.draw) fun key st =>
    (.ok (), Unlocked.unlockedDelete env.unlocked key st)

/-! ## The run -/

inductive WorkOp where
  | create
  | read
  | update
  | delete
deriving DecidableEq, Repr

/-- Which partitions the operation searches for: those with valid keys, or those with deleted keys. -/
def WorkOp.hasValid : WorkOp → Bool
  | .create => false
  | _ => true

def op (cfg : LoadConfig) (env : WorkEnv n) : WorkOp → Workload n C → Option (Except ClientError Unit × Workload n C)
  | .create => createRandomKey env
  | .read => getRandomKey env
  | .update => updateRandomKey cfg env
  | .delete => deleteRandomKey env

/-- The weights of the task, and `num_ops`; `0` is no limit. -/
structure Weights where
  create : ℕ
  read : ℕ
  update : ℕ
  delete : ℕ
  numOps : ℕ

/-- `self.delete`, the sum of the weights. -/
def Weights.total (w : Weights) : ℕ := w.create + w.read + w.update + w.delete

/-- The operation for `rand = random.randint(1, self.delete)`; `none` is the `ValueError` of an empty range. -/
def Weights.choose (w : Weights) (draw : ℕ) : Option WorkOp :=
  if w.total = 0 then none
  else
    let rand := 1 + draw % w.total
    if rand ≤ w.create then some .create
    else if rand ≤ w.create + w.read then some .read
    else if rand ≤ w.create + w.read + w.update then some .update
    else some .delete

/-- `has_next`. -/
def Weights.hasNext (w : Weights) (itr : ℕ) : Bool := decide (w.numOps = 0 ∨ itr < w.numOps)

/-- The outside of one `__next__`: the draw of the operation, and the operation. -/
abbrev Turn (n : Nat) := ℕ × WorkEnv n

/-- `self.state = FINISHED; self.set_result(True)`. -/
def finish (st : Workload n C) : Workload n C :=
  { st with finished := true, future := (st.future.setResult true).1 }

/-- `run`, for as many turns of its loop as are given. -/
def run (cfg : LoadConfig) (w : Weights) :
    ℕ → List (Turn n) → Workload n C → Option (Except ClientError Unit × Workload n C)
  | _, [], st => some (.ok (), st)
  | itr, (draw, env) :: turns, st =>
      if w.hasNext itr && !st.future.done then
        match w.choose draw with
        | none => some (.error (.raised .valueError), st)
        | some o =>
            match op cfg env o st with
            | none => none
            | some (.error e, st) => some (.error e, st)
            | some (.ok (), st) => run cfg w (itr + 1) turns st
      else some (.ok (), st.finish)

/-- The operations the run would do if none of them ended it. -/
def chosen (w : Weights) (done : Bool) : ℕ → List (Turn n) → List WorkOp
  | _, [] => []
  | itr, (draw, _) :: turns =>
      if w.hasNext itr && !done then
        match w.choose draw with
        | none => []
        | some o => o :: chosen w done (itr + 1) turns
      else []

end Workload

/-! ## The search -/

namespace KVStore

variable {n : Nat} {V : Type*}

/-- Some partition has keys of the kind that is searched for. -/
def Finds (hasValid : Bool) (kv : KVStore n V) : Prop := ∃ i, (kv.part i).hasKeys hasValid = true

/-- Every partition is searched. -/
theorem mem_partNums (seed i : Fin n) : i ∈ partNums seed := by
  have hi := i.isLt
  have hs := seed.isLt
  refine List.mem_map.2 ⟨(i + (n - seed)) % n, List.mem_range.2 (Nat.mod_lt _ i.pos), Fin.ext ?_⟩
  show (seed + (i + (n - seed)) % n) % n = i
  rw [Nat.add_mod_mod]
  have hsum : seed.val + (i.val + (n - seed.val)) = i.val + n := by omega
  rw [hsum, Nat.add_mod_right, Nat.mod_eq_of_lt hi]

/-- Taking a free lock and giving it back changes nothing. -/
theorem setLock_setLock {kv : KVStore n V} {i : Fin n} (h : kv.locked i = false) :
    (kv.setLock i true).setLock i false = kv := by
  refine KVStore.ext (fun j => ?_) (fun j => ?_) rfl
  · rw [locked_setLock, locked_setLock]
    split
    · next hj => rw [hj, h]
    · rfl
  · rw [part_setLock, part_setLock]

/-- The search, when it ends: it has found nothing and left the store as it was, or it holds the lock of a
    partition that was free and has keys. -/
theorem searchPartition_cases {hasValid : Bool} {is : List (Fin n)} {kv kv' : KVStore n V} {found : Option (Fin n)}
    (h : searchPartition hasValid is kv = some (found, kv')) :
    (found = none ∧ kv' = kv ∧ ∀ i ∈ is, (kv.part i).hasKeys hasValid = false) ∨
    ∃ i, found = some i ∧ kv.locked i = false ∧ kv' = kv.setLock i true ∧ (kv.part i).hasKeys hasValid = true := by
  induction is with
  | nil =>
      cases h
      exact .inl ⟨rfl, rfl, fun i hi => absurd hi List.not_mem_nil⟩
  | cons i rest ih =>
      rw [searchPartition] at h
      split at h
      · cases h
      · next kv₁ hacquire =>
          obtain ⟨hfree, rfl⟩ := acquire_eq_some.1 hacquire
          have hrelease : (kv.setLock i true).release i = some kv := by
            rw [release_eq_some]
            exact ⟨by simp, (setLock_setLock hfree).symm⟩
          rw [part_setLock, hrelease] at h
          split at h
          · next hkeys =>
              cases h
              exact .inr ⟨i, rfl, hfree, rfl, hkeys⟩
          · next hkeys =>
              rcases ih h with ⟨hnone, hkv, hall⟩ | hfound
              · exact .inl ⟨hnone, hkv, List.forall_mem_cons.2 ⟨Bool.eq_false_iff.2 hkeys, hall⟩⟩
              · exact .inr hfound

/-- With every lock free the search ends. -/
theorem searchPartition_isSome {hasValid : Bool} (is : List (Fin n)) {kv : KVStore n V} (hfree : kv.Free) :
    (searchPartition hasValid is kv).isSome := by
  induction is with
  | nil => rfl
  | cons i rest ih =>
      have hacquire : kv.acquire i = some (kv.setLock i true) := acquire_eq_some.2 ⟨hfree i, rfl⟩
      have hrelease : (kv.setLock i true).release i = some kv := by
        rw [release_eq_some]
        exact ⟨by simp, (setLock_setLock (hfree i)).symm⟩
      rw [searchPartition, hacquire]
      simp only [hrelease]
      split
      · rfl
      · exact ih

/-- `acquire_random_partition`, when it ends. -/
theorem acquireRandomPartition_cases {hasValid : Bool} {seed : Fin n} {kv kv' : KVStore n V}
    {found : Option (Fin n)} (h : kv.acquireRandomPartition hasValid seed = some (found, kv')) :
    (found = none ∧ kv' = kv ∧ ¬ kv.Finds hasValid) ∨
    ∃ i, found = some i ∧ kv.locked i = false ∧ kv' = kv.setLock i true ∧ kv.Finds hasValid := by
  rcases searchPartition_cases h with ⟨hnone, hkv, hall⟩ | ⟨i, hi, hfree, hkv, hkeys⟩
  · refine .inl ⟨hnone, hkv, ?_⟩
    rintro ⟨i, hkeys⟩
    rw [hall i (mem_partNums seed i)] at hkeys
    cases hkeys
  · exact .inr ⟨i, hi, hfree, hkv, i, hkeys⟩

end KVStore

/-! ## The locks -/

namespace Workload

variable {n : Nat} {C : Type*}

/-- A number is never released: `TypeError`, and the store as it was. -/
theorem releasePartNum_eq (i : Fin n) (st : Workload n C) :
    releasePartNum i st = (.error (.raised .typeError), st) := rfl

theorem locked_onPartition (i : Fin n) (body : Prog (Unlocked C) ClientError) (st : Workload n C) (j : Fin n) :
    (onPartition i body st).2.kv.locked j = st.kv.locked j :=
  KVStore.locked_setPartition _ _ _ _

/-- What an operation does to the locks, when it ends: nothing, when no partition was found; otherwise it raises,
    and the partition that was found stays locked. -/
theorem withRandomPartition_cases {A : Type} {hasValid : Bool} {seed : Fin n}
    {choose : Partition PyValue → Option A × Partition PyValue} {body : A → Prog (Unlocked C) ClientError}
    {st st' : Workload n C} {res : Except ClientError Unit}
    (h : withRandomPartition hasValid seed choose body st = some (res, st')) :
    (¬ st.kv.Finds hasValid ∧ res = .ok () ∧ st' = st) ∨
    (st.kv.Finds hasValid ∧ (∃ e, res = .error e) ∧
      ∃ i, st.kv.locked i = false ∧ st'.kv.locked i = true ∧ ∀ j, j ≠ i → st'.kv.locked j = st.kv.locked j) := by
  rw [withRandomPartition] at h
  split at h
  · cases h
  · next kv hsearch =>
      rcases KVStore.acquireRandomPartition_cases hsearch with ⟨-, rfl, hno⟩ | ⟨i, hi, -⟩
      · cases h
        exact .inl ⟨hno, rfl, rfl⟩
      · cases hi
  · next i kv hsearch =>
      rcases KVStore.acquireRandomPartition_cases hsearch with ⟨hi, -⟩ | ⟨i', hi, hfree, rfl, hfinds⟩
      · cases hi
      cases hi
      refine .inr ⟨hfinds, ?_⟩
      -- the lock is taken, and nothing that follows touches a lock
      dsimp only at h
      generalize hu : (⟨(st.kv.setLock i true).setPartition i (choose ((st.kv.setLock i true).part i)).2,
        st.finished, st.future, st.sent⟩ : Workload n C) = u at h
      have hlocks : ∀ j, u.kv.locked j = if j = i then true else st.kv.locked j := fun j => by
        rw [← hu, KVStore.locked_setPartition, KVStore.locked_setLock]
      have hkeep : ∀ u' : Workload n C, (∀ j, u'.kv.locked j = u.kv.locked j) →
          ∃ i, st.kv.locked i = false ∧ u'.kv.locked i = true ∧ ∀ j, j ≠ i → u'.kv.locked j = st.kv.locked j :=
        fun u' hsame => ⟨i, hfree, by rw [hsame, hlocks, if_pos rfl], fun j hj => by rw [hsame, hlocks, if_neg hj]⟩
      split at h
      · cases h
        exact ⟨⟨_, rfl⟩, hkeep _ fun _ => rfl⟩
      · next a hchosen =>
          have hbody := locked_onPartition i (body a) u
          rcases hres : onPartition i (body a) u with ⟨e | _, u'⟩
          · rw [hres] at hbody
            rw [seq_of_error hres] at h
            cases h
            exact ⟨⟨e, rfl⟩, hkeep _ hbody⟩
          · rw [hres] at hbody
            rw [seq_of_ok hres, releasePartNum_eq] at h
            cases h
            exact ⟨⟨_, rfl⟩, hkeep _ hbody⟩

/-- All four operations have the same shape. -/
theorem op_eq (cfg : LoadConfig) (env : WorkEnv n) (o : WorkOp) :
    ∃ (A : Type) (choose : Partition PyValue → Option A × Partition PyValue)
      (body : A → Prog (Unlocked C) ClientError),
      op cfg env o = withRandomPartition o.hasValid env.seed choose body := by
  cases o with
  | create => exact ⟨_, chooseDeleted env, fun p => Unlocked.workloadCreate env.unlocked p.1 p.2, rfl⟩
  | read => exact ⟨_, Partition.getRandomValidKey env.clock env.draw, Unlocked.unlockedRead env.unlocked, rfl⟩
  | update =>
      exact ⟨_, Partition.getRandomValidKey env.clock env.draw, Unlocked.workloadUpdate cfg env.unlocked, rfl⟩
  | delete =>
      exact ⟨_, Partition.getRandomValidKey env.clock env.draw,
        fun key st => (.ok (), Unlocked.unlockedDelete env.unlocked key st), rfl⟩

theorem op_cases {cfg : LoadConfig} {env : WorkEnv n} {o : WorkOp} {st st' : Workload n C}
    {res : Except ClientError Unit} (h : op cfg env o st = some (res, st')) :
    (¬ st.kv.Finds o.hasValid ∧ res = .ok () ∧ st' = st) ∨
    (st.kv.Finds o.hasValid ∧ (∃ e, res = .error e) ∧
      ∃ i, st.kv.locked i = false ∧ st'.kv.locked i = true ∧ ∀ j, j ≠ i → st'.kv.locked j = st.kv.locked j) := by
  obtain ⟨A, choose, body, hop⟩ := op_eq (C := C) cfg env o
  rw [hop] at h
  exact withRandomPartition_cases h

theorem op_isSome (cfg : LoadConfig) (env : WorkEnv n) (o : WorkOp) {st : Workload n C} (hfree : st.kv.Free) :
    ∃ res st', op cfg env o st = some (res, st') := by
  obtain ⟨A, choose, body, hop⟩ := op_eq (C := C) cfg env o
  obtain ⟨⟨found, kv⟩, hsearch⟩ : ∃ r, st.kv.acquireRandomPartition o.hasValid env.seed = some r :=
    Option.isSome_iff_exists.1 (KVStore.searchPartition_isSome _ hfree)
  rw [hop, withRandomPartition, hsearch]
  rcases found with _ | i
  · exact ⟨_, _, rfl⟩
  · dsimp only
    split
    · exact ⟨_, _, rfl⟩
    · exact ⟨_, _, rfl⟩

/-- An operation that ends leaves the locks as they were exactly when it found no partition, and otherwise it
    raises. -/
theorem op_keeps_locks_iff {cfg : LoadConfig} {env : WorkEnv n} {o : WorkOp} {st st' : Workload n C}
    {res : Except ClientError Unit} (h : op cfg env o st = some (res, st')) :
    ((∀ j, st'.kv.locked j = st.kv.locked j) ↔ ¬ st.kv.Finds o.hasValid) ∧
      (res = .ok () ↔ ¬ st.kv.Finds o.hasValid) := by
  rcases op_cases h with ⟨hno, rfl, rfl⟩ | ⟨hfinds, ⟨e, rfl⟩, i, hfree, hheld, -⟩
  · exact ⟨⟨fun _ => hno, fun _ _ => rfl⟩, fun _ => hno, fun _ => rfl⟩
  · refine ⟨⟨fun hsame => ?_, fun hno => absurd hfinds hno⟩, fun heq => ?_, fun hno => absurd hfinds hno⟩
    · rw [hsame i, hfree] at hheld
      cases hheld
    · cases heq

/-- A run from free locks ends, and it ends with free locks exactly when none of its operations finds a
    partition. -/
theorem run_free_iff (cfg : LoadConfig) (w : Weights) (itr : ℕ) (turns : List (Turn n)) {st : Workload n C}
    (hfree : st.kv.Free) :
    ∃ res st', run cfg w itr turns st = some (res, st') ∧
      (st'.kv.Free ↔ ∀ o ∈ chosen w st.future.done itr turns, ¬ st.kv.Finds o.hasValid) := by
  induction turns generalizing itr with
  | nil => exact ⟨_, _, rfl, fun _ o ho => absurd ho List.not_mem_nil, fun _ => hfree⟩
  | cons turn turns ih =>
      obtain ⟨draw, env⟩ := turn
      rw [run, chosen]
      split
      · cases w.choose draw with
        | none => exact ⟨_, _, rfl, fun _ o ho => absurd ho List.not_mem_nil, fun _ => hfree⟩
        | some o =>
            obtain ⟨res, st', hop⟩ := op_isSome cfg env o hfree
            dsimp only
            rw [hop, List.forall_mem_cons]
            rcases op_cases hop with ⟨hno, rfl, rfl⟩ | ⟨hfinds, ⟨e, rfl⟩, i, -, hheld, -⟩
            · obtain ⟨res, st'', hrun, hiff⟩ := ih (itr + 1)
              exact ⟨res, st'', hrun, hiff.trans ⟨fun h => ⟨hno, h⟩, fun h => h.2⟩⟩
            · refine ⟨_, _, rfl, ?_, fun h => absurd hfinds h.1⟩
              intro h
              rw [h i] at hheld
              cases hheld
      · exact ⟨_, _, rfl, fun _ o ho => absurd ho List.not_mem_nil, fun _ => hfree⟩

/-- **The locks of a workload**: an operation that ends leaves every lock as it was, and returns, if and only if
    no partition has keys of the kind it searches for, and a run from free locks, which never waits for itself, ends
    with free locks if and only if this holds of all its operations. -/
theorem workload_releases_iff (cfg : LoadConfig) (w : Weights) (st : Workload n C) :
    (∀ env o res st', op cfg env o st = some (res, st') →
      ((∀ j, st'.kv.locked j = st.kv.locked j) ↔ ¬ st.kv.Finds o.hasValid) ∧
        (res = .ok () ↔ ¬ st.kv.Finds o.hasValid)) ∧
    (st.kv.Free → ∀ turns, ∃ res st', run cfg w 0 turns st = some (res, st') ∧
      (st'.kv.Free ↔ ∀ o ∈ chosen w st.future.done 0 turns, ¬ st.kv.Finds o.hasValid)) :=
  ⟨fun _ _ _ _ h => op_keeps_locks_iff h, fun hfree turns => run_free_iff cfg w 0 turns hfree⟩

/-- Every client call succeeds. -/
def easyClient : UnlockedEnv where
  json := ⟨fun _ => .ok (.dict []), fun _ => some "\x7b\x7d"⟩
  update := fun old _ => .ok old
  str := fun _ => ""
  draw := ⟨0, 0⟩
  readClock := 1
  setClock := 1
  get := .ok (.str "\x7b\x7d")
  getAgain := .ok (.str "\x7b\x7d")
  set := .ok ()
  append := .ok ()
  delete := .ok ()

/-- The attributes of a workload without expiry. -/
def workloadConfig : LoadConfig := ⟨.other "workload", 0, 0, true, {}⟩

/-- A workload on a store with one partition, in which `doc` is valid. -/
def oneDocument : Workload 1 Unit where
  kv := (KVStore.new 1 PyValue).setPartition 0 ((Partition.new 0).set 0 "doc" (.str "1") 0 0)
  finished := false
  future := Future.new
  sent := []

/-- A run of two creates finds no deleted key, and every lock is free behind it. -/
theorem workload_releases_iff_one_document :
    (∃ res st', run workloadConfig ⟨1, 0, 0, 0, 2⟩ 0 [(0, ⟨0, 0, 1, easyClient⟩), (0, ⟨0, 0, 1, easyClient⟩)]
      oneDocument = some (res, st') ∧ st'.kv.Free) := by
  have hno : ¬ oneDocument.kv.Finds WorkOp.create.hasValid := by
    rintro ⟨i, hi⟩
    rw [Subsingleton.elim i 0] at hi
    exact absurd hi (by decide)
  obtain ⟨res, st', hrun, hiff⟩ := (workload_releases_iff workloadConfig ⟨1, 0, 0, 0, 2⟩ oneDocument).2
    ((KVStore.free_new 1 PyValue).setPartition 0 _) [(0, ⟨0, 0, 1, easyClient⟩), (0, ⟨0, 0, 1, easyClient⟩)]
  refine ⟨res, st', hrun, hiff.2 fun o ho => ?_⟩
  have hdone : oneDocument.future.done = false := rfl
  have hcreate : o = .create := by simpa [chosen, Weights.choose, Weights.total, Weights.hasNext, hdone] using ho
  rw [hcreate]
  exact hno

/-- A read of the only document ends with `TypeError` and the lock taken. -/
theorem workload_keeps_lock :
    ∃ st', op workloadConfig ⟨0, 0, 1, easyClient⟩ .read oneDocument = some (.error (.raised .typeError), st') ∧
      oneDocument.kv.locked 0 = false ∧ st'.kv.locked 0 = true :=
  ⟨_, rfl, rfl, rfl⟩

end Workload

end TestInfra
