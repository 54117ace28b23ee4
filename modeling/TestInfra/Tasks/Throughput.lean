import TestInfra.Tasks.Loading
import Mathlib.Data.PNat.Basic

set_option autoImplicit false

/-! # The two ways to run a create workload

`LoadDocumentsGeneratorsTask` (`lib/tasks/task.py`) loads the documents of several generators. In
**normal** mode it runs the generators one after the other on the shared store. In **high throughput**
mode it cuts the range of every generator into parts, has a child process load each part into the
server and into a store of its own, and merges the children's stores into the parent's in the order
they arrive.

`op_types` and `buckets` are `None` here: the high throughput mode is entered for the one operation
`create` only. The children work on copies of the task; what they share with the parent is the result
they put into the queue. -/

namespace TestInfra

open Raises Raises.Prog

/-- `range(start, stop, step)` for a positive step. -/
def pyRange (start stop step : Int) : List Int :=
  (List.range ((stop - start + step - 1) / step).toNat).map fun j : Nat => start + step * (j : Int)

namespace Throughput

variable {n : Nat} {C : Type*}

/-! ## Normal mode -/

/-- The value processing of `_unlocked_create`. Unlike in a batch, a document that decodes to
    something other than an object is encoded again as it is, and a base-64 text is not mutated
    (though an index into it is drawn). -/
def createValueSingle (env : Env) (isBase64 : Bool) (key : String) (value : PyValue) :
    Except Exn PyValue :=
  let edit := fun v : PyValue => match v with
    | .dict _ => v.setItem "mutated" (.int 0)
    | _ => .ok v
  match env.json.edited edit value with
  | .error .valueError =>
      if isBase64 then value.checkIndex else value.mutate (env.draw key)
  | .error .typeError => env.json.dump value
  | result => result

/-- The second half of `_unlocked_create`: set at the client, then in the store; any exception is
    noted. -/
def unlockedStore (cfg : LoadConfig) (env : Env) (i : Fin n) (key : String) (value : PyValue) :
    Loading n C → Loading n C := fun st =>
  match (env.set >>= fun _ => Loading.storedValue cfg value) with
  | .error e => st.fail e
  | .ok value =>
      let p := (st.kv.part i).set (env.setClock key) key value cfg.exp cfg.flag
      { st with kv := st.kv.setPartition i p }

/-- `next` of a create workload with batch size 1: one document under the lock of its partition. -/
def nextSingle [NeZero n] (cfg : LoadConfig) (env : Env) (gen : BatchedDocumentGenerator PyValue)
    (kv : KVStore n PyValue) (task : TaskState C) : Option (NextResult n C) :=
  let ((key, value), docGen) := gen.docGen.next
  let gen := { gen with docGen := docGen }
  match kv.acquirePartition key cfg.addr with
  | none => none
  | some kv =>
      match createValueSingle env gen.docGen.isBase64 key value with
      | .error e => some ⟨.error e, gen, kv, task⟩
      | .ok value =>
          let st := unlockedStore cfg env (KVStore.hash n key cfg.addr) key value ⟨kv, ∅, task⟩
          (st.kv.releasePartition key cfg.addr).map fun kv => ⟨.ok (), gen, kv, st.task⟩

/-- `next` of a create workload. -/
def nextCreate [NeZero n] (cfg : LoadConfig) (env : Env) (gen : BatchedDocumentGenerator PyValue)
    (kv : KVStore n PyValue) (task : TaskState C) : Option (NextResult n C) :=
  if gen.batchSize = 1 then nextSingle cfg env gen kv task
  else next .loadDocuments cfg env gen kv task

/-- `while self.has_next() and not self.done(): self.next()`, at most `fuel` times. -/
def loadLoop [NeZero n] (cfg : LoadConfig) (env : Env) :
    Nat → BatchedDocumentGenerator PyValue → KVStore n PyValue → TaskState C →
      Option (NextResult n C)
  | 0, gen, kv, task => some ⟨.ok (), gen, kv, task⟩
  | fuel + 1, gen, kv, task =>
      if gen.hasNext && !task.future.done then
        match nextCreate cfg env gen kv task with
        | none => none
        | some res =>
            match res.outcome with
            | .error _ => some res
            | .ok () => loadLoop cfg env fuel res.gen res.kv res.task
      else some ⟨.ok (), gen, kv, task⟩

/-- How far a loop over the generator can go: every round takes at least one document. -/
def documentsLeft (g : KVGenerator PyValue) : Nat := (g.stop - g.itr).toNat

/-- How a mode ended: the exception that left it, if any, the store and the task. -/
structure ModeResult (n : Nat) (C : Type*) where
  outcome : Except Exn Unit
  kv : KVStore n PyValue
  task : TaskState C

/-- `run_normal_throughput_mode`. -/
def runNormalThroughputMode [NeZero n] (cfg : LoadConfig) (env : Env) (batchSize : Nat)
    (hbatch : 0 < batchSize) :
    List (KVGenerator PyValue) → KVStore n PyValue → TaskState C → Option (ModeResult n C)
  | [], kv, task => some ⟨.ok (), kv, task⟩
  | g :: rest, kv, task =>
      match loadLoop cfg env (documentsLeft g) ⟨g, batchSize, hbatch⟩ kv task with
      | none => none
      | some res =>
          match res.outcome with
          | .error e => some ⟨.error e, res.kv, res.task⟩
          | .ok () => runNormalThroughputMode cfg env batchSize hbatch rest res.kv res.task

/-! ## High throughput mode -/

/-- The parts of one generator. `quotient` is `int(a / b)`, which goes through a float. -/
def partitionGenerator (quotient : Int → ℕ+ → Int) (processConcurrency : ℕ+) (batchSize : Nat)
    (hbatch : 0 < batchSize) (g : KVGenerator PyValue) : List (BatchedDocumentGenerator PyValue) :=
  let genEnd := max g.stop 1
  let genRange := max (quotient g.stop processConcurrency) 1
  (pyRange g.start genEnd genRange).map fun pos =>
    let stop := if pos + genRange > g.stop then g.stop else pos + genRange
    ⟨{ g with start := pos, itr := pos, stop := stop }, batchSize, hbatch⟩

/-- One document of `cache_items`: no lock is taken on the child's own store. -/
def cacheItem [NeZero n] (cfg : LoadConfig) (env : Env) (e : String × PyValue) :
    Prog (Loading n C) Exn := fun st =>
  match Loading.storedValue cfg e.2 with
  | .error err => (.error err, st)
  | .ok value =>
      let i := KVStore.hash n e.1 cfg.addr
      let p := (st.kv.part i).set (env.setClock e.1) e.1 value cfg.exp cfg.flag
      (.ok (), { st with kv := st.kv.setPartition i p })

/-- `cache_items`. -/
def cacheItems [NeZero n] (cfg : LoadConfig) (env : Env) : Prog (Loading n C) Exn := fun st =>
  forEach (cacheItem cfg env) st.keyVal.items st

/-- The loop of `run_generator` from batch `round` on, at most `fuel` times; `envs` is the outside of each
    batch. An exception ends the loop and is printed. -/
def generatorLoop [NeZero n] (cfg : LoadConfig) (envs : Nat → Env) :
    Nat → Nat → BatchedDocumentGenerator PyValue → Loading n C →
      BatchedDocumentGenerator PyValue × Loading n C
  | 0, _, gen, st => (gen, st)
  | fuel + 1, round, gen, st =>
      if gen.hasNext && !st.task.future.done then
        let (keyVal, gen) := gen.nextBatch
        match ((Loading.createBatchClient .loadDocuments (envs round)).seq
            (cacheItems cfg (envs round))) { st with keyVal := keyVal } with
        | (.error _, st) => (gen, st)
        | (.ok (), st) => generatorLoop cfg envs fuel (round + 1) gen st
      else (gen, st)

/-- `run_generator`: what the child puts into the queue. `connect` is the outcome of opening the
    child's client. -/
def runGenerator [NeZero n] (cfg : LoadConfig) (envs : Nat → Env) (connect : Except Exn Unit)
    (gen : BatchedDocumentGenerator PyValue) (task : TaskState C) :
    Except Exn (Fin n → Partition PyValue) :=
  match connect with
  | .error e => .error e
  | .ok () =>
      let st := (generatorLoop cfg envs (documentsLeft gen.docGen) 0 gen
        ⟨KVStore.new n PyValue, ∅, task⟩).2
      .ok st.kv.getPartitions

/-- The loop that empties the queue of results, in the order they arrived. -/
def mergeResults : List (Except Exn (Fin n → Partition PyValue)) → KVStore n PyValue → TaskState C →
    Option (ModeResult n C)
  | [], kv, task => some ⟨.ok (), kv, task⟩
  | .error e :: _, kv, task => some ⟨.ok (), kv, ⟨true, (task.future.setException e).1⟩⟩
  | .ok partitions :: rest, kv, task =>
      match kv.mergePartitions partitions with
      | none => none
      | some kv => mergeResults rest kv task

/-- The parts all children work on. -/
def allParts (quotient : Int → ℕ+ → Int) (processConcurrency : ℕ+) (batchSize : Nat)
    (hbatch : 0 < batchSize) (gens : List (KVGenerator PyValue)) :
    List (BatchedDocumentGenerator PyValue) :=
  gens.flatMap (partitionGenerator quotient processConcurrency batchSize hbatch)

/-- The results the children put into the queue, in the order of the parts; `connect` is asked with
    the number of the child. -/
def childResults [NeZero n] (cfg : LoadConfig) (env : Env) (connect : Nat → Except Exn Unit)
    (parts : List (BatchedDocumentGenerator PyValue)) (task : TaskState C) :
    List (Except Exn (Fin n → Partition PyValue)) :=
  parts.mapIdx fun iterator gen => runGenerator cfg (fun _ => env) (connect iterator) gen task

/-- `run_high_throughput_mode`: the children's results arrive in some order and are merged. -/
def RunHighThroughputMode [NeZero n] (cfg : LoadConfig) (env : Env)
    (connect : Nat → Except Exn Unit) (quotient : Int → ℕ+ → Int) (processConcurrency : ℕ+)
    (batchSize : Nat) (hbatch : 0 < batchSize) (gens : List (KVGenerator PyValue))
    (kv : KVStore n PyValue) (task : TaskState C) (res : Option (ModeResult n C)) : Prop :=
  ∃ arrived : List (Except Exn (Fin n → Partition PyValue)),
    arrived.Perm (childResults cfg env connect
      (allParts quotient processConcurrency batchSize hbatch gens) task) ∧
    res = mergeResults arrived kv task

end Throughput

end TestInfra
