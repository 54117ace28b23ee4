import TestInfra.Lib.Raises
import TestInfra.KVStore.Basic
import TestInfra.Tasks.Future
import TestInfra.Tasks.Generator
import TestInfra.Tasks.Values

set_option autoImplicit false

/-! # Loading documents in batches

`LoadDocumentsTask.next` (with a batch size above 1) and `BatchedLoadDocumentsTask.__next__` take the
next batch, lock the partitions of its keys, run one operation against the client and the reference
store, and release the locks. The release is **not** in a `finally`: an exception that leaves the
operation leaves the locks held.

What the outside contributes to one call is the parameter `Env`: the JSON codec, the random draws, the
clock readings and the outcome of every client call. -/

namespace TestInfra

open Raises Raises.Prog

/-- The two classes; they differ in `_create_batch` and in what value processing catches. -/
inductive TaskKind where
  | loadDocuments
  | batchedLoadDocuments
deriving DecidableEq, Repr

inductive OpType where
  | create
  | update
  | delete
  | read
  | other (name : String)
deriving DecidableEq, Repr

/-- The attributes of a loading task its methods read. -/
structure LoadConfig where
  opType : OpType
  exp : Int
  flag : Int
  onlyStoreHash : Bool
  addr : Addr

/-- The outside of one call. Keys of a batch are distinct, so one reading per key is enough:
    `readClock` is the clock `get_valid` (or `delete`) sees, `setClock` the one `set` sees. -/
structure Env where
  json : JsonLib
  draw : String → PyValue.Draw
  readClock : String → Int
  setClock : String → Int
  set : Except Exn Unit
  setMulti : Except Exn Unit
  getMulti : Except Exn Unit
  delete : String → Except Exn Unit

instance : Truthy Exn := ⟨fun _ => true⟩

/-- The mutable part of a task: whether `state` is `FINISHED`, and the future it is. -/
structure TaskState (C : Type*) where
  finished : Bool
  future : Future Bool Exn C

/-- What a batch method works on: the store, its local `key_val`, the task. -/
structure Loading (n : Nat) (C : Type*) where
  kv : KVStore n PyValue
  keyVal : Dict String PyValue
  task : TaskState C

namespace Loading

variable {n : Nat} {C : Type*}

/-- `self.state = FINISHED; self.set_exception(error)`. -/
def fail (e : Exn) (st : Loading n C) : Loading n C :=
  { st with task := ⟨true, (st.task.future.setException e).1⟩ }

/-- What `partition.get_valid(key)` answers; a stored `None` reads as no value. -/
def validValue (now : Int) (i : Fin n) (key : String) (kv : KVStore n PyValue) : Option PyValue :=
  match ((kv.part i).getValid now key).1 with
  | some .none => none
  | value => value

/-- `partition.get_valid(key)`. -/
def getValid (now : Int) (i : Fin n) (key : String) (st : Loading n C) :
    Option PyValue × Loading n C :=
  let kv := st.kv.setPartition i ((st.kv.part i).getValid now key).2
  (validValue now i key st.kv, { st with kv := kv })

/-! ## Processing the values -/

/-- `_process_values_for_create` of one value, in `GenericLoadingTask`. -/
def createValueGeneric (env : Env) (key : String) (value : PyValue) : Except Exn PyValue :=
  match env.json.edited (fun v => v.setItem "mutated" (.int 0)) value with
  | .error .valueError => value.mutate (env.draw key)
  | .error .typeError => env.json.dump value
  | result => result

/-- `_process_values_for_create` of one value, in `BatchedLoadDocumentsTask`: no `except TypeError`. -/
def createValueBatched (env : Env) (key : String) (value : PyValue) : Except Exn PyValue :=
  match env.json.edited (fun v => v.setItem "mutated" (.int 0)) value with
  | .error .valueError => value.mutate (env.draw key)
  | result => result

def createValue : TaskKind → Env → String → PyValue → Except Exn PyValue
  | .loadDocuments => createValueGeneric
  | .batchedLoadDocuments => createValueBatched

/-- `_process_values_for_update` of one value, in both classes. -/
def updateValue (env : Env) (key : String) (value : PyValue) : Except Exn PyValue :=
  match env.json.edited (fun v => v.incItem "mutated") value with
  | .error .valueError => value.mutate (env.draw key)
  | result => result

/-- One round of `_process_values_for_create`; the `finally` stores what `value` holds. -/
def processForCreate (kind : TaskKind) (env : Env) (e : String × PyValue) : Prog (Loading n C) Exn :=
  fun st =>
    match createValue kind env e.1 e.2 with
    | .ok value => (.ok (), { st with keyVal := st.keyVal.set e.1 value })
    | .error err => (.error err, { st with keyVal := st.keyVal.set e.1 e.2 })

/-- `_process_values_for_create`. -/
def processValuesForCreate (kind : TaskKind) (env : Env) : Prog (Loading n C) Exn := fun st =>
  forEach (processForCreate kind env) st.keyVal.items st

/-- One round of `_process_values_for_update`: a key that is not valid in the store leaves `key_val`. -/
def processForUpdate (env : Env) (i : Fin n) (key : String) : Prog (Loading n C) Exn := fun st =>
  let (value, st) := st.getValid (env.readClock key) i key
  match value with
  | none =>
      match st.keyVal.get? key with
      | some _ => (.ok (), { st with keyVal := st.keyVal.del key })
      | none => (.error .keyError, st)
  | some stored =>
      match st.keyVal.get? key with
      | none => (.error .keyError, { st with keyVal := st.keyVal.set key stored })
      | some value =>
          match updateValue env key value with
          | .ok value => (.ok (), { st with keyVal := st.keyVal.set key value })
          | .error err => (.error err, { st with keyVal := st.keyVal.set key value })

/-- `_process_values_for_update`. -/
def processValuesForUpdate (env : Env) (dic : Dict (Fin n) (List String)) : Prog (Loading n C) Exn :=
  forEach (fun g => forEach (processForUpdate env g.1) g.2) dic.items

/-- What goes into the store: the value, or with `only_store_hash` the text of its hash. -/
def storedValue (cfg : LoadConfig) (value : PyValue) : Except Exn PyValue :=
  if cfg.onlyStoreHash then (crc32Hash value).map fun h => PyValue.str (toString h) else .ok value

/-- One key of `_populate_kvstore_partition`. With `only_store_hash` the hash replaces the value in
    `key_val` first. -/
def populateKey (cfg : LoadConfig) (env : Env) (i : Fin n) (key : String) : Prog (Loading n C) Exn :=
  fun st =>
    match st.keyVal.get? key with
    | none => (.error .keyError, st)
    | some value =>
        match storedValue cfg value with
        | .error err => (.error err, st)
        | .ok value =>
            let p := (st.kv.part i).set (env.setClock key) key value cfg.exp cfg.flag
            (.ok (), { st with keyVal := st.keyVal.set key value, kv := st.kv.setPartition i p })

/-- `_populate_kvstore`. -/
def populateKvstore (cfg : LoadConfig) (env : Env) (dic : Dict (Fin n) (List String)) :
    Prog (Loading n C) Exn :=
  forEach (fun g => forEach (populateKey cfg env g.1) g.2) dic.items

/-! ## The batch operations -/

/-- A client call with a given outcome. -/
def client (outcome : Except Exn Unit) : Prog (Loading n C) Exn := fun st => (outcome, st)

/-- `except (MemcachedError, ServerUnavailableException, socket.error, EOFError, AttributeError,
    RuntimeError)`. -/
def caughtBySet : Exn → Bool
  | .memcachedError _ | .serverUnavailable | .socketError | .eofError | .attributeError
  | .runtimeError => true
  | _ => false

/-- The handler: note the failure and go on. -/
def handleSet (e : Exn) : Option (Prog (Loading n C) Exn) :=
  if caughtBySet e then some fun st => (.ok (), st.fail e) else none

/-- `_create_batch_client`. -/
def createBatchClient (kind : TaskKind) (env : Env) : Prog (Loading n C) Exn :=
  ((processValuesForCreate kind env).seq (client env.setMulti)).tryExcept handleSet

/-- `_create_batch`: `LoadDocumentsTask` fills the store even when the client failed,
    `BatchedLoadDocumentsTask` does not. -/
def createBatch (kind : TaskKind) (cfg : LoadConfig) (env : Env) (dic : Dict (Fin n) (List String)) :
    Prog (Loading n C) Exn :=
  match kind with
  | .loadDocuments => (createBatchClient kind env).seq (populateKvstore cfg env dic)
  | .batchedLoadDocuments =>
      ((processValuesForCreate kind env).seq
        ((client env.setMulti).seq (populateKvstore cfg env dic))).tryExcept handleSet

/-- `_update_batch`. -/
def updateBatch (cfg : LoadConfig) (env : Env) (dic : Dict (Fin n) (List String)) :
    Prog (Loading n C) Exn :=
  ((processValuesForUpdate env dic).seq
    ((client env.setMulti).seq (populateKvstore cfg env dic))).tryExcept handleSet

/-- The handlers of `_delete_batch` beside that for `MemcachedError`; `RuntimeError` is not named. -/
def caughtByDelete : Exn → Bool
  | .serverUnavailable | .socketError | .eofError | .attributeError => true
  | _ => false

/-- `_delete_batch` over the keys in its order. -/
def deleteKeys (env : Env) : List (Fin n × String) → Prog (Loading n C) Exn
  | [] => skip
  | (i, key) :: rest => fun st =>
      match env.delete key with
      | .ok () =>
          let p := (st.kv.part i).delete (env.readClock key) key
          deleteKeys env rest { st with kv := st.kv.setPartition i p }
      | .error (.memcachedError status) =>
          if status = errNotFound then
            let (value, st) := st.getValid (env.readClock key) i key
            match value with
            | none => deleteKeys env rest st
            | some _ => (.ok (), st.fail (.memcachedError status))
          else (.ok (), st.fail (.memcachedError status))
      | .error e => if caughtByDelete e then deleteKeys env rest (st.fail e) else (.error e, st)

/-- The keys of `partition_keys_dic` with their slots, in the order of the nested loops. -/
def slotKeys (dic : Dict (Fin n) (List String)) : List (Fin n × String) :=
  dic.items.flatMap fun g => g.2.map fun key => (g.1, key)

/-- `_delete_batch`. -/
def deleteBatch (env : Env) (dic : Dict (Fin n) (List String)) : Prog (Loading n C) Exn :=
  deleteKeys env (slotKeys dic)

/-- `_read_batch`: only `MemcachedError` is caught. -/
def readBatch (env : Env) : Prog (Loading n C) Exn :=
  (client env.getMulti).tryExcept fun
    | .memcachedError status => some fun st => (.ok (), st.fail (.memcachedError status))
    | _ => none

/-- The branch over `op_type`. -/
def runOp (kind : TaskKind) (cfg : LoadConfig) (env : Env) (dic : Dict (Fin n) (List String)) :
    Prog (Loading n C) Exn :=
  match cfg.opType with
  | .create => createBatch kind cfg env dic
  | .update => updateBatch cfg env dic
  | .delete => deleteBatch env dic
  | .read => readBatch env
  | .other name => fun st => (.ok (), st.fail (.exception ("Bad operation type: " ++ name)))

end Loading

/-- How a call of `next` ended: the exception that left it, if any, and what it left behind. -/
structure NextResult (n : Nat) (C : Type*) where
  outcome : Except Exn Unit
  gen : BatchedDocumentGenerator PyValue
  kv : KVStore n PyValue
  task : TaskState C

/-- `LoadDocumentsTask.next` for a batch size above 1, and `BatchedLoadDocumentsTask.__next__`. There
    is no result (`none`) when `acquire_partitions` has to wait. -/
def next {n : Nat} [NeZero n] {C : Type*} (kind : TaskKind) (cfg : LoadConfig) (env : Env)
    (gen : BatchedDocumentGenerator PyValue) (kv : KVStore n PyValue) (task : TaskState C) :
    Option (NextResult n C) :=
  let (keyVal, gen) := gen.nextBatch
  match kv.acquirePartitions keyVal.keys cfg.addr with
  | none => none
  | some (dic, kv) =>
      match Loading.runOp kind cfg env dic ⟨kv, keyVal, task⟩ with
      | (.error e, st) => some ⟨.error e, gen, st.kv, st.task⟩
      | (.ok (), st) =>
          (st.kv.releasePartitions dic.keys).map fun kv => ⟨.ok (), gen, kv, st.task⟩

end TestInfra
