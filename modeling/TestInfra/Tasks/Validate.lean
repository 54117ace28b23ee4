import TestInfra.Tasks.Loading

set_option autoImplicit false

/-! # The key checks of the validating tasks

`ValidateDataTask`, `ValidateDataWithActiveAndReplicaTask` and `BatchedValidateDataTask`
(`lib/tasks/task.py`) compare what the server holds with the reference store, key by key or batch by
batch. Each check takes the partition lock of its keys, asks the client, compares, and gives the lock
back; like the loading tasks they do so without a `finally`, and the three classes do not agree on
where the release stands.

What the client answers is an input of a check. The outside that is not the client is
`ValidateEnv`; every look at the clock takes its next reading. -/

namespace TestInfra

open Raises Raises.Prog

/-- What a client call can raise. -/
inductive ClientError where
  /-- An `Exception` with no attribute `rc`. -/
  | raised (e : Exn)
  /-- An `Exception` of the SDK, which has one. -/
  | sdkError (rc : Int)
  /-- What is not an `Exception` (`KeyboardInterrupt`, `SystemExit`). -/
  | baseException (name : String)
deriving DecidableEq, Repr

instance : Truthy ClientError := ⟨fun _ => true⟩

/-- `NotFoundError` of `memcacheConstants`. -/
def notFoundError : Int := 0xD

/-- The `(o, c, d)` of `client.get`. -/
structure Document where
  flags : Int
  cas : Int
  value : PyValue

structure ValidateConfig where
  onlyStoreHash : Bool
  checkFlag : Bool
  addr : Addr

/-- The outside of a check beside the client: the JSON codec, `int(x)`, `x != y`, `str(x)`, and the
    readings of the clock. -/
structure ValidateEnv where
  json : JsonLib
  int : PyValue → Except Exn Int
  ne : PyValue → PyValue → Bool
  str : PyValue → String
  clock : Nat → Int

/-- What a check works on: the store, whether `state` is `FINISHED`, the future of the task, and how
    often the clock was read. -/
structure Validating (n : Nat) (C : Type*) where
  kv : KVStore n PyValue
  finished : Bool
  future : Future Bool ClientError C
  ticks : Nat

/-- `d.decode()`, where there is such a method. -/
def PyValue.decode : PyValue → Except Exn PyValue
  | .bytes b =>
      match String.fromUTF8? ⟨b.toArray⟩ with
      | some s => .ok (.str s)
      | .none => .error .valueError
  | value => .ok value

namespace Validating

variable {n : Nat} {C : Type*}

/-- `self.state = FINISHED; self.set_exception(error)`. -/
def fail (e : ClientError) (st : Validating n C) : Validating n C :=
  { st with finished := true, future := (st.future.setException e).1 }

/-- A comparison that failed: the exception with the given text. -/
def failWith (message : String) (st : Validating n C) : Validating n C :=
  st.fail (.raised (.exception message))

/-- `partition.get_valid(key)`; a stored `None` reads as no value. -/
def getValid (env : ValidateEnv) (i : Fin n) (key : String) (st : Validating n C) :
    Option PyValue × Validating n C :=
  let now := env.clock st.ticks
  let p := ((st.kv.part i).getValid now key).2
  (Loading.validValue now i key st.kv, { st with kv := st.kv.setPartition i p, ticks := st.ticks + 1 })

/-- `partition.get_flag(key)`. -/
def getFlag (env : ValidateEnv) (i : Fin n) (key : String) (st : Validating n C) :
    Option Int × Validating n C :=
  let (flag, p) := (st.kv.part i).getFlag (env.clock st.ticks) key
  (flag, { st with kv := st.kv.setPartition i p, ticks := st.ticks + 1 })

end Validating

/-- A check: `none` when it waits for a lock that is held or releases one that is not; otherwise the
    exception that left it, if any, and the state. -/
abbrev Check (n : Nat) (C : Type*) :=
  Validating n C → Option (Except ClientError Unit × Validating n C)

namespace Validate

variable {n : Nat} [NeZero n] {C : Type*}

/-- `self.kv_store.release_partition(key, ..)` as the last line of a check. -/
def releasing (cfg : ValidateConfig) (key : String) : Check n C := fun st =>
  (st.kv.releasePartition key cfg.addr).map fun kv => (.ok (), { st with kv := kv })

/-- The shape of the checks of one key: lock, run the body, and unless an exception leaves it release. -/
def locking (cfg : ValidateConfig) (key : String) (body : Prog (Validating n C) ClientError) :
    Check n C := fun st =>
  match st.kv.acquirePartition key cfg.addr with
  | none => none
  | some kv =>
      match body { st with kv := kv } with
      | (.error e, st) => some (.error e, st)
      | (.ok (), st) => releasing cfg key st

/-! ## `ValidateDataTask` -/

/-- The comparison of the contents. With `only_store_hash` the store holds the hash. -/
def compareValue (cfg : ValidateConfig) (env : ValidateEnv) (key : String) (value d : PyValue) :
    Prog (Validating n C) ClientError := fun st =>
  if cfg.onlyStoreHash then
    match crc32Hash d, env.int value with
    | .error e, _ => (.error (.raised e), st)
    | .ok _, .error e => (.error (.raised e), st)
    | .ok h, .ok stored =>
        if (h : Int) ≠ stored then
          (.ok (), st.failWith ("Key: " ++ key ++ ", Bad hash result: " ++ toString h ++ " != " ++
            toString stored ++ " for key " ++ key))
        else (.ok (), st)
  else
    match env.json.dumps value with
    | none => (.error (.raised .typeError), st)
    | some text =>
        match env.json.loads (.str text) with
        | .error e => (.error (.raised e.toExn), st)
        | .ok expected =>
            if env.ne d expected then
              match env.json.dumps d with
              | none => (.error (.raised .typeError), { st with finished := true })
              | some shown =>
                  (.ok (), st.failWith ("Key: " ++ key ++ ", Bad result: " ++ shown ++ " != " ++ text ++
                    " for key " ++ key))
            else (.ok (), st)

/-- `if CHECK_FLAG and o != flag`. -/
def compareFlag (cfg : ValidateConfig) (key : String) (flag o : Int) :
    Prog (Validating n C) ClientError := fun st =>
  if cfg.checkFlag ∧ o ≠ flag then
    (.ok (), st.failWith ("Key: " ++ key ++ ", Bad result for flag value: " ++ toString o ++
      " != the value we set: " ++ toString flag))
  else (.ok (), st)

/-- The `try` block of `_check_valid_key`. -/
def compareDocument (cfg : ValidateConfig) (env : ValidateEnv) (got : Except ClientError Document)
    (key : String) (value : PyValue) (flag : Int) : Prog (Validating n C) ClientError := fun st =>
  match got with
  | .error e => (.error e, st)
  | .ok doc =>
      match doc.value.decode with
      | .error e => (.error (.raised e), st)
      | .ok d => ((compareValue cfg env key value d).seq (compareFlag cfg key flag doc.flags)) st

/-- `except MemcachedError` and `except Exception` of the two `_check_valid_key`. -/
def handleValid (env : ValidateEnv) (i : Fin n) (key : String) (e : ClientError) :
    Option (Prog (Validating n C) ClientError) :=
  match e with
  | .raised (.memcachedError status) => some fun st =>
      if status = errNotFound then
        let (value, st) := st.getValid env i key
        match value with
        | none => (.ok (), st)
        | some _ => (.ok (), st.fail e)
      else (.ok (), st.fail e)
  | .baseException _ => none
  | e => some fun st => (.ok (), st.fail e)

/-- What `ValidateDataTask._check_valid_key` does under the lock. -/
def checkValidBody (cfg : ValidateConfig) (env : ValidateEnv) (got : Except ClientError Document)
    (key : String) : Prog (Validating n C) ClientError := fun st =>
  let i := KVStore.hash n key cfg.addr
  let (value, st) := st.getValid env i key
  let (flag, st) := st.getFlag env i key
  match value, flag with
  | some value, some flag =>
      ((compareDocument cfg env got key value flag).tryExcept (handleValid env i key)) st
  | _, _ => (.ok (), st)

/-- `ValidateDataTask._check_valid_key`, `got` being what `client.get` (or `client.getr`) answers. -/
def checkValidKey (cfg : ValidateConfig) (env : ValidateEnv) (got : Except ClientError Document)
    (key : String) : Check n C :=
  locking cfg key (checkValidBody cfg env got key)

/-- The `try` block of the three `_check_deleted_key`: a delete that succeeds is only noticed when the
    store has the key as valid. -/
def deleteAtClient (env : ValidateEnv) (deleted : Except ClientError Unit) (message : String)
    (i : Fin n) (key : String) : Prog (Validating n C) ClientError := fun st =>
  match deleted with
  | .error e => (.error e, st)
  | .ok () =>
      let (value, st) := st.getValid env i key
      match value with
      | none => (.ok (), st)
      | some _ => (.ok (), st.failWith message)

/-- The handlers of `_check_deleted_key`; `error.rc` of an exception that has no `rc` raises
    `AttributeError`. -/
def handleDeleted (e : ClientError) : Option (Prog (Validating n C) ClientError) :=
  match e with
  | .raised (.memcachedError status) => some fun st =>
      if status = errNotFound then (.ok (), st) else (.ok (), st.fail e)
  | .raised _ => some fun st => (.error (.raised .attributeError), st)
  | .sdkError rc => some fun st => if rc ≠ notFoundError then (.ok (), st.fail e) else (.ok (), st)
  | .baseException _ => none

/-- The two `_check_deleted_key` that release in one place. -/
def checkDeletedKeyWith (message : String) (cfg : ValidateConfig) (env : ValidateEnv)
    (deleted : Except ClientError Unit) (key : String) : Check n C :=
  locking cfg key
    ((deleteAtClient env deleted message (KVStore.hash n key cfg.addr) key).tryExcept handleDeleted)

/-- `ValidateDataTask._check_deleted_key`. -/
def checkDeletedKey (cfg : ValidateConfig) (env : ValidateEnv) (deleted : Except ClientError Unit)
    (key : String) : Check n C :=
  checkDeletedKeyWith ("Not Deletes: " ++ key) cfg env deleted key

/-! ## `ValidateDataWithActiveAndReplicaTask` -/

/-- The three comparisons of the active with the replica document. -/
def compareReplica (env : ValidateEnv) (key : String) (active replica : Document) :
    Prog (Validating n C) ClientError := fun st =>
  let st := if active.flags ≠ replica.flags then
      st.failWith ("ACTIVE AND REPLICA FLAG CHECK FAILED :: Key: " ++ key ++
        ", Bad result for CAS value: REPLICA FLAG " ++ toString replica.flags ++ " != ACTIVE FLAG " ++
        toString active.flags)
    else st
  let st := if active.cas ≠ replica.cas then
      st.failWith ("ACTIVE AND REPLICA CAS CHECK FAILED :: Key: " ++ key ++
        ", Bad result for CAS value: REPLICA CAS " ++ toString replica.cas ++ " != ACTIVE CAS " ++
        toString active.cas)
    else st
  let st := if env.ne active.value replica.value then
      st.failWith ("ACTIVE AND REPLICA VALUE CHECK FAILED :: Key: " ++ key ++
        ", Bad result for Value value: REPLICA VALUE " ++ env.str replica.value ++
        " != ACTIVE VALUE " ++ env.str active.value)
    else st
  (.ok (), st)

/-- The `try` block of `ValidateDataWithActiveAndReplicaTask._check_valid_key`: `active` is what
    `client.get` answers, `replica` what `client.getr` does. -/
def compareActive (env : ValidateEnv) (active replica : Except ClientError Document) (key : String) :
    Prog (Validating n C) ClientError := fun st =>
  match active, replica with
  | .error e, _ => (.error e, st)
  | .ok _, .error e => (.error e, st)
  | .ok active, .ok replica => compareReplica env key active replica st

/-- `ValidateDataWithActiveAndReplicaTask._check_valid_key`. There is no release. -/
def checkActiveAndReplica (cfg : ValidateConfig) (env : ValidateEnv)
    (active replica : Except ClientError Document) (key : String) : Check n C := fun st =>
  match st.kv.acquirePartition key cfg.addr with
  | none => none
  | some kv =>
      some (((compareActive env active replica key).tryExcept
        (handleValid env (KVStore.hash n key cfg.addr) key)) { st with kv := kv })

/-- `ValidateDataWithActiveAndReplicaTask._check_deleted_key`. -/
def checkDeletedKeyActive (cfg : ValidateConfig) (env : ValidateEnv)
    (deleted : Except ClientError Unit) (key : String) : Check n C :=
  checkDeletedKeyWith ("ACTIVE CHECK :: Not Deletes: " ++ key) cfg env deleted key

/-! ## `BatchedValidateDataTask` -/

/-- The comparison of the contents in a batch: the document is not decoded first, and without
    `only_store_hash` both sides are read as JSON. -/
def compareBatchValue (cfg : ValidateConfig) (env : ValidateEnv) (key : String) (value d : PyValue) :
    Prog (Validating n C) ClientError := fun st =>
  if cfg.onlyStoreHash then
    match crc32Hash d, env.int value with
    | .error e, _ => (.error (.raised e), st)
    | .ok _, .error e => (.error (.raised e), st)
    | .ok h, .ok stored =>
        if (h : Int) ≠ stored then
          (.ok (), st.failWith ("Key: " ++ key ++ " Bad hash result: " ++ toString h ++ " != " ++
            toString stored))
        else (.ok (), st)
  else
    match env.json.loads d, env.json.loads value with
    | .error e, _ => (.error (.raised e.toExn), st)
    | .ok _, .error e => (.error (.raised e.toExn), st)
    | .ok found, .ok expected =>
        if env.ne found expected then
          match env.json.dumps d with
          | none => (.error (.raised .typeError), { st with finished := true })
          | some shown =>
              (.ok (), st.failWith ("Key: " ++ key ++ " Bad result: " ++ shown ++ " != " ++
                env.str value))
        else (.ok (), st)

def compareBatchFlag (cfg : ValidateConfig) (key : String) (flag : Option Int) (o : Int) :
    Prog (Validating n C) ClientError := fun st =>
  if cfg.checkFlag ∧ some o ≠ flag then
    (.ok (), st.failWith ("Key: " ++ key ++ " Bad result for flag value: " ++ toString o ++
      " != the value we set: " ++ (flag.map toString).getD "None"))
  else (.ok (), st)

/-- The `try` block of `_check_validity`. -/
def compareBatchKey (cfg : ValidateConfig) (env : ValidateEnv) (keyVals : Dict String Document)
    (key : String) (value : PyValue) (flag : Option Int) : Prog (Validating n C) ClientError :=
  fun st =>
    match keyVals.get? key with
    | none => (.error (.raised .keyError), st)
    | some doc =>
        ((compareBatchValue cfg env key value doc.value).seq
          (compareBatchFlag cfg key flag doc.flags)) st

/-- Its handler: only a `KeyError` is caught. -/
def handleValidity : ClientError → Option (Prog (Validating n C) ClientError)
  | .raised .keyError => some fun st => (.ok (), st.fail (.raised .keyError))
  | _ => none

/-- One key of `_check_validity`. -/
def checkValidityKey (cfg : ValidateConfig) (env : ValidateEnv) (keyVals : Dict String Document)
    (i : Fin n) (key : String) : Prog (Validating n C) ClientError := fun st =>
  let (value, st) := st.getValid env i key
  let (flag, st) := st.getFlag env i key
  match value with
  | none => (.ok (), st)
  | some value => ((compareBatchKey cfg env keyVals key value flag).tryExcept handleValidity) st

/-- `_check_validity` over the groups of a batch. -/
def checkValidity (cfg : ValidateConfig) (env : ValidateEnv) (keyVals : Dict String Document)
    (dic : Dict (Fin n) (List String)) : Prog (Validating n C) ClientError :=
  forEach (fun e => checkValidityKey cfg env keyVals e.1 e.2) (Loading.slotKeys dic)

/-- `self.kv_store.release_partitions(list(partition_keys_dic.keys()))`. -/
def releasingAll (dic : Dict (Fin n) (List String)) (st : Validating n C) : Option (Validating n C) :=
  (st.kv.releasePartitions dic.keys).map fun kv => { st with kv := kv }

/-- `BatchedValidateDataTask._check_valid_keys`, `got` being what `client.getMulti` answers. -/
def checkValidKeys (cfg : ValidateConfig) (env : ValidateEnv)
    (got : Except ClientError (Dict String Document)) (keys : List String) : Check n C := fun st =>
  match st.kv.acquirePartitions keys cfg.addr with
  | none => none
  | some (dic, kv) =>
      let st := { st with kv := kv }
      match got with
      | .error e => (releasingAll dic { st with finished := true }).map fun st => (.ok (), st.fail e)
      | .ok keyVals =>
          match checkValidity cfg env keyVals dic st with
          | (.error e, st) => some (.error e, st)
          | (.ok (), st) => (releasingAll dic st).map fun st => (.ok (), st)

/-- `BatchedValidateDataTask._check_deleted_key`: two of its handlers release, and so does the end. -/
def checkDeletedKeyBatched (cfg : ValidateConfig) (env : ValidateEnv)
    (deleted : Except ClientError Unit) (key : String) : Check n C := fun st =>
  match st.kv.acquirePartition key cfg.addr with
  | none => none
  | some kv =>
      let st := { st with kv := kv }
      let releaseAndFail := fun e : ClientError =>
        (st.kv.releasePartition key cfg.addr).bind fun kv =>
          releasing cfg key (Validating.fail e { st with kv := kv })
      match deleted with
      | .ok () =>
          let (value, st) := st.getValid env (KVStore.hash n key cfg.addr) key
          match value with
          | none => releasing cfg key st
          | some _ => releasing cfg key (st.failWith ("Not Deletes: " ++ key))
      | .error (.raised (.memcachedError status)) =>
          if status = errNotFound then releasing cfg key st
          else releaseAndFail (.raised (.memcachedError status))
      | .error (.raised _) => some (.error (.raised .attributeError), st)
      | .error (.sdkError rc) =>
          if rc ≠ notFoundError then releaseAndFail (.sdkError rc) else releasing cfg key st
      | .error (.baseException name) => some (.error (.baseException name), st)

end Validate

end TestInfra
