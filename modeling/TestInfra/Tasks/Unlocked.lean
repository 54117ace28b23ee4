import TestInfra.Tasks.Validate
import TestInfra.Tasks.Throughput

set_option autoImplicit false

/-! # The operations on one key

`GenericLoadingTask` (`lib/tasks/task.py`) creates, updates, deletes and appends to one document at a
time under the lock of its partition: `_unlocked_create`, `_unlocked_update`, `_unlocked_delete` and
`_unlocked_append`. An update and an append **read** first, edit the JSON they got, and then **write**,
first to the server and then to the reference partition.

The read phase has three handlers. The one for `MemcachedError` returns, the one for `ValueError` mutates
the text and goes on to the write phase, and the last one, for everything else, notes the exception and
goes on as well. -/

namespace TestInfra

open Raises Raises.Prog

/-- A write the server took. -/
inductive ServerWrite where
  | set (key : String) (value : PyValue)
  | append (key : String) (value : PyValue)
  | delete (key : String)

def ServerWrite.key : ServerWrite → String
  | set key _ | append key _ | delete key => key

/-- The outside of one operation: the JSON codec, `x.update(y)` and `str(x)`, the random draw, the clock
    `get_valid` (or `delete`) and `set` see, and the outcome of every client call. `getAgain` is the
    second read an append makes in its handler for `ValueError`. -/
structure UnlockedEnv where
  json : JsonLib
  update : PyValue → PyValue → Except Exn PyValue
  str : PyValue → String
  draw : PyValue.Draw
  readClock : Int
  setClock : Int
  get : Except ClientError PyValue
  getAgain : Except ClientError PyValue
  set : Except ClientError Unit
  append : Except ClientError Unit
  delete : Except ClientError Unit

/-- What an operation works on: the partition of its key, whether `state` is `FINISHED`, the future of
    the task, and the writes the server took so far. -/
structure Unlocked (C : Type*) where
  partition : Partition PyValue
  finished : Bool
  future : Future Bool ClientError C
  sent : List ServerWrite

/-- How the read phase ends: what it gave to `set_exception`, and whether the operation returns, raises,
    or goes on to the write phase. -/
inductive AfterRead (A : Type) where
  | returns
  | raises (e : ClientError)
  | goesOn (a : A)

structure ReadEnd (A : Type) where
  recorded : Option ClientError
  next : AfterRead A

/-- How the first `try` block ends: it returns, completes, or raises with the local variables as they
    are. -/
inductive Tried (A : Type) where
  | returns
  | completes (a : A)
  | raises (e : ClientError) (a : A)

namespace Unlocked

variable {C : Type*}

/-- `self.state = FINISHED; self.set_exception(error)`. -/
def fail (e : ClientError) (st : Unlocked C) : Unlocked C :=
  { st with finished := true, future := (st.future.setException e).1 }

/-- `partition.get_valid(key)`; a stored `None` reads as no value. -/
def getValid (env : UnlockedEnv) (key : String) (st : Unlocked C) : Option PyValue × Unlocked C :=
  let (value, p) := st.partition.getValid env.readClock key
  let value := match value with
    | some .none => none
    | value => value
  (value, { st with partition := p })

/-- The handler for `MemcachedError` of the read phases: the operation returns, silently when neither
    side has the key. -/
def handleMissing {A : Type} (env : UnlockedEnv) (key : String) (status : Nat) (st : Unlocked C) :
    ReadEnd A × Unlocked C :=
  let error := ClientError.raised (.memcachedError status)
  if status = errNotFound then
    let (value, st) := st.getValid env key
    match value with
    | none => (⟨none, .returns⟩, st)
    | some _ => (⟨some error, .returns⟩, st.fail error)
  else (⟨some error, .returns⟩, st.fail error)

/-- The read phase after its `try` block: the three handlers, `onValueError` being the body of the one for
    `ValueError`. -/
def afterTry {A : Type} (env : UnlockedEnv) (key : String) (onValueError : A → AfterRead A) (t : Tried A)
    (st : Unlocked C) : ReadEnd A × Unlocked C :=
  match t with
  | .returns => (⟨none, .returns⟩, st)
  | .completes a => (⟨none, .goesOn a⟩, st)
  | .raises (.raised (.memcachedError status)) _ => st.handleMissing env key status
  | .raises (.raised .valueError) a => (⟨none, onValueError a⟩, st)
  -- `except BaseException`: there is no `return` here
  | .raises e a => (⟨some e, .goesOn a⟩, st.fail e)

/-- The server took the write. -/
def send (w : ServerWrite) (st : Unlocked C) : Unlocked C := { st with sent := st.sent ++ [w] }

/-! ## Update -/

/-- `str(value[0:index]) + str(random.choice(string.ascii_uppercase).encode()) + str(value[index + 1:])`
    for a random index. -/
def mutateForUpdate (env : UnlockedEnv) (value : PyValue) : Except Exn PyValue :=
  let spliced {A : Type} (l : List A) (wrap : List A → PyValue) : Except Exn PyValue :=
    let index := env.draw.index % l.length
    if l.length = 0 then .error .indexError
    else .ok (.str (env.str (wrap (l.take index)) ++
      env.str (.bytes [UInt8.ofNat ('A'.toNat + env.draw.letter)]) ++
      env.str (wrap (l.drop (index + 1)))))
  match value with
  | .str s => spliced s.toList fun l => .str (String.ofList l)
  | .bytes b => spliced b .bytes
  | .list l => spliced l .list
  | .dict d => if d.length = 0 then .error .indexError else .error .typeError
  | _ => .error .typeError

/-- The first `try` block of `_unlocked_update`, with what `value` holds at its end. -/
def tryUpdate (env : UnlockedEnv) : Tried PyValue :=
  match env.get with
  | .error e => .raises e .none
  | .ok .none => .returns
  | .ok value =>
      match env.json.edited (fun v => v.incItem "mutated") value with
      | .ok value => .completes value
      | .error e => .raises (.raised e) value

/-- The handler for `ValueError` of `_unlocked_update`. -/
def updateRaw (env : UnlockedEnv) : PyValue → AfterRead PyValue
  | .none => .returns
  | value =>
      match mutateForUpdate env value with
      | .error e => .raises (.raised e)
      | .ok value => .goesOn value

/-- The read phase of `_unlocked_update`. -/
def readForUpdate (env : UnlockedEnv) (key : String) : Unlocked C → ReadEnd PyValue × Unlocked C :=
  afterTry env key (updateRaw env) (tryUpdate env)

/-- What an update stores: `None` is not hashed. -/
def updateStored (cfg : LoadConfig) : PyValue → Except Exn PyValue
  | .none => .ok .none
  | value => Loading.storedValue cfg value

/-- The write phase of `_unlocked_update`. -/
def writeUpdate (cfg : LoadConfig) (env : UnlockedEnv) (key : String) (value : PyValue)
    (st : Unlocked C) : Unlocked C :=
  match env.set with
  | .error e => st.fail e
  | .ok () =>
      match updateStored cfg value with
      | .error e => (st.send (.set key value)).fail (.raised e)
      | .ok stored =>
          { st.send (.set key value) with
            partition := st.partition.set env.setClock key stored cfg.exp cfg.flag }

/-- The two phases of an operation. -/
def phases {A : Type} (read : Unlocked C → ReadEnd A × Unlocked C) (write : A → Unlocked C → Unlocked C) :
    Prog (Unlocked C) ClientError := fun st =>
  match read st with
  | (⟨_, .returns⟩, st) => (.ok (), st)
  | (⟨_, .raises e⟩, st) => (.error e, st)
  | (⟨_, .goesOn a⟩, st) => (.ok (), write a st)

/-- `_unlocked_update`. -/
def unlockedUpdate (cfg : LoadConfig) (env : UnlockedEnv) (key : String) :
    Prog (Unlocked C) ClientError :=
  phases (readForUpdate env key) (writeUpdate cfg env key)

/-! ## Append -/

/-- `old_value += value`, `value` being a text. -/
def appendText (old : PyValue) (text : PyValue) : Except Exn PyValue :=
  match old, text with
  | .str s, .str t => .ok (.str (s ++ t))
  | .list l, .str t => .ok (.list (l ++ t.toList.map fun c => .str (String.singleton c)))
  | _, _ => .error .typeError

/-- The local variables of `_unlocked_append`; `old` is `none` as long as `old_value` is not bound. -/
structure AppendVars where
  old : Option PyValue
  value : PyValue

/-- The first `try` block of `_unlocked_append`. -/
def tryAppend (env : UnlockedEnv) (value : PyValue) : Tried AppendVars :=
  match env.get, value with
  | .error e, _ => .raises e ⟨none, value⟩
  | .ok _, .none => .returns
  | .ok old, value =>
      let edited : Except Exn PyValue := do
        let valueJson ← (env.json.loads value).mapError LoadsError.toExn
        let oldJson ← (env.json.loads old).mapError LoadsError.toExn
        let oldJson ← env.update oldJson valueJson
        env.json.dump oldJson
      match edited with
      | .error e => .raises (.raised e) ⟨some old, value⟩
      | .ok old =>
          match (env.json.loads value).mapError LoadsError.toExn >>= env.json.dump with
          | .error e => .raises (.raised e) ⟨some old, value⟩
          | .ok value => .completes ⟨some old, value⟩

/-- The handler for `ValueError` of `_unlocked_append`: read again, mutate the text, append to what was
    read. What it raises leaves the operation. -/
def appendRaw (env : UnlockedEnv) (vars : AppendVars) : AfterRead AppendVars :=
  match env.getAgain with
  | .error e => .raises e
  | .ok old =>
      match vars.value.mutate env.draw with
      | .error e => .raises (.raised e)
      | .ok value =>
          match appendText old value with
          | .error e => .raises (.raised e)
          | .ok old => .goesOn ⟨some old, value⟩

/-- The read phase of `_unlocked_append`. -/
def readForAppend (env : UnlockedEnv) (key : String) (value : PyValue) :
    Unlocked C → ReadEnd AppendVars × Unlocked C :=
  afterTry env key (appendRaw env) (tryAppend env value)

/-- What an append stores; the error is Python's for a local variable that is not bound. -/
def appendStored (cfg : LoadConfig) : Option PyValue → Except Exn PyValue
  | none => .error (.exception "local variable 'old_value' referenced before assignment")
  | some old => Loading.storedValue cfg old

/-- The write phase of `_unlocked_append`; the entry gets no expiry and no flag. -/
def writeAppend (cfg : LoadConfig) (env : UnlockedEnv) (key : String) (vars : AppendVars)
    (st : Unlocked C) : Unlocked C :=
  match env.append with
  | .error e => st.fail e
  | .ok () =>
      match appendStored cfg vars.old with
      | .error e => (st.send (.append key vars.value)).fail (.raised e)
      | .ok stored =>
          { st.send (.append key vars.value) with
            partition := st.partition.set env.setClock key stored 0 0 }

/-- `_unlocked_append`. -/
def unlockedAppend (cfg : LoadConfig) (env : UnlockedEnv) (key : String) (value : PyValue) :
    Prog (Unlocked C) ClientError :=
  phases (readForAppend env key value) (writeAppend cfg env key)

/-! ## Delete and create -/

/-- `_unlocked_delete`. -/
def unlockedDelete (env : UnlockedEnv) (key : String) (st : Unlocked C) : Unlocked C :=
  match env.delete with
  | .ok () =>
      { st.send (.delete key) with partition := st.partition.delete env.readClock key }
  | .error (.raised (.memcachedError status)) =>
      if status = errNotFound then
        let (value, st) := st.getValid env key
        match value with
        | none => st
        | some _ => st.fail (.raised (.memcachedError status))
      else st.fail (.raised (.memcachedError status))
  | .error e => st.fail e

end Unlocked

/-- `_unlocked_create`: what the value processing raises leaves the operation, what `client.set` or the
    store raise is noted. -/
def Throughput.unlockedCreate {n : Nat} {C : Type*} (cfg : LoadConfig) (env : Env) (isBase64 : Bool)
    (i : Fin n) (key : String) (value : PyValue) : Prog (Loading n C) Exn := fun st =>
  match createValueSingle env isBase64 key value with
  | .error e => (.error e, st)
  | .ok value => (.ok (), unlockedStore cfg env i key value st)

end TestInfra
