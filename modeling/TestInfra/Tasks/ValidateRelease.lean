import TestInfra.Tasks.Validate

set_option autoImplicit false

/-! # When the validating tasks give their locks back

From an unlocked store a check gives back what it took exactly when none of the exceptions that its
handlers miss gets through, and when no handler releases what the last line releases again. The
condition is exact for every check (`KeyCheck.ReleasesWhen`), and so it is for a sequence of checks. -/

namespace TestInfra

open Raises Raises.Prog

/-- No lock of the store is held, nor the one that serialises `acquire_partitions`. -/
structure KVStore.Unlocked {n : Nat} {V : Type*} (kv : KVStore n V) : Prop where
  free : kv.Free
  acquireLock : kv.acquireLock = false

namespace Validate

variable {n : Nat} [NeZero n] {C : Type*}

/-- A check of one of the three classes, with what the client answers during it. -/
inductive KeyCheck where
  | valid (got : Except ClientError Document) (key : String)
  | deleted (out : Except ClientError Unit) (key : String)
  | activeAndReplica (active replica : Except ClientError Document) (key : String)
  | deletedActive (out : Except ClientError Unit) (key : String)
  | validBatch (got : Except ClientError (Dict String Document)) (keys : List String)
  | deletedBatched (out : Except ClientError Unit) (key : String)

def KeyCheck.run (cfg : ValidateConfig) (env : ValidateEnv) : KeyCheck → Check n C
  | .valid got key => checkValidKey cfg env got key
  | .deleted out key => checkDeletedKey cfg env out key
  | .activeAndReplica active replica key => checkActiveAndReplica cfg env active replica key
  | .deletedActive out key => checkDeletedKeyActive cfg env out key
  | .validBatch got keys => checkValidKeys cfg env got keys
  | .deletedBatched out key => checkDeletedKeyBatched cfg env out key

/-! ## The conditions -/

/-- The exception that comparing a stored value with a document of a batch raises. -/
def compareError (cfg : ValidateConfig) (env : ValidateEnv) (value d : PyValue) : Option Exn :=
  if cfg.onlyStoreHash then
    match crc32Hash d, env.int value with
    | .error e, _ => some e
    | .ok _, .error e => some e
    | .ok _, .ok _ => none
  else
    match env.json.loads d, env.json.loads value with
    | .error e, _ => some e.toExn
    | .ok _, .error e => some e.toExn
    | .ok found, .ok expected =>
        if env.ne found expected ∧ env.json.dumps d = none then some .typeError else none

/-- The key is not valid, or not in the answer, or comparing it raises nothing but a `KeyError`. -/
def KeyClean (cfg : ValidateConfig) (env : ValidateEnv) (keyVals : Dict String Document) (i : Fin n)
    (key : String) (st : Validating n C) : Prop :=
  ∀ value doc, (st.getValid env i key).1 = some value → keyVals.get? key = some doc →
    ∀ e, compareError cfg env value doc.value = some e → e = .keyError

/-- Every key of a batch is clean when its turn comes. -/
def BatchClean (cfg : ValidateConfig) (env : ValidateEnv) (keyVals : Dict String Document) :
    List (Fin n × String) → Validating n C → Prop
  | [], _ => True
  | (i, key) :: rest, st =>
      KeyClean cfg env keyVals i key st ∧
        BatchClean cfg env keyVals rest (checkValidityKey cfg env keyVals i key st).2

/-- The answers to `client.delete` that the two `_check_deleted_key` with one release can take. -/
def DeleteCaught (out : Except ClientError Unit) : Prop :=
  out = .ok () ∨ (∃ status, out = .error (.raised (.memcachedError status))) ∨
    ∃ rc, out = .error (.sdkError rc)

/-- The answers to `client.delete` after which `BatchedValidateDataTask` releases once. -/
def DeleteCaughtOnce (out : Except ClientError Unit) : Prop :=
  out = .ok () ∨ out = .error (.raised (.memcachedError errNotFound)) ∨
    out = .error (.sdkError notFoundError)

/-- The condition of each check, in the state `st` it is made in. -/
def KeyCheck.ReleasesWhen (cfg : ValidateConfig) (env : ValidateEnv) (st : Validating n C) :
    KeyCheck → Prop
  | .valid got key =>
      let i := KVStore.hash n key cfg.addr
      (st.getValid env i key).1 = none ∨ ((st.getValid env i key).2.getFlag env i key).1 = none ∨
        ∀ name, got ≠ .error (.baseException name)
  | .deleted out _ => DeleteCaught out
  | .activeAndReplica _ _ _ => False
  | .deletedActive out _ => DeleteCaught out
  | .validBatch got keys =>
      ∀ keyVals, got = .ok keyVals →
        BatchClean cfg env keyVals (Loading.slotKeys (KVStore.groupKeys n cfg.addr keys)) st
  | .deletedBatched out _ => DeleteCaughtOnce out

/-! ## What the bodies of the checks leave alone -/

/-- The locks are those of `kv`. -/
def LocksOf (kv : KVStore n PyValue) (st : Validating n C) : Prop :=
  (∀ j, st.kv.locked j = kv.locked j) ∧ st.kv.acquireLock = kv.acquireLock

omit [NeZero n] in
theorem locksOf_getValid {kv : KVStore n PyValue} (env : ValidateEnv) (i : Fin n) (key : String)
    {st : Validating n C} (h : LocksOf kv st) : LocksOf kv (st.getValid env i key).2 := by
  refine ⟨?_, h.2⟩
  intro j
  show (st.kv.setPartition i _).locked j = _
  rw [KVStore.locked_setPartition]
  exact h.1 j

omit [NeZero n] in
theorem locksOf_getFlag {kv : KVStore n PyValue} (env : ValidateEnv) (i : Fin n) (key : String)
    {st : Validating n C} (h : LocksOf kv st) : LocksOf kv (st.getFlag env i key).2 := by
  refine ⟨?_, h.2⟩
  intro j
  show (st.kv.setPartition i _).locked j = _
  rw [KVStore.locked_setPartition]
  exact h.1 j

omit [NeZero n] in
theorem keeps_compareValue (kv : KVStore n PyValue) (cfg : ValidateConfig) (env : ValidateEnv)
    (key : String) (value d : PyValue) :
    Keeps (LocksOf kv) (compareValue (C := C) cfg env key value d) := by
  intro st h
  unfold compareValue
  repeat' split
  all_goals exact h

omit [NeZero n] in
theorem keeps_compareFlag (kv : KVStore n PyValue) (cfg : ValidateConfig) (key : String)
    (flag o : Int) : Keeps (LocksOf kv) (compareFlag (C := C) cfg key flag o) := by
  intro st h
  unfold compareFlag
  split
  all_goals exact h

omit [NeZero n] in
theorem keeps_compareDocument (kv : KVStore n PyValue) (cfg : ValidateConfig) (env : ValidateEnv)
    (got : Except ClientError Document) (key : String) (value : PyValue) (flag : Int) :
    Keeps (LocksOf kv) (compareDocument (C := C) cfg env got key value flag) := by
  intro st h
  unfold compareDocument
  split
  · exact h
  · split
    · exact h
    · exact ((keeps_compareValue kv cfg env key value _).seq (keeps_compareFlag kv cfg key flag _)) st h

omit [NeZero n] in
theorem keeps_handleValid (kv : KVStore n PyValue) (env : ValidateEnv) (i : Fin n) (key : String)
    (e : ClientError) (q : Prog (Validating n C) ClientError)
    (hq : handleValid env i key e = some q) : Keeps (LocksOf kv) q := by
  intro st h
  unfold handleValid at hq
  split at hq
  · obtain rfl := Option.some_inj.1 hq
    dsimp only
    split
    · have hget := locksOf_getValid env i key h
      split
      · exact hget
      · exact hget
    · exact h
  · exact absurd hq (by simp)
  · obtain rfl := Option.some_inj.1 hq
    exact h

omit [NeZero n] in
theorem keeps_deleteAtClient (kv : KVStore n PyValue) (env : ValidateEnv)
    (out : Except ClientError Unit) (message : String) (i : Fin n) (key : String) :
    Keeps (LocksOf kv) (deleteAtClient (C := C) env out message i key) := by
  intro st h
  unfold deleteAtClient
  split
  · exact h
  · have hget := locksOf_getValid env i key h
    dsimp only
    split
    · exact hget
    · exact hget

omit [NeZero n] in
theorem keeps_handleDeleted (kv : KVStore n PyValue) (e : ClientError)
    (q : Prog (Validating n C) ClientError) (hq : handleDeleted e = some q) :
    Keeps (LocksOf kv) q := by
  intro st h
  unfold handleDeleted at hq
  split at hq
  · obtain rfl := Option.some_inj.1 hq
    dsimp only
    split
    all_goals exact h
  · obtain rfl := Option.some_inj.1 hq
    exact h
  · obtain rfl := Option.some_inj.1 hq
    dsimp only
    split
    all_goals exact h
  · exact absurd hq (by simp)

/-! ## The checks of one key -/

/-- **What is asked of a check** made on an unlocked store: it runs to its end, without waiting and
    without a release of a lock that is not held, and every lock is free again. -/
def GivesBack (check : Check n C) (st : Validating n C) : Prop :=
  ∃ st', check st = some (.ok (), st') ∧ st'.kv.Unlocked

theorem releasing_of_locksOf {cfg : ValidateConfig} {key : String} {kv : KVStore n PyValue}
    (hkv : kv.Unlocked) {st : Validating n C}
    (hst : LocksOf (kv.setLock (KVStore.hash n key cfg.addr) true) st) :
    ∃ st', releasing cfg key st = some (.ok (), st') ∧ st'.kv.Unlocked := by
  have hheld : st.kv.locked (KVStore.hash n key cfg.addr) = true := by
    rw [hst.1, KVStore.locked_setLock, if_pos rfl]
  refine ⟨{ st with kv := st.kv.setLock (KVStore.hash n key cfg.addr) false }, ?_, ⟨fun j => ?_, ?_⟩⟩
  · simp only [releasing, KVStore.releasePartition, KVStore.release_eq_some.2 ⟨hheld, rfl⟩,
      Option.map_some]
  · show (st.kv.setLock _ false).locked j = false
    rw [KVStore.locked_setLock, hst.1, KVStore.locked_setLock]
    split
    · rfl
    · exact hkv.free j
  · exact hst.2.trans hkv.acquireLock

omit [NeZero n] in
/-- A state in which a lock taken is still held is not unlocked. -/
theorem not_unlocked_of_locksOf {kv : KVStore n PyValue} {i : Fin n} {st : Validating n C}
    (h : LocksOf (kv.setLock i true) st) : ¬ st.kv.Unlocked := by
  intro hfree
  have hheld := h.1 i
  rw [KVStore.locked_setLock, if_pos rfl, hfree.free] at hheld
  exact absurd hheld (by decide)

/-- The state in which the body of a check of one key runs. -/
def lockedFor (cfg : ValidateConfig) (key : String) (st : Validating n C) : Validating n C :=
  { st with kv := st.kv.setLock (KVStore.hash n key cfg.addr) true }

/-- A check that releases in its last line gives back exactly when no exception leaves its body. -/
theorem givesBack_locking_iff {cfg : ValidateConfig} {key : String}
    {body : Prog (Validating n C) ClientError} (hbody : ∀ kv, Keeps (LocksOf kv) body)
    {st : Validating n C} (hst : st.kv.Unlocked) :
    GivesBack (locking cfg key body) st ↔ (body (lockedFor cfg key st)).1 = .ok () := by
  have hacq : st.kv.acquirePartition key cfg.addr =
      some (st.kv.setLock (KVStore.hash n key cfg.addr) true) :=
    KVStore.acquire_eq_some.2 ⟨hst.free _, rfl⟩
  have hkeep : LocksOf (st.kv.setLock (KVStore.hash n key cfg.addr) true)
      (body (lockedFor cfg key st)).2 := hbody _ _ ⟨fun _ => rfl, rfl⟩
  unfold GivesBack locking
  rw [hacq]
  dsimp only
  have hlocked : { st with kv := st.kv.setLock (KVStore.hash n key cfg.addr) true } = lockedFor cfg key st := rfl
  rw [hlocked]
  cases hrun : body (lockedFor cfg key st) with
  | mk out st' =>
      rw [hrun] at hkeep
      cases out with
      | ok u =>
          obtain ⟨st'', hrel, hfree⟩ := releasing_of_locksOf hst hkeep
          exact ⟨fun _ => rfl, fun _ => ⟨st'', hrel, hfree⟩⟩
      | error e =>
          refine ⟨?_, fun h => absurd h (by simp)⟩
          rintro ⟨st'', heq, -⟩
          exact absurd heq (by simp)

omit [NeZero n] in
/-- An exception leaves a `try` exactly when the handlers do not name it, if none of them raises. -/
theorem tryExcept_ok_iff {p : Prog (Validating n C) ClientError}
    {handler : ClientError → Option (Prog (Validating n C) ClientError)}
    (hhandler : ∀ e q st, handler e = some q → (q st).1 = .ok ()) (st : Validating n C) :
    (p.tryExcept handler st).1 = .ok () ↔ ∀ e, (p st).1 = .error e → handler e ≠ none := by
  unfold tryExcept
  cases hp : p st with
  | mk out st' =>
      cases out with
      | ok u => simp
      | error e =>
          dsimp only
          cases hh : handler e with
          | none => simp [hh]
          | some q =>
              refine ⟨?_, fun _ => hhandler e q st' hh⟩
              intro _ e' he'
              obtain rfl : e = e' := by simpa using he'
              rw [hh]
              simp

omit [NeZero n] in
theorem handleValid_ok (env : ValidateEnv) (i : Fin n) (key : String) (e : ClientError)
    (q : Prog (Validating n C) ClientError) (st : Validating n C)
    (hq : handleValid env i key e = some q) : (q st).1 = .ok () := by
  unfold handleValid at hq
  split at hq
  · obtain rfl := Option.some_inj.1 hq
    dsimp only
    split
    · split
      all_goals rfl
    · rfl
  · exact absurd hq (by simp)
  · obtain rfl := Option.some_inj.1 hq
    rfl

omit [NeZero n] in
theorem handleValid_eq_none_iff (env : ValidateEnv) (i : Fin n) (key : String) (e : ClientError) :
    handleValid (C := C) env i key e = none ↔ ∃ name, e = .baseException name := by
  unfold handleValid
  split <;> simp_all

omit [NeZero n] in
theorem compareValue_raised {cfg : ValidateConfig} {env : ValidateEnv} {key : String}
    {value d : PyValue} {st : Validating n C} {e : ClientError}
    (h : (compareValue cfg env key value d st).1 = .error e) : ∃ x, e = .raised x := by
  unfold compareValue at h
  repeat' split at h
  all_goals first
    | exact ⟨_, (Except.error.inj h).symm⟩
    | exact absurd h (by simp)

omit [NeZero n] in
/-- The comparison itself raises nothing that the handlers miss. -/
theorem compareDocument_baseException (cfg : ValidateConfig) (env : ValidateEnv)
    (got : Except ClientError Document) (key : String) (value : PyValue) (flag : Int)
    (st : Validating n C) (name : String) :
    (compareDocument cfg env got key value flag st).1 = .error (.baseException name) ↔
      got = .error (.baseException name) := by
  unfold compareDocument
  cases got with
  | error e => simp
  | ok doc =>
      simp only [reduceCtorEq, iff_false]
      split
      · simp
      · next d _ =>
          intro herr
          cases hv : compareValue cfg env key value d st with
          | mk out st' =>
              cases out with
              | ok u =>
                  rw [seq_of_ok hv, compareFlag] at herr
                  split at herr
                  all_goals exact absurd herr (by simp)
              | error e =>
                  rw [seq_of_error hv] at herr
                  obtain ⟨x, rfl⟩ := compareValue_raised (congrArg Prod.fst hv)
                  exact absurd herr (by simp)

/-- Two states whose stores and clocks give the same answers. -/
def SameParts (st st' : Validating n C) : Prop :=
  (∀ j, st.kv.part j = st'.kv.part j) ∧ st.ticks = st'.ticks

omit [NeZero n] in
theorem SameParts.getValid {st st' : Validating n C} (h : SameParts st st') (env : ValidateEnv)
    (i : Fin n) (key : String) :
    (st.getValid env i key).1 = (st'.getValid env i key).1 ∧
      SameParts (st.getValid env i key).2 (st'.getValid env i key).2 := by
  refine ⟨?_, ?_, ?_⟩
  · simp only [Validating.getValid, Loading.validValue, h.1, h.2]
  · intro j
    simp only [Validating.getValid, KVStore.part_setPartition, h.1, h.2]
  · simp only [Validating.getValid, h.2]

omit [NeZero n] in
theorem SameParts.getFlag {st st' : Validating n C} (h : SameParts st st') (env : ValidateEnv)
    (i : Fin n) (key : String) :
    (st.getFlag env i key).1 = (st'.getFlag env i key).1 ∧
      SameParts (st.getFlag env i key).2 (st'.getFlag env i key).2 := by
  refine ⟨?_, ?_, ?_⟩
  · simp only [Validating.getFlag, h.1, h.2]
  · intro j
    simp only [Validating.getFlag, KVStore.part_setPartition, h.1, h.2]
  · simp only [Validating.getFlag, h.2]

theorem sameParts_lockedFor (cfg : ValidateConfig) (key : String) (st : Validating n C) :
    SameParts (lockedFor cfg key st) st :=
  ⟨fun j => KVStore.part_setLock st.kv _ true j, rfl⟩

theorem keeps_checkValidBody (kv : KVStore n PyValue) (cfg : ValidateConfig) (env : ValidateEnv)
    (got : Except ClientError Document) (key : String) :
    Keeps (LocksOf kv) (checkValidBody (C := C) cfg env got key) := by
  intro st h
  have h' := locksOf_getFlag env (KVStore.hash n key cfg.addr) key
    (locksOf_getValid env (KVStore.hash n key cfg.addr) key h)
  unfold checkValidBody
  dsimp only
  split
  · exact Keeps.tryExcept (keeps_compareDocument kv cfg env got key _ _)
      (keeps_handleValid kv env _ key) _ h'
  · exact h'

theorem checkValidBody_ok_iff (cfg : ValidateConfig) (env : ValidateEnv)
    (got : Except ClientError Document) (key : String) (st : Validating n C) :
    (checkValidBody cfg env got key st).1 = .ok () ↔
      (KeyCheck.valid got key).ReleasesWhen cfg env st := by
  simp only [checkValidBody, KeyCheck.ReleasesWhen]
  generalize (st.getValid env (KVStore.hash n key cfg.addr) key) = valid
  obtain ⟨value, st₁⟩ := valid
  dsimp only
  generalize (st₁.getFlag env (KVStore.hash n key cfg.addr) key) = flagged
  obtain ⟨flag, st₂⟩ := flagged
  rcases value with _ | value
  · simp
  rcases flag with _ | flag
  · simp
  dsimp only
  rw [tryExcept_ok_iff (handleValid_ok env (KVStore.hash n key cfg.addr) key)]
  simp only [reduceCtorEq, false_or, ne_eq, handleValid_eq_none_iff]
  constructor
  · intro h name hgot
    exact h _ ((compareDocument_baseException cfg env got key value flag _ name).2 hgot) ⟨name, rfl⟩
  · rintro h e he ⟨name, rfl⟩
    exact h name ((compareDocument_baseException cfg env got key value flag _ name).1 he)

theorem givesBack_checkValidKey_iff (cfg : ValidateConfig) (env : ValidateEnv)
    (got : Except ClientError Document) (key : String) {st : Validating n C} (hst : st.kv.Unlocked) :
    GivesBack (checkValidKey cfg env got key) st ↔
      (KeyCheck.valid got key).ReleasesWhen cfg env st := by
  refine (givesBack_locking_iff (fun kv => keeps_checkValidBody kv cfg env got key) hst).trans ?_
  rw [checkValidBody_ok_iff]
  obtain ⟨hvalue, hparts⟩ := (sameParts_lockedFor cfg key st).getValid env
    (KVStore.hash n key cfg.addr) key
  obtain ⟨hflag, -⟩ := hparts.getFlag env (KVStore.hash n key cfg.addr) key
  simp only [KeyCheck.ReleasesWhen, hvalue, hflag]

/-- Both `_check_deleted_key` with one release. -/
theorem givesBack_checkDeletedKeyWith_iff (message : String) (cfg : ValidateConfig) (env : ValidateEnv)
    (out : Except ClientError Unit) (key : String) {st : Validating n C} (hst : st.kv.Unlocked) :
    GivesBack (checkDeletedKeyWith message cfg env out key) st ↔ DeleteCaught out := by
  have hkeep : ∀ kv, Keeps (LocksOf kv) ((deleteAtClient (C := C) env out message
      (KVStore.hash n key cfg.addr) key).tryExcept handleDeleted) := fun kv =>
    Keeps.tryExcept (keeps_deleteAtClient kv env out message _ key) (keeps_handleDeleted kv)
  refine (givesBack_locking_iff hkeep hst).trans ?_
  unfold DeleteCaught
  rcases out with e | u
  · have herr : deleteAtClient env (.error e) message (KVStore.hash n key cfg.addr) key
        (lockedFor cfg key st) = (.error e, lockedFor cfg key st) := rfl
    rw [tryExcept_of_error herr]
    rcases e with x | rc | name
    · cases x <;> simp [handleDeleted]
      split <;> rfl
    · simp only [handleDeleted]
      split <;> simp
    · simp [handleDeleted]
  · have hok : (deleteAtClient (C := C) env (.ok u) message (KVStore.hash n key cfg.addr) key
        (lockedFor cfg key st)).1 = .ok () := by
      simp only [deleteAtClient]
      split <;> rfl
    rw [tryExcept_of_ok hok, hok]
    simp

/-- The check of active against replica keeps its lock, whatever the client answers. -/
theorem not_givesBack_checkActiveAndReplica (cfg : ValidateConfig) (env : ValidateEnv)
    (active replica : Except ClientError Document) (key : String) {st : Validating n C}
    (hst : st.kv.Unlocked) : ¬ GivesBack (checkActiveAndReplica cfg env active replica key) st := by
  have hacq : st.kv.acquirePartition key cfg.addr =
      some (st.kv.setLock (KVStore.hash n key cfg.addr) true) :=
    KVStore.acquire_eq_some.2 ⟨hst.free _, rfl⟩
  have hbody : Keeps (LocksOf (st.kv.setLock (KVStore.hash n key cfg.addr) true))
      (compareActive (C := C) env active replica key) := by
    intro s hs
    unfold compareActive
    split
    · exact hs
    · exact hs
    · unfold compareReplica
      dsimp only
      repeat' split
      all_goals exact hs
  rintro ⟨st', hrun, hfree⟩
  simp only [checkActiveAndReplica, hacq, Option.some_inj] at hrun
  have hkeep := Keeps.tryExcept hbody
    (keeps_handleValid _ env (KVStore.hash n key cfg.addr) key) (lockedFor cfg key st)
    ⟨fun _ => rfl, rfl⟩
  rw [show tryExcept _ _ (lockedFor cfg key st) = (.ok (), st') from hrun] at hkeep
  exact not_unlocked_of_locksOf hkeep hfree

/-- A lock that a handler has given back already cannot be given back again. -/
theorem releasing_of_free {cfg : ValidateConfig} {key : String} {st : Validating n C}
    (h : st.kv.locked (KVStore.hash n key cfg.addr) = false) : releasing cfg key st = none := by
  simp only [releasing, KVStore.releasePartition, KVStore.release, h, Bool.false_eq_true, if_false,
    Option.map_none]

theorem givesBack_checkDeletedKeyBatched_iff (cfg : ValidateConfig) (env : ValidateEnv)
    (out : Except ClientError Unit) (key : String) {st : Validating n C} (hst : st.kv.Unlocked) :
    GivesBack (checkDeletedKeyBatched cfg env out key) st ↔ DeleteCaughtOnce out := by
  have hacq : st.kv.acquirePartition key cfg.addr =
      some (st.kv.setLock (KVStore.hash n key cfg.addr) true) :=
    KVStore.acquire_eq_some.2 ⟨hst.free _, rfl⟩
  have hlocks : LocksOf (st.kv.setLock (KVStore.hash n key cfg.addr) true) (lockedFor cfg key st) :=
    ⟨fun _ => rfl, rfl⟩
  -- a single release gives back, a second one raises
  have hgood : ∀ st' : Validating n C, LocksOf (st.kv.setLock (KVStore.hash n key cfg.addr) true) st' →
      ∃ st'', releasing cfg key st' = some (.ok (), st'') ∧ st''.kv.Unlocked :=
    fun st' h => releasing_of_locksOf hst h
  have htwice : ∀ e : ClientError, ¬ ∃ st'',
      (((lockedFor cfg key st).kv.releasePartition key cfg.addr).bind fun kv =>
        releasing cfg key (Validating.fail e { lockedFor cfg key st with kv := kv }))
        = some (.ok (), st'') ∧ st''.kv.Unlocked := by
    rintro e ⟨st'', heq, -⟩
    have hrel : (lockedFor cfg key st).kv.releasePartition key cfg.addr =
        some ((lockedFor cfg key st).kv.setLock (KVStore.hash n key cfg.addr) false) := by
      refine KVStore.release_eq_some.2 ⟨?_, rfl⟩
      rw [hlocks.1, KVStore.locked_setLock, if_pos rfl]
    rw [hrel, Option.bind_some, releasing_of_free] at heq
    · exact absurd heq (by simp)
    · show ((lockedFor cfg key st).kv.setLock _ false).locked _ = false
      rw [KVStore.locked_setLock, if_pos rfl]
  unfold GivesBack checkDeletedKeyBatched DeleteCaughtOnce
  rw [hacq]
  rcases out with e | u
  · rcases e with x | rc | name
    · cases x with
      | memcachedError status =>
          by_cases hs : status = errNotFound
          · simpa [hs, lockedFor] using hgood _ hlocks
          · simpa [hs, lockedFor] using htwice (.raised (.memcachedError status))
      | _ => simp
    · by_cases hrc : rc = notFoundError
      · simpa [hrc, lockedFor] using hgood _ hlocks
      · simpa [hrc, lockedFor] using htwice (.sdkError rc)
    · simp
  · have hget := locksOf_getValid env (KVStore.hash n key cfg.addr) key hlocks
    simp only [true_or, iff_true]
    have hlocked : { st with kv := st.kv.setLock (KVStore.hash n key cfg.addr) true } = lockedFor cfg key st := rfl
    rw [hlocked]
    split
    · exact hgood _ hget
    · exact hgood _ hget

/-! ## The check of a batch -/

omit [NeZero n] in
theorem compareBatchValue_fst (cfg : ValidateConfig) (env : ValidateEnv) (key : String)
    (value d : PyValue) (st : Validating n C) :
    (compareBatchValue cfg env key value d st).1 =
      match compareError cfg env value d with
      | none => .ok ()
      | some e => .error (.raised e) := by
  unfold compareBatchValue compareError
  split
  · cases crc32Hash d <;> cases env.int value <;> dsimp only
    split <;> rfl
  · cases env.json.loads d <;> cases env.json.loads value <;> dsimp only
    split
    · next hne =>
        cases hd : env.json.dumps d <;> simp [hne]
    · next hne => simp [hne]

/-- The comparisons write to the future only. -/
def SameStore (st₀ st : Validating n C) : Prop := st.kv = st₀.kv ∧ st.ticks = st₀.ticks

omit [NeZero n] in
theorem keeps_compareBatchValue (st₀ : Validating n C) (cfg : ValidateConfig) (env : ValidateEnv)
    (key : String) (value d : PyValue) :
    Keeps (SameStore st₀) (compareBatchValue cfg env key value d) := by
  intro st h
  unfold compareBatchValue
  repeat' split
  all_goals exact h

omit [NeZero n] in
theorem keeps_compareBatchFlag (st₀ : Validating n C) (cfg : ValidateConfig) (key : String)
    (flag : Option Int) (o : Int) : Keeps (SameStore st₀) (compareBatchFlag cfg key flag o) := by
  intro st h
  unfold compareBatchFlag
  split
  all_goals exact h

omit [NeZero n] in
theorem compareBatchFlag_fst (cfg : ValidateConfig) (key : String) (flag : Option Int) (o : Int)
    (st : Validating n C) : (compareBatchFlag cfg key flag o st).1 = .ok () := by
  unfold compareBatchFlag
  split <;> rfl

omit [NeZero n] in
theorem keeps_compareBatchKey (st₀ : Validating n C) (cfg : ValidateConfig) (env : ValidateEnv)
    (keyVals : Dict String Document) (key : String) (value : PyValue) (flag : Option Int) :
    Keeps (SameStore st₀) ((compareBatchKey cfg env keyVals key value flag).tryExcept
      handleValidity) := by
  refine Keeps.tryExcept ?_ ?_
  · intro st h
    unfold compareBatchKey
    split
    · exact h
    · exact ((keeps_compareBatchValue st₀ cfg env key value _).seq
        (keeps_compareBatchFlag st₀ cfg key flag _)) st h
  · intro e q hq st h
    unfold handleValidity at hq
    split at hq
    · obtain rfl := Option.some_inj.1 hq
      exact h
    · exact absurd hq (by simp)

omit [NeZero n] in
/-- The comparison of one key is left with an exception unless it is a `KeyError`. -/
theorem compareBatchKey_ok_iff (cfg : ValidateConfig) (env : ValidateEnv)
    (keyVals : Dict String Document) (key : String) (value : PyValue) (flag : Option Int)
    (st : Validating n C) :
    ((compareBatchKey cfg env keyVals key value flag).tryExcept handleValidity st).1 = .ok () ↔
      ∀ doc, keyVals.get? key = some doc →
        ∀ e, compareError cfg env value doc.value = some e → e = .keyError := by
  have hhandler : ∀ e (q : Prog (Validating n C) ClientError) st,
      handleValidity e = some q → (q st).1 = .ok () := by
    intro e q st hq
    unfold handleValidity at hq
    split at hq
    · obtain rfl := Option.some_inj.1 hq
      rfl
    · exact absurd hq (by simp)
  rw [tryExcept_ok_iff hhandler]
  unfold compareBatchKey
  cases hdoc : keyVals.get? key with
  | none =>
      simp only [Except.error.injEq, reduceCtorEq, false_implies, implies_true, iff_true]
      rintro e rfl
      simp [handleValidity]
  | some doc =>
      have hfst := compareBatchValue_fst cfg env key value doc.value st
      cases hrun : compareBatchValue cfg env key value doc.value st with
      | mk out st' =>
          rw [hrun] at hfst
          dsimp only at hfst ⊢
          cases hce : compareError cfg env value doc.value with
          | none =>
              rw [hce] at hfst
              subst hfst
              rw [seq_of_ok hrun, compareBatchFlag_fst]
              simp [hce]
          | some e =>
              rw [hce] at hfst
              subst hfst
              rw [seq_of_error hrun]
              simp only [Except.error.injEq, Option.some.injEq, forall_eq', hce]
              cases e <;> simp [handleValidity]

omit [NeZero n] in
/-- What the check of one key leaves: the store and the clock as its two queries leave them. -/
theorem checkValidityKey_store (cfg : ValidateConfig) (env : ValidateEnv)
    (keyVals : Dict String Document) (i : Fin n) (key : String) (st : Validating n C) :
    SameStore ((st.getValid env i key).2.getFlag env i key).2
      (checkValidityKey cfg env keyVals i key st).2 := by
  unfold checkValidityKey
  dsimp only
  split
  · exact ⟨rfl, rfl⟩
  · exact keeps_compareBatchKey _ cfg env keyVals key _ _ _ ⟨rfl, rfl⟩

omit [NeZero n] in
theorem checkValidityKey_ok_iff (cfg : ValidateConfig) (env : ValidateEnv)
    (keyVals : Dict String Document) (i : Fin n) (key : String) (st : Validating n C) :
    (checkValidityKey cfg env keyVals i key st).1 = .ok () ↔ KeyClean cfg env keyVals i key st := by
  unfold checkValidityKey KeyClean
  dsimp only
  cases (st.getValid env i key).1 with
  | none => simp
  | some value =>
      dsimp only
      rw [compareBatchKey_ok_iff]
      simp only [Option.some.injEq]
      constructor
      · rintro h v doc rfl hdoc
        exact h doc hdoc
      · intro h doc hdoc
        exact h value doc rfl hdoc

omit [NeZero n] in
/-- **The loop over a batch** runs through exactly when every key is clean in its turn. -/
theorem forEach_checkValidityKey_ok_iff (cfg : ValidateConfig) (env : ValidateEnv)
    (keyVals : Dict String Document) (l : List (Fin n × String)) (st : Validating n C) :
    (forEach (fun e => checkValidityKey cfg env keyVals e.1 e.2) l st).1 = .ok () ↔
      BatchClean cfg env keyVals l st := by
  induction l generalizing st with
  | nil => exact ⟨fun _ => trivial, fun _ => rfl⟩
  | cons x rest ih =>
      obtain ⟨i, key⟩ := x
      unfold BatchClean
      rw [← checkValidityKey_ok_iff, ← ih, forEach]
      cases hrun : checkValidityKey cfg env keyVals i key st with
      | mk out st' =>
          cases out with
          | ok u => simp [seq_of_ok hrun]
          | error e => simp [seq_of_error hrun]

omit [NeZero n] in
theorem SameParts.batchClean_iff (cfg : ValidateConfig) (env : ValidateEnv)
    (keyVals : Dict String Document) (l : List (Fin n × String)) {st st' : Validating n C}
    (h : SameParts st st') :
    BatchClean cfg env keyVals l st ↔ BatchClean cfg env keyVals l st' := by
  induction l generalizing st st' with
  | nil => exact Iff.rfl
  | cons x rest ih =>
      obtain ⟨i, key⟩ := x
      obtain ⟨hvalue, hparts⟩ := h.getValid env i key
      obtain ⟨-, hparts⟩ := hparts.getFlag env i key
      have hnext : SameParts (checkValidityKey cfg env keyVals i key st).2
          (checkValidityKey cfg env keyVals i key st').2 := by
        obtain ⟨hkv, ht⟩ := checkValidityKey_store cfg env keyVals i key st
        obtain ⟨hkv', ht'⟩ := checkValidityKey_store cfg env keyVals i key st'
        refine ⟨?_, ?_⟩
        · intro j
          rw [hkv, hkv']
          exact hparts.1 j
        · rw [ht, ht']
          exact hparts.2
      unfold BatchClean KeyClean
      rw [hvalue, ih hnext]

omit [NeZero n] in
theorem keeps_checkValidity (kv : KVStore n PyValue) (cfg : ValidateConfig) (env : ValidateEnv)
    (keyVals : Dict String Document) (l : List (Fin n × String)) :
    Keeps (LocksOf kv) (forEach (fun e : Fin n × String =>
      checkValidityKey (C := C) cfg env keyVals e.1 e.2) l) := by
  refine Keeps.forEach (fun x st h => ?_) l
  obtain ⟨hkv, -⟩ := checkValidityKey_store cfg env keyVals x.1 x.2 st
  have h' := locksOf_getFlag env x.1 x.2 (locksOf_getValid env x.1 x.2 h)
  exact ⟨fun j => by rw [hkv]; exact h'.1 j, by rw [hkv]; exact h'.2⟩

omit [NeZero n] in
/-- `release_partitions` of the groups of a batch unlocks the store again. -/
theorem releasingAll_of_locks {dic : Dict (Fin n) (List String)} {kv kv' : KVStore n PyValue}
    (hkv : kv.Unlocked) (hlocks : KVStore.Locks dic.keys kv kv') (hacq : kv'.acquireLock = false)
    {st : Validating n C} (hst : LocksOf kv' st) :
    ∃ st', releasingAll dic st = some st' ∧ st'.kv.Unlocked ∧ st'.future = st.future := by
  have hheld : ∀ i ∈ dic.keys, st.kv.locked i = true := by
    intro i hi
    rw [hst.1, hlocks.locked]
    simp [hi]
  obtain ⟨kv₁, hrel, hlock, -, hacq₁⟩ := KVStore.releasePartitions_spec dic.nodup_keys hheld
  refine ⟨{ st with kv := kv₁ }, ?_, ⟨fun i => ?_, ?_⟩, rfl⟩
  · simp only [releasingAll, hrel, Option.map_some]
  · show kv₁.locked i = false
    rw [hlock, hst.1, hlocks.locked, hkv.free]
    by_cases hi : i ∈ dic.keys <;> simp [hi]
  · show kv₁.acquireLock = false
    rw [hacq₁, hst.2, hacq]

theorem givesBack_checkValidKeys_iff (cfg : ValidateConfig) (env : ValidateEnv)
    (got : Except ClientError (Dict String Document)) (keys : List String) {st : Validating n C}
    (hst : st.kv.Unlocked) :
    GivesBack (checkValidKeys cfg env got keys) st ↔
      (KeyCheck.validBatch got keys).ReleasesWhen cfg env st := by
  obtain ⟨⟨dic, kv⟩, hrun⟩ := Option.isSome_iff_exists.1
    (KVStore.acquirePartitions_isSome hst.acquireLock
      (fun key _ => hst.free (KVStore.hash n key cfg.addr)) : (st.kv.acquirePartitions keys cfg.addr).isSome)
  obtain ⟨rfl, hlocks, hacq⟩ := KVStore.acquirePartitions_eq_some hrun
  unfold GivesBack checkValidKeys KeyCheck.ReleasesWhen
  rw [hrun]
  dsimp only
  rcases got with e | keyVals
  · have hheld : LocksOf kv { st with kv := kv, finished := true } := ⟨fun _ => rfl, rfl⟩
    obtain ⟨st', hrel, hfree, -⟩ := releasingAll_of_locks hst hlocks hacq hheld
    simp only [reduceCtorEq, false_implies, implies_true, iff_true]
    exact ⟨st'.fail e, by rw [hrel]; rfl, hfree⟩
  · have hsame : SameParts { st with kv := kv } st := ⟨hlocks.part, rfl⟩
    have hkeep : LocksOf kv (checkValidity cfg env keyVals (KVStore.groupKeys n cfg.addr keys)
        { st with kv := kv }).2 :=
      keeps_checkValidity kv cfg env keyVals _ { st with kv := kv } ⟨fun _ => rfl, rfl⟩
    have hok : (checkValidity cfg env keyVals (KVStore.groupKeys n cfg.addr keys)
        { st with kv := kv }).1 = .ok () ↔ _ :=
      forEach_checkValidityKey_ok_iff cfg env keyVals _ { st with kv := kv }
    rw [hsame.batchClean_iff] at hok
    simp only [Except.ok.injEq, forall_eq']
    rw [← hok]
    cases hloop : checkValidity cfg env keyVals (KVStore.groupKeys n cfg.addr keys)
        { st with kv := kv } with
    | mk out st' =>
        rw [hloop] at hkeep
        cases out with
        | ok u =>
            obtain ⟨st'', hrel, hfree, -⟩ := releasingAll_of_locks hst hlocks hacq hkeep
            change releasingAll _ st' = some st'' at hrel
            exact ⟨fun _ => rfl, fun _ => ⟨st'', by simp only [hrel, Option.map_some], hfree⟩⟩
        | error e =>
            refine ⟨?_, fun h => absurd h (by simp)⟩
            rintro ⟨st'', heq, -⟩
            exact absurd heq (by simp)

/-- **Each check gives its locks back exactly under its condition.** -/
theorem givesBack_iff (cfg : ValidateConfig) (env : ValidateEnv) (check : KeyCheck)
    {st : Validating n C} (hst : st.kv.Unlocked) :
    GivesBack (check.run cfg env) st ↔ check.ReleasesWhen cfg env st := by
  cases check with
  | valid got key => exact givesBack_checkValidKey_iff cfg env got key hst
  | deleted out key => exact givesBack_checkDeletedKeyWith_iff _ cfg env out key hst
  | activeAndReplica active replica key =>
      exact iff_of_false (not_givesBack_checkActiveAndReplica cfg env active replica key hst) id
  | deletedActive out key => exact givesBack_checkDeletedKeyWith_iff _ cfg env out key hst
  | validBatch got keys => exact givesBack_checkValidKeys_iff cfg env got keys hst
  | deletedBatched out key => exact givesBack_checkDeletedKeyBatched_iff cfg env out key hst

/-! ## Sequences of checks -/

/-- The checks of a run, one after the other; an exception that leaves one of them ends the run. -/
def runChecks (cfg : ValidateConfig) (env : ValidateEnv) : List KeyCheck → Check n C
  | [], st => some (.ok (), st)
  | check :: rest, st =>
      match check.run cfg env st with
      | none => none
      | some (.error e, st) => some (.error e, st)
      | some (.ok (), st) => runChecks cfg env rest st

theorem runChecks_snoc (cfg : ValidateConfig) (env : ValidateEnv) (checks : List KeyCheck)
    (check : KeyCheck) {st st' : Validating n C}
    (h : runChecks cfg env checks st = some (.ok (), st')) :
    runChecks cfg env (checks ++ [check]) st = check.run cfg env st' := by
  induction checks generalizing st with
  | nil =>
      obtain rfl : st = st' := by simpa [runChecks] using h
      simp only [List.nil_append, runChecks]
      split <;> simp_all
  | cons c rest ih =>
      simp only [List.cons_append, runChecks] at h ⊢
      split
      · next hc => rw [hc] at h; exact absurd h (by simp)
      · next e st₁ hc => rw [hc] at h; exact absurd h (by simp)
      · next st₁ hc =>
          rw [hc] at h
          exact ih h

/-- **When the validating tasks give their locks back.** From an unlocked store, every part of a
    sequence of checks runs to its end and leaves the store unlocked, iff every check meets its
    condition in the state it is made in. -/
theorem runChecks_givesBack_iff (cfg : ValidateConfig) (env : ValidateEnv) (checks : List KeyCheck)
    (st : Validating n C) (hst : st.kv.Unlocked) :
    (∀ pre post, checks = pre ++ post → GivesBack (runChecks cfg env pre) st) ↔
      ∀ pre check post, checks = pre ++ check :: post →
        ∀ st', runChecks cfg env pre st = some (.ok (), st') → check.ReleasesWhen cfg env st' := by
  constructor
  · intro h pre check post hchecks st' hpre
    obtain ⟨st₁, hst₁, hfree⟩ := h pre (check :: post) hchecks
    obtain rfl : st₁ = st' := by simpa [hst₁] using hpre
    obtain ⟨st₂, hst₂, hfree₂⟩ := h (pre ++ [check]) post (by rw [hchecks]; simp)
    rw [runChecks_snoc cfg env pre check hpre] at hst₂
    exact (givesBack_iff cfg env check hfree).1 ⟨st₂, hst₂, hfree₂⟩
  · intro h pre
    induction pre using List.reverseRecOn with
    | nil => exact fun post _ => ⟨st, rfl, hst⟩
    | append_singleton pre check ih =>
        intro post hchecks
        rw [List.append_assoc, List.singleton_append] at hchecks
        obtain ⟨st', hpre, hfree⟩ := ih (check :: post) hchecks
        obtain ⟨st'', hlast, hfree'⟩ := (givesBack_iff cfg env check hfree).2
          (h pre check post hchecks st' hpre)
        refine ⟨st'', ?_, hfree'⟩
        rw [runChecks_snoc cfg env pre check hpre]
        exact hlast

/-- An outside as it is for text documents. -/
def textEnv : ValidateEnv where
  json := ⟨fun _ => .error .valueError, fun _ => none⟩
  int := fun
    | .str s => match s.toInt? with
        | some k => .ok k
        | none => .error .valueError
    | .int k => .ok k
    | _ => .error .typeError
  ne := fun
    | .str s, .str s' => s ≠ s'
    | _, _ => true
  str := fun
    | .str s => s
    | _ => ""
  clock := fun _ => 0

def plainConfig : ValidateConfig := ⟨true, true, {}⟩

/-- A validating task at its start on an empty store. -/
def freshValidating : Validating 4 Unit := ⟨KVStore.new 4 PyValue, false, Future.new, 0⟩

theorem unlocked_freshValidating : freshValidating.kv.Unlocked := ⟨KVStore.free_new 4 PyValue, rfl⟩

/-- A read that fails in an unexpected way and a delete of a key that is gone. -/
def twoChecks : List KeyCheck :=
  [.valid (.error (.raised .socketError)) "doc1",
    .deleted (.error (.raised (.memcachedError errNotFound))) "doc2"]

theorem runChecks_givesBack_iff_two_checks :
    freshValidating.kv.Unlocked ∧ ∀ pre post, twoChecks = pre ++ post →
      GivesBack (runChecks plainConfig textEnv pre) freshValidating := by
  refine ⟨unlocked_freshValidating, ?_⟩
  refine (runChecks_givesBack_iff plainConfig textEnv twoChecks freshValidating
    unlocked_freshValidating).2 ?_
  intro pre check post hchecks st' _
  have hmem : check ∈ twoChecks := by rw [hchecks]; simp
  rcases List.mem_cons.1 hmem with rfl | hmem
  · exact .inr (.inr fun name => by simp)
  · obtain rfl := List.mem_singleton.1 hmem
    exact .inr (.inl ⟨errNotFound, rfl⟩)

/-- Active and replica agree on the key, and its lock stays held. -/
theorem activeAndReplica_keeps_lock :
    ¬ ∀ pre post, [KeyCheck.activeAndReplica (.ok ⟨0, 1, .str "a"⟩) (.ok ⟨0, 1, .str "a"⟩) "doc1"]
        = pre ++ post → GivesBack (runChecks plainConfig textEnv pre) freshValidating := by
  intro h
  obtain ⟨st', hrun, hfree⟩ := h _ [] (List.append_nil _).symm
  have hone : GivesBack (KeyCheck.run plainConfig textEnv
      (.activeAndReplica (.ok ⟨0, 1, .str "a"⟩) (.ok ⟨0, 1, .str "a"⟩) "doc1")) freshValidating := by
    rw [← List.nil_append [KeyCheck.activeAndReplica _ _ _],
      runChecks_snoc plainConfig textEnv [] _ rfl] at hrun
    exact ⟨st', hrun, hfree⟩
  exact not_givesBack_checkActiveAndReplica plainConfig textEnv _ _ "doc1"
    unlocked_freshValidating hone

end Validate

end TestInfra
