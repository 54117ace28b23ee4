import TestInfra.Tasks.Release
import TestInfra.Tasks.ValidateRun

set_option autoImplicit false

/-! # What a run of `BatchedValidateDataTask` finds

The task asks for a slice of the valid keys with one `getMulti` and compares the answers slot by slot; the deleted
keys it goes through one by one, as `ValidateDataTask` does. Other than there, a comparison that raises leaves the
task, and the locks of its batch are kept. Up to that the two classes say the same of every store and every server,
whatever the size of the batches (`validate_as_plain`). -/

namespace TestInfra

open Raises Raises.Prog

/-- `client.getMulti`: the documents that are there. -/
def Server.getMulti (server : Server) (keys : List String) : Dict String Document :=
  keys.foldl (fun found key => match server.get? key with
    | some doc => found.set key doc
    | none => found) ∅

theorem Server.get?_getMulti (server : Server) (keys : List String) (key : String) :
    (server.getMulti keys).get? key = if key ∈ keys then server.get? key else none := by
  induction keys using List.reverseRecOn with
  | nil => simp [getMulti]
  | append_singleton keys last ih =>
      unfold getMulti at ih ⊢
      rw [List.foldl_concat]
      cases hlast : server.get? last with
      | none =>
          by_cases hkey : key = last
          · subst hkey
            simpa [hlast] using ih
          · simp [ih, hkey]
      | some doc =>
          by_cases hkey : key = last
          · simp [hkey, hlast]
          · simp [ih, hkey]

/-- The attributes of a `BatchedValidateDataTask`: those of a `ValidateDataTask`, and the size of the batches. -/
structure BatchedValidateDataTask (n : Nat) (C : Type*) extends ValidateDataTask n C where
  batchSize : Nat

namespace BatchedValidateDataTask

open ValidateDataTask (Looked Matches StoreStill Found DeletedPasses AllPass)

variable {n : Nat} [NeZero n] {C : Type*}

/-- `BatchedValidateDataTask(..)`. -/
def new (cfg : ValidateConfig) (now : Int) (maxVerify : Option Nat) (batchSize : Nat) (kv : KVStore n PyValue) :
    Option (BatchedValidateDataTask n C) :=
  (ValidateDataTask.new cfg now maxVerify kv).map fun t => { t with batchSize := batchSize }

/-- `self.valid_keys[self.itr:self.itr + self.batch_size]`. -/
def keysBatch (t : BatchedValidateDataTask n C) : List String := (t.validKeys.drop t.itr).take t.batchSize

/-- `__next__`; the list of the deleted keys is long enough while `has_next` holds. -/
def next (cfg : ValidateConfig) (env : ValidateEnv) (t : BatchedValidateDataTask n C) (server : Server) :
    Option (Except ClientError Unit × BatchedValidateDataTask n C × Server) :=
  if t.itr < t.validKeys.length then
    -- the counter goes on before the batch is looked at
    (Validate.checkValidKeys cfg env (.ok (server.getMulti t.keysBatch)) t.keysBatch t.st).map fun (out, st) =>
      (out, { t with st := st, itr := t.itr + t.keysBatch.length }, server)
  else
    match t.deletedKeys[t.itr - t.validKeys.length]? with
    | some key =>
        let (deleted, server) := server.delete key
        (Validate.checkDeletedKeyBatched cfg env deleted key t.st).map fun (out, st) =>
          match out with
          | .ok () => (.ok (), { t with st := st, itr := t.itr + 1 }, server)
          | .error e => (.error e, { t with st := st }, server)
    | none => some (.error (.raised .indexError), t, server)

/-- `while self.has_next() and not self.done(): next(self)`, with the exception that left it; `none` when it waits
    for a lock that is held, or has not come to its end. -/
def loop (cfg : ValidateConfig) (env : ValidateEnv) :
    Nat → BatchedValidateDataTask n C → Server → Option (Except ClientError Unit × BatchedValidateDataTask n C)
  | 0, t, _ => if t.hasNext && !t.st.future.done then none else some (.ok (), t)
  | fuel + 1, t, server =>
      if t.hasNext && !t.st.future.done then
        match t.next cfg env server with
        | none => none
        | some (.error e, t, _) => some (.error e, t)
        | some (.ok (), t, server) => loop cfg env fuel t server
      else some (.ok (), t)

/-- A task made and run on a store and a server: what leaves the loop of `run`, and the task after it. -/
def validate (cfg : ValidateConfig) (env : ValidateEnv) (now : Int) (batchSize : Nat) (kv : KVStore n PyValue)
    (server : Server) : Option (Except ClientError Unit × BatchedValidateDataTask n C) :=
  match new cfg now none batchSize kv with
  | none => none
  | some t => loop cfg env (t.validKeys.length + t.deletedKeys.length) t server

/-! ## What a check notes -/

/-- A failure has been recorded. -/
def Noted (st : Validating n C) : Prop := st.future.exception ≠ none ∧ st.future.done = true

/-- Something that looks at keys ran from `st`: when they pass it came to its end and noted nothing, otherwise it
    raised or noted a failure. -/
structure Judges (passes : Prop) (st : Validating n C) (res : Except ClientError Unit × Validating n C) : Prop where
  pass : passes → res.1 = .ok () ∧ res.2.future = st.future
  fault : ¬ passes → res.1 = .ok () → Noted res.2

section Judges

variable {passes : Prop} {st st' : Validating n C} {res : Except ClientError Unit × Validating n C}

omit [NeZero n] in
theorem noted_fail (e : ClientError) (st : Validating n C) : Noted (st.fail e) := by
  constructor <;> simp [Validating.fail, Future.setException, Future.done]

omit [NeZero n] in
theorem judges_pass (h : passes) (hfuture : st'.future = st.future) : Judges passes st (.ok (), st') :=
  ⟨fun _ => ⟨rfl, hfuture⟩, fun hnot => absurd h hnot⟩

omit [NeZero n] in
theorem judges_fail (h : ¬ passes) (e : ClientError) : Judges passes st (.ok (), st'.fail e) :=
  ⟨fun hpass => absurd hpass h, fun _ _ => noted_fail e st'⟩

omit [NeZero n] in
theorem judges_error (h : ¬ passes) (e : ClientError) : Judges passes st (.error e, st') :=
  ⟨fun hpass => absurd hpass h, fun _ hok => by cases hok⟩

omit [NeZero n] in
/-- What the handler of `_check_validity` makes of an exception. -/
theorem judges_handleValidity (h : ¬ passes) {p : Prog (Validating n C) ClientError} {x : Exn}
    (hp : p st = (.error (.raised x), st')) :
    Judges passes st (p.tryExcept Validate.handleValidity st) := by
  rw [tryExcept_of_error hp]
  cases x <;> simp only [Validate.handleValidity]
  case keyError => exact judges_fail h _
  all_goals exact judges_error h _

omit [NeZero n] in
/-- A loop over keys that each note their own. The induction keeps the store, which says what passes. -/
theorem judges_forEach {α : Type*} {f : α → Prog (Validating n C) ClientError} {P : α → Prop}
    {kv : KVStore n PyValue} {l : List α} (hkv : ∀ x, Keeps (fun s => s.kv = kv) (f x))
    (hnoted : ∀ x, Keeps Noted (f x)) (hstep : ∀ x ∈ l, ∀ s : Validating n C, s.kv = kv → Judges (P x) s (f x s))
    (hst : st.kv = kv) : Judges (∀ x ∈ l, P x) st (forEach f l st) := by
  induction l generalizing st with
  | nil => exact judges_pass (by simp) rfl
  | cons x rest ih =>
      obtain ⟨hpass, hfault⟩ := hstep x List.mem_cons_self st hst
      cases hrun : f x st with
      | mk out st' =>
          rw [hrun] at hpass hfault
          cases out with
          | error e =>
              rw [forEach, seq_of_error hrun]
              refine judges_error (fun hall => ?_) e
              obtain ⟨herr, -⟩ := hpass (hall x List.mem_cons_self)
              cases herr
          | ok u =>
              have hkv' : st'.kv = kv := by
                have := hkv x st hst
                rwa [hrun] at this
              obtain ⟨hpass', hfault'⟩ := ih (fun y hy => hstep y (List.mem_cons_of_mem _ hy)) hkv'
              rw [forEach, seq_of_ok hrun]
              by_cases hx : P x
              · rw [List.forall_mem_cons, and_iff_right hx]
                refine ⟨fun hrest => ?_, hfault'⟩
                obtain ⟨hok, hfuture⟩ := hpass' hrest
                exact ⟨hok, hfuture.trans (hpass hx).2⟩
              · -- what has been noted stays noted
                refine ⟨fun hall => absurd (hall x List.mem_cons_self) hx, fun _ _ => ?_⟩
                exact Keeps.forEach hnoted rest st' (hfault hx rfl)

end Judges

/-! ## One key of a batch -/

section Key

variable {cfg : ValidateConfig} {env : ValidateEnv} {server : Server} {keyVals : Dict String Document}

omit [NeZero n] in
theorem keeps_noted_compareBatchKey (key : String) (value : PyValue) (flag : Option Int) :
    Keeps (Noted (n := n) (C := C)) ((Validate.compareBatchKey cfg env keyVals key value flag).tryExcept
      Validate.handleValidity) := by
  refine Keeps.tryExcept (fun st h => ?_) fun e q hq st h => ?_
  · unfold Validate.compareBatchKey
    split
    · exact h
    · refine Keeps.seq (fun s hs => ?_) (fun s hs => ?_) st h
      · unfold Validate.compareBatchValue
        repeat' split
        all_goals first
          | exact hs
          | exact noted_fail _ s
      · unfold Validate.compareBatchFlag
        split
        · exact noted_fail _ s
        · exact hs
  · unfold Validate.handleValidity at hq
    split at hq
    · obtain rfl := Option.some_inj.1 hq
      exact noted_fail _ st
    · cases hq

omit [NeZero n] in
theorem keeps_noted_checkValidityKey (i : Fin n) (key : String) :
    Keeps (Noted (C := C)) (Validate.checkValidityKey cfg env keyVals i key) := by
  intro st h
  unfold Validate.checkValidityKey
  dsimp only
  split
  · exact h
  · exact keeps_noted_compareBatchKey key _ _ _ h

omit [NeZero n] in
/-- The two comparisons of a batch when both hashes can be had. -/
theorem judges_compareBatchValue (hcfg : cfg.onlyStoreHash = true) {value d : PyValue} {stored : Int} {h : Nat}
    (hhash : crc32Hash d = .ok h) (hint : env.int value = .ok stored) (key : String) (flag o : Int)
    (st : Validating n C) :
    Judges ((h : Int) = stored ∧ (cfg.checkFlag = true → o = flag)) st
      (((Validate.compareBatchValue cfg env key value d).seq
        (Validate.compareBatchFlag cfg key (some flag) o)) st) := by
  by_cases hne : (h : Int) = stored
  · have hrun : Validate.compareBatchValue cfg env key value d st = (.ok (), st) := by
      simp [Validate.compareBatchValue, hcfg, hhash, hint, hne]
    rw [seq_of_ok hrun, Validate.compareBatchFlag]
    split
    · next hflag => exact judges_fail (fun hm => hflag.2 (congrArg some (hm.2 hflag.1))) _
    · next hflag =>
        refine judges_pass ⟨hne, fun hc => ?_⟩ rfl
        by_contra ho
        exact hflag ⟨hc, fun heq => ho (Option.some_inj.1 heq)⟩
  · have hrun : Validate.compareBatchValue cfg env key value d st = (.ok (), st.failWith
        ("Key: " ++ key ++ " Bad hash result: " ++ toString h ++ " != " ++ toString stored)) := by
      simp [Validate.compareBatchValue, hcfg, hhash, hint, hne]
    rw [seq_of_ok hrun, Validate.compareBatchFlag]
    split
    · exact judges_fail (fun hm => hne hm.1) _
    · exact judges_fail (fun hm => hne hm.1) _

omit [NeZero n] in
/-- The comparison of one answer with what the store has for its key. -/
theorem judges_compareBatchKey (hcfg : cfg.onlyStoreHash = true) {key : String}
    (hvals : keyVals.get? key = server.get? key) (e : Entry PyValue) (st : Validating n C) :
    Judges (Matches cfg env server key e) st
      ((Validate.compareBatchKey cfg env keyVals key e.value (some e.flag)).tryExcept
        Validate.handleValidity st) := by
  cases hdoc : server.get? key with
  | none =>
      have hrun : Validate.compareBatchKey cfg env keyVals key e.value (some e.flag) st =
          (.error (.raised .keyError), st) := by simp [Validate.compareBatchKey, hvals, hdoc]
      refine judges_handleValidity ?_ hrun
      rintro ⟨doc, h, hd, -⟩
      cases hdoc.symm.trans hd
  | some doc =>
      have hcompare : Validate.compareBatchKey (n := n) (C := C) cfg env keyVals key e.value (some e.flag) =
          (Validate.compareBatchValue cfg env key e.value doc.value).seq
            (Validate.compareBatchFlag cfg key (some e.flag) doc.flags) := by
        funext st'
        simp only [Validate.compareBatchKey, hvals, hdoc]
      rw [hcompare, ValidateDataTask.matches_iff hdoc]
      cases hcrc : crc32Hash doc.value with
      | error x =>
          have hraise : Validate.compareBatchValue cfg env key e.value doc.value st = (.error (.raised x), st) := by
            simp [Validate.compareBatchValue, hcfg, hcrc]
          refine judges_handleValidity ?_ (seq_of_error hraise)
          rintro ⟨h, hh, -⟩
          cases hh
      | ok h =>
          cases hint : env.int e.value with
          | error x =>
              have hraise : Validate.compareBatchValue cfg env key e.value doc.value st =
                  (.error (.raised x), st) := by simp [Validate.compareBatchValue, hcfg, hcrc, hint]
              refine judges_handleValidity ?_ (seq_of_error hraise)
              rintro ⟨h', -, hh, -⟩
              cases hh
          | ok stored =>
              have hiff : (∃ h' : Nat, (.ok h : Except Exn Nat) = .ok h' ∧
                  (.ok stored : Except Exn Int) = .ok (h' : Int) ∧ (cfg.checkFlag = true → doc.flags = e.flag)) ↔
                  (h : Int) = stored ∧ (cfg.checkFlag = true → doc.flags = e.flag) := by
                simp only [Except.ok.injEq, exists_eq_left', @eq_comm Int stored]
              have hjudges := judges_compareBatchValue hcfg hcrc hint key e.flag doc.flags st
              have hok : ((Validate.compareBatchValue cfg env key e.value doc.value).seq
                  (Validate.compareBatchFlag cfg key (some e.flag) doc.flags) st).1 = .ok () := by
                have hfst := Validate.compareBatchValue_fst cfg env key e.value doc.value st
                simp only [Validate.compareError, hcfg, if_true, hcrc, hint] at hfst
                rw [seq_of_ok (Prod.ext hfst rfl), Validate.compareBatchFlag_fst]
              rw [tryExcept_of_ok hok, hiff]
              exact hjudges

/-- A key whose answer is the server's is noted unless the valid entry that is looked up for it matches. -/
theorem judges_checkValidityKey (hcfg : cfg.onlyStoreHash = true) {key : String}
    (hvals : keyVals.get? key = server.get? key) {st : Validating n C} (hstill : StoreStill env st.kv) :
    Judges (∀ e, Looked st.kv cfg.addr key e → Matches cfg env server key e) st
      (Validate.checkValidityKey cfg env keyVals (KVStore.hash n key cfg.addr) key st) := by
  have hstill' : StoreStill env { st with ticks := st.ticks + 1 }.kv := hstill
  unfold Validate.checkValidityKey
  simp only [ValidateDataTask.getValid_of_still hstill, ValidateDataTask.getFlag_of_still hstill']
  cases he : (st.kv.part (KVStore.hash n key cfg.addr)).valid.get? key with
  | none =>
      refine judges_pass (fun e hl => ?_) rfl
      cases he.symm.trans hl.1
  | some e =>
      by_cases hv : e.value = .none
      · simp only [Option.bind_some, hv, ValidateDataTask.present]
        refine judges_pass (fun e' hl => ?_) rfl
        obtain rfl : e = e' := Option.some_inj.1 (he.symm.trans hl.1)
        exact absurd hv hl.2
      · have hlooked : (∀ e, Looked st.kv cfg.addr key e → Matches cfg env server key e) ↔
            Matches cfg env server key e := by
          refine ⟨fun h => h e ⟨he, hv⟩, fun h e' hl => ?_⟩
          obtain rfl : e = e' := Option.some_inj.1 (he.symm.trans hl.1)
          exact h
        simp only [Option.bind_some, ValidateDataTask.present_of_ne hv, Option.map_some]
        rw [hlooked]
        obtain ⟨hpass, hfault⟩ : Judges (Matches cfg env server key e) { st with ticks := st.ticks + 1 + 1 } _ :=
          judges_compareBatchKey hcfg hvals e _
        exact ⟨hpass, hfault⟩

end Key

/-! ## The checks of the task -/

section Checks

variable {cfg : ValidateConfig} {env : ValidateEnv} {server : Server} {st : Validating n C}

omit [NeZero n] in
/-- Releasing what a batch has taken gives the store as it was. -/
theorem releasingAll_locks {dic : Dict (Fin n) (List String)} {kv : KVStore n PyValue} (hkv : kv.Unlocked)
    (hlocks : KVStore.Locks dic.keys kv st.kv) (hacquire : st.kv.acquireLock = false) :
    Validate.releasingAll dic st = some { st with kv := kv } := by
  have hheld : ∀ i ∈ dic.keys, st.kv.locked i = true := by
    intro i hi
    rw [hlocks.locked, decide_eq_true hi, Bool.or_true]
  obtain ⟨kv', hrelease, hlocked, hpart, hacquire'⟩ := KVStore.releasePartitions_spec dic.nodup_keys hheld
  have hsame : kv' = kv := by
    refine KVStore.ext (fun i => ?_) (fun i => (hpart i).trans (hlocks.part i)) ?_
    · rw [hlocked, hlocks.locked, hkv.free]
      by_cases hi : i ∈ dic.keys <;> simp [hi]
    · rw [hacquire', hacquire, hkv.acquireLock]
  simp only [Validate.releasingAll, hrelease, Option.map_some, hsame]

omit [NeZero n] in
theorem keeps_store_checkValidityKey {keyVals : Dict String Document} {kv : KVStore n PyValue}
    (hstill : StoreStill env kv) (i : Fin n) (key : String) :
    Keeps (fun s : Validating n C => s.kv = kv) (Validate.checkValidityKey cfg env keyVals i key) := by
  intro s hs
  obtain ⟨hkv, -⟩ := Validate.checkValidityKey_store cfg env keyVals i key s
  have hstill' : StoreStill env s.kv := hs ▸ hstill
  have hstill'' : StoreStill env { s with ticks := s.ticks + 1 }.kv := hstill'
  rw [ValidateDataTask.getValid_of_still hstill', ValidateDataTask.getFlag_of_still hstill''] at hkv
  exact hkv.trans hs

/-- **A batch**: the check runs to an end, judges its keys, and gives back the store, unless a comparison raises:
    then it keeps its locks. -/
theorem checkValidKeys_judges (hcfg : cfg.onlyStoreHash = true) (hunlocked : st.kv.Unlocked)
    (hstill : StoreStill env st.kv) {keys : List String} (hne : keys ≠ []) {keyVals : Dict String Document}
    (hvals : ∀ key ∈ keys, keyVals.get? key = server.get? key) :
    ∃ out st', Validate.checkValidKeys cfg env (.ok keyVals) keys st = some (out, st') ∧
      Judges (∀ key ∈ keys, ∀ e, Looked st.kv cfg.addr key e → Matches cfg env server key e) st (out, st') ∧
      (out = .ok () → st'.kv = st.kv) ∧ (out ≠ .ok () → ¬ st'.kv.Unlocked) := by
  obtain ⟨⟨dic, kv⟩, hacquired⟩ := Option.isSome_iff_exists.1
    (KVStore.acquirePartitions_isSome hunlocked.acquireLock
      (fun key _ => hunlocked.free (KVStore.hash n key cfg.addr)) : (st.kv.acquirePartitions keys cfg.addr).isSome)
  obtain ⟨rfl, hlocks, hacquire⟩ := KVStore.acquirePartitions_eq_some hacquired
  have hstill' : StoreStill env kv := by
    intro i tick
    rw [hlocks.part]
    exact hstill i tick
  -- the groups hold the keys, each in its own slot
  have hgroups : (∀ x ∈ Loading.slotKeys (KVStore.groupKeys n cfg.addr keys), ∀ e,
      Looked st.kv cfg.addr x.2 e → Matches cfg env server x.2 e) ↔
      ∀ key ∈ keys, ∀ e, Looked st.kv cfg.addr key e → Matches cfg env server key e := by
    refine ⟨fun h key hkey => ?_, fun h x hx => ?_⟩
    · exact h (KVStore.hash n key cfg.addr, key) ((Loading.mem_slotKeys_groupKeys cfg.addr keys _ key).2 ⟨hkey, rfl⟩)
    · exact h x.2 ((Loading.mem_slotKeys_groupKeys cfg.addr keys x.1 x.2).1 hx).1
  have hstep : ∀ x ∈ Loading.slotKeys (KVStore.groupKeys n cfg.addr keys), ∀ s : Validating n C, s.kv = kv →
      Judges (∀ e, Looked st.kv cfg.addr x.2 e → Matches cfg env server x.2 e) s
        (Validate.checkValidityKey cfg env keyVals x.1 x.2 s) := by
    intro x hx s hs
    obtain ⟨hkey, hslot⟩ := (Loading.mem_slotKeys_groupKeys cfg.addr keys x.1 x.2).1 hx
    have hjudges := judges_checkValidityKey hcfg (hvals x.2 hkey) (hs ▸ hstill' : StoreStill env s.kv)
    rw [hslot] at hjudges
    simpa only [Looked, hs, hlocks.part] using hjudges
  have hkeep : ∀ x : Fin n × String, Keeps (fun s : Validating n C => s.kv = kv)
      (Validate.checkValidityKey cfg env keyVals x.1 x.2) := fun x => keeps_store_checkValidityKey hstill' x.1 x.2
  have hjudges := judges_forEach hkeep (fun x => keeps_noted_checkValidityKey x.1 x.2) hstep
    (rfl : { st with kv := kv }.kv = kv)
  have hkv : (Validate.checkValidity cfg env keyVals (KVStore.groupKeys n cfg.addr keys) { st with kv := kv }).2.kv
      = kv := Keeps.forEach hkeep _ _ rfl
  rw [hgroups] at hjudges
  unfold Validate.checkValidKeys
  rw [hacquired]
  dsimp only
  change Judges _ _ (Validate.checkValidity cfg env keyVals (KVStore.groupKeys n cfg.addr keys) _) at hjudges
  cases hrun : Validate.checkValidity cfg env keyVals (KVStore.groupKeys n cfg.addr keys) { st with kv := kv } with
  | mk out st' =>
      rw [hrun] at hjudges hkv
      cases out with
      | error e =>
          refine ⟨_, _, rfl, ⟨hjudges.pass, hjudges.fault⟩, fun h => (by cases h), fun _ hfree => ?_⟩
          obtain ⟨key, hkey⟩ := List.exists_mem_of_ne_nil keys hne
          have hmem : KVStore.hash n key cfg.addr ∈ (KVStore.groupKeys n cfg.addr keys).keys :=
            (KVStore.mem_keys_groupKeys cfg.addr keys _).2 ⟨key, hkey, rfl⟩
          have hheld := hlocks.locked (KVStore.hash n key cfg.addr)
          rw [decide_eq_true hmem, Bool.or_true, ← hkv, hfree.free] at hheld
          cases hheld
      | ok u =>
          rw [← hkv] at hlocks hacquire
          have hrelease := releasingAll_locks hunlocked hlocks hacquire
          refine ⟨.ok (), { st' with kv := st.kv }, ?_, ⟨hjudges.pass, hjudges.fault⟩, fun _ => rfl,
            fun h => absurd rfl h⟩
          simp only [hrelease, Option.map_some]

/-- For what the server answers, the release in the handlers of `_check_deleted_key` is not reached. -/
theorem checkDeletedKeyBatched_delete (key : String) (st : Validating n C) :
    Validate.checkDeletedKeyBatched cfg env (server.delete key).1 key st =
      Validate.checkDeletedKey cfg env (server.delete key).1 key st := by
  unfold Validate.checkDeletedKeyBatched Validate.checkDeletedKey Validate.checkDeletedKeyWith Validate.locking
  cases hacquire : st.kv.acquirePartition key cfg.addr with
  | none => rfl
  | some kv =>
      cases hdoc : server.get? key with
      | none => simp [Server.delete, hdoc, Validate.deleteAtClient, tryExcept, Validate.handleDeleted]
      | some doc =>
          simp only [Server.delete, hdoc, Validate.deleteAtClient, tryExcept]
          cases (Validating.getValid env (KVStore.hash n key cfg.addr) key { st with kv := kv }).1 <;> rfl

end Checks

/-! ## The walk over the two lists -/

section Walk

variable {cfg : ValidateConfig} {env : ValidateEnv} {kv : KVStore n PyValue} {server : Server}
  {t : BatchedValidateDataTask n C}

omit [NeZero n] in
theorem length_keysBatch (t : BatchedValidateDataTask n C) :
    t.keysBatch.length = min t.batchSize (t.validKeys.length - t.itr) := by simp [keysBatch]

/-- A batch passes, and the keys behind it do. -/
theorem allPass_batch_iff (hlt : t.itr < t.validKeys.length) (st : Validating n C) :
    AllPass cfg env kv server t.toValidateDataTask ↔
      (∀ key ∈ t.keysBatch, ∀ e, Looked kv cfg.addr key e → Matches cfg env server key e) ∧
        AllPass cfg env kv server { t.toValidateDataTask with st := st, itr := t.itr + t.keysBatch.length } := by
  have hsplit : t.validKeys.drop t.itr = t.keysBatch ++ t.validKeys.drop (t.itr + t.keysBatch.length) := by
    rw [← List.drop_drop]
    exact (List.prefix_iff_eq_append.1 (List.take_prefix t.batchSize (t.validKeys.drop t.itr))).symm
  have hsub : t.itr + t.keysBatch.length - t.validKeys.length = t.itr - t.validKeys.length := by
    have := length_keysBatch t
    omega
  rw [ValidateDataTask.AllPass, ValidateDataTask.AllPass]
  dsimp only
  rw [hsplit, List.forall_mem_append, hsub, and_assoc]

/-- **The step lemma**: a turn gets on in the lists and judges the keys it passes; the store is as it was, unless a
    comparison raises. -/
theorem next_judges (hcfg : cfg.onlyStoreHash = true) (hunlocked : kv.Unlocked) (hstill : StoreStill env kv)
    (hsize : 0 < t.batchSize) (hkv : t.st.kv = kv) (server : Server)
    (hitr : t.itr < t.validKeys.length + t.deletedKeys.length) :
    ∃ out st' itr server' passes, t.next cfg env server = some (out, { t with st := st', itr := itr }, server') ∧
      t.itr < itr ∧
      (AllPass cfg env kv server t.toValidateDataTask ↔
        passes ∧ AllPass cfg env kv server' { t.toValidateDataTask with st := st', itr := itr }) ∧
      Judges passes t.st (out, st') ∧ (out = .ok () → st'.kv = kv) ∧ (out ≠ .ok () → ¬ st'.kv.Unlocked) := by
  subst hkv
  have hlength := length_keysBatch t
  by_cases hlt : t.itr < t.validKeys.length
  · have hne : t.keysBatch ≠ [] := by
      rw [← List.length_pos_iff]
      omega
    have hvals : ∀ key ∈ t.keysBatch, (server.getMulti t.keysBatch).get? key = server.get? key := by
      intro key hkey
      rw [Server.get?_getMulti, if_pos hkey]
    obtain ⟨out, st', hrun, hjudges, hstore, hlocks⟩ := checkValidKeys_judges hcfg hunlocked hstill hne hvals
    refine ⟨out, st', t.itr + t.keysBatch.length, server, _, ?_, by omega, allPass_batch_iff hlt st', hjudges,
      hstore, hlocks⟩
    simp [next, hlt, hrun]
  · have hlen : t.validKeys.length ≤ t.itr := Nat.le_of_not_lt hlt
    obtain ⟨key, hkey⟩ : ∃ key, t.deletedKeys[t.itr - t.validKeys.length]? = some key :=
      ⟨_, List.getElem?_eq_getElem (by omega)⟩
    have hparts := (Validate.sameParts_lockedFor cfg key t.st).1
    have hbody := ValidateDataTask.finds_deleteAtClient server cfg.addr key ("Not Deletes: " ++ key)
      (show StoreStill env (Validate.lockedFor cfg key t.st).kv from fun i tick => by
        rw [hparts]
        exact hstill i tick)
    obtain ⟨st', hrun, hstore, hfound⟩ := ValidateDataTask.locking_finds hunlocked.free hbody
    refine ⟨.ok (), st', t.itr + 1, (server.delete key).2, DeletedPasses t.st.kv cfg.addr server key, ?_, by omega,
      ValidateDataTask.allPass_deleted_iff hlen hkey st', ⟨fun hpass => ⟨rfl, ?_⟩, fun hnot _ => ?_⟩,
      fun _ => hstore, fun h => absurd rfl h⟩
    · have hcheck : Validate.checkDeletedKeyBatched cfg env (server.delete key).1 key t.st = some (.ok (), st') :=
        (checkDeletedKeyBatched_delete key t.st).trans hrun
      simp [next, hlt, hkey, hcheck]
    · refine hfound.same fun hfault => hpass ?_
      simpa only [Looked, hparts] using hfault
    · refine hfound.faulty ?_
      simpa only [DeletedPasses, not_not, Looked, hparts] using hnot

/-- Behind the last key nothing is looked at any more. -/
theorem loop_of_end {fuel : Nat} (hkv : t.st.kv = kv) (hunlocked : kv.Unlocked)
    (hnew : t.st.future.exception = none) (hend : t.validKeys.length + t.deletedKeys.length ≤ t.itr) :
    ∃ out t', t.loop cfg env fuel server = some (out, t') ∧
      (out = .ok () ∧ t'.st.future.exception = none ↔ AllPass cfg env kv server t.toValidateDataTask) ∧
      (out = .ok () ↔ t'.st.kv.Unlocked) := by
  have hhas : t.hasNext = false := by
    simp [ValidateDataTask.hasNext, Nat.not_lt.2 hend]
  have hvalid : t.validKeys.drop t.itr = [] := List.drop_eq_nil_of_le (by omega)
  have hdeleted : t.deletedKeys.drop (t.itr - t.validKeys.length) = [] := List.drop_eq_nil_of_le (by omega)
  refine ⟨.ok (), t, ?_, iff_of_true ⟨rfl, hnew⟩ ?_, iff_of_true rfl (hkv ▸ hunlocked)⟩
  · cases fuel <;> simp [loop, hhas]
  · simp [ValidateDataTask.AllPass, hvalid, hdeleted]

/-- **The walk** comes to its end with nothing noted exactly when every key still to come passes, and gives the
    store back exactly when nothing leaves it. -/
theorem loop_judges (hcfg : cfg.onlyStoreHash = true) (hunlocked : kv.Unlocked) (hstill : StoreStill env kv)
    (fuel : Nat) (hsize : 0 < t.batchSize) (hkv : t.st.kv = kv) (server : Server)
    (hnew : t.st.future.exception = none) (hdone : t.st.future.done = false)
    (hmax : t.maxVerify = t.validKeys.length + t.deletedKeys.length)
    (hfuel : t.validKeys.length + t.deletedKeys.length ≤ fuel + t.itr) :
    ∃ out t', t.loop cfg env fuel server = some (out, t') ∧
      (out = .ok () ∧ t'.st.future.exception = none ↔ AllPass cfg env kv server t.toValidateDataTask) ∧
      (out = .ok () ↔ t'.st.kv.Unlocked) := by
  induction fuel generalizing t server with
  | zero => exact loop_of_end hkv hunlocked hnew (by omega)
  | succ fuel ih =>
      by_cases hlt : t.itr < t.validKeys.length + t.deletedKeys.length
      · obtain ⟨out, st', itr, server', passes, hnext, hon, hall, hjudges, hstore, hlocks⟩ :=
          next_judges hcfg hunlocked hstill hsize hkv server hlt
        have hhas : t.hasNext = true := by simp [ValidateDataTask.hasNext, hmax, hlt]
        rw [hall, loop, hhas, hdone, hnext]
        cases out with
        | error e =>
            refine ⟨.error e, _, rfl, iff_of_false (fun h => by cases h.1) fun h => ?_,
              iff_of_false (fun h => by cases h) (hlocks fun h => by cases h)⟩
            cases (hjudges.pass h.1).1
        | ok u =>
            by_cases hpass : passes
            · have hfuture := (hjudges.pass hpass).2
              obtain ⟨out, t', hrun, hiff, hfree⟩ := ih (t := { t with st := st', itr := itr }) hsize (hstore rfl)
                server' (hfuture ▸ hnew) (hfuture ▸ hdone) hmax (by dsimp only; omega)
              exact ⟨out, t', hrun, hiff.trans (and_iff_right hpass).symm, hfree⟩
            · -- what has been noted ends the walk
              obtain ⟨hexception, hend⟩ := hjudges.fault hpass rfl
              refine ⟨.ok (), { t with st := st', itr := itr }, ?_, iff_of_false (fun h => hexception h.2)
                fun h => hpass h.1, iff_of_true rfl ((hstore rfl) ▸ hunlocked)⟩
              cases fuel <;> simp [loop, hend]
      · exact loop_of_end hkv hunlocked hnew (Nat.le_of_not_lt hlt)

end Walk

/-! ## The two classes -/

/-- From the start of both lists, the walk goes over all keys of the store. -/
theorem allPass_new_iff {cfg : ValidateConfig} {env : ValidateEnv} {kv : KVStore n PyValue} {server : Server}
    {t : ValidateDataTask n C} (hitr : t.itr = 0)
    (hvalid : t.validKeys = (KVStore.scope n cfg.addr).flatMap fun i => (kv.part i).valid.keys)
    (hdeleted : t.deletedKeys = (KVStore.scope n cfg.addr).flatMap fun i => (kv.part i).deleted.keys) :
    AllPass cfg env kv server t ↔ ValidateDataTask.Passes cfg env kv server := by
  simp only [ValidateDataTask.AllPass, hitr, hvalid, hdeleted, List.drop_zero, Nat.zero_sub, List.mem_flatMap,
    forall_exists_index, and_imp]
  refine and_congr ⟨fun h key e hl => ?_, fun h key i _ _ e hl => h key e hl⟩
    ⟨fun h i hi key hk => h key i hi hk, fun h key i hi hk => h i hi key hk⟩
  -- a key that is looked at is listed by its own slot
  exact h key _ (KVStore.hash_mem_scope key cfg.addr) (Dict.mem_keys_of_get? hl.1) e hl

/-- A run comes to its end with nothing noted exactly when everything passes. -/
theorem validate_judges {cfg : ValidateConfig} (hcfg : cfg.onlyStoreHash = true) {env : ValidateEnv} {now : Int}
    {kv : KVStore n PyValue} (hunlocked : kv.Unlocked) (hstill : StoreStill env kv)
    (hnow : ∀ i, (kv.part i).Still now) {batchSize : Nat} (hsize : 0 < batchSize) (server : Server) :
    ∃ out, ∃ t : BatchedValidateDataTask n C, validate cfg env now batchSize kv server = some (out, t) ∧
      (out = .ok () ∧ t.st.future.exception = none ↔ ValidateDataTask.Passes cfg env kv server) ∧
      (out = .ok () ↔ t.st.kv.Unlocked) := by
  have hkeys := KVStore.keySet_of_still hunlocked.free hnow cfg.addr
  unfold validate new ValidateDataTask.new
  rw [hkeys]
  simp only [Option.map_some, Option.map_none, Option.getD_none]
  rw [← allPass_new_iff (t := ValidateDataTask.mk (C := C) ⟨kv, false, Future.new, 0⟩ _ _ _ 0) rfl rfl rfl]
  exact loop_judges hcfg hunlocked hstill _ hsize rfl server rfl rfl rfl (Nat.le_refl _)

/-- **The two validating classes say the same**: on an unlocked store in which nothing lapses, whatever the server
    has and whatever the size of the batches, a run of the batched task comes to its end without an exception if and
    only if a run of `ValidateDataTask` records none. It gives all locks back, unless an exception leaves it. -/
theorem validate_as_plain {cfg : ValidateConfig} (hcfg : cfg.onlyStoreHash = true) {env : ValidateEnv} {now : Int}
    {kv : KVStore n PyValue} (hunlocked : kv.Unlocked) (hstill : StoreStill env kv)
    (hnow : ∀ i, (kv.part i).Still now) {batchSize : Nat} (hsize : 0 < batchSize) (server : Server) :
    ∃ out, ∃ batched : BatchedValidateDataTask n C, ∃ plain : ValidateDataTask n C,
      validate cfg env now batchSize kv server = some (out, batched) ∧
      ValidateDataTask.validate cfg env now kv server = some plain ∧
      (out = .ok () ∧ batched.st.future.exception = none ↔ plain.st.future.exception = none) ∧
      (out = .ok () ↔ batched.st.kv.Unlocked) := by
  obtain ⟨out, batched, hbatched, hjudges, hlocks⟩ :=
    validate_judges (C := C) hcfg hunlocked hstill hnow hsize server
  obtain ⟨plain, hplain, hfinds⟩ :=
    ValidateDataTask.validate_finds (C := C) hcfg hunlocked.free hstill hnow server
  exact ⟨out, batched, plain, hbatched, hplain, hjudges.trans hfinds.symm, hlocks⟩

/-- The one document is not on the server. -/
theorem validate_as_plain_one_document :
    ∃ out, ∃ batched : BatchedValidateDataTask 4 Unit, ∃ plain : ValidateDataTask 4 Unit,
      validate Validate.plainConfig Validate.textEnv 0 100 ValidateDataTask.oneDocument ∅ = some (out, batched) ∧
      ValidateDataTask.validate Validate.plainConfig Validate.textEnv 0 ValidateDataTask.oneDocument ∅
        = some plain ∧
      (out = .ok () ∧ batched.st.future.exception = none ↔ plain.st.future.exception = none) ∧
      (out = .ok () ↔ batched.st.kv.Unlocked) :=
  validate_as_plain rfl ⟨(KVStore.free_new 4 PyValue).setPartition _ _, rfl⟩
    (fun i _ => ValidateDataTask.still_oneDocument i _) (fun i => ValidateDataTask.still_oneDocument i 0)
    (by decide) ∅

end BatchedValidateDataTask

end TestInfra
