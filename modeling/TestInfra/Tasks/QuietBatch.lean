import TestInfra.Tasks.ThroughputAgree
import TestInfra.Tasks.ValidateRun

set_option autoImplicit false

/-! # What a batch leaves behind that records no failure

A batch operation of a loading task is **quiet** when no exception leaves it and none is recorded in the task.
Then the client answered every call, and what the store holds afterwards follows from the batch: a create or
an update has set every key of it, a delete has removed those that were there, a read has changed nothing.

The documents do not expire here, so that a look at a key changes nothing (`Lasting`). -/

namespace TestInfra

open Raises Raises.Prog

namespace KVStore

variable {n : Nat} {V : Type*}

/-- No entry of the store has a deadline. -/
def Lasting (kv : KVStore n V) : Prop :=
  ∀ i key e, (kv.part i).valid.get? key = some e → e.expires = 0

theorem Lasting.still {kv : KVStore n V} (h : kv.Lasting) (i : Fin n) (now : Int) :
    (kv.part i).Still now :=
  fun key e he hlapsed => hlapsed.1 (h i key e he)

end KVStore

namespace Loading

variable {n : Nat} {C : Type*}

/-- The task has no exception to show. -/
def Quiet (st : Loading n C) : Prop := st.task.future.exception = none

theorem not_quiet_fail (e : Exn) (st : Loading n C) : ¬ (st.fail e).Quiet := by
  simp [Quiet, fail, Future.setException]

/-- A guarded block that notes nothing has not raised. -/
theorem tryExcept_handleSet_quiet {p : Prog (Loading n C) Exn} {st st' : Loading n C}
    (h : p.tryExcept handleSet st = (.ok (), st')) (hquiet : st'.Quiet) : p st = (.ok (), st') := by
  rcases hp : p st with ⟨_ | _, mid⟩
  · rw [tryExcept_of_error hp] at h
    rename_i e
    unfold handleSet at h
    split at h
    next q hq =>
      split at hq
      · obtain rfl := Option.some.inj hq
        obtain rfl := (Prod.mk.inj h).2
        exact absurd hquiet (not_quiet_fail e mid)
      · cases hq
    · cases h
  · rw [tryExcept_of_ok (by rw [hp]), hp] at h
    exact h

/-- A client call that returns. -/
theorem client_ok {outcome : Except Exn Unit} {st st' : Loading n C} (h : client outcome st = (.ok (), st')) :
    outcome = .ok () ∧ st' = st := by
  obtain ⟨hok, hst⟩ := Prod.mk.inj h
  exact ⟨hok, hst.symm⟩

/-! ## What processing the values leaves alone -/

/-- Everything but `key_val`, which has no key beyond `keys`. -/
def Rest (kv : KVStore n PyValue) (task : TaskState C) (keys : List String) (st : Loading n C) : Prop :=
  st.kv = kv ∧ st.task = task ∧ ∀ key ∈ st.keyVal.keys, key ∈ keys

theorem Rest.set {kv : KVStore n PyValue} {task : TaskState C} {keys : List String} {st : Loading n C}
    (h : Rest kv task keys st) {key : String} (hkey : key ∈ keys) (value : PyValue) :
    Rest kv task keys { st with keyVal := st.keyVal.set key value } := by
  refine ⟨h.1, h.2.1, fun k hk => ?_⟩
  rcases (Dict.mem_keys_set _ _ _ _).1 hk with rfl | hk
  · exact hkey
  · exact h.2.2 k hk

theorem Rest.del {kv : KVStore n PyValue} {task : TaskState C} {keys : List String} {st : Loading n C}
    (h : Rest kv task keys st) (key : String) :
    Rest kv task keys { st with keyVal := st.keyVal.del key } :=
  ⟨h.1, h.2.1, fun k hk => h.2.2 k ((Dict.mem_keys_del _ _ _).1 hk).2⟩

theorem rest_processValuesForCreate (kind : TaskKind) (env : Env) (st : Loading n C) :
    Rest st.kv st.task st.keyVal.keys (processValuesForCreate kind env st).2 := by
  refine Keeps.forEach_mem (I := Rest st.kv st.task st.keyVal.keys) (fun e he st' h => ?_) st
    ⟨rfl, rfl, fun _ hk => hk⟩
  have hkey : e.1 ∈ st.keyVal.keys := List.mem_map_of_mem he
  simp only [processForCreate]
  split
  · exact h.set hkey _
  · exact h.set hkey _

/-- A look at a key of a store without deadlines. -/
theorem getValid_of_lasting {st : Loading n C} (h : st.kv.Lasting) (now : Int) (i : Fin n) (key : String) :
    (st.getValid now i key).2 = st := by
  simp only [getValid, Partition.getValid, (h.still i now).expireKey, KVStore.setPartition_part]

theorem rest_processValuesForUpdate (env : Env) {dic : Dict (Fin n) (List String)} {st : Loading n C}
    (hlasting : st.kv.Lasting) (hin : ∀ p ∈ slotKeys dic, p.2 ∈ st.keyVal.keys) :
    Rest st.kv st.task st.keyVal.keys (processValuesForUpdate env dic st).2 := by
  rw [processValuesForUpdate, forEach_slotKeys]
  refine Keeps.forEach_mem (I := Rest st.kv st.task st.keyVal.keys) (fun p hp st' h => ?_) st
    ⟨rfl, rfl, fun _ hk => hk⟩
  have hlook : (st'.getValid (env.readClock p.2) p.1 p.2).2 = st' :=
    getValid_of_lasting (h.1 ▸ hlasting) _ _ _
  simp only [processForUpdate]
  rw [hlook]
  split
  · split
    · exact h.del p.2
    · exact h
  · split
    · exact h.set (hin p hp) _
    · split
      · exact h.set (hin p hp) _
      · exact h.set (hin p hp) _

/-! ## The two operations that set -/

variable [NeZero n]

/-- What the store keeps of a value that was sent. -/
def storedOf (cfg : LoadConfig) (keyVal : Dict String PyValue) (key : String) : PyValue :=
  match keyVal.get? key with
  | some value => (storedValue cfg value).toOption.getD .none
  | none => .none

/-- What a quiet create or update has done: the client took the values of `keyVal`, texts under the keys of the
    batch, and they are set in the store. -/
structure SetsBatch (cfg : LoadConfig) (env : Env) (dic : Dict (Fin n) (List String))
    (keyVal : Dict String PyValue) (st st' : Loading n C) : Prop where
  client : env.setMulti = .ok ()
  texts : ∀ p ∈ slotKeys dic, HasText keyVal p.2
  only : ∀ key ∈ keyVal.keys, key ∈ st.keyVal.keys
  store : st'.kv = st.kv.setAll (Throughput.spec cfg env)
    ((slotKeys dic).map fun p => (p.2, storedOf cfg keyVal p.2))

/-- The groups of a batch: every key once, in its slot. -/
structure Groups (cfg : LoadConfig) (dic : Dict (Fin n) (List String)) (keys : List String) : Prop where
  once : (slotKeys dic).Pairwise fun p q => p.2 ≠ q.2
  mem : ∀ i key, (i, key) ∈ slotKeys dic ↔ key ∈ keys ∧ KVStore.hash n key cfg.addr = i

theorem groups_groupKeys (cfg : LoadConfig) {keys : List String} (hnod : keys.Nodup) :
    Groups cfg (KVStore.groupKeys n cfg.addr keys) keys :=
  ⟨slotKeys_pairwise cfg.addr hnod, mem_slotKeys_groupKeys cfg.addr keys⟩

section Sets

variable {kind : TaskKind} {cfg : LoadConfig} {env : Env} {dic : Dict (Fin n) (List String)} {st st' : Loading n C}

omit [NeZero n] in
theorem task_populateKvstore (cfg : LoadConfig) (env : Env) (dic : Dict (Fin n) (List String))
    (st : Loading n C) : (populateKvstore cfg env dic st).2.task = st.task := by
  refine Keeps.forEach (I := fun s : Loading n C => s.task = st.task)
    (fun g => Keeps.forEach (fun key s hs => ?_) g.2) dic.items st rfl
  unfold populateKey
  split
  · exact hs
  · split <;> exact hs

/-- Texts under all keys of the batch are set. -/
theorem populateKvstore_texts {keys : List String} (hdic : Groups cfg dic keys)
    (htexts : ∀ p ∈ slotKeys dic, HasText st.keyVal p.2) (h : populateKvstore cfg env dic st = (.ok (), st')) :
    st'.kv = st.kv.setAll (Throughput.spec cfg env)
      ((slotKeys dic).map fun p => (p.2, storedOf cfg st.keyVal p.2)) := by
  have hstored : ∀ p ∈ slotKeys dic, ∃ x, st.keyVal.get? p.2 = some x ∧
      storedValue cfg x = .ok (storedOf cfg st.keyVal p.2) := by
    intro p hp
    obtain ⟨t, ht⟩ := htexts p hp
    obtain ⟨value, hvalue⟩ := storedValue_str cfg t
    refine ⟨.str t, ht, ?_⟩
    simp only [storedOf, ht, hvalue]
    rfl
  obtain ⟨keyVal, heq⟩ := Throughput.populateKvstore_eq env hdic.once
    (fun p hp => ((hdic.mem p.1 p.2).1 hp).2) hstored
  rw [heq] at h
  rw [← (Prod.mk.inj h).2]

theorem createBatch_sets (hdic : Groups cfg dic st.keyVal.keys)
    (h : createBatch kind cfg env dic st = (.ok (), st')) (hquiet : st'.Quiet) :
    SetsBatch cfg env dic (processValuesForCreate kind env st).2.keyVal st st' := by
  -- both classes come down to the three steps one after the other
  obtain ⟨processed, hprocess, sentOff, hclient, hpopulate⟩ :
      ∃ processed, processValuesForCreate kind env st = (.ok (), processed) ∧
        ∃ sentOff, client env.setMulti processed = (.ok (), sentOff) ∧
          populateKvstore cfg env dic sentOff = (.ok (), st') := by
    cases kind with
    | loadDocuments =>
        obtain ⟨mid, hguarded, hpopulate⟩ := exists_of_seq_ok h
        have hmid : mid.Quiet := by
          have htask := task_populateKvstore cfg env dic mid
          rw [hpopulate] at htask
          rw [Quiet, ← htask]
          exact hquiet
        obtain ⟨processed, hprocess, hclient⟩ :=
          exists_of_seq_ok (tryExcept_handleSet_quiet hguarded hmid)
        exact ⟨processed, hprocess, mid, hclient, hpopulate⟩
    | batchedLoadDocuments =>
        obtain ⟨processed, hprocess, hrest⟩ := exists_of_seq_ok (tryExcept_handleSet_quiet h hquiet)
        exact ⟨processed, hprocess, exists_of_seq_ok hrest⟩
  obtain ⟨hset, rfl⟩ := client_ok hclient
  obtain ⟨hkv, -, hkeys⟩ := rest_processValuesForCreate kind env st
  rw [hprocess] at hkv hkeys ⊢
  have htexts : ∀ p ∈ slotKeys dic, HasText sentOff.keyVal p.2 := by
    rcases processValuesForCreate_spec kind env st with ⟨-, -, hall⟩ | ⟨-, e, herr, -⟩
    · rw [hprocess] at hall
      exact fun p hp => hall p.2 ((hdic.mem p.1 p.2).1 hp).1
    · rw [hprocess] at herr
      cases herr
  exact ⟨hset, htexts, hkeys, hkv ▸ populateKvstore_texts hdic htexts hpopulate⟩

theorem updateBatch_sets (hdic : Groups cfg dic st.keyVal.keys) (hlasting : st.kv.Lasting)
    (h : updateBatch cfg env dic st = (.ok (), st')) (hquiet : st'.Quiet) :
    SetsBatch cfg env dic (processValuesForUpdate env dic st).2.keyVal st st' := by
  have hin : ∀ p ∈ slotKeys dic, p.2 ∈ st.keyVal.keys := fun p hp => ((hdic.mem p.1 p.2).1 hp).1
  obtain ⟨hready, -, hlive⟩ :=
    (updateBatch_ok_iff cfg env st hdic.once hin).1 (congrArg Prod.fst h)
  obtain ⟨processed, hprocess, hrest⟩ := exists_of_seq_ok (tryExcept_handleSet_quiet h hquiet)
  obtain ⟨sentOff, hclient, hpopulate⟩ := exists_of_seq_ok hrest
  obtain ⟨hset, rfl⟩ := client_ok hclient
  obtain ⟨hkv, -, hkeys⟩ := rest_processValuesForUpdate env hlasting hin
  rw [hprocess] at hkv hkeys ⊢
  have htexts : ∀ p ∈ slotKeys dic, HasText sentOff.keyVal p.2 := by
    rcases processValuesForUpdate_spec env st hdic.once hin with ⟨-, -, hall⟩ | ⟨hnot, -⟩
    · rw [hprocess] at hall
      exact fun p hp => (hall p hp).2 (hlive hset p hp)
    · exact absurd hready hnot
  exact ⟨hset, htexts, hkeys, hkv ▸ populateKvstore_texts hdic htexts hpopulate⟩

end Sets

/-! ## Deletes -/

omit [NeZero n] in
theorem keeps_failed_deleteKeys (env : Env) (l : List (Fin n × String)) :
    Keeps (fun st : Loading n C => ¬ st.Quiet) (deleteKeys env l) := by
  induction l with
  | nil => exact keeps_skip _
  | cons p rest ih =>
      intro st h
      simp only [deleteKeys, getValid]
      split
      · exact ih _ h
      · split
        · split
          · exact ih _ h
          · exact not_quiet_fail _ _
        · exact not_quiet_fail _ _
      · split
        · exact ih _ (not_quiet_fail _ _)
        · exact h

omit [NeZero n] in
/-- The first delete of a quiet batch was answered: the key is deleted on both sides, or the server says that it
    has none and the store has none either. -/
theorem deleteKeys_cons_quiet {env : Env} {p : Fin n × String} {rest : List (Fin n × String)}
    {st st' : Loading n C} (h : deleteKeys env (p :: rest) st = (.ok (), st')) (hquiet : st'.Quiet) :
    (env.delete p.2 = .ok () ∧ deleteKeys env rest
        { st with kv := st.kv.setPartition p.1 ((st.kv.part p.1).delete (env.readClock p.2) p.2) } = (.ok (), st')) ∨
      (env.delete p.2 = .error (.memcachedError errNotFound) ∧
        validValue (env.readClock p.2) p.1 p.2 st.kv = none ∧
        deleteKeys env rest (st.getValid (env.readClock p.2) p.1 p.2).2 = (.ok (), st')) := by
  cases hdelete : env.delete p.2 with
  | ok u =>
      rw [deleteKeys_of_ok rest st hdelete] at h
      exact Or.inl ⟨rfl, h⟩
  | error e =>
      refine Or.inr ?_
      by_cases hm : ∃ status, e = .memcachedError status
      · obtain ⟨status, rfl⟩ := hm
        rw [deleteKeys_of_memcachedError rest st hdelete] at h
        split at h
        next hstatus =>
          simp only at h
          split at h
          next hnone => exact ⟨by rw [hstatus], hnone, h⟩
          · rw [← (Prod.mk.inj h).2] at hquiet
            exact absurd hquiet (not_quiet_fail _ _)
        · rw [← (Prod.mk.inj h).2] at hquiet
          exact absurd hquiet (not_quiet_fail _ _)
      · rw [deleteKeys_of_other rest st hdelete fun status hs => hm ⟨status, hs⟩] at h
        split at h
        · have hnot := keeps_failed_deleteKeys env rest (st.fail e) (not_quiet_fail e st)
          rw [h] at hnot
          exact absurd hquiet hnot
        · cases h

end Loading

end TestInfra
