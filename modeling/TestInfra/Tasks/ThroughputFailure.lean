import TestInfra.Tasks.ThroughputAgree

set_option autoImplicit false

/-! # Failures in the high throughput mode

A child of `LoadDocumentsGeneratorsTask.run_high_throughput_mode` works on a copy of the task. What it
notes in the copy's future does not reach the parent: the parent sees the partitions the child puts into
the queue, or `rv["err"]`, which is set only when the child cannot open its client.

A `setMulti` that fails in a child thus ends in one of two ways. An exception `_create_batch_client`
catches is noted in the copy, the batch is **cached all the same** and the loop ends because the copy is
done. Any other exception is printed and ends the loop before the batch is cached. -/

namespace TestInfra

open Raises Raises.Prog

namespace Throughput

variable {n : Nat} [NeZero n] {C : Type*}

/-! ## The children -/

/-- A child process: its part of a generator, the outcome of opening its client, and the outside of each
    of its batches. -/
structure Child where
  gen : BatchedDocumentGenerator PyValue
  connect : Except Exn Unit
  envs : Nat → Env

/-- The child opened its client. -/
def Child.connected (child : Child) : Bool := child.connect.isOk

/-- The state a child ends with. -/
def Child.finish (cfg : LoadConfig) (task : TaskState C) (child : Child) : Loading n C :=
  (generatorLoop cfg child.envs (documentsLeft child.gen.docGen) 0 child.gen
    ⟨KVStore.new n PyValue, ∅, task⟩).2

/-- What the child puts into the queue. -/
def Child.result (cfg : LoadConfig) (task : TaskState C) (child : Child) :
    Except Exn (Fin n → Partition PyValue) :=
  runGenerator cfg child.envs child.connect child.gen task

/-- The children that work on the parts, in the order in which their results arrive. -/
structure Arrival (parts : List (BatchedDocumentGenerator PyValue)) where
  children : List Child
  perm : (children.map Child.gen).Perm parts

/-- `LoadDocumentsGeneratorsTask.run` in high throughput mode, the results of the children arriving in the
    order of the list. There is no result (`none`) when a merge waits for a lock that is held. -/
def run (cfg : LoadConfig) (arrived : List Child) (kv : KVStore n PyValue) (task : TaskState C) :
    Option (ModeResult n C) :=
  match mergeResults (arrived.map (Child.result cfg task)) kv task with
  | none => none
  | some res =>
      match res.outcome with
      | .error e => some ⟨.error e, res.kv, res.task⟩
      | .ok () => some ⟨.ok (), res.kv, ⟨true, (res.task.future.setResult (some true)).1⟩⟩

/-! ## What is asked -/

/-- The batches of the loop whose `setMulti` was called and failed, each with its keys. -/
def failedCalls (cfg : LoadConfig) (envs : Nat → Env) :
    Nat → Nat → BatchedDocumentGenerator PyValue → Loading n C → List (List String)
  | 0, _, _, _ => []
  | fuel + 1, round, gen, st =>
      if gen.hasNext && !st.task.future.done then
        let (keyVal, gen) := gen.nextBatch
        let st := { st with keyVal := keyVal }
        let failed := match (Loading.processValuesForCreate .loadDocuments (envs round) st).1,
            (envs round).setMulti with
          | .ok (), .error _ => [keyVal.keys]
          | _, _ => []
        match ((Loading.createBatchClient .loadDocuments (envs round)).seq
            (cacheItems cfg (envs round))) st with
        | (.error _, _) => failed
        | (.ok (), st) => failed ++ failedCalls cfg envs fuel (round + 1) gen st
      else []

/-- The batches of the child whose `setMulti` failed. -/
def Child.failed (n : Nat) [NeZero n] (cfg : LoadConfig) (task : TaskState C) (child : Child) :
    List (List String) :=
  match child.connect with
  | .error _ => []
  | .ok () => failedCalls (n := n) cfg child.envs (documentsLeft child.gen.docGen) 0 child.gen
      ⟨KVStore.new n PyValue, ∅, task⟩

/-- The key is valid in its partition. -/
def ValidIn (cfg : LoadConfig) (kv : KVStore n PyValue) (k : String) : Prop :=
  k ∈ (kv.part (KVStore.hash n k cfg.addr)).valid.keys

/-- **What is asked of the mode**: once a `setMulti` failed `result()` raises, and no key of a batch that
    failed is valid in the parent's store unless it was before. -/
structure ReachesParent (cfg : LoadConfig) (failed : List (List String)) (kv : KVStore n PyValue)
    (res : ModeResult n C) : Prop where
  raises : failed ≠ [] → ∃ e, res.task.future.outcome = some (.raised e)
  notValid : ∀ keys ∈ failed, ∀ k ∈ keys, ValidIn cfg res.kv k → ValidIn cfg kv k

/-! ## How a child ends, without its store -/

/-- How a batch ends. -/
inductive BatchEnd where
  /-- A value could not be processed; `setMulti` is not called. -/
  | unprocessed
  | loaded
  /-- `setMulti` failed, and `_create_batch_client` caught the exception. -/
  | noted
  /-- `setMulti` failed with another exception. -/
  | escaped
deriving DecidableEq, Repr

def batchEnd (env : Env) (batch : Dict String PyValue) : BatchEnd :=
  if ∀ d ∈ batch.items, (Loading.createValue .loadDocuments env d.1 d.2).isOk then
    match env.setMulti with
    | .ok () => .loaded
    | .error e => if Loading.caughtBySet e then .noted else .escaped
  else .unprocessed

/-- The keys a child caches, and its batches that fail. -/
def childEnds (envs : Nat → Env) :
    Nat → Nat → BatchedDocumentGenerator PyValue → List String × List (List String)
  | 0, _, _ => ([], [])
  | fuel + 1, round, gen =>
      if gen.hasNext then
        let (batch, gen) := gen.nextBatch
        match batchEnd (envs round) batch with
        | .unprocessed => ([], [])
        | .loaded =>
            let (cached, failed) := childEnds envs fuel (round + 1) gen
            (batch.keys ++ cached, failed)
        | .noted => (batch.keys, [batch.keys])
        | .escaped => ([], [batch.keys])
      else ([], [])

/-- `childEnds` of a child that opened its client on a task that is not done. -/
def Child.ends (task : TaskState C) (child : Child) : List String × List (List String) :=
  match child.connect with
  | .error _ => ([], [])
  | .ok () =>
      if task.future.done then ([], [])
      else childEnds child.envs (documentsLeft child.gen.docGen) 0 child.gen

/-- When failures reach the parent: there is none, or some child could not open its client and no key of a
    failed batch was cached by a child whose result arrived before that of the first such child. -/
def ReachesWhen (cfg : LoadConfig) (arrived : List Child) (kv : KVStore n PyValue) (task : TaskState C) :
    Prop :=
  (∀ child ∈ arrived, (child.ends task).2 = []) ∨
    ((∃ child ∈ arrived, child.connect ≠ .ok ()) ∧
      ∀ child ∈ arrived, ∀ keys ∈ (child.ends task).2, ∀ k ∈ keys, ValidIn cfg kv k ∨
        ∀ other ∈ arrived.takeWhile Child.connected, k ∉ (other.ends task).1)

/-! ## One batch -/

/-- `kv'` has the keys valid that `kv` has, and `keys` in their slots. -/
def Caches (cfg : LoadConfig) (keys : List String) (kv kv' : KVStore n PyValue) : Prop :=
  ∀ i k, k ∈ (kv'.part i).valid.keys ↔
    (k ∈ keys ∧ KVStore.hash n k cfg.addr = i) ∨ k ∈ (kv.part i).valid.keys

theorem Caches.refl (cfg : LoadConfig) (kv : KVStore n PyValue) : Caches cfg [] kv kv := by
  intro i k
  simp

theorem Caches.append {cfg : LoadConfig} {keys keys' : List String} {kv kv' kv'' : KVStore n PyValue}
    (h : Caches cfg keys kv kv') (h' : Caches cfg keys' kv' kv'') :
    Caches cfg (keys ++ keys') kv kv'' := by
  intro i k
  rw [h' i k, h i k, List.mem_append]
  tauto

theorem caches_of_loads {cfg : LoadConfig} {env : Env} {value : String × PyValue → PyValue}
    {batch : Dict String PyValue} {kv kv' : KVStore n PyValue}
    (h : KVStore.Loads (spec cfg env) (batch.items.map (storeDoc value)) kv kv') :
    Caches cfg batch.keys kv kv' := by
  intro i k
  rw [h.mem_valid_iff, map_fst_storeDoc]
  rfl

theorem processable_iff (env : Env) (batch : Dict String PyValue) :
    (∀ d ∈ batch.items, (Loading.createValue .loadDocuments env d.1 d.2).isOk = true) ↔
      ∀ k v, batch.get? k = some v → ∃ w, Loading.createValue .loadDocuments env k v = .ok w := by
  have hok : ∀ x : Except Exn PyValue, x.isOk = true ↔ ∃ w, x = .ok w := by
    intro x
    cases x <;> simp [Except.isOk, Except.toBool]
  simp only [hok, Dict.get?_eq_some_iff, Prod.forall]

omit [NeZero n] in
theorem kv_processValuesForCreate (kind : TaskKind) (env : Env) (st : Loading n C) :
    (Loading.processValuesForCreate kind env st).2.kv = st.kv := by
  have hkeeps : ∀ e, Keeps (fun s : Loading n C => s.kv = st.kv) (Loading.processForCreate kind env e) := by
    intro e s hs
    simp only [Loading.processForCreate]
    split <;> exact hs
  exact Keeps.forEach hkeeps st.keyVal.items st rfl

omit [NeZero n] in
/-- The processing of the values succeeds when every value can be processed. -/
theorem processValuesForCreate_ok_iff (env : Env) (st : Loading n C) :
    (Loading.processValuesForCreate .loadDocuments env st).1 = .ok () ↔
      ∀ d ∈ st.keyVal.items, (Loading.createValue .loadDocuments env d.1 d.2).isOk = true := by
  rw [processable_iff]
  rcases Loading.processValuesForCreate_spec .loadDocuments env st with ⟨hall, hok, -⟩ | ⟨hall, e, he, -⟩
  · exact iff_of_true hok hall
  · refine iff_of_false (fun hok => ?_) hall
    rw [hok] at he
    cases he

/-- One batch of a child, as a whole. -/
def childBatch (cfg : LoadConfig) (env : Env) : Prog (Loading n C) Exn :=
  (Loading.createBatchClient .loadDocuments env).seq (cacheItems cfg env)

/-- The four ends of a batch. -/
theorem batchEnd_cases (env : Env) (batch : Dict String PyValue) :
    let Processable := ∀ k v, batch.get? k = some v →
      ∃ w, Loading.createValue .loadDocuments env k v = .ok w
    (batchEnd env batch = .unprocessed ∧ ¬ Processable) ∨
    (batchEnd env batch = .loaded ∧ Processable ∧ env.setMulti = .ok ()) ∨
    (∃ e, batchEnd env batch = .noted ∧ Processable ∧ env.setMulti = .error e ∧
      Loading.caughtBySet e = true) ∨
    (∃ e, batchEnd env batch = .escaped ∧ Processable ∧ env.setMulti = .error e ∧
      Loading.caughtBySet e = false) := by
  intro Processable
  have hiff := processable_iff env batch
  unfold batchEnd
  by_cases hall : ∀ d ∈ batch.items, (Loading.createValue .loadDocuments env d.1 d.2).isOk = true
  · have hp : Processable := hiff.1 hall
    rw [if_pos hall]
    rcases hset : env.setMulti with e | u
    · rcases hc : Loading.caughtBySet e with _ | _
      · exact Or.inr (Or.inr (Or.inr ⟨e, by simp only [hc, Bool.false_eq_true, if_false], hp, rfl, hc⟩))
      · exact Or.inr (Or.inr (Or.inl ⟨e, by simp only [hc, if_true], hp, rfl, hc⟩))
    · exact Or.inr (Or.inl ⟨rfl, hp, rfl⟩)
  · rw [if_neg hall]
    exact Or.inl ⟨rfl, fun hp => hall (hiff.2 hp)⟩

/-- **One batch**: what it leaves in the child's store and in the copy of the task. -/
theorem childBatch_spec (cfg : LoadConfig) (env : Env) (st : Loading n C) :
    match batchEnd env st.keyVal with
    | .loaded => ∃ st', childBatch cfg env st = (.ok (), st') ∧ st'.task = st.task ∧
        Caches cfg st.keyVal.keys st.kv st'.kv
    | .noted => ∃ st', childBatch cfg env st = (.ok (), st') ∧ st'.task.future.done = true ∧
        Caches cfg st.keyVal.keys st.kv st'.kv
    | .unprocessed | .escaped => ∃ e st', childBatch cfg env st = (.error e, st') ∧ st'.kv = st.kv := by
  rcases batchEnd_cases env st.keyVal with ⟨hend, hall⟩ | ⟨hend, hall, hset⟩ | ⟨e, hend, hall, hset, hc⟩ |
    ⟨e, hend, hall, hset, hc⟩ <;> rw [hend] <;> dsimp only
  · rcases Loading.processValuesForCreate_spec .loadDocuments env st with ⟨hall', -⟩ | ⟨-, e, he, hun⟩
    · exact absurd hall' hall
    · have hp : Loading.processValuesForCreate .loadDocuments env st
          = (.error e, (Loading.processValuesForCreate .loadDocuments env st).2) := Prod.ext he rfl
      exact ⟨e, _, seq_of_error (createBatchClient_of_uncaught (seq_of_error hp) hun),
        kv_processValuesForCreate .loadDocuments env st⟩
  · obtain ⟨value, hvalue⟩ := exists_processes cfg hall
    obtain ⟨st', hrun, htask, hloads⟩ := childBatch_loads hset hvalue rfl
    exact ⟨st', hrun, htask, caches_of_loads hloads⟩
  · obtain ⟨value, hvalue⟩ := exists_processes cfg hall
    obtain ⟨w, hw⟩ := hvalue.exists_text
    obtain ⟨keyVal, hclient, hget⟩ := createBatchClient_failed hset hc fun d hd => (hw d hd).1
    obtain ⟨kv', hcache, hloads⟩ := cacheItems_loads env (fun d hd => (hw d hd).2) rfl hget
      st.kv (Loading.fail e { st with keyVal := keyVal }).task
    exact ⟨_, (seq_of_ok hclient).trans hcache, rfl, caches_of_loads hloads⟩
  · obtain ⟨value, hvalue⟩ := exists_processes cfg hall
    obtain ⟨w, hw⟩ := hvalue.exists_text
    obtain ⟨keyVal, hprocess, -⟩ := processValuesForCreate_eq fun d hd => (hw d hd).1
    have hseq : ((Loading.processValuesForCreate .loadDocuments env).seq
        (Loading.client env.setMulti)) st = (.error e, { st with keyVal := keyVal }) := by
      rw [seq_of_ok hprocess, hset]
      rfl
    exact ⟨e, _, seq_of_error (createBatchClient_of_uncaught hseq hc), rfl⟩

/-! ## The loop of a child -/

theorem generatorLoop_of_done (cfg : LoadConfig) (envs : Nat → Env) (fuel round : Nat)
    (gen : BatchedDocumentGenerator PyValue) {st : Loading n C} (h : st.task.future.done = true) :
    (generatorLoop cfg envs fuel round gen st).2 = st ∧ failedCalls cfg envs fuel round gen st = [] := by
  cases fuel with
  | zero => exact ⟨rfl, rfl⟩
  | succ fuel => simp [generatorLoop, failedCalls, h]

omit [NeZero n] in
/-- The call of `setMulti` that fails in a batch. -/
theorem failedCall_eq (env : Env) (st : Loading n C) :
    (match (Loading.processValuesForCreate .loadDocuments env st).1, env.setMulti with
      | .ok (), .error _ => [st.keyVal.keys]
      | _, _ => []) =
    match batchEnd env st.keyVal with
      | .noted | .escaped => [st.keyVal.keys]
      | .loaded | .unprocessed => [] := by
  have hok := processValuesForCreate_ok_iff env st
  rw [processable_iff] at hok
  rcases batchEnd_cases env st.keyVal with ⟨hend, hall⟩ | ⟨hend, hall, hset⟩ | ⟨e, hend, hall, hset, -⟩ |
    ⟨e, hend, hall, hset, -⟩ <;> rw [hend]
  · rcases hp : (Loading.processValuesForCreate .loadDocuments env st).1 with e | u
    · rfl
    · exact absurd (hok.1 hp) hall
  · rw [hset, hok.2 hall]
  · rw [hset, hok.2 hall]
  · rw [hset, hok.2 hall]

/-- **The loop of a child** caches the batches that loaded and the one whose failure was noted. -/
theorem generatorLoop_spec (cfg : LoadConfig) (envs : Nat → Env) (fuel round : Nat)
    (gen : BatchedDocumentGenerator PyValue) {st : Loading n C} (h : st.task.future.done = false) :
    Caches cfg (childEnds envs fuel round gen).1 st.kv (generatorLoop cfg envs fuel round gen st).2.kv ∧
      failedCalls cfg envs fuel round gen st = (childEnds envs fuel round gen).2 := by
  induction fuel generalizing round gen st with
  | zero => exact ⟨Caches.refl cfg st.kv, rfl⟩
  | succ fuel ih =>
      rcases hn : gen.hasNext with _ | _
      · simp only [generatorLoop, failedCalls, childEnds, hn, Bool.false_and, Bool.false_eq_true, if_false]
        exact ⟨Caches.refl cfg st.kv, trivial⟩
      · have hspec := childBatch_spec cfg (envs round) { st with keyVal := gen.nextBatch.1 }
        have hcall := failedCall_eq (envs round) { st with keyVal := gen.nextBatch.1 }
        simp only [generatorLoop, failedCalls, childEnds, hn, h, Bool.not_false, Bool.and_self, if_true]
        rcases hend : batchEnd (envs round) gen.nextBatch.1 with _ | _ | _ | _
        · simp only [hend, childBatch] at hspec hcall
          obtain ⟨e, st', hrun, hkv⟩ := hspec
          simp only [hrun, hcall]
          exact ⟨hkv ▸ Caches.refl cfg st.kv, trivial⟩
        · simp only [hend, childBatch] at hspec hcall
          obtain ⟨st', hrun, htask, hcaches⟩ := hspec
          simp only [hrun, hcall]
          obtain ⟨hrest, hfailed⟩ := ih (round + 1) gen.nextBatch.2 (htask ▸ h)
          exact ⟨hcaches.append hrest, hfailed⟩
        · simp only [hend, childBatch] at hspec hcall
          obtain ⟨st', hrun, hdone, hcaches⟩ := hspec
          obtain ⟨hstop, hnone⟩ := generatorLoop_of_done cfg envs fuel (round + 1) gen.nextBatch.2 hdone
          simp only [hrun, hcall, hstop, hnone, List.append_nil]
          exact ⟨hcaches, trivial⟩
        · simp only [hend, childBatch] at hspec hcall
          obtain ⟨e, st', hrun, hkv⟩ := hspec
          simp only [hrun, hcall]
          exact ⟨hkv ▸ Caches.refl cfg st.kv, trivial⟩

/-- A child: the keys valid in its store and its failed batches. -/
theorem Child.finish_spec (cfg : LoadConfig) (task : TaskState C) {child : Child}
    (hconnect : child.connect = .ok ()) :
    Caches cfg (child.ends task).1 (KVStore.new n PyValue) (child.finish cfg task).kv ∧
      child.failed n cfg task = (child.ends task).2 := by
  unfold Child.ends Child.failed Child.finish
  rw [hconnect]
  rcases hd : task.future.done with _ | _
  · exact generatorLoop_spec cfg child.envs _ 0 child.gen hd
  · have hd' : (⟨KVStore.new n PyValue, ∅, task⟩ : Loading n C).task.future.done = true := hd
    obtain ⟨hstop, hnone⟩ :=
      generatorLoop_of_done cfg child.envs (documentsLeft child.gen.docGen) 0 child.gen hd'
    simp only [hstop, hnone, if_true]
    exact ⟨Caches.refl cfg _, trivial⟩

theorem Child.failed_eq (n : Nat) [NeZero n] (cfg : LoadConfig) (task : TaskState C) (child : Child) :
    child.failed n cfg task = (child.ends task).2 := by
  rcases hconnect : child.connect with e | u
  · simp only [Child.failed, Child.ends, hconnect]
  · exact (child.finish_spec cfg task hconnect).2

/-! ## The parent -/

/-- Merging a child's store makes its valid keys valid. -/
theorem caches_of_merge {cfg : LoadConfig} {keys : List String} {kv child merged : KVStore n PyValue}
    (hchild : Caches cfg keys (KVStore.new n PyValue) child)
    (hmerge : kv.mergePartitions child.getPartitions = some merged) : Caches cfg keys kv merged := by
  obtain ⟨kv', hkv', -, -, hpart⟩ :=
    KVStore.mergePartitions_of_free child.getPartitions (KVStore.free_of_mergePartitions hmerge)
  rw [hmerge, Option.some.injEq] at hkv'
  subst hkv'
  intro i k
  have hnew : k ∉ ((KVStore.new n PyValue).part i).valid.keys := by
    simp [KVStore.new, KVStore.part, Partition.new]
  have hin := hchild i k
  rw [or_iff_left hnew] at hin
  rw [← hin, hpart i]
  simp only [Partition.merge, Dict.mem_keys_iff, Dict.get?_update, Option.isSome_or, Bool.or_eq_true]
  rfl

/-- **Emptying the queue**: the keys cached by the children before the first one without a client become
    valid, and the exception of that one is noted. -/
theorem mergeResults_spec (cfg : LoadConfig) (task : TaskState C) (arrived : List Child)
    {kv : KVStore n PyValue} {res : ModeResult n C}
    (h : mergeResults (arrived.map (Child.result cfg task)) kv task = some res) :
    res.outcome = .ok () ∧
    Caches cfg ((arrived.takeWhile Child.connected).flatMap fun child => (child.ends task).1) kv res.kv ∧
    ((∀ child ∈ arrived, child.connect = .ok ()) ∧ res.task = task ∨
      (∃ child ∈ arrived, child.connect ≠ .ok ()) ∧
        ∃ e, res.task.future = (task.future.setException e).1) := by
  induction arrived generalizing kv with
  | nil =>
      simp only [List.map_nil, mergeResults, Option.some.injEq] at h
      subst h
      exact ⟨rfl, Caches.refl cfg kv, Or.inl ⟨by simp, rfl⟩⟩
  | cons child rest ih =>
      rcases hconnect : child.connect with e | u
      · have hresult : child.result (n := n) cfg task = .error e := by
          simp only [Child.result, runGenerator, hconnect]
        have hnot : child.connected = false := by rw [Child.connected, hconnect]; rfl
        simp only [List.map_cons, hresult, mergeResults, Option.some.injEq] at h
        subst h
        have hraised : child.connect ≠ .ok () := by
          rw [hconnect]
          intro hok
          cases hok
        refine ⟨rfl, ?_, Or.inr ⟨⟨child, List.mem_cons_self, hraised⟩, e, rfl⟩⟩
        rw [List.takeWhile_cons, hnot]
        exact Caches.refl cfg kv
      · have hresult : child.result (n := n) cfg task = .ok (child.finish cfg task).kv.getPartitions := by
          simp only [Child.result, runGenerator, hconnect, Child.finish]
        have hyes : child.connected = true := by rw [Child.connected, hconnect]; rfl
        simp only [List.map_cons, hresult, mergeResults] at h
        split at h
        · cases h
        · next merged hmerge =>
            obtain ⟨hout, hcaches, htask⟩ := ih h
            refine ⟨hout, ?_, ?_⟩
            · rw [List.takeWhile_cons, hyes, if_pos rfl, List.flatMap_cons]
              exact (caches_of_merge (child.finish_spec cfg task hconnect).1 hmerge).append hcaches
            · rcases htask with ⟨hall, htask⟩ | ⟨⟨other, hmem, hother⟩, e, htask⟩
              · refine Or.inl ⟨fun c hc => ?_, htask⟩
                rcases List.mem_cons.1 hc with rfl | hc
                · exact hconnect
                · exact hall c hc
              · exact Or.inr ⟨⟨other, List.mem_cons_of_mem _ hmem, hother⟩, e, htask⟩

/-! ## The task's future -/

/-- A future that is not done holds no exception. -/
theorem exception_of_not_done (calls : List (Future.Call Bool Exn C))
    (h : (Future.run calls).future.done = false) : (Future.run calls).future.exception = none := by
  have hstep : ∀ (f : Future Bool Exn C) (call : Future.Call Bool Exn C), (f.apply call).1.done = false →
      f.done = false ∧ (f.apply call).1.exception = f.exception := by
    rintro ⟨state, result, exception, callbacks⟩ call
    cases call <;> cases state <;>
      simp [Future.apply, Future.done, Future.addDoneCallback, Future.cancel,
        Future.setRunningOrNotifyCancel, Future.setResult, Future.setException,
        Future.resultTimingOut, Future.exceptionTimingOut, Future.outcome]
  induction calls using List.reverseRecOn with
  | nil => rfl
  | append_singleton calls call ih =>
      rw [Future.run_snoc] at h ⊢
      obtain ⟨hd, hx⟩ := hstep (Future.run calls).future call h
      exact hx.trans (ih hd)

/-- `set_result(True)` does not hide an exception that was noted before. -/
theorem outcome_setResult (f : Future Bool Exn C) :
    (f.setResult (some true)).1.outcome = some (match f.exception with
      | some e => .raised e
      | none => .returned (some true)) := by
  rcases hx : f.exception with _ | e <;>
    simp [Future.outcome, Future.setResult, Future.getResult, Future.raisable, hx, Truthy.truthy,
      Option.filter]

/-- A child that fails a batch works on a task that is not done. -/
theorem Child.not_done_of_failed {task : TaskState C} {child : Child} (h : (child.ends task).2 ≠ []) :
    task.future.done = false := by
  rcases hd : task.future.done with _ | _
  · rfl
  · refine absurd ?_ h
    unfold Child.ends
    rw [hd]
    split <;> rfl

/-- What the run leaves behind: the keys cached by the children before the first one without a client are
    valid, and `result()` raises when there is such a child. -/
theorem run_spec {cfg : LoadConfig} {arrived : List Child} {kv : KVStore n PyValue} {task : TaskState C}
    {res : ModeResult n C} (hres : run cfg arrived kv task = some res) :
    Caches cfg ((arrived.takeWhile Child.connected).flatMap fun child => (child.ends task).1) kv res.kv ∧
    ((∃ child ∈ arrived, child.connect ≠ .ok ()) →
      ∃ e, res.task.future.outcome = some (.raised e)) ∧
    ((∀ child ∈ arrived, child.connect = .ok ()) → task.future.exception = none →
      res.task.future.outcome = some (.returned (some true))) := by
  unfold run at hres
  split at hres
  · cases hres
  · next mode hmode =>
      obtain ⟨hout, hcaches, htask⟩ := mergeResults_spec cfg task arrived hmode
      rw [hout] at hres
      dsimp only at hres
      cases hres
      refine ⟨hcaches, ?_, ?_⟩
      · rintro ⟨child, hmem, hchild⟩
        rcases htask with ⟨hall, -⟩ | ⟨-, e, he⟩
        · exact absurd (hall child hmem) hchild
        · refine ⟨e, ?_⟩
          rw [outcome_setResult, he]
          rfl
      · intro hall hx
        rcases htask with ⟨-, htask⟩ | ⟨⟨child, hmem, hchild⟩, -⟩
        · rw [outcome_setResult, htask, hx]
        · exact absurd (hall child hmem) hchild

/-- With no lock held every merge goes through. -/
theorem exists_run (cfg : LoadConfig) (arrived : List Child) {kv : KVStore n PyValue} (hfree : kv.Free)
    (task : TaskState C) : ∃ res, run cfg arrived kv task = some res := by
  have hmerge : ∀ (results : List (Except Exn (Fin n → Partition PyValue))) (kv : KVStore n PyValue),
      kv.Free → ∃ mode, mergeResults results kv task = some mode := by
    intro results
    induction results with
    | nil => exact fun kv _ => ⟨_, rfl⟩
    | cons result rest ih =>
        intro kv hfree
        cases result with
        | error e => exact ⟨_, rfl⟩
        | ok partitions =>
            obtain ⟨merged, hmerged, hfree', -, -⟩ := KVStore.mergePartitions_of_free partitions hfree
            obtain ⟨mode, hmode⟩ := ih merged hfree'
            exact ⟨mode, by simp only [mergeResults, hmerged, hmode]⟩
  obtain ⟨mode, hmode⟩ := hmerge (arrived.map (Child.result cfg task)) kv hfree
  simp only [run, hmode]
  split <;> exact ⟨_, rfl⟩

/-- **When failures reach the parent.** -/
theorem reachesParent_iff (cfg : LoadConfig) (quotient : Int → ℕ+ → Int) (processConcurrency : ℕ+)
    (batchSize : Nat) (hbatch : 0 < batchSize) (gens : List (KVGenerator PyValue))
    (arrival : Arrival (allParts quotient processConcurrency batchSize hbatch gens))
    (kv : KVStore n PyValue) (finished : Bool) (calls : List (Future.Call Bool Exn C))
    (res : ModeResult n C)
    (hres : run cfg arrival.children kv ⟨finished, (Future.run calls).future⟩ = some res) :
    ReachesParent cfg
        (arrival.children.flatMap (Child.failed n cfg ⟨finished, (Future.run calls).future⟩)) kv res ↔
      ReachesWhen cfg arrival.children kv ⟨finished, (Future.run calls).future⟩ := by
  obtain ⟨hcaches, hraises, hreturns⟩ := run_spec hres
  have hfresh := exception_of_not_done calls
  have hfailed : ∀ keys, keys ∈ arrival.children.flatMap
      (Child.failed n cfg ⟨finished, (Future.run calls).future⟩) ↔
      ∃ child ∈ arrival.children,
        keys ∈ (child.ends (⟨finished, (Future.run calls).future⟩ : TaskState C)).2 := by
    intro keys
    simp only [List.mem_flatMap, Child.failed_eq]
  constructor
  · rintro ⟨hr, hvalid⟩
    by_cases hnone : ∀ child ∈ arrival.children,
        (child.ends (⟨finished, (Future.run calls).future⟩ : TaskState C)).2 = []
    · exact Or.inl hnone
    · -- some batch failed, so `result()` raises, and only a missing client makes it do so
      obtain ⟨child, hchild⟩ := not_forall.1 hnone
      obtain ⟨hmem, hne⟩ := Classical.not_imp.1 hchild
      obtain ⟨keys, hkeys⟩ := List.exists_mem_of_ne_nil _ hne
      obtain ⟨e, he⟩ := hr (List.ne_nil_of_mem ((hfailed keys).2 ⟨child, hmem, hkeys⟩))
      refine Or.inr ⟨?_, fun c hc ks hks k hk => ?_⟩
      · by_contra hall
        push Not at hall
        rw [hreturns hall (hfresh (Child.not_done_of_failed hne))] at he
        cases he
      · by_cases hbefore : ValidIn cfg kv k
        · exact Or.inl hbefore
        · refine Or.inr fun other hother hcached => hbefore ?_
          refine hvalid ks ((hfailed ks).2 ⟨c, hc, hks⟩) k hk ?_
          exact (hcaches _ k).2 (Or.inl ⟨List.mem_flatMap.2 ⟨other, hother, hcached⟩, rfl⟩)
  · rintro (hnone | ⟨hmissing, hkeys⟩)
    · have hnil : ∀ keys, keys ∉ arrival.children.flatMap
          (Child.failed n cfg ⟨finished, (Future.run calls).future⟩) := by
        intro keys hmem
        obtain ⟨child, hchild, hin⟩ := (hfailed keys).1 hmem
        rw [hnone child hchild] at hin
        cases hin
      refine ⟨?_, fun keys hmem => absurd hmem (hnil keys)⟩
      intro hne
      obtain ⟨keys, hmem⟩ := List.exists_mem_of_ne_nil _ hne
      exact absurd hmem (hnil keys)
    · refine ⟨fun _ => hraises hmissing, ?_⟩
      intro keys hmem k hk hafter
      obtain ⟨child, hchild, hin⟩ := (hfailed keys).1 hmem
      rcases hkeys child hchild keys hin k hk with hbefore | hout
      · exact hbefore
      · rcases (hcaches _ k).1 hafter with ⟨hcached, -⟩ | hbefore
        · obtain ⟨other, hother, hin'⟩ := List.mem_flatMap.1 hcached
          exact absurd hin' (hout other hother)
        · exact hbefore

/-! ## Eight documents -/

/-- A generator of `k0` to `k7`. -/
def eightDocuments : KVGenerator PyValue :=
  ⟨0, 8, 0, fun i => ("k" ++ toString i, .str "\x7b\"mutated\": 0\x7d"), false⟩

/-- Every `setMulti` fails with an exception that is caught. -/
def refusing : Env := { succeeding with setMulti := .error .socketError }

/-- One child for each part; their results arrive in the order of the parts. -/
def inOrder (parts : List (BatchedDocumentGenerator PyValue)) (connect : Nat → Except Exn Unit) :
    Arrival parts where
  children := parts.mapIdx fun i gen => ⟨gen, connect i, fun _ => refusing⟩
  perm := by
    refine List.Perm.of_eq (List.ext_getElem? fun i => ?_)
    rw [List.getElem?_map, List.getElem?_mapIdx]
    cases parts[i]? <;> rfl

/-- Four parts of two documents, each part one batch. -/
def fourParts : List (BatchedDocumentGenerator PyValue) :=
  allParts (fun a b => a / b) (Nat.succPNat 3) 2 Nat.two_pos [eightDocuments]

/-- A task nobody called anything on. -/
def newTask : TaskState Unit := ⟨false, (Future.run []).future⟩

/-- The first child cannot open its client and its result arrives first: the failures of the other ones
    do no harm. -/
theorem reachesParent_iff_no_client : ∃ res : ModeResult 1000 Unit,
    let arrival := inOrder fourParts fun i => if i = 0 then .error .socketError else .ok ()
    run plainCreate arrival.children (KVStore.new 1000 PyValue) newTask = some res ∧
    ReachesParent plainCreate (arrival.children.flatMap (Child.failed 1000 plainCreate newTask))
      (KVStore.new 1000 PyValue) res := by
  obtain ⟨res, hres⟩ := exists_run plainCreate
    (inOrder fourParts fun i => if i = 0 then .error .socketError else .ok ()).children
    (KVStore.free_new 1000 PyValue) newTask
  have hfirst : (Except.error .socketError : Except Exn Unit) ≠ .ok () := by simp
  refine ⟨res, hres, (reachesParent_iff plainCreate _ (Nat.succPNat 3) 2 Nat.two_pos [eightDocuments]
    (inOrder fourParts fun i => if i = 0 then .error .socketError else .ok ())
    (KVStore.new 1000 PyValue) false [] res hres).2 (Or.inr ⟨⟨_, List.mem_cons_self, hfirst⟩, ?_⟩)⟩
  intro child _ keys _ k _
  exact Or.inr fun other hother => absurd hother List.not_mem_nil

/-- Every child opens its client and is refused: `result()` does not raise. -/
theorem refused_batches_do_not_reach_parent : ∃ res : ModeResult 1000 Unit,
    let arrival := inOrder fourParts fun _ => .ok ()
    run plainCreate arrival.children (KVStore.new 1000 PyValue) newTask = some res ∧
    ¬ ReachesParent plainCreate (arrival.children.flatMap (Child.failed 1000 plainCreate newTask))
      (KVStore.new 1000 PyValue) res := by
  obtain ⟨res, hres⟩ := exists_run plainCreate (inOrder fourParts fun _ => .ok ()).children
    (KVStore.free_new 1000 PyValue) newTask
  refine ⟨res, hres, fun h => ?_⟩
  obtain ⟨e, he⟩ := h.raises (by decide +kernel)
  have hreturns := (run_spec hres).2.2 (fun child hchild => ?_) rfl
  · rw [hreturns] at he
    cases he
  · obtain ⟨i, hi, rfl⟩ := List.mem_mapIdx.1 hchild
    rfl

end Throughput

end TestInfra
