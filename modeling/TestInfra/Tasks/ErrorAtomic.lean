import TestInfra.Tasks.Unlocked
import TestInfra.Tasks.ThroughputAgree

set_option autoImplicit false

/-! # What a failed operation leaves behind

An operation of a loading task is **atomic** when the entry of every key whose client write did not
succeed stays as it was, and when a read phase that notes an exception is not followed by any write. Lazy
expiry does not count: looking at a key may move a lapsed entry to the deleted side.

`Operation` is one call of one of the seven operations with all it gets from the outside, and `effect` is
what the call does to the store and to the server. `atomic_iff` says which calls are atomic. -/

namespace TestInfra

open Raises Raises.Prog

/-! ## The entry of a key -/

/-- What a partition holds for a key: the valid entry and the value it was deleted with. -/
abbrev Held (V : Type*) := Option (Entry V) × Option V

/-- A look at the key: a lapsed entry moves to the deleted side. -/
def Held.expire {V : Type*} (now : Int) (h : Held V) : Held V :=
  match h.1 with
  | some e => if e.Lapsed now then (none, some e.value) else h
  | none => h

theorem Held.expire_expire {V : Type*} (now : Int) (h : Held V) :
    (h.expire now).expire now = h.expire now := by
  obtain ⟨entry, deleted⟩ := h
  cases entry with
  | none => rfl
  | some e => by_cases hl : e.Lapsed now <;> simp [Held.expire, hl]

/-- The entry is as it was, up to a look at the key. -/
def Held.Same {V : Type*} (now : Int) (before after : Held V) : Prop :=
  after = before ∨ after = before.expire now

namespace Held.Same

variable {V : Type*} {now : Int} {a b c : Held V}

theorem refl (now : Int) (a : Held V) : Same now a a := Or.inl rfl

theorem trans (hab : Same now a b) (hbc : Same now b c) : Same now a c := by
  rcases hab with rfl | rfl
  · exact hbc
  · rcases hbc with rfl | rfl
    · exact Or.inr rfl
    · exact Or.inr (expire_expire now a)

end Held.Same

namespace Partition

variable {V : Type*}

def held (p : Partition V) (k : String) : Held V := (p.valid.get? k, p.deleted.get? k)

theorem held_set (now : Int) (key : String) (value : V) (exp flag : Int) (p : Partition V)
    (k : String) :
    (p.set now key value exp flag).held k
      = if k = key then (some ⟨value, if exp ≠ 0 then now + exp else exp, flag⟩, none)
        else p.held k := by
  by_cases hk : k = key <;> simp [held, set, hk]

theorem held_delete_of_ne (now : Int) {key k : String} (p : Partition V) (hk : k ≠ key) :
    (p.delete now key).held k = p.held k := by
  unfold delete
  split
  · simp [held, hk]
  · rfl

theorem held_expireKey (now : Int) (key : String) (p : Partition V) (k : String) :
    (p.expireKey now key).held k = if k = key then (p.held k).expire now else p.held k := by
  unfold expireKey
  by_cases hk : k = key
  · subst hk
    rw [if_pos rfl]
    cases hv : p.valid.get? k with
    | none => simp [held, Held.expire, hv]
    | some e => by_cases hl : e.Lapsed now <;> simp [held, Held.expire, hv, hl]
  · rw [if_neg hk]
    split
    · split
      · simp [held, hk]
      · rfl
    · rfl

/-- Looking at a key leaves every key the same. -/
theorem same_expireKey (now : String → Int) (key : String) (p : Partition V) (k : String) :
    Held.Same (now k) (p.held k) ((p.expireKey (now key) key).held k) := by
  rw [held_expireKey]
  by_cases hk : k = key
  · subst hk
    rw [if_pos rfl]
    exact Or.inr rfl
  · rw [if_neg hk]
    exact Or.inl rfl

end Partition

/-! ## Effects -/

/-- What an operation did: the partitions before and after, the keys whose client write succeeded, whether
    the read phase of an update or an append gave an exception to `set_exception`, and the clock a look at
    a key saw. -/
structure Effect (n : Nat) where
  before : Fin n → Partition PyValue
  after : Fin n → Partition PyValue
  written : List String
  readFailed : Bool
  clock : String → Int

namespace Effect

variable {n : Nat}

/-- Every key but those of `written` is as it was. -/
def Keeps (eff : Effect n) (written : List String) : Prop :=
  ∀ i, ∀ k ∉ written, Held.Same (eff.clock k) ((eff.before i).held k) ((eff.after i).held k)

structure Atomic (eff : Effect n) : Prop where
  unwritten : eff.Keeps eff.written
  read : eff.readFailed = true → eff.written = [] ∧ eff.Keeps []

/-- An operation whose read phase did not fail has only its unwritten keys to keep. -/
theorem atomic_of_keeps {eff : Effect n} (h : eff.Keeps eff.written) (hread : eff.readFailed = false) :
    eff.Atomic :=
  ⟨h, fun hfail => by rw [hread] at hfail; cases hfail⟩

end Effect

/-! ## The operations -/

/-- One call of an operation with what it gets from the outside. A `setMulti` that fails may have stored
    some of its keys before: `wrote` says which. -/
inductive Operation (n : Nat) (C : Type*) where
  | create (env : Env) (isBase64 : Bool) (i : Fin n) (key : String) (value : PyValue)
      (st : Loading n C)
  | update (env : UnlockedEnv) (kv : KVStore n PyValue) (i : Fin n) (key : String) (finished : Bool)
      (future : Future Bool ClientError C)
  | append (env : UnlockedEnv) (kv : KVStore n PyValue) (i : Fin n) (key : String) (value : PyValue)
      (finished : Bool) (future : Future Bool ClientError C)
  | delete (env : UnlockedEnv) (kv : KVStore n PyValue) (i : Fin n) (key : String) (finished : Bool)
      (future : Future Bool ClientError C)
  | createBatch (kind : TaskKind) (env : Env) (wrote : String → Bool) (st : Loading n C)
  | updateBatch (env : Env) (wrote : String → Bool) (st : Loading n C)
  | deleteBatch (env : Env) (st : Loading n C)

namespace Operation

variable {n : Nat} [NeZero n] {C : Type*}

/-- The keys of the batch that `setMulti` stored. -/
def setKeys (env : Env) (wrote : String → Bool) (keyVal : Dict String PyValue) : List String :=
  match env.setMulti with
  | .ok () => keyVal.keys
  | .error _ => keyVal.keys.filter wrote

/-- The keys `setMulti` stored after the values were processed by `process`; a value that could not be
    processed keeps it from being called. -/
def batchWritten (env : Env) (wrote : String → Bool) (process : Prog (Loading n C) Exn)
    (st : Loading n C) : List String :=
  match process st with
  | (.ok (), st) => setKeys env wrote st.keyVal
  | (.error _, _) => []

/-- The keys `_delete_batch` deleted at the client. -/
def clientDeletes (env : Env) : List (Fin n × String) → Loading n C → List String
  | [], _ => []
  | (i, key) :: rest, st =>
      match env.delete key with
      | .ok () =>
          let p := (st.kv.part i).delete (env.readClock key) key
          key :: clientDeletes env rest { st with kv := st.kv.setPartition i p }
      | .error (.memcachedError status) =>
          if status = errNotFound then
            let (value, st) := st.getValid (env.readClock key) i key
            match value with
            | none => clientDeletes env rest st
            | some _ => []
          else []
      | .error e => if Loading.caughtByDelete e then clientDeletes env rest (st.fail e) else []

/-- `partition_keys_dic` of the batch. -/
def keysDic (cfg : LoadConfig) (st : Loading n C) : Dict (Fin n) (List String) :=
  KVStore.groupKeys n cfg.addr st.keyVal.keys

/-- The effect of an operation on one partition that ended in `st`. -/
def unlockedEffect (env : UnlockedEnv) (kv : KVStore n PyValue) (i : Fin n) (readFailed : Bool)
    (st : Unlocked C) : Effect n :=
  ⟨kv.part, (kv.setPartition i st.partition).part, st.sent.map ServerWrite.key, readFailed,
    fun _ => env.readClock⟩

/-- What the call does. -/
def effect (cfg : LoadConfig) : Operation n C → Effect n
  | create env isBase64 i key value st =>
      let written := match Throughput.createValueSingle env isBase64 key value, env.set with
        | .ok _, .ok () => [key]
        | _, _ => []
      ⟨st.kv.part, (Throughput.unlockedCreate cfg env isBase64 i key value st).2.kv.part, written, false,
        env.readClock⟩
  | update env kv i key finished future =>
      let st : Unlocked C := ⟨kv.part i, finished, future, []⟩
      unlockedEffect env kv i (Unlocked.readForUpdate env key st).1.recorded.isSome
        (Unlocked.unlockedUpdate cfg env key st).2
  | append env kv i key value finished future =>
      let st : Unlocked C := ⟨kv.part i, finished, future, []⟩
      unlockedEffect env kv i (Unlocked.readForAppend env key value st).1.recorded.isSome
        (Unlocked.unlockedAppend cfg env key value st).2
  | delete env kv i key finished future =>
      unlockedEffect env kv i false
        (Unlocked.unlockedDelete env key ⟨kv.part i, finished, future, []⟩)
  | createBatch kind env wrote st =>
      ⟨st.kv.part, (Loading.createBatch kind cfg env (keysDic cfg st) st).2.kv.part,
        batchWritten env wrote (Loading.processValuesForCreate kind env) st, false, env.readClock⟩
  | updateBatch env wrote st =>
      let process : Prog (Loading n C) Exn := Loading.processValuesForUpdate env (keysDic cfg st)
      let readFailed := match (process st).1 with
        | .error e => Loading.caughtBySet e
        | .ok () => false
      ⟨st.kv.part, (Loading.updateBatch cfg env (keysDic cfg st) st).2.kv.part,
        batchWritten env wrote process st, readFailed, env.readClock⟩
  | deleteBatch env st =>
      ⟨st.kv.part, (Loading.deleteBatch env (keysDic cfg st) st).2.kv.part,
        clientDeletes env (Loading.slotKeys (keysDic cfg st)) st, false, env.readClock⟩

/-! ## When an operation is atomic -/

/-- The exceptions the last handler of a read phase is for. -/
def fallsThrough : ClientError → Bool
  | .raised (.memcachedError _) | .raised .valueError => false
  | _ => true

/-- The read phase ends in the handler that has no `return`. -/
def Tried.FallsThrough {A : Type} (t : Tried A) : Prop :=
  ∃ e vars, t = .raises e vars ∧ fallsThrough e = true

/-- What `_populate_kvstore` puts under the key once its value is processed. -/
def populated (cfg : LoadConfig) (env : Env) (key : String) (value : PyValue) :
    Except Exn (Held PyValue) :=
  (Loading.createValue .loadDocuments env key value >>= Loading.storedValue cfg).map fun stored =>
    (some ⟨stored, if cfg.exp ≠ 0 then env.setClock key + cfg.exp else cfg.exp, cfg.flag⟩, none)

/-- When the call is atomic. An update and an append go on after an exception they noted, so their write
    has to fail too. `GenericLoadingTask._create_batch` fills the store after a failed `setMulti`, so the
    store must hold already what is put into it. -/
def AtomicWhen (cfg : LoadConfig) : Operation n C → Prop
  | update env _ _ _ _ _ => Tried.FallsThrough (Unlocked.tryUpdate env) → ∃ e, env.set = .error e
  | append env _ _ _ value _ _ =>
      Tried.FallsThrough (Unlocked.tryAppend env value) → ∃ e, env.append = .error e
  | createBatch .loadDocuments env wrote st =>
      (∃ e, env.setMulti = .error e ∧ Loading.caughtBySet e = true) →
      (∀ k v, st.keyVal.get? k = some v → ∃ w, Loading.createValue .loadDocuments env k v = .ok w) →
      ∀ k v, st.keyVal.get? k = some v → wrote k = false →
        populated cfg env k v = .ok ((st.kv.part (KVStore.hash n k cfg.addr)).held k)
  | _ => True

/-! ## Two phases on one partition -/

/-- What a read phase does. `falls` is that it ends in the handler that has no `return`. -/
structure ReadPhase {A : Type} (env : UnlockedEnv) (falls : Prop) (st : Unlocked C)
    (res : ReadEnd A × Unlocked C) : Prop where
  sent : res.2.sent = st.sent
  same : ∀ k, Held.Same env.readClock (st.partition.held k) (res.2.partition.held k)
  returns : res.1.recorded.isSome = true → ¬ falls → res.1.next = .returns
  goesOn : falls → res.1.recorded.isSome = true ∧ ∃ a, res.1.next = .goesOn a

/-- What a write phase does, given the outcome of its client call. -/
structure WritePhase (env : UnlockedEnv) (outcome : Except ClientError Unit) (key : String)
    (st st' : Unlocked C) : Prop where
  failed : ∀ e, outcome = .error e → st'.sent = st.sent ∧
    ∀ k, Held.Same env.readClock (st.partition.held k) (st'.partition.held k)
  succeeded : outcome = .ok () → st'.sent.map ServerWrite.key = st.sent.map ServerWrite.key ++ [key] ∧
    ∀ k ≠ key, st'.partition.held k = st.partition.held k

omit [NeZero n] in
theorem keeps_unlockedEffect (env : UnlockedEnv) (kv : KVStore n PyValue) (i : Fin n) (readFailed : Bool)
    {st : Unlocked C} {written : List String}
    (h : ∀ k ∉ written, Held.Same env.readClock ((kv.part i).held k) (st.partition.held k)) :
    (unlockedEffect env kv i readFailed st).Keeps written := by
  intro j k hk
  simp only [unlockedEffect, KVStore.part_setPartition]
  split
  · next hj =>
      subst hj
      exact h k hk
  · exact Held.Same.refl _ _

omit [NeZero n] in
theorem atomic_phases_iff {A : Type} (env : UnlockedEnv) (kv : KVStore n PyValue) (i : Fin n)
    {outcome : Except ClientError Unit} {key : String} {falls : Prop} {finished : Bool}
    {future : Future Bool ClientError C} {read : Unlocked C → ReadEnd A × Unlocked C}
    {write : A → Unlocked C → Unlocked C}
    (hread : ReadPhase env falls ⟨kv.part i, finished, future, []⟩
      (read ⟨kv.part i, finished, future, []⟩))
    (hwrite : ∀ a st, WritePhase env outcome key st (write a st)) :
    (unlockedEffect env kv i (read ⟨kv.part i, finished, future, []⟩).1.recorded.isSome
        (Unlocked.phases read write ⟨kv.part i, finished, future, []⟩).2).Atomic ↔
      (falls → ∃ e, outcome = .error e) := by
  obtain ⟨hsent, hsame, hreturns, hgoesOn⟩ := hread
  simp only [Unlocked.phases]
  generalize read ⟨kv.part i, finished, future, []⟩ = res at hsent hsame hreturns hgoesOn
  obtain ⟨⟨recorded, next⟩, st⟩ := res
  dsimp only at hsent hsame hreturns hgoesOn ⊢
  have hkeeps : ∀ readFailed written, (unlockedEffect env kv i readFailed st).Keeps written :=
    fun _ _ => keeps_unlockedEffect env kv i _ fun k _ => hsame k
  cases next with
  | returns =>
      refine ⟨fun _ hfalls => ?_, fun _ => ⟨hkeeps _ _, fun _ => ⟨?_, hkeeps _ _⟩⟩⟩
      · obtain ⟨-, a, ha⟩ := hgoesOn hfalls
        cases ha
      · simp only [unlockedEffect, hsent, List.map_nil]
  | raises e =>
      refine ⟨fun _ hfalls => ?_, fun _ => ⟨hkeeps _ _, fun _ => ⟨?_, hkeeps _ _⟩⟩⟩
      · obtain ⟨-, a, ha⟩ := hgoesOn hfalls
        cases ha
      · simp only [unlockedEffect, hsent, List.map_nil]
  | goesOn a =>
      have hw := hwrite a st
      cases houtcome : outcome with
      | error e =>
          -- nothing is written, whatever the read phase did
          obtain ⟨hsent', hpart⟩ := hw.failed e houtcome
          have hkept := fun k => (hsame k).trans (hpart k)
          refine ⟨fun _ _ => ⟨e, rfl⟩, fun _ => ⟨?_, fun _ => ⟨?_, ?_⟩⟩⟩
          · exact keeps_unlockedEffect env kv i _ fun k _ => hkept k
          · simp only [unlockedEffect, hsent', hsent, List.map_nil]
          · exact keeps_unlockedEffect env kv i _ fun k _ => hkept k
      | ok u =>
          obtain ⟨hsent', hother⟩ := hw.succeeded houtcome
          rw [hsent, List.map_nil, List.nil_append] at hsent'
          constructor
          · intro hatomic hfalls
            have hnil := (hatomic.read (hgoesOn hfalls).1).1
            simp only [unlockedEffect, hsent'] at hnil
            cases hnil
          · intro hfails
            have hnot : ¬ falls := fun hfalls => by
              obtain ⟨e, he⟩ := hfails hfalls
              cases he
            refine ⟨?_, ?_⟩
            · refine keeps_unlockedEffect env kv i _ fun k hk => ?_
              simp only [unlockedEffect, hsent', List.mem_singleton] at hk
              rw [hother k hk]
              exact hsame k
            · intro hfail
              cases hreturns hfail hnot

/-! ## Update, append and delete of one key -/

theorem same_getValid (env : UnlockedEnv) (key : String) (st : Unlocked C) (k : String) :
    Held.Same env.readClock (st.partition.held k) ((st.getValid env key).2.partition.held k) :=
  Partition.same_expireKey (fun _ => env.readClock) key st.partition k

/-- The handler for `MemcachedError` returns. -/
theorem readPhase_handleMissing {A : Type} (env : UnlockedEnv) (key : String) (status : Nat)
    (st : Unlocked C) {falls : Prop} (hnot : ¬ falls) :
    ReadPhase env falls st (st.handleMissing (A := A) env key status) := by
  unfold Unlocked.handleMissing
  dsimp only
  split
  · split
    · exact ⟨rfl, same_getValid env key st, fun h => (by cases h), fun h => absurd h hnot⟩
    · exact ⟨rfl, same_getValid env key st, fun _ _ => rfl, fun h => absurd h hnot⟩
  · exact ⟨rfl, fun _ => Held.Same.refl _ _, fun _ _ => rfl, fun h => absurd h hnot⟩

/-- A read phase that records nothing and leaves the state alone. -/
theorem readPhase_quiet {A : Type} (env : UnlockedEnv) (next : AfterRead A) (st : Unlocked C)
    {falls : Prop} (hnot : ¬ falls) : ReadPhase env falls st (⟨none, next⟩, st) :=
  ⟨rfl, fun _ => Held.Same.refl _ _, fun h => (by cases h), fun h => absurd h hnot⟩

theorem readPhase_afterTry {A : Type} (env : UnlockedEnv) (key : String) (onValueError : A → AfterRead A)
    (t : Tried A) (st : Unlocked C) :
    ReadPhase env (Tried.FallsThrough t) st (Unlocked.afterTry env key onValueError t st) := by
  unfold Unlocked.afterTry
  split
  · exact readPhase_quiet env _ st (by rintro ⟨e, a, h, -⟩; cases h)
  · exact readPhase_quiet env _ st (by rintro ⟨e, a, h, -⟩; cases h)
  · exact readPhase_handleMissing env key _ st (by rintro ⟨e, a, h, hf⟩; cases h; cases hf)
  · exact readPhase_quiet env _ st (by rintro ⟨e, a, h, hf⟩; cases h; cases hf)
  · next e a hmem hval =>
      have hfalls : Tried.FallsThrough (Tried.raises e a) := by
        refine ⟨e, a, rfl, ?_⟩
        unfold fallsThrough
        split
        · exact absurd rfl (hmem _)
        · exact absurd rfl hval
        · rfl
      exact ⟨rfl, fun _ => Held.Same.refl _ _, fun _ h => absurd hfalls h, fun _ => ⟨rfl, a, rfl⟩⟩

/-- A client call that fails is noted and nothing else; one that succeeds is followed by an entry for its
    key, if there is a value to store. -/
theorem writePhase_store (env : UnlockedEnv) (outcome : Except ClientError Unit) (w : ServerWrite)
    (stored : Except Exn PyValue) (exp flag : Int) (st : Unlocked C) :
    WritePhase env outcome w.key st
      (match outcome with
      | .error e => st.fail e
      | .ok () =>
          match stored with
          | .error e => (st.send w).fail (.raised e)
          | .ok stored =>
              { st.send w with
                partition := st.partition.set env.setClock w.key stored exp flag }) := by
  rcases outcome with e | u
  · exact ⟨fun _ _ => ⟨rfl, fun _ => Held.Same.refl _ _⟩, nofun⟩
  · refine ⟨nofun, ?_⟩
    intro _
    rcases stored with e | stored
    · refine ⟨?_, fun _ _ => rfl⟩
      simp [Unlocked.send, Unlocked.fail]
    · refine ⟨?_, ?_⟩
      · simp [Unlocked.send]
      · intro k hk
        rw [Partition.held_set, if_neg hk]

theorem writePhase_writeUpdate (cfg : LoadConfig) (env : UnlockedEnv) (key : String) (value : PyValue)
    (st : Unlocked C) : WritePhase env env.set key st (Unlocked.writeUpdate cfg env key value st) :=
  writePhase_store env env.set (.set key value) (Unlocked.updateStored cfg value) cfg.exp cfg.flag st

theorem writePhase_writeAppend (cfg : LoadConfig) (env : UnlockedEnv) (key : String)
    (vars : Unlocked.AppendVars) (st : Unlocked C) :
    WritePhase env env.append key st (Unlocked.writeAppend cfg env key vars st) :=
  writePhase_store env env.append (.append key vars.value) (Unlocked.appendStored cfg vars.old) 0 0 st

theorem writePhase_unlockedDelete (env : UnlockedEnv) (key : String) (st : Unlocked C) :
    WritePhase env env.delete key st (Unlocked.unlockedDelete env key st) := by
  unfold Unlocked.unlockedDelete
  split
  · next hok =>
      refine ⟨fun e he => (by rw [hok] at he; cases he), fun _ => ⟨?_, fun k hk => ?_⟩⟩
      · simp [Unlocked.send, ServerWrite.key]
      · exact Partition.held_delete_of_ne _ _ hk
  · next status he =>
      refine ⟨?_, fun h => (by rw [he] at h; cases h)⟩
      intro _ _
      split
      · dsimp only
        split <;> exact ⟨rfl, same_getValid env key st⟩
      · exact ⟨rfl, fun _ => Held.Same.refl _ _⟩
  · next e he =>
      exact ⟨fun _ _ => ⟨rfl, fun _ => Held.Same.refl _ _⟩, fun h => (by rw [he] at h; cases h)⟩

omit [NeZero n] in
/-- A delete has no read phase. -/
theorem atomic_delete (env : UnlockedEnv) (kv : KVStore n PyValue) (i : Fin n) (key : String)
    (finished : Bool) (future : Future Bool ClientError C) :
    (unlockedEffect env kv i false
      (Unlocked.unlockedDelete env key ⟨kv.part i, finished, future, []⟩)).Atomic := by
  have hread : ReadPhase env False (⟨kv.part i, finished, future, []⟩ : Unlocked C)
      (⟨none, .goesOn ()⟩, ⟨kv.part i, finished, future, []⟩) :=
    readPhase_quiet env (.goesOn ()) _ not_false
  have hiff := atomic_phases_iff env kv i hread
    fun _ st => writePhase_unlockedDelete env key st
  exact hiff.2 False.elim

/-! ## Batches -/

section Batches

omit [NeZero n]

/-- Every key but those of `written` is as it was in `kv`. -/
def Kept (clock : String → Int) (written : List String) (kv kv' : KVStore n PyValue) : Prop :=
  ∀ i, ∀ k ∉ written, Held.Same (clock k) ((kv.part i).held k) ((kv'.part i).held k)

theorem Kept.refl (clock : String → Int) (written : List String) (kv : KVStore n PyValue) :
    Kept clock written kv kv :=
  fun _ _ _ => Held.Same.refl _ _

theorem Kept.setPartition {clock : String → Int} {written : List String} {kv kv' : KVStore n PyValue}
    (h : Kept clock written kv kv') (i : Fin n) {p : Partition PyValue}
    (hp : ∀ k ∉ written, Held.Same (clock k) ((kv'.part i).held k) (p.held k)) :
    Kept clock written kv (kv'.setPartition i p) := by
  intro j k hk
  rw [KVStore.part_setPartition]
  split
  · next hj =>
      subst hj
      exact (h j k hk).trans (hp k hk)
  · exact h j k hk

/-- Looking at a key of the store keeps every key. -/
theorem Kept.getValid {env : Env} {written : List String} {kv : KVStore n PyValue} {st : Loading n C}
    (h : Kept env.readClock written kv st.kv) (i : Fin n) (key : String) :
    Kept env.readClock written kv (st.getValid (env.readClock key) i key).2.kv :=
  h.setPartition i fun k _ => Partition.same_expireKey env.readClock key (st.kv.part i) k

theorem keeps_kept_processForUpdate (env : Env) (written : List String) (kv : KVStore n PyValue)
    (i : Fin n) (key : String) :
    Keeps (fun st : Loading n C => Kept env.readClock written kv st.kv)
      (Loading.processForUpdate env i key) := by
  intro st h
  have hlook := h.getValid i key
  simp only [Loading.processForUpdate]
  split
  · split <;> exact hlook
  · split
    · exact hlook
    · split <;> exact hlook

theorem keeps_kept_processForCreate (clock : String → Int) (written : List String)
    (kv : KVStore n PyValue) (kind : TaskKind) (env : Env) (e : String × PyValue) :
    Keeps (fun st : Loading n C => Kept clock written kv st.kv)
      (Loading.processForCreate kind env e) := by
  intro st h
  simp only [Loading.processForCreate]
  split <;> exact h

theorem keeps_kept_processValuesForCreate (env : Env) (written : List String) (kv : KVStore n PyValue)
    (kind : TaskKind) :
    Keeps (fun st : Loading n C => Kept env.readClock written kv st.kv)
      (Loading.processValuesForCreate kind env) := fun st h =>
  Keeps.forEach (keeps_kept_processForCreate env.readClock written kv kind env) st.keyVal.items st h

/-- Filling the store sets no key that is not in `key_val`. -/
theorem keeps_kept_populateKey (cfg : LoadConfig) (env : Env) (clock : String → Int)
    (written : List String) (kv : KVStore n PyValue) (i : Fin n) (key : String) :
    Keeps (fun st : Loading n C => Kept clock written kv st.kv ∧ ∀ k ∈ st.keyVal.keys, k ∈ written)
      (Loading.populateKey cfg env i key) := by
  rintro st ⟨h, hkeys⟩
  simp only [Loading.populateKey]
  split
  · exact ⟨h, hkeys⟩
  · next value hvalue =>
      split
      · exact ⟨h, hkeys⟩
      · have hkey : key ∈ st.keyVal.keys := Dict.mem_keys_of_get? hvalue
        refine ⟨h.setPartition i fun k hk => ?_, fun k hk => ?_⟩
        · have hne : k ≠ key := fun heq => hk (heq ▸ hkeys key hkey)
          rw [Partition.held_set, if_neg hne]
          exact Held.Same.refl _ _
        · rcases (Dict.mem_keys_set _ _ _ _).1 hk with rfl | hk
          · exact hkeys k hkey
          · exact hkeys k hk

theorem kv_tryExcept_handleSet (p : Prog (Loading n C) Exn) (st : Loading n C) :
    (p.tryExcept Loading.handleSet st).2.kv = (p st).2.kv := by
  rcases hp : p st with ⟨res, st'⟩
  rcases res with e | u
  · rw [tryExcept_of_error hp]
    unfold Loading.handleSet
    split
    · next q hq =>
        split at hq
        · cases hq
          rfl
        · cases hq
    · rfl
  · rw [tryExcept_of_ok (by rw [hp]), hp]

theorem kept_populateKvstore (cfg : LoadConfig) (env : Env) (dic : Dict (Fin n) (List String))
    {clock : String → Int} {kv : KVStore n PyValue} {st : Loading n C}
    (h : Kept clock st.keyVal.keys kv st.kv) :
    Kept clock st.keyVal.keys kv (Loading.populateKvstore cfg env dic st).2.kv := by
  have hkeeps : Keeps (fun st' : Loading n C => Kept clock st.keyVal.keys kv st'.kv ∧
      ∀ k ∈ st'.keyVal.keys, k ∈ st.keyVal.keys) (Loading.populateKvstore cfg env dic) := by
    unfold Loading.populateKvstore
    refine Keeps.forEach (fun g => ?_) _
    exact Keeps.forEach (fun key => keeps_kept_populateKey cfg env clock _ kv g.1 key) g.2
  exact (hkeeps st ⟨h, fun _ hk => hk⟩).1

/-- The batches that process, set and fill the store in one `try`: a failure keeps the rest from
    running. -/
theorem kept_setAndPopulate (cfg : LoadConfig) (env : Env) (wrote : String → Bool)
    (dic : Dict (Fin n) (List String)) {process : Prog (Loading n C) Exn} (st : Loading n C)
    (hprocess : ∀ written, Keeps (fun st' => Kept env.readClock written st.kv st'.kv) process) :
    Kept env.readClock (batchWritten env wrote process st) st.kv
      ((process.seq ((Loading.client env.setMulti).seq
        (Loading.populateKvstore cfg env dic))).tryExcept Loading.handleSet st).2.kv := by
  have hkept : ∀ written, Kept env.readClock written st.kv (process st).2.kv := fun written =>
    hprocess written st (Kept.refl _ _ _)
  rw [kv_tryExcept_handleSet, batchWritten]
  rcases hp : process st with ⟨res, st'⟩
  rw [hp] at hkept
  rcases res with e | u
  · rw [seq_of_error hp]
    exact hkept []
  · rw [seq_of_ok hp]
    dsimp only [setKeys]
    cases hset : env.setMulti with
    | error e => exact hkept _
    | ok u => exact kept_populateKvstore cfg env dic (hkept _)

theorem kept_deleteKeys (env : Env) {written : List String} {kv : KVStore n PyValue}
    (l : List (Fin n × String)) (st : Loading n C) (h : Kept env.readClock written kv st.kv)
    (hwritten : ∀ k ∈ clientDeletes env l st, k ∈ written) :
    Kept env.readClock written kv (Loading.deleteKeys env l st).2.kv := by
  induction l generalizing st with
  | nil => exact h
  | cons p rest ih =>
      obtain ⟨i, key⟩ := p
      cases hd : env.delete key with
      | ok u =>
          unfold clientDeletes at hwritten
          simp only [hd] at hwritten
          rw [Loading.deleteKeys_of_ok rest st hd]
          refine ih _ (h.setPartition i fun k hk => ?_) fun k hk =>
            hwritten k (List.mem_cons_of_mem _ hk)
          have hne : k ≠ key := fun heq => hk (heq ▸ hwritten key List.mem_cons_self)
          exact Or.inl (Partition.held_delete_of_ne _ _ hne)
      | error e =>
          unfold clientDeletes at hwritten
          by_cases hm : ∃ status, e = .memcachedError status
          · obtain ⟨status, rfl⟩ := hm
            simp only [hd] at hwritten
            rw [Loading.deleteKeys_of_memcachedError rest st hd]
            split
            · next hnf =>
                have hlook := h.getValid i key
                dsimp only
                split
                · next hnone =>
                    simp only [hnf, if_true, Loading.getValid, hnone] at hwritten
                    exact ih _ hlook hwritten
                · exact hlook
            · exact h
          · have hm' : ∀ status, e ≠ .memcachedError status := fun status h => hm ⟨status, h⟩
            simp only [hd] at hwritten
            rw [Loading.deleteKeys_of_other rest st hd hm']
            split
            · next hc =>
                simp only [hc, if_true] at hwritten
                exact ih _ h hwritten
            · exact h

end Batches

/-! ## Create -/

/-- `_unlocked_create` sets its key only after the client did. -/
theorem atomic_create (cfg : LoadConfig) (env : Env) (isBase64 : Bool) (i : Fin n) (key : String)
    (value : PyValue) (st : Loading n C) :
    ((create env isBase64 i key value st).effect cfg).Atomic := by
  refine Effect.atomic_of_keeps (fun j k hk => ?_) rfl
  simp only [effect, Throughput.unlockedCreate] at hk ⊢
  cases hv : Throughput.createValueSingle env isBase64 key value with
  | error e => exact Held.Same.refl _ _
  | ok value =>
      simp only [hv] at hk
      simp only [Throughput.unlockedStore]
      cases hset : env.set with
      | error e => exact Held.Same.refl _ _
      | ok u =>
          simp only [hset, List.mem_singleton] at hk
          split
          · exact Held.Same.refl _ _
          · refine (Kept.refl env.readClock [key] st.kv).setPartition i (fun k hk => ?_) j k (by simpa using hk)
            rw [Partition.held_set, if_neg (by simpa using hk)]
            exact Held.Same.refl _ _

/-- A store that holds what is set keeps its entry, and only then. -/
theorem same_populated_iff {now : Int} {before : Held PyValue} {e : Entry PyValue} :
    Held.Same now before (some e, none) ↔ (some e, none) = before := by
  constructor
  · rintro (h | h)
    · exact h
    · unfold Held.expire at h
      split at h
      · split at h
        · cases h
        · exact h
      · exact h
  · exact Or.inl

/-- `GenericLoadingTask._create_batch` after a `setMulti` whose failure is caught: every key of the batch
    is set in the store. -/
theorem held_createBatch_failed (cfg : LoadConfig) (env : Env) (st : Loading n C) {e : Exn}
    (hset : env.setMulti = .error e) (hcaught : Loading.caughtBySet e = true)
    (hall : ∀ k v, st.keyVal.get? k = some v →
      ∃ w, Loading.createValue .loadDocuments env k v = .ok w) :
    ∃ kv', (Loading.createBatch .loadDocuments cfg env (keysDic cfg st) st).2.kv = kv' ∧
      (∀ k v, st.keyVal.get? k = some v → ∃ entry, populated cfg env k v = .ok (some entry, none) ∧
        (kv'.part (KVStore.hash n k cfg.addr)).held k = (some entry, none)) ∧
      ∀ i k, (∀ v, st.keyVal.get? k = some v → KVStore.hash n k cfg.addr ≠ i) →
        (kv'.part i).held k = (st.kv.part i).held k := by
  obtain ⟨value, hvalue⟩ := Throughput.exists_processes cfg hall
  obtain ⟨w, hw⟩ := hvalue.exists_text
  obtain ⟨keyVal, hclient, hget⟩ :=
    Throughput.createBatchClient_failed hset hcaught fun d hd => (hw d hd).1
  obtain ⟨kv', keyVal', hpop, -, -, hloads⟩ := Throughput.populateKvstore_loads env
    (fun d hd => (hw d hd).2) rfl hget st.kv (Loading.fail e { st with keyVal := keyVal }).task
  refine ⟨kv', congrArg (fun res => res.2.kv) ((seq_of_ok hclient).trans hpop), ?_, ?_⟩
  · intro k v hv
    have hdoc : (k, v) ∈ st.keyVal.items := (Dict.get?_eq_some_iff _ _ _).1 hv
    have hview := hloads.loaded k (value (k, v))
      (List.mem_map_of_mem (f := Throughput.storeDoc value) hdoc)
    refine ⟨_, by rw [populated, hvalue _ hdoc]; rfl, ?_⟩
    exact congrArg (fun view => (view.entry, view.deleted)) hview
  · intro i k hout
    have hview : (kv'.part i).view k = (st.kv.part i).view k := by
      refine hloads.other i k ?_
      by_cases hi : KVStore.hash n k cfg.addr = i
      · left
        rw [Throughput.map_fst_storeDoc]
        intro hmem
        obtain ⟨v, hv⟩ := Dict.mem_keys_iff_exists.1 hmem
        exact hout v hv hi
      · exact Or.inr hi
    exact congrArg (fun view => (view.entry, view.deleted)) hview

/-- What a failed `setMulti` wrote of the batch. -/
theorem mem_written_createBatch_failed (cfg : LoadConfig) (env : Env) (wrote : String → Bool)
    (st : Loading n C) {e : Exn} (hset : env.setMulti = .error e)
    (hall : ∀ k v, st.keyVal.get? k = some v →
      ∃ w, Loading.createValue .loadDocuments env k v = .ok w) (k : String) :
    k ∈ ((createBatch .loadDocuments env wrote st).effect cfg).written ↔
      (∃ v, st.keyVal.get? k = some v) ∧ wrote k = true := by
  obtain ⟨value, hvalue⟩ := Throughput.exists_processes cfg hall
  obtain ⟨w, hw⟩ := hvalue.exists_text
  obtain ⟨processed, hprocess, hprocessed⟩ :=
    Throughput.processValuesForCreate_eq fun d hd => (hw d hd).1
  simp only [effect, batchWritten, hprocess, setKeys, hset, List.mem_filter]
  rw [Dict.mem_keys_iff_exists]
  simp only [hprocessed]
  constructor
  · rintro ⟨⟨x, v, hv, -⟩, hwrote⟩
    exact ⟨⟨v, hv⟩, hwrote⟩
  · rintro ⟨⟨v, hv⟩, hwrote⟩
    exact ⟨⟨_, v, hv, rfl⟩, hwrote⟩

theorem atomic_createBatch_failed_iff (cfg : LoadConfig) (env : Env) (wrote : String → Bool)
    (st : Loading n C) {e : Exn} (hset : env.setMulti = .error e) (hcaught : Loading.caughtBySet e = true)
    (hall : ∀ k v, st.keyVal.get? k = some v →
      ∃ w, Loading.createValue .loadDocuments env k v = .ok w) :
    ((createBatch .loadDocuments env wrote st).effect cfg).Atomic ↔
      ∀ k v, st.keyVal.get? k = some v → wrote k = false →
        populated cfg env k v = .ok ((st.kv.part (KVStore.hash n k cfg.addr)).held k) := by
  obtain ⟨kv', hend, hpopulated, hother⟩ := held_createBatch_failed cfg env st hset hcaught hall
  have hwritten := mem_written_createBatch_failed cfg env wrote st hset hall
  constructor
  · intro hatomic k v hv hwrote
    obtain ⟨entry, hentry, hheld⟩ := hpopulated k v hv
    have hsame := hatomic.unwritten (KVStore.hash n k cfg.addr) k fun hmem => by
      rw [((hwritten k).1 hmem).2] at hwrote
      cases hwrote
    simp only [effect, hend, hheld] at hsame
    rw [hentry, same_populated_iff.1 hsame]
  · intro hheld
    refine Effect.atomic_of_keeps (fun i k hk => ?_) rfl
    simp only [effect, hend]
    by_cases hbatch : ∃ v, st.keyVal.get? k = some v ∧ KVStore.hash n k cfg.addr = i
    · obtain ⟨v, hv, rfl⟩ := hbatch
      have hwrote : wrote k = false := by
        rw [← Bool.not_eq_true]
        exact fun h => hk ((hwritten k).2 ⟨⟨v, hv⟩, h⟩)
      obtain ⟨entry, hentry, hafter⟩ := hpopulated k v hv
      rw [hheld k v hv hwrote] at hentry
      rw [hafter]
      exact Or.inl (Except.ok.inj hentry).symm
    · exact Or.inl (hother i k fun v hv hi => hbatch ⟨v, hv, hi⟩)

/-- `GenericLoadingTask._create_batch` goes wrong only after a `setMulti` whose failure is caught. -/
theorem atomic_createBatch_of_not_failed (cfg : LoadConfig) (env : Env) (wrote : String → Bool)
    (st : Loading n C)
    (h : ¬ ((∃ e, env.setMulti = .error e ∧ Loading.caughtBySet e = true) ∧
      ∀ k v, st.keyVal.get? k = some v →
        ∃ w, Loading.createValue .loadDocuments env k v = .ok w)) :
    ((createBatch .loadDocuments env wrote st).effect cfg).Atomic := by
  have hkept : ∀ written, Kept env.readClock written st.kv
      (Loading.processValuesForCreate .loadDocuments env st).2.kv := fun written =>
    keeps_kept_processValuesForCreate env written st.kv .loadDocuments st (Kept.refl _ _ _)
  refine Effect.atomic_of_keeps ?_ rfl
  show Kept env.readClock (batchWritten env wrote _ st) st.kv
    (Loading.createBatch .loadDocuments cfg env (keysDic cfg st) st).2.kv
  have hspec := Loading.processValuesForCreate_spec .loadDocuments env st
  rcases hp : Loading.processValuesForCreate .loadDocuments env st with ⟨res, st'⟩
  rw [hp] at hkept hspec
  simp only [batchWritten, hp]
  rcases res with e | u
  · -- a value could not be processed
    have he : Loading.caughtBySet e = false := by
      rcases hspec with ⟨-, hok, -⟩ | ⟨-, e', he', hun⟩
      · cases hok
      · cases he'
        exact hun
    rw [Loading.createBatch, seq_of_error (Throughput.createBatchClient_of_uncaught (seq_of_error hp) he)]
    exact hkept _
  · rcases hspec with ⟨hall, -, -⟩ | ⟨-, e', he', -⟩
    · dsimp only [setKeys]
      rcases hset : env.setMulti with e | u
      · have he : Loading.caughtBySet e = false := by
          rw [← Bool.not_eq_true]
          exact fun hc => h ⟨⟨e, hset, hc⟩, hall⟩
        have hseq : ((Loading.processValuesForCreate .loadDocuments env).seq
            (Loading.client env.setMulti)) st = (.error e, st') := by
          rw [seq_of_ok hp, hset]
          rfl
        rw [Loading.createBatch, seq_of_error (Throughput.createBatchClient_of_uncaught hseq he)]
        exact hkept _
      · have hseq : ((Loading.processValuesForCreate .loadDocuments env).seq
            (Loading.client env.setMulti)) st = (.ok (), st') := by
          rw [seq_of_ok hp, hset]
          rfl
        have hclient : Loading.createBatchClient .loadDocuments env st = (.ok (), st') := by
          rw [Loading.createBatchClient, tryExcept_of_ok (by rw [hseq]), hseq]
        rw [Loading.createBatch, seq_of_ok hclient]
        exact kept_populateKvstore cfg env _ (hkept _)
    · cases he'

/-- `_update_batch` writes nothing once a value could not be processed. -/
theorem atomic_updateBatch (cfg : LoadConfig) (env : Env) (wrote : String → Bool) (st : Loading n C) :
    ((updateBatch env wrote st).effect cfg).Atomic := by
  have hprocess : ∀ written, Keeps (fun st' : Loading n C => Kept env.readClock written st.kv st'.kv)
      (Loading.processValuesForUpdate env (keysDic cfg st)) := by
    intro written
    refine Keeps.forEach (fun g => ?_) _
    exact Keeps.forEach (fun key => keeps_kept_processForUpdate env written st.kv g.1 key) g.2
  have hkept := kept_setAndPopulate cfg env wrote (keysDic cfg st) st hprocess
  refine ⟨hkept, ?_⟩
  intro hfail
  have hnil : batchWritten env wrote (Loading.processValuesForUpdate env (keysDic cfg st)) st = [] := by
    simp only [effect] at hfail
    unfold batchWritten
    split
    · next hp =>
        rw [hp] at hfail
        cases hfail
    · rfl
  rw [hnil] at hkept
  exact ⟨hnil, hkept⟩

/-- **Which operations are atomic.** -/
theorem atomic_iff (cfg : LoadConfig) (op : Operation n C) :
    (op.effect cfg).Atomic ↔ op.AtomicWhen cfg := by
  cases op with
  | create env isBase64 i key value st =>
      exact iff_of_true (atomic_create cfg env isBase64 i key value st) trivial
  | update env kv i key finished future =>
      exact atomic_phases_iff env kv i (readPhase_afterTry env key _ _ _)
        fun value st => writePhase_writeUpdate cfg env key value st
  | append env kv i key value finished future =>
      exact atomic_phases_iff env kv i (readPhase_afterTry env key _ _ _)
        fun vars st => writePhase_writeAppend cfg env key vars st
  | delete env kv i key finished future =>
      exact iff_of_true (atomic_delete env kv i key finished future) trivial
  | createBatch kind env wrote st =>
      cases kind with
      | loadDocuments =>
          by_cases hfail : (∃ e, env.setMulti = .error e ∧ Loading.caughtBySet e = true) ∧
              ∀ k v, st.keyVal.get? k = some v →
                ∃ w, Loading.createValue .loadDocuments env k v = .ok w
          · obtain ⟨⟨e, hset, he⟩, hall⟩ := hfail
            rw [atomic_createBatch_failed_iff cfg env wrote st hset he hall]
            exact ⟨fun h _ _ => h, fun h => h ⟨e, hset, he⟩ hall⟩
          · refine iff_of_true (atomic_createBatch_of_not_failed cfg env wrote st hfail) ?_
            exact fun hset hall => absurd ⟨hset, hall⟩ hfail
      | batchedLoadDocuments =>
          refine iff_of_true (Effect.atomic_of_keeps ?_ rfl) trivial
          exact kept_setAndPopulate cfg env wrote _ st fun written =>
            keeps_kept_processValuesForCreate env written st.kv _
  | updateBatch env wrote st =>
      exact iff_of_true (atomic_updateBatch cfg env wrote st) trivial
  | deleteBatch env st =>
      refine iff_of_true (Effect.atomic_of_keeps ?_ rfl) trivial
      exact kept_deleteKeys env _ st (Kept.refl _ _ _) fun _ hk => hk

/-! ## Two operations that write after a failure -/

/-- Every client call succeeds, and the document on the server is an object without `mutated`. -/
def bareDocument : UnlockedEnv where
  json := ⟨fun _ => .ok (.dict []), fun _ => some "\x7b\x7d"⟩
  update := fun old _ => .ok old
  str := fun _ => ""
  draw := ⟨0, 0⟩
  readClock := 1
  setClock := 1
  get := .ok (.str "\x7b\x7d")
  getAgain := .ok (.str "\x7b\x7d")
  set := .ok ()
  append := .ok ()
  delete := .ok ()

/-- The same update with a `client.set` that fails writes nothing after the `KeyError`. -/
theorem atomic_iff_failed_write :
    ((update { bareDocument with set := .error (.raised .socketError) } (KVStore.new 4 PyValue) 0 "doc1"
      false Future.new : Operation 4 Unit).effect Throughput.plainCreate).Atomic :=
  (atomic_iff Throughput.plainCreate _).2 fun _ => ⟨_, rfl⟩

/-- A create batch of one document on an empty store. -/
def oneInBatch : Loading 4 Unit :=
  ⟨KVStore.new 4 PyValue, (∅ : Dict String PyValue).set "doc1" (.str "\x7b\x7d"), ⟨false, Future.new⟩⟩

/-- The update notes a `KeyError` and then writes the document; the create batch notes the failure of
    `setMulti` and then fills the store. -/
theorem operations_write_after_failure :
    ¬ ((update bareDocument (KVStore.new 4 PyValue) 0 "doc1" false Future.new :
        Operation 4 Unit).effect Throughput.plainCreate).Atomic ∧
      ¬ ((createBatch .loadDocuments { succeeding with setMulti := .error .socketError } (fun _ => false)
        oneInBatch).effect Throughput.plainCreate).Atomic := by
  constructor
  · intro hatomic
    have hfalls : Tried.FallsThrough (Unlocked.tryUpdate bareDocument) :=
      ⟨.raised .keyError, .str "\x7b\x7d", rfl, rfl⟩
    obtain ⟨e, he⟩ := (atomic_phases_iff bareDocument _ _ (readPhase_afterTry _ _ _ _ _)
      fun value st => writePhase_writeUpdate Throughput.plainCreate bareDocument "doc1" value st).1 hatomic hfalls
    cases he
  · intro hatomic
    have hheld := (atomic_createBatch_failed_iff Throughput.plainCreate
      { succeeding with setMulti := .error .socketError } (fun _ => false) oneInBatch rfl rfl
      fun _ _ _ => ⟨_, rfl⟩).1 hatomic "doc1" (.str "\x7b\x7d") rfl rfl
    cases hheld

end Operation

end TestInfra
