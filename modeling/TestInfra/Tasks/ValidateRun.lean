import TestInfra.KVStore.Collections
import TestInfra.Tasks.ValidateRelease

set_option autoImplicit false

/-! # What a run of `ValidateDataTask` finds

The task lists the valid and the deleted keys of the store once, then walks the two lists with one
counter until a check records an exception. A valid key is read from the server and compared; for a
deleted key the task **deletes it itself** and takes a success for a fault only if the store has the
key as valid, which it has not.

No entry of the store lapses while the task runs, so the store is the same at every step
(`Still`). -/

namespace TestInfra

open Raises Raises.Prog

namespace Partition

variable {V : Type*}

/-- No valid entry has passed its deadline at `now`. -/
def Still (now : Int) (p : Partition V) : Prop :=
  ∀ key e, p.valid.get? key = some e → ¬ e.Lapsed now

theorem Still.expireKey {now : Int} {p : Partition V} (h : p.Still now) (key : String) :
    p.expireKey now key = p := by
  unfold Partition.expireKey
  cases hg : p.valid.get? key with
  | none => rfl
  | some e => exact if_neg (h key e hg)

theorem Still.expireKeys {now : Int} {p : Partition V} (h : p.Still now) (keys : List String) :
    p.expireKeys now keys = p := by
  induction keys with
  | nil => rfl
  | cons key rest ih =>
      unfold Partition.expireKeys at ih ⊢
      rw [List.foldl_cons, h.expireKey]
      exact ih

theorem Still.expireValid {now : Int} {p : Partition V} (h : p.Still now) : p.expireValid now = p :=
  h.expireKeys p.valid.keys

end Partition

namespace KVStore

variable {n : Nat} {V : Type*}

theorem setPartition_part (kv : KVStore n V) (i : Fin n) : kv.setPartition i (kv.part i) = kv := by
  apply KVStore.ext
  · intro j
    rw [locked_setPartition]
  · intro j
    rw [part_setPartition]
    split
    · next h => rw [h]
    · rfl
  · rfl

/-- The slots `key_set` reads. -/
def scope (n : Nat) [NeZero n] (a : Addr) : List (Fin n) :=
  if a.HasCollection then [hash n "" a] else List.finRange n

/-- The slot of a key is among the slots `key_set` reads. -/
theorem hash_mem_scope [NeZero n] (key : String) (a : Addr) : hash n key a ∈ scope n a := by
  unfold scope
  split
  · next h => rw [hash_collection h key ""]; exact List.mem_singleton_self _
  · exact List.mem_finRange _

/-- `key_set` on a free store in which nothing lapses: the keys as they are stored, and no change. -/
theorem keySet_of_still [NeZero n] {now : Int} {kv : KVStore n V} (hkv : kv.Free)
    (hstill : ∀ i, (kv.part i).Still now) (a : Addr) :
    kv.keySet now a =
      some (((scope n a).flatMap fun i => (kv.part i).valid.keys,
        (scope n a).flatMap fun i => (kv.part i).deleted.keys), kv) := by
  have hslot : ∀ (acc : List String × List String) (i : Fin n), keySetSlot now (acc, kv) i =
      some ((acc.1 ++ (kv.part i).valid.keys, acc.2 ++ (kv.part i).deleted.keys), kv) := by
    intro acc i
    rw [keySetSlot_of_free hkv]
    simp only [slotKeys, Partition.validKeySet, Partition.deletedKeySet, (hstill i).expireValid,
      setPartition_part]
  have hloop : ∀ (is : List (Fin n)) (acc : List String × List String),
      is.foldlM (keySetSlot now) (acc, kv) =
        some ((acc.1 ++ is.flatMap fun i => (kv.part i).valid.keys,
          acc.2 ++ is.flatMap fun i => (kv.part i).deleted.keys), kv) := by
    intro is
    induction is with
    | nil => simp
    | cons i rest ih =>
        intro acc
        rw [List.foldlM_cons, hslot]
        simp only [Option.bind_eq_bind, Option.bind_some]
        rw [ih]
        simp only [List.flatMap_cons, List.append_assoc]
  unfold keySet scope
  split
  · rw [hslot]
    simp
  · rw [hloop]
    simp

end KVStore

/-! ## The task -/

/-- The documents of the server, as the validated address sees them. -/
abbrev Server := Dict String Document

/-- `client.get`. -/
def Server.get (server : Server) (key : String) : Except ClientError Document :=
  match server.get? key with
  | some doc => .ok doc
  | none => .error (.raised (.memcachedError errNotFound))

/-- `client.delete`. -/
def Server.delete (server : Server) (key : String) : Except ClientError Unit × Server :=
  match server.get? key with
  | some _ => (.ok (), server.del key)
  | none => (.error (.raised (.memcachedError errNotFound)), server)

/-- The attributes of a `ValidateDataTask` that change or are set once. -/
structure ValidateDataTask (n : Nat) (C : Type*) where
  st : Validating n C
  validKeys : List String
  deletedKeys : List String
  maxVerify : Nat
  itr : Nat

namespace ValidateDataTask

variable {n : Nat} [NeZero n] {C : Type*}

/-- `ValidateDataTask(..)`. -/
def new (cfg : ValidateConfig) (now : Int) (maxVerify : Option Nat) (kv : KVStore n PyValue) :
    Option (ValidateDataTask n C) :=
  (kv.keySet now cfg.addr).map fun ((validKeys, deletedKeys), kv) =>
    let all := validKeys.length + deletedKeys.length
    ⟨⟨kv, false, Future.new, 0⟩, validKeys, deletedKeys, (maxVerify.map (min · all)).getD all, 0⟩

/-- `has_next`. -/
def hasNext (t : ValidateDataTask n C) : Bool :=
  t.itr < t.validKeys.length + t.deletedKeys.length ∧ t.itr < t.maxVerify

/-- `__next__`; both lists are long enough while `has_next` holds. -/
def next (cfg : ValidateConfig) (env : ValidateEnv) (t : ValidateDataTask n C) (server : Server) :
    Option (Except ClientError Unit × ValidateDataTask n C × Server) :=
  match t.validKeys[t.itr]? with
  | some key =>
      (Validate.checkValidKey cfg env (server.get key) key t.st).map fun (out, st) =>
        match out with
        | .ok () => (.ok (), { t with st := st, itr := t.itr + 1 }, server)
        | .error e => (.error e, { t with st := st }, server)
  | none =>
      match t.deletedKeys[t.itr - t.validKeys.length]? with
      | some key =>
          let (deleted, server) := server.delete key
          (Validate.checkDeletedKey cfg env deleted key t.st).map fun (out, st) =>
            match out with
            | .ok () => (.ok (), { t with st := st, itr := t.itr + 1 }, server)
            | .error e => (.error e, { t with st := st }, server)
      | none => some (.error (.raised .indexError), t, server)

/-- `while self.has_next() and not self.done(): next(self)`, at most `fuel` times. -/
def loop (cfg : ValidateConfig) (env : ValidateEnv) :
    Nat → ValidateDataTask n C → Server → Option (ValidateDataTask n C)
  | 0, t, _ => some t
  | fuel + 1, t, server =>
      if t.hasNext && !t.st.future.done then
        match t.next cfg env server with
        | none => none
        | some (.error _, t, _) => some t
        | some (.ok (), t, server) => loop cfg env fuel t server
      else some t

/-- A task made and run on a store and a server: the task after the loop of `run`. -/
def validate (cfg : ValidateConfig) (env : ValidateEnv) (now : Int) (kv : KVStore n PyValue)
    (server : Server) : Option (ValidateDataTask n C) :=
  match new cfg now none kv with
  | none => none
  | some t => loop cfg env (t.validKeys.length + t.deletedKeys.length) t server

/-! ## What a check finds -/

/-- The store has an entry of the key, with a value, in the slot where a check looks for it. -/
def Looked (kv : KVStore n PyValue) (a : Addr) (key : String) (e : Entry PyValue) : Prop :=
  (kv.part (KVStore.hash n key a)).valid.get? key = some e ∧ e.value ≠ .none

/-- The server has the key with a value of the stored hash and, with `CHECK_FLAG`, the stored flag. -/
def Matches (cfg : ValidateConfig) (env : ValidateEnv) (server : Server) (key : String)
    (e : Entry PyValue) : Prop :=
  ∃ doc h, server.get? key = some doc ∧ crc32Hash doc.value = .ok h ∧ env.int e.value = .ok (h : Int) ∧
    (cfg.checkFlag = true → doc.flags = e.flag)

/-- Nothing in the store lapses, whenever the clock is read. -/
def StoreStill (env : ValidateEnv) (kv : KVStore n PyValue) : Prop :=
  ∀ i t, (kv.part i).Still (env.clock t)

/-- How a check that finds a fault, or none, leaves the future. -/
def Found (faulty : Prop) (before after : Future Bool ClientError C) : Prop :=
  (¬ faulty ∧ after = before) ∨ (faulty ∧ after.exception ≠ none ∧ after.done = true)

theorem Found.faulty {faulty : Prop} {before after : Future Bool ClientError C}
    (h : Found faulty before after) (hf : faulty) : after.exception ≠ none ∧ after.done = true := by
  rcases h with ⟨hnot, -⟩ | ⟨-, hnoted⟩
  · exact absurd hf hnot
  · exact hnoted

theorem Found.same {faulty : Prop} {before after : Future Bool ClientError C}
    (h : Found faulty before after) (hf : ¬ faulty) : after = before := by
  rcases h with ⟨-, heq⟩ | ⟨hyes, -⟩
  · exact heq
  · exact absurd hyes hf

/-- The value, unless it is `None`. -/
def present : PyValue → Option PyValue
  | .none => none
  | value => some value

theorem present_of_ne {value : PyValue} (h : value ≠ .none) : present value = some value := by
  cases value <;> simp_all [present]

omit [NeZero n] in
theorem getValid_of_still {env : ValidateEnv} {st : Validating n C} (h : StoreStill env st.kv)
    (i : Fin n) (key : String) :
    st.getValid env i key =
      (((st.kv.part i).valid.get? key).bind fun e => present e.value,
        { st with ticks := st.ticks + 1 }) := by
  unfold Validating.getValid Loading.validValue
  simp only [Partition.getValid, (h i st.ticks).expireKey, KVStore.setPartition_part]
  cases (st.kv.part i).valid.get? key with
  | none => rfl
  | some e => cases hv : e.value <;> simp [hv, present]

omit [NeZero n] in
theorem getFlag_of_still {env : ValidateEnv} {st : Validating n C} (h : StoreStill env st.kv)
    (i : Fin n) (key : String) :
    st.getFlag env i key =
      (((st.kv.part i).valid.get? key).map Entry.flag, { st with ticks := st.ticks + 1 }) := by
  unfold Validating.getFlag
  simp only [Partition.getFlag, (h i st.ticks).expireKey, KVStore.setPartition_part]

/-- Decoding a document first does not change its hash. -/
theorem crc32Hash_decode {value d : PyValue} (h : value.decode = .ok d) :
    crc32Hash d = crc32Hash value := by
  unfold PyValue.decode at h
  split at h
  · next b =>
      split at h
      · next s hs =>
          obtain rfl : PyValue.str s = d := by simpa using h
          simp only [crc32Hash, PyValue.codePoints, hs]
      · exact absurd h (by simp)
  · obtain rfl : value = d := by simpa using h
    rfl

theorem crc32Hash_of_decode_error {value : PyValue} {e : Exn} (h : value.decode = .error e) :
    ∃ e', crc32Hash value = .error e' := by
  unfold PyValue.decode at h
  split at h
  · next b =>
      split at h
      · exact absurd h (by simp)
      · next hs => exact ⟨.valueError, by simp only [crc32Hash, PyValue.codePoints, hs]; rfl⟩
  · exact absurd h (by simp)

/-- The body of a check ran through, left the store alone, and noted a fault exactly if there is one. -/
def Finds (faulty : Prop) (st : Validating n C) (res : Except ClientError Unit × Validating n C) :
    Prop :=
  res.1 = .ok () ∧ res.2.kv = st.kv ∧ Found faulty st.future res.2.future

omit [NeZero n] in
theorem finds_nothing {faulty : Prop} (h : ¬ faulty) (st : Validating n C) (ticks : Nat) :
    Finds faulty st (.ok (), { st with ticks := ticks }) :=
  ⟨rfl, rfl, .inl ⟨h, rfl⟩⟩

omit [NeZero n] in
/-- A recorded failure is found. -/
theorem finds_fail {faulty : Prop} (h : faulty) (e : ClientError) {st st' : Validating n C}
    (hkv : st'.kv = st.kv) : Finds faulty st (.ok (), st'.fail e) := by
  refine ⟨rfl, hkv, .inr ⟨h, ?_, ?_⟩⟩
  · simp [Validating.fail, Future.setException]
  · simp [Validating.fail, Future.setException, Future.done]

omit [NeZero n] in
/-- The handlers note whatever they catch of a key that is valid in the store. -/
theorem finds_tryExcept {env : ValidateEnv} {i : Fin n} {key : String} {st st' : Validating n C}
    {e : Entry PyValue} (hstill : StoreStill env st.kv)
    (he : (st.kv.part i).valid.get? key = some e) (hv : e.value ≠ .none) {faulty : Prop} (h : faulty)
    {p : Prog (Validating n C) ClientError} {x : Exn} (hp : p st = (.error (.raised x), st'))
    (hkv : st'.kv = st.kv) :
    Finds faulty st (p.tryExcept (Validate.handleValid env i key) st) := by
  have hvalue : (st'.getValid env i key).1 = some e.value := by
    rw [getValid_of_still (by rw [hkv]; exact hstill), hkv, he]
    exact present_of_ne hv
  have hstore : (st'.getValid env i key).2.kv = st.kv := by
    rw [getValid_of_still (by rw [hkv]; exact hstill)]
    exact hkv
  rw [tryExcept_of_error hp]
  cases x with
  | memcachedError status =>
      simp only [Validate.handleValid]
      split
      · rw [hvalue]
        exact finds_fail h _ hstore
      · exact finds_fail h _ hkv
  | _ => exact finds_fail h _ hkv

omit [NeZero n] in
/-- The two comparisons when both hashes can be had. -/
theorem finds_compareValue {cfg : ValidateConfig} (hcfg : cfg.onlyStoreHash = true) {env : ValidateEnv}
    {value d : PyValue} {stored : Int} {h : Nat} (hhash : crc32Hash d = .ok h)
    (hint : env.int value = .ok stored) (key : String) (flag o : Int) (st : Validating n C) :
    Finds (¬ ((h : Int) = stored ∧ (cfg.checkFlag = true → o = flag))) st
      (((Validate.compareValue cfg env key value d).seq (Validate.compareFlag cfg key flag o)) st) := by
  by_cases hne : (h : Int) = stored
  · have hrun : Validate.compareValue cfg env key value d st = (.ok (), st) := by
      simp only [Validate.compareValue, hcfg, if_true, hhash, hint, hne, ne_eq, not_true_eq_false,
        if_false]
    rw [seq_of_ok hrun, Validate.compareFlag]
    split
    · next hflag => exact finds_fail (fun hm => hflag.2 (hm.2 hflag.1)) _ rfl
    · next hflag =>
        refine finds_nothing ?_ st st.ticks
        rw [not_not]
        exact ⟨hne, fun hc => by_contra fun ho => hflag ⟨hc, ho⟩⟩
  · have hrun : Validate.compareValue cfg env key value d st = (.ok (), st.failWith
        ("Key: " ++ key ++ ", Bad hash result: " ++ toString h ++ " != " ++ toString stored ++
          " for key " ++ key)) := by
      simp only [Validate.compareValue, hcfg, if_true, hhash, hint, ne_eq, hne, not_false_eq_true]
    rw [seq_of_ok hrun, Validate.compareFlag]
    split
    · exact finds_fail (fun hm => hne hm.1) _ rfl
    · exact finds_fail (fun hm => hne hm.1) _ rfl

/-- Whatever is wrong with the document of a key, it is this document. -/
theorem matches_iff {cfg : ValidateConfig} {env : ValidateEnv} {server : Server} {key : String}
    {doc : Document} (hdoc : server.get? key = some doc) (e : Entry PyValue) :
    Matches cfg env server key e ↔ ∃ h, crc32Hash doc.value = .ok h ∧
      env.int e.value = .ok (h : Int) ∧ (cfg.checkFlag = true → doc.flags = e.flag) := by
  constructor
  · rintro ⟨doc', h, hd, hrest⟩
    obtain rfl : doc = doc' := Option.some_inj.1 (hdoc.symm.trans hd)
    exact ⟨h, hrest⟩
  · rintro ⟨h, hrest⟩
    exact ⟨doc, h, hdoc, hrest⟩

omit [NeZero n] in
/-- The comparison of a decoded value, which may raise before it compares. -/
theorem finds_compareDecoded {cfg : ValidateConfig} (hcfg : cfg.onlyStoreHash = true)
    {env : ValidateEnv} {i : Fin n} {key : String} {st : Validating n C} {e : Entry PyValue}
    (hstill : StoreStill env st.kv) (he : (st.kv.part i).valid.get? key = some e)
    (hv : e.value ≠ .none) (d : PyValue) (o : Int) :
    Finds (¬ ∃ h, crc32Hash d = .ok h ∧ env.int e.value = .ok (h : Int) ∧
        (cfg.checkFlag = true → o = e.flag)) st
      (((Validate.compareValue cfg env key e.value d).seq
        (Validate.compareFlag cfg key e.flag o)).tryExcept (Validate.handleValid env i key) st) := by
  rcases hcrc : crc32Hash d with x | h
  · have hraise : Validate.compareValue cfg env key e.value d st = (.error (.raised x), st) := by
      simp only [Validate.compareValue, hcfg, if_true, hcrc]
    refine finds_tryExcept hstill he hv ?_ (seq_of_error hraise) rfl
    rintro ⟨h, hh, -⟩
    exact absurd hh (by simp)
  · rcases hint : env.int e.value with x | stored
    · have hraise : Validate.compareValue cfg env key e.value d st = (.error (.raised x), st) := by
        simp only [Validate.compareValue, hcfg, if_true, hcrc, hint]
      refine finds_tryExcept hstill he hv ?_ (seq_of_error hraise) rfl
      rintro ⟨h, -, hh, -⟩
      exact absurd hh (by simp)
    · have hfinds := finds_compareValue hcfg hcrc hint key e.flag o st
      have hiff : (∃ h', (.ok h : Except Exn Nat) = .ok h' ∧ (.ok stored : Except Exn Int) = .ok (h' : Int) ∧
          (cfg.checkFlag = true → o = e.flag)) ↔
          ((h : Int) = stored ∧ (cfg.checkFlag = true → o = e.flag)) := by
        constructor
        · rintro ⟨h', hh, hs, hf⟩
          obtain rfl := Except.ok.inj hh
          exact ⟨(Except.ok.inj hs).symm, hf⟩
        · rintro ⟨hs, hf⟩
          exact ⟨h, rfl, congrArg Except.ok hs.symm, hf⟩
      rw [tryExcept_of_ok hfinds.1, hiff]
      exact hfinds

omit [NeZero n] in
/-- The comparison of one document with what the store has for its key. -/
theorem finds_compareDocument {cfg : ValidateConfig} (hcfg : cfg.onlyStoreHash = true)
    {env : ValidateEnv} {server : Server} {i : Fin n} {key : String} {st : Validating n C}
    {e : Entry PyValue} (hstill : StoreStill env st.kv)
    (he : (st.kv.part i).valid.get? key = some e) (hv : e.value ≠ .none) :
    Finds (¬ Matches cfg env server key e) st
      ((Validate.compareDocument cfg env (server.get key) key e.value e.flag).tryExcept
        (Validate.handleValid env i key) st) := by
  rcases hdoc : server.get? key with _ | doc
  · have hrun : Validate.compareDocument cfg env (server.get key) key e.value e.flag st =
        (.error (.raised (.memcachedError errNotFound)), st) := by
      simp only [Server.get, hdoc, Validate.compareDocument]
    refine finds_tryExcept hstill he hv ?_ hrun rfl
    rintro ⟨doc, h, hd, -⟩
    exact absurd (hdoc.symm.trans hd) (by simp)
  · have hget : server.get key = .ok doc := by simp only [Server.get, hdoc]
    rw [hget, matches_iff hdoc]
    rcases hdec : doc.value.decode with x | d
    · obtain ⟨x', hx'⟩ := crc32Hash_of_decode_error hdec
      have hrun : Validate.compareDocument cfg env (.ok doc) key e.value e.flag st =
          (.error (.raised x), st) := by simp only [Validate.compareDocument, hdec]
      refine finds_tryExcept hstill he hv ?_ hrun rfl
      rintro ⟨h, hh, -⟩
      exact absurd (hx'.symm.trans hh) (by simp)
    · have hcompare : (Validate.compareDocument cfg env (.ok doc) key e.value e.flag :
            Prog (Validating n C) ClientError) =
          (Validate.compareValue cfg env key e.value d).seq
            (Validate.compareFlag cfg key e.flag doc.flags) := by
        funext st'
        simp only [Validate.compareDocument, hdec]
      rw [← crc32Hash_decode hdec, hcompare]
      exact finds_compareDecoded hcfg hstill he hv d doc.flags

/-- Under the lock the body of `_check_valid_key` finds a fault exactly if there is one. -/
theorem finds_checkValidBody {cfg : ValidateConfig} (hcfg : cfg.onlyStoreHash = true)
    {env : ValidateEnv} (server : Server) (key : String) {st : Validating n C}
    (hstill : StoreStill env st.kv) :
    Finds (¬ ∀ e, Looked st.kv cfg.addr key e → Matches cfg env server key e) st
      (Validate.checkValidBody cfg env (server.get key) key st) := by
  have hstill' : StoreStill env { st with ticks := st.ticks + 1 }.kv := hstill
  unfold Validate.checkValidBody
  simp only [getValid_of_still hstill, getFlag_of_still hstill']
  cases he : (st.kv.part (KVStore.hash n key cfg.addr)).valid.get? key with
  | none =>
      refine finds_nothing (not_not.2 fun e hl => ?_) st (st.ticks + 2)
      exact absurd (he.symm.trans hl.1) (by simp)
  | some e =>
      by_cases hv : e.value = .none
      · simp only [Option.bind_some, hv, present, Option.map_some]
        refine finds_nothing (not_not.2 fun e' hl => ?_) st (st.ticks + 2)
        obtain rfl : e = e' := Option.some_inj.1 (he.symm.trans hl.1)
        exact absurd hv hl.2
      · have hlooked : (¬ ∀ e, Looked st.kv cfg.addr key e → Matches cfg env server key e) ↔
            ¬ Matches cfg env server key e := by
          rw [not_iff_not]
          refine ⟨fun h => h e ⟨he, hv⟩, ?_⟩
          intro h e' hl
          obtain rfl : e = e' := Option.some_inj.1 (he.symm.trans hl.1)
          exact h
        have hstill'' : StoreStill env { st with ticks := st.ticks + 1 + 1 }.kv := hstill
        simp only [Option.bind_some, present_of_ne hv, Option.map_some]
        rw [hlooked]
        exact finds_compareDocument hcfg hstill'' he hv

/-- Under the lock the body of `_check_deleted_key` finds a fault only for a key that the server has
    and the store has as valid. -/
theorem finds_deleteAtClient {env : ValidateEnv} (server : Server) (a : Addr) (key message : String)
    {st : Validating n C} (hstill : StoreStill env st.kv) :
    Finds (server.get? key ≠ none ∧ ∃ e, Looked st.kv a key e) st
      (((Validate.deleteAtClient env (server.delete key).1 message (KVStore.hash n key a) key).tryExcept
        Validate.handleDeleted) st) := by
  cases hdoc : server.get? key with
  | none =>
      have hrun : Validate.deleteAtClient env (server.delete key).1 message (KVStore.hash n key a) key st
          = (.error (.raised (.memcachedError errNotFound)), st) := by
        simp only [Server.delete, hdoc, Validate.deleteAtClient]
      rw [tryExcept_of_error hrun]
      simp only [Validate.handleDeleted, if_true]
      exact finds_nothing (fun h => h.1 rfl) st st.ticks
  | some doc =>
      have hbody : Finds (some doc ≠ none ∧ ∃ e, Looked st.kv a key e) st
          (Validate.deleteAtClient env (server.delete key).1 message (KVStore.hash n key a) key st) := by
        simp only [Server.delete, hdoc, Validate.deleteAtClient, getValid_of_still hstill]
        cases he : (st.kv.part (KVStore.hash n key a)).valid.get? key with
        | none =>
            refine finds_nothing ?_ st (st.ticks + 1)
            rintro ⟨-, e, hl⟩
            exact absurd (he.symm.trans hl.1) (by simp)
        | some e =>
            by_cases hv : e.value = .none
            · simp only [Option.bind_some, hv, present]
              refine finds_nothing ?_ st (st.ticks + 1)
              rintro ⟨-, e', hl⟩
              obtain rfl : e = e' := Option.some_inj.1 (he.symm.trans hl.1)
              exact absurd hv hl.2
            · simp only [Option.bind_some, present_of_ne hv]
              exact finds_fail ⟨by simp, e, he, hv⟩ _ rfl
      rw [tryExcept_of_ok hbody.1]
      exact hbody

/-- The lock around the body leaves the store as it was. -/
theorem locking_finds {cfg : ValidateConfig} {key : String} {body : Prog (Validating n C) ClientError}
    {faulty : Prop} {st : Validating n C} (hfree : st.kv.Free)
    (hbody : Finds faulty (Validate.lockedFor cfg key st) (body (Validate.lockedFor cfg key st))) :
    ∃ st', Validate.locking cfg key body st = some (.ok (), st') ∧ st'.kv = st.kv ∧
      Found faulty st.future st'.future := by
  obtain ⟨hok, hkv, hfound⟩ := hbody
  have hacq : st.kv.acquirePartition key cfg.addr =
      some (st.kv.setLock (KVStore.hash n key cfg.addr) true) :=
    KVStore.acquire_eq_some.2 ⟨hfree _, rfl⟩
  have hrel : (body (Validate.lockedFor cfg key st)).2.kv.releasePartition key cfg.addr = some st.kv := by
    rw [hkv]
    refine KVStore.release_eq_some.2 ⟨?_, ?_⟩
    · show (st.kv.setLock _ true).locked _ = true
      rw [KVStore.locked_setLock, if_pos rfl]
    · apply KVStore.ext
      · intro j
        show st.kv.locked j = ((st.kv.setLock _ true).setLock _ false).locked j
        rw [KVStore.locked_setLock, KVStore.locked_setLock]
        split
        · exact hfree j
        · rfl
      · intro j
        show st.kv.part j = ((st.kv.setLock _ true).setLock _ false).part j
        rw [KVStore.part_setLock, KVStore.part_setLock]
      · rfl
  refine ⟨{ (body (Validate.lockedFor cfg key st)).2 with kv := st.kv }, ?_, rfl, hfound⟩
  unfold Validate.locking
  rw [hacq]
  have hrun : body { st with kv := st.kv.setLock (KVStore.hash n key cfg.addr) true } =
      (.ok (), (body (Validate.lockedFor cfg key st)).2) := Prod.ext hok rfl
  simp only [hrun, Validate.releasing, hrel, Option.map_some]

/-! ## The walk over the two lists -/

theorem loop_of_done {cfg : ValidateConfig} {env : ValidateEnv} (fuel : Nat)
    {t : ValidateDataTask n C} (h : t.st.future.done = true) (server : Server) :
    t.loop cfg env fuel server = some t := by
  cases fuel with
  | zero => rfl
  | succ fuel => simp [loop, h]

theorem get?_delete (server : Server) (key key' : String) :
    (server.delete key).2.get? key' = if key' = key then none else server.get? key' := by
  unfold Server.delete
  cases hdoc : server.get? key with
  | none =>
      by_cases h : key' = key
      · rw [if_pos h, h]
        exact hdoc
      · rw [if_neg h]
  | some doc => exact Dict.get?_del server key key'

/-- A key listed as deleted passes unless the server has it and the store looks it up as valid. -/
def DeletedPasses (kv : KVStore n PyValue) (a : Addr) (server : Server) (key : String) : Prop :=
  ¬ (server.get? key ≠ none ∧ ∃ e, Looked kv a key e)

/-- A key that was deleted in its turn is gone for the later ones, which makes no difference. -/
theorem deletedPasses_delete {kv : KVStore n PyValue} {a : Addr} {server : Server} {key : String}
    (h : DeletedPasses kv a server key) (key' : String) :
    DeletedPasses kv a (server.delete key).2 key' ↔ DeletedPasses kv a server key' := by
  unfold DeletedPasses
  rw [get?_delete]
  by_cases hk : key' = key
  · subst hk
    rw [if_pos rfl]
    exact iff_of_true (fun hn => hn.1 rfl) h
  · rw [if_neg hk]

/-- What one round of the walk does: it passes the key and goes on, or records the fault and is done. -/
theorem next_found {cfg : ValidateConfig} (hcfg : cfg.onlyStoreHash = true) {env : ValidateEnv}
    {kv : KVStore n PyValue} (hfree : kv.Free) (hstill : StoreStill env kv)
    {t : ValidateDataTask n C} (hkv : t.st.kv = kv) (server : Server)
    (hitr : t.itr < t.validKeys.length + t.deletedKeys.length) :
    ∃ st' server', t.next cfg env server =
        some (.ok (), { t with st := st', itr := t.itr + 1 }, server') ∧ st'.kv = kv ∧
      ((∃ key, t.validKeys[t.itr]? = some key ∧ server' = server ∧
          Found (¬ ∀ e, Looked kv cfg.addr key e → Matches cfg env server key e)
            t.st.future st'.future) ∨
        (∃ key, t.validKeys.length ≤ t.itr ∧
          t.deletedKeys[t.itr - t.validKeys.length]? = some key ∧ server' = (server.delete key).2 ∧
          Found (¬ DeletedPasses kv cfg.addr server key) t.st.future st'.future)) := by
  subst hkv
  unfold next
  cases hv : t.validKeys[t.itr]? with
  | some key =>
      have hbody := finds_checkValidBody hcfg server key
        (show StoreStill env (Validate.lockedFor cfg key t.st).kv from fun i τ => by
          rw [(Validate.sameParts_lockedFor cfg key t.st).1 i]; exact hstill i τ)
      obtain ⟨st', hrun, hkv', hfound⟩ := locking_finds hfree hbody
      refine ⟨st', server, ?_, hkv', .inl ⟨key, rfl, rfl, ?_⟩⟩
      · simp only [Validate.checkValidKey, hrun, Option.map_some]
      · simpa only [Looked, (Validate.sameParts_lockedFor cfg key t.st).1] using hfound
  | none =>
      have hlen : t.validKeys.length ≤ t.itr := List.getElem?_eq_none_iff.1 hv
      obtain ⟨key, hd⟩ : ∃ key, t.deletedKeys[t.itr - t.validKeys.length]? = some key :=
        ⟨_, List.getElem?_eq_getElem (by omega)⟩
      have hbody := finds_deleteAtClient server cfg.addr key ("Not Deletes: " ++ key)
        (show StoreStill env (Validate.lockedFor cfg key t.st).kv from fun i τ => by
          rw [(Validate.sameParts_lockedFor cfg key t.st).1 i]; exact hstill i τ)
      obtain ⟨st', hrun, hkv', hfound⟩ := locking_finds hfree hbody
      refine ⟨st', (server.delete key).2, ?_, hkv', .inr ⟨key, hlen, hd, rfl, ?_⟩⟩
      · simp only [hd, Validate.checkDeletedKey, Validate.checkDeletedKeyWith, hrun, Option.map_some]
      · simpa only [DeletedPasses, not_not, Looked,
          (Validate.sameParts_lockedFor cfg key t.st).1] using hfound

/-- Every key still to come passes. -/
def AllPass (cfg : ValidateConfig) (env : ValidateEnv) (kv : KVStore n PyValue) (server : Server)
    (t : ValidateDataTask n C) : Prop :=
  (∀ key ∈ t.validKeys.drop t.itr, ∀ e, Looked kv cfg.addr key e → Matches cfg env server key e) ∧
    ∀ key ∈ t.deletedKeys.drop (t.itr - t.validKeys.length), DeletedPasses kv cfg.addr server key

section AllPass

variable {cfg : ValidateConfig} {env : ValidateEnv} {kv : KVStore n PyValue} {server : Server}
  {t : ValidateDataTask n C} {key : String}

theorem allPass_valid_iff (hkey : t.validKeys[t.itr]? = some key) (st : Validating n C) :
    AllPass cfg env kv server t ↔
      (∀ e, Looked kv cfg.addr key e → Matches cfg env server key e) ∧
        AllPass cfg env kv server { t with st := st, itr := t.itr + 1 } := by
  obtain ⟨hlt, hget⟩ := List.getElem?_eq_some_iff.1 hkey
  have hdrop : t.validKeys.drop t.itr = key :: t.validKeys.drop (t.itr + 1) := by
    rw [List.drop_eq_getElem_cons hlt, hget]
  have hsub : t.itr + 1 - t.validKeys.length = t.itr - t.validKeys.length := by omega
  rw [AllPass, AllPass]
  dsimp only
  rw [hdrop, List.forall_mem_cons, hsub, and_assoc]

/-- A deleted key passes, and with it gone from the server the others do. -/
theorem allPass_deleted_iff (hlen : t.validKeys.length ≤ t.itr)
    (hkey : t.deletedKeys[t.itr - t.validKeys.length]? = some key) (st : Validating n C) :
    AllPass cfg env kv server t ↔
      DeletedPasses kv cfg.addr server key ∧
        AllPass cfg env kv (server.delete key).2 { t with st := st, itr := t.itr + 1 } := by
  obtain ⟨hlt, hget⟩ := List.getElem?_eq_some_iff.1 hkey
  have hdrop : t.deletedKeys.drop (t.itr - t.validKeys.length) =
      key :: t.deletedKeys.drop (t.itr + 1 - t.validKeys.length) := by
    rw [List.drop_eq_getElem_cons hlt, hget]
    congr 2
    omega
  have hnil : ∀ k, t.itr ≤ k → t.validKeys.drop k = [] :=
    fun k hk => List.drop_eq_nil_of_le (by omega)
  rw [AllPass, AllPass]
  dsimp only
  rw [hdrop, List.forall_mem_cons, hnil _ le_rfl, hnil _ (Nat.le_succ _)]
  by_cases hpass : DeletedPasses kv cfg.addr server key
  · simp only [deletedPasses_delete hpass, List.not_mem_nil, false_implies, implies_true, true_and, hpass]
  · exact iff_of_false (fun h => hpass h.2.1) fun h => hpass h.1

end AllPass

/-- **The walk** records no exception exactly when every key still to come passes. -/
theorem loop_finds {cfg : ValidateConfig} (hcfg : cfg.onlyStoreHash = true) {env : ValidateEnv}
    {kv : KVStore n PyValue} (hfree : kv.Free) (hstill : StoreStill env kv) (fuel : Nat)
    {t : ValidateDataTask n C} (hkv : t.st.kv = kv) (server : Server)
    (hnew : t.st.future.exception = none) (hdone : t.st.future.done = false)
    (hmax : t.maxVerify = t.validKeys.length + t.deletedKeys.length)
    (hfuel : fuel + t.itr = t.validKeys.length + t.deletedKeys.length) :
    ∃ t', t.loop cfg env fuel server = some t' ∧
      (t'.st.future.exception = none ↔ AllPass cfg env kv server t) := by
  induction fuel generalizing t server with
  | zero =>
      refine ⟨t, rfl, iff_of_true hnew ⟨?_, ?_⟩⟩
      · rw [List.drop_eq_nil_of_le (by omega)]
        simp
      · rw [List.drop_eq_nil_of_le (by omega)]
        simp
  | succ fuel ih =>
      obtain ⟨st', server', hnext, hkv', hcase⟩ :=
        next_found hcfg hfree hstill hkv server (by omega)
      have hloop : t.loop cfg env (fuel + 1) server =
          loop cfg env fuel { t with st := st', itr := t.itr + 1 } server' := by
        have hhas : t.hasNext = true := by
          simp only [hasNext, hmax, and_self, decide_eq_true_eq]
          omega
        simp only [loop, hhas, hdone, hnext, Bool.not_false, Bool.and_self, if_true]
      obtain ⟨passes, hall, hfound⟩ : ∃ passes, (AllPass cfg env kv server t ↔
          passes ∧ AllPass cfg env kv server' { t with st := st', itr := t.itr + 1 }) ∧
          Found (¬ passes) t.st.future st'.future := by
        rcases hcase with ⟨key, hv, rfl, hfound⟩ | ⟨key, hlen, hd, rfl, hfound⟩
        · exact ⟨_, allPass_valid_iff hv st', hfound⟩
        · exact ⟨_, allPass_deleted_iff hlen hd st', hfound⟩
      rw [hloop, hall]
      by_cases hpass : passes
      · have hfut := hfound.same (not_not.2 hpass)
        obtain ⟨t', hrun, hiff⟩ := ih (t := { t with st := st', itr := t.itr + 1 }) hkv' server'
          (by rw [hfut]; exact hnew) (by rw [hfut]; exact hdone) hmax (by dsimp only; omega)
        exact ⟨t', hrun, hiff.trans (and_iff_right hpass).symm⟩
      · -- a fault ends the walk
        obtain ⟨hexc, hd⟩ := hfound.faulty hpass
        exact ⟨_, loop_of_done fuel hd server', iff_of_false hexc fun h => hpass h.1⟩

/-! ## When a run tells the truth -/

/-- **What a run without an exception should mean**: every valid key of the store is on the server with
    the stored hash (and flag), and no deleted one is there. -/
structure Agrees (cfg : ValidateConfig) (env : ValidateEnv) (kv : KVStore n PyValue) (server : Server) :
    Prop where
  valid : ∀ i ∈ KVStore.scope n cfg.addr, ∀ key e, (kv.part i).valid.get? key = some e →
    Matches cfg env server key e
  deleted : ∀ i ∈ KVStore.scope n cfg.addr, ∀ key ∈ (kv.part i).deleted.keys, server.get? key = none

/-- The condition: a valid key in its own slot is missing or wrong on the server, or a key that some
    slot has as deleted is there and valid in its own slot, or no deleted key is there and the valid
    entries that no check looks at (in a slot that is not their key's, or `None`) are right. -/
def TellsWhen (cfg : ValidateConfig) (env : ValidateEnv) (kv : KVStore n PyValue) (server : Server) :
    Prop :=
  (∃ key e, Looked kv cfg.addr key e ∧ ¬ Matches cfg env server key e) ∨
  (∃ i ∈ KVStore.scope n cfg.addr, ∃ key ∈ (kv.part i).deleted.keys,
    server.get? key ≠ none ∧ ∃ e, Looked kv cfg.addr key e) ∨
  ((∀ i ∈ KVStore.scope n cfg.addr, ∀ key ∈ (kv.part i).deleted.keys, server.get? key = none) ∧
    ∀ i ∈ KVStore.scope n cfg.addr, ∀ key e, (kv.part i).valid.get? key = some e →
      (i ≠ KVStore.hash n key cfg.addr ∨ e.value = .none) → Matches cfg env server key e)

/-- What the checks of a whole run pass. -/
def Passes (cfg : ValidateConfig) (env : ValidateEnv) (kv : KVStore n PyValue) (server : Server) :
    Prop :=
  (∀ key e, Looked kv cfg.addr key e → Matches cfg env server key e) ∧
  ∀ i ∈ KVStore.scope n cfg.addr, ∀ key ∈ (kv.part i).deleted.keys,
    DeletedPasses kv cfg.addr server key

/-- A run records no exception exactly when everything passes. -/
theorem validate_finds {cfg : ValidateConfig} (hcfg : cfg.onlyStoreHash = true) {env : ValidateEnv}
    {now : Int} {kv : KVStore n PyValue} (hfree : kv.Free) (hstill : StoreStill env kv)
    (hnow : ∀ i, (kv.part i).Still now) (server : Server) :
    ∃ t : ValidateDataTask n C, validate cfg env now kv server = some t ∧
      (t.st.future.exception = none ↔ Passes cfg env kv server) := by
  have hkeys := KVStore.keySet_of_still hfree hnow cfg.addr
  unfold validate new
  rw [hkeys]
  simp only [Option.map_some, Option.map_none, Option.getD_none]
  obtain ⟨t, hrun, hiff⟩ := loop_finds (C := C) hcfg hfree hstill
    (((KVStore.scope n cfg.addr).flatMap fun i => (kv.part i).valid.keys).length +
      ((KVStore.scope n cfg.addr).flatMap fun i => (kv.part i).deleted.keys).length)
    (t := ⟨⟨kv, false, Future.new, 0⟩, (KVStore.scope n cfg.addr).flatMap fun i => (kv.part i).valid.keys,
      (KVStore.scope n cfg.addr).flatMap fun i => (kv.part i).deleted.keys,
      ((KVStore.scope n cfg.addr).flatMap fun i => (kv.part i).valid.keys).length +
      ((KVStore.scope n cfg.addr).flatMap fun i => (kv.part i).deleted.keys).length, 0⟩)
    rfl server rfl rfl rfl rfl
  refine ⟨t, hrun, hiff.trans ?_⟩
  simp only [AllPass, List.drop_zero, Nat.zero_sub, List.mem_flatMap, forall_exists_index, and_imp]
  refine and_congr ⟨fun h key e hl => ?_, fun h key i _ _ e hl => h key e hl⟩
    ⟨fun h i hi key hk => h key i hi hk, fun h key i hi hk => h i hi key hk⟩
  -- a key that is looked at is listed by its own slot
  exact h key _ (KVStore.hash_mem_scope key cfg.addr) (Dict.mem_keys_of_get? hl.1) e hl

/-- **When validation is sound and complete.** On an unlocked store in which nothing lapses, a run of
    the task records no exception iff store and server agree, exactly under `TellsWhen`. -/
theorem validate_tells_iff (cfg : ValidateConfig) (hcfg : cfg.onlyStoreHash = true)
    (env : ValidateEnv) (now : Int) (kv : KVStore n PyValue) (hfree : kv.Free)
    (hstill : StoreStill env kv) (hnow : ∀ i, (kv.part i).Still now) (server : Server) :
    (∃ t : ValidateDataTask n C, validate cfg env now kv server = some t ∧
      (t.st.future.exception = none ↔ Agrees cfg env kv server)) ↔ TellsWhen cfg env kv server := by
  obtain ⟨t, hrun, hiff⟩ := validate_finds (C := C) hcfg hfree hstill hnow server
  -- agreement always lets the run pass
  have hpass : Agrees cfg env kv server → Passes cfg env kv server := by
    intro ha
    refine ⟨fun key e hl => ha.valid _ (KVStore.hash_mem_scope key cfg.addr) key e hl.1, ?_⟩
    intro i hi key hk hn
    exact hn.1 (ha.deleted i hi key hk)
  have hmain : (Passes cfg env kv server ↔ Agrees cfg env kv server) ↔ TellsWhen cfg env kv server := by
    constructor
    · intro h
      by_cases hp : Passes cfg env kv server
      · have ha := h.1 hp
        exact .inr (.inr ⟨ha.deleted, fun i hi key e he _ => ha.valid i hi key e he⟩)
      · rw [Passes, not_and_or] at hp
        rcases hp with hp | hp
        · push Not at hp
          exact .inl hp
        · push Not at hp
          obtain ⟨i, hi, key, hk, hnot⟩ := hp
          exact .inr (.inl ⟨i, hi, key, hk, not_not.1 hnot⟩)
    · rintro (⟨key, e, hl, hm⟩ | ⟨i, hi, key, hk, hbad⟩ | ⟨hdel, hrest⟩)
      · exact ⟨fun hp => absurd (hp.1 key e hl) hm, hpass⟩
      · exact ⟨fun hp => absurd hbad (hp.2 i hi key hk), hpass⟩
      · refine ⟨fun hp => ⟨fun i hi key e he => ?_, hdel⟩, hpass⟩
        by_cases hslot : i = KVStore.hash n key cfg.addr ∧ e.value ≠ .none
        · exact hp.1 key e ⟨hslot.1 ▸ he, hslot.2⟩
        · refine hrest i hi key e he ?_
          by_cases hv : e.value = .none
          · exact .inr hv
          · exact .inl fun hi' => hslot ⟨hi', hv⟩
  rw [← hmain]
  constructor
  · rintro ⟨t', hrun', hiff'⟩
    obtain rfl : t = t' := Option.some_inj.1 (hrun.symm.trans hrun')
    exact hiff.symm.trans hiff'
  · intro h
    exact ⟨t, hrun, hiff.trans h⟩

/-- A store that holds one document. -/
def oneDocument : KVStore 4 PyValue :=
  (KVStore.new 4 PyValue).setPartition (KVStore.hash 4 "doc1" {})
    ((Partition.new 0).set 0 "doc1" (.str "0") 0 0)

/-- The same store after the document was deleted. -/
def oneDeleted : KVStore 4 PyValue :=
  (KVStore.new 4 PyValue).setPartition (KVStore.hash 4 "doc1" {})
    (((Partition.new 0).set 0 "doc1" (.str "0") 0 0).delete 0 "doc1")

theorem valid_oneDocument {i : Fin 4} {key : String} {e : Entry PyValue}
    (h : (oneDocument.part i).valid.get? key = some e) :
    i = KVStore.hash 4 key {} ∧ e = ⟨.str "0", 0, 0⟩ := by
  rw [oneDocument, KVStore.part_setPartition] at h
  split at h
  · next hi =>
      simp only [Partition.set, Dict.get?_set] at h
      split at h
      · next hk =>
          subst hk
          exact ⟨hi, by simpa using h.symm⟩
      · exact absurd h (by simp [Partition.new])
  · exact absurd h (by simp [KVStore.new, KVStore.part, Partition.new])

theorem still_oneDocument (i : Fin 4) (now : Int) : (oneDocument.part i).Still now := by
  intro key e he
  obtain ⟨-, rfl⟩ := valid_oneDocument he
  exact fun h => h.1 rfl

theorem validate_tells_iff_one_document :
    ∃ t : ValidateDataTask 4 Unit,
      validate Validate.plainConfig Validate.textEnv 0 oneDocument ∅ = some t ∧
        (t.st.future.exception = none ↔
          Agrees Validate.plainConfig Validate.textEnv oneDocument ∅) := by
  refine (validate_tells_iff Validate.plainConfig rfl Validate.textEnv 0 oneDocument
    ((KVStore.free_new 4 PyValue).setPartition _ _) (fun i t => still_oneDocument i _)
    (fun i => still_oneDocument i 0) ∅).2 (.inr (.inr ⟨?_, ?_⟩))
  · intro i _ key _
    rfl
  · rintro i - key e he (hslot | hnone)
    · exact absurd (valid_oneDocument he).1 hslot
    · rw [(valid_oneDocument he).2] at hnone
      exact absurd hnone (by simp)

theorem valid_oneDeleted (i : Fin 4) (key : String) : (oneDeleted.part i).valid.get? key = none := by
  rw [oneDeleted, KVStore.part_setPartition]
  split
  · simp [Partition.delete, Partition.set, Partition.new]
  · rfl

/-- A server that still has the document. -/
def oneLeft : Server := (∅ : Server).set "doc1" ⟨0, 1, .str ""⟩

/-- The store has `doc1` as deleted and the server still has it: the run deletes it and is content. -/
theorem deleted_key_on_server_passes :
    ¬ ∃ t : ValidateDataTask 4 Unit,
      validate Validate.plainConfig Validate.textEnv 0 oneDeleted oneLeft = some t ∧
        (t.st.future.exception = none ↔
          Agrees Validate.plainConfig Validate.textEnv oneDeleted oneLeft) := by
  have hstill : ∀ i now, (oneDeleted.part i).Still now := by
    intro i now key e he
    exact absurd ((valid_oneDeleted i key).symm.trans he) (by simp)
  have hlooked : ∀ key e, ¬ Looked oneDeleted {} key e := by
    intro key e hl
    exact absurd ((valid_oneDeleted _ key).symm.trans hl.1) (by simp)
  have hfinds : ∃ t : ValidateDataTask 4 Unit,
      validate Validate.plainConfig Validate.textEnv 0 oneDeleted oneLeft = some t ∧
        (t.st.future.exception = none ↔
          Passes Validate.plainConfig Validate.textEnv oneDeleted oneLeft) :=
    validate_finds rfl ((KVStore.free_new 4 PyValue).setPartition _ _) (fun i t => hstill i _)
      (fun i => hstill i 0) oneLeft
  obtain ⟨t, hrun, hiff⟩ := hfinds
  rintro ⟨t', hrun', hagrees⟩
  obtain rfl : t = t' := Option.some_inj.1 (hrun.symm.trans hrun')
  have hpasses : Passes Validate.plainConfig Validate.textEnv oneDeleted oneLeft :=
    ⟨fun key e hl => absurd hl (hlooked key e), fun i _ key _ h => h.2.elim (hlooked key)⟩
  have hgone := (hagrees.1 (hiff.2 hpasses)).deleted (KVStore.hash 4 "doc1" {})
    (KVStore.hash_mem_scope "doc1" {}) "doc1" (by
      rw [oneDeleted, KVStore.part_setPartition, if_pos rfl]
      decide)
  exact absurd hgone (by simp [oneLeft])

end ValidateDataTask

end TestInfra
