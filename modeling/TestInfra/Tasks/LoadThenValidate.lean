import TestInfra.Lib.PyInt
import TestInfra.Lib.Runs
import TestInfra.Tasks.ErrorAtomic
import TestInfra.Tasks.QuietBatch

set_option autoImplicit false

/-! # Loading, then validating

What the two kinds of tasks are for: the loading tasks write the documents to the server and note in the
reference store what they wrote, and a validating task compares the two. A run here is any sequence of batches
(creates, updates, deletes and reads, of either class) of documents that do not expire, in one collection, with
the hashes kept in the store. The client is honest: what it says to have done the server has done. Whatever
else it answers, if no batch failed, the two sides are in sync after every batch (`InSync`), and the validation
finds nothing. -/

namespace TestInfra

open Raises Raises.Prog

/-! ## The server's side -/

/-- A text travels as bytes. -/
def sentValue : PyValue → PyValue
  | .str s => .bytes s.toUTF8.data.toList
  | value => value

/-- `setMulti` on the server; it picks the new `cas` of each document. -/
def Server.setMulti (flag : Int) (cas : String → Int) (keyVal : Dict String PyValue) (server : Server) : Server :=
  keyVal.items.foldl (fun s e => s.set e.1 ⟨flag, cas e.1, sentValue e.2⟩) server

theorem Server.get?_setMulti (flag : Int) (cas : String → Int) (keyVal : Dict String PyValue) (server : Server)
    (key : String) :
    (server.setMulti flag cas keyVal).get? key =
      match keyVal.get? key with
      | some value => some ⟨flag, cas key, sentValue value⟩
      | none => server.get? key := by
  have hfold : server.setMulti flag cas keyVal =
      (keyVal.items.map fun e => (e.1, (⟨flag, cas e.1, sentValue e.2⟩ : Document))).foldl
        (fun s e => s.set e.1 e.2) server := by
    rw [List.foldl_map]
    rfl
  have hfind := Assoc.find_map (fun k v => (⟨flag, cas k, sentValue v⟩ : Document)) key keyVal.items
  rw [hfold, Dict.get?_foldl_set _ (by rw [List.map_map]; exact keyVal.nodup_keys), hfind]
  change ((keyVal.get? key).map _).or _ = _
  cases keyVal.get? key <;> rfl

/-- The hash of a text is the hash of its bytes. -/
theorem crc32Hash_sentValue (t : String) : crc32Hash (sentValue (.str t)) = crc32Hash (.str t) := by
  have hread : String.fromUTF8? ⟨t.toUTF8.data.toList.toArray⟩ = some t := by
    rw [Array.toArray_toList]
    exact dif_pos t.isValidUTF8
  simp only [crc32Hash, sentValue, PyValue.codePoints, hread]

/-! ## In sync -/

namespace LoadThenValidate

variable {n : Nat} [NeZero n] {C : Type*}

/-- The entry is what the store should have of the document. -/
def Notes (e : Entry PyValue) (doc : Document) : Prop :=
  e.expires = 0 ∧ e.flag = doc.flags ∧ ∃ h, crc32Hash doc.value = .ok h ∧ e.value = .str (toString h)

/-- **The store and the server are in sync**: what is on the server is noted as valid in the slot of its key,
    what is not is not valid, and the other slots have nothing of a key. -/
structure InSync (a : Addr) (kv : KVStore n PyValue) (server : Server) : Prop where
  noted : ∀ key doc, server.get? key = some doc →
    ∃ e, (kv.part (KVStore.hash n key a)).held key = (some e, none) ∧ Notes e doc
  gone : ∀ key, server.get? key = none → (kv.part (KVStore.hash n key a)).valid.get? key = none
  placed : ∀ i key, i ≠ KVStore.hash n key a → (kv.part i).held key = (none, none)

theorem inSync_new (a : Addr) : InSync a (KVStore.new n PyValue) ∅ where
  noted key doc h := by cases h
  gone _ _ := rfl
  placed _ _ _ := rfl

theorem InSync.of_part {a : Addr} {kv kv' : KVStore n PyValue} {server : Server} (h : InSync a kv server)
    (hpart : ∀ i, kv'.part i = kv.part i) : InSync a kv' server where
  noted key doc hdoc := by
    rw [hpart]
    exact h.noted key doc hdoc
  gone key hnone := by
    rw [hpart]
    exact h.gone key hnone
  placed i key hi := by
    rw [hpart]
    exact h.placed i key hi

/-- A valid entry notes a document of the server. -/
theorem InSync.of_valid {a : Addr} {kv : KVStore n PyValue} {server : Server} (h : InSync a kv server) {i : Fin n}
    {key : String} {e : Entry PyValue} (he : (kv.part i).valid.get? key = some e) :
    i = KVStore.hash n key a ∧ (kv.part i).deleted.get? key = none ∧
      ∃ doc, server.get? key = some doc ∧ Notes e doc := by
  have hi : i = KVStore.hash n key a := by
    by_contra hne
    have hnone := congrArg Prod.fst (h.placed i key hne)
    exact Option.some_ne_none e (he.symm.trans hnone)
  subst hi
  cases hdoc : server.get? key with
  | none => exact absurd (he.symm.trans (h.gone key hdoc)) (Option.some_ne_none e)
  | some doc =>
      obtain ⟨e', hheld, hnotes⟩ := h.noted key doc hdoc
      obtain rfl : e = e' := Option.some.inj (he.symm.trans (congrArg Prod.fst hheld))
      exact ⟨rfl, congrArg Prod.snd hheld, doc, rfl, hnotes⟩

theorem InSync.lasting {a : Addr} {kv : KVStore n PyValue} {server : Server} (h : InSync a kv server) :
    kv.Lasting := by
  intro i key e he
  obtain ⟨-, -, doc, -, hnotes⟩ := h.of_valid he
  exact hnotes.1

/-- **A batch that sets** keeps the two in sync: the server has the texts, the store their hashes. -/
theorem InSync.set {a : Addr} {cfg : LoadConfig} (haddr : cfg.addr = a) (hexp : cfg.exp = 0)
    (hhash : cfg.onlyStoreHash = true) {env : Env} {dic : Dict (Fin n) (List String)} {keyVal : Dict String PyValue}
    {st st' : Loading n C} (hdic : Loading.Groups cfg dic st.keyVal.keys)
    (hsets : Loading.SetsBatch cfg env dic keyVal st st') (cas : String → Int) {server : Server}
    (h : InSync a st.kv server) : InSync a st'.kv (server.setMulti cfg.flag cas keyVal) := by
  subst haddr
  have hnodup : (((Loading.slotKeys dic).map fun p => (p.2, Loading.storedOf cfg keyVal p.2)).map Prod.fst).Nodup := by
    rw [List.map_map]
    exact List.pairwise_map.2 hdic.once
  have hloads := KVStore.Loads.setAll (Throughput.spec cfg env) hnodup st.kv
  rw [← hsets.store] at hloads
  have hother : ∀ i key, key ∉ st.keyVal.keys ∨ KVStore.hash n key cfg.addr ≠ i →
      (st'.kv.part i).held key = (st.kv.part i).held key := by
    intro i key hout
    have hdocs : key ∈ ((Loading.slotKeys dic).map fun p => (p.2, Loading.storedOf cfg keyVal p.2)).map Prod.fst →
        key ∈ st.keyVal.keys := by
      rw [List.map_map]
      intro hmem
      obtain ⟨p, hp, rfl⟩ := List.mem_map.1 hmem
      exact ((hdic.mem p.1 p.2).1 hp).1
    have hview := hloads.other i key (hout.imp_left fun hnot hmem => hnot (hdocs hmem))
    exact Prod.ext (congrArg KeyView.entry hview) (congrArg KeyView.deleted hview)
  have hkey : ∀ key ∈ st.keyVal.keys, ∃ t hash, keyVal.get? key = some (.str t) ∧
      crc32Hash (.str t) = .ok hash ∧ (st'.kv.part (KVStore.hash n key cfg.addr)).held key
        = (some ⟨.str (toString hash), 0, cfg.flag⟩, none) := by
    intro key hmem
    have hslot := (hdic.mem (KVStore.hash n key cfg.addr) key).2 ⟨hmem, rfl⟩
    obtain ⟨t, ht⟩ := hsets.texts _ hslot
    obtain ⟨hash, hcrc⟩ := crc32Hash_str t
    have hstored : Loading.storedOf cfg keyVal key = .str (toString hash) := by
      simp only [Loading.storedOf, ht, Loading.storedValue, hhash, if_true, hcrc]
      rfl
    have hview := hloads.loaded key _ (List.mem_map.2 ⟨_, hslot, rfl⟩)
    refine ⟨t, hash, ht, hcrc, ?_⟩
    have hentry := congrArg KeyView.entry hview
    have hdeleted := congrArg KeyView.deleted hview
    simp only [Partition.setView, Throughput.spec, hexp, hstored] at hentry hdeleted
    exact Prod.ext hentry hdeleted
  have hsame : ∀ key ∉ st.keyVal.keys,
      (server.setMulti cfg.flag cas keyVal).get? key = server.get? key := by
    intro key hnot
    have hnone : keyVal.get? key = none :=
      (Dict.not_mem_keys_iff _ _).1 fun hmem => hnot (hsets.only key hmem)
    rw [Server.get?_setMulti, hnone]
  refine ⟨fun key doc hdoc => ?_, fun key hnone => ?_, fun i key hi => ?_⟩
  · by_cases hmem : key ∈ st.keyVal.keys
    · obtain ⟨t, hash, ht, hcrc, hheld⟩ := hkey key hmem
      rw [Server.get?_setMulti, ht] at hdoc
      obtain rfl := Option.some.inj hdoc
      exact ⟨_, hheld, rfl, rfl, hash, (crc32Hash_sentValue t).trans hcrc, rfl⟩
    · rw [hsame key hmem] at hdoc
      rw [hother _ key (Or.inl hmem)]
      exact h.noted key doc hdoc
  · by_cases hmem : key ∈ st.keyVal.keys
    · obtain ⟨t, -, ht, -⟩ := hkey key hmem
      rw [Server.get?_setMulti, ht] at hnone
      cases hnone
    · rw [hsame key hmem] at hnone
      have hheld := congrArg Prod.fst (hother (KVStore.hash n key cfg.addr) key (Or.inl hmem))
      exact hheld.trans (h.gone key hnone)
  · rw [hother i key (Or.inr (Ne.symm hi))]
    exact h.placed i key hi

omit [NeZero n] in
theorem clientDeletes_cons_ok {env : Env} {p : Fin n × String} (rest : List (Fin n × String)) (st : Loading n C)
    (h : env.delete p.2 = .ok ()) :
    Operation.clientDeletes env (p :: rest) st = p.2 :: Operation.clientDeletes env rest
      { st with kv := st.kv.setPartition p.1 ((st.kv.part p.1).delete (env.readClock p.2) p.2) } := by
  simp only [Operation.clientDeletes, h]

omit [NeZero n] in
theorem clientDeletes_cons_missing {env : Env} {p : Fin n × String} (rest : List (Fin n × String))
    (st : Loading n C) (h : env.delete p.2 = .error (.memcachedError errNotFound))
    (hnone : Loading.validValue (env.readClock p.2) p.1 p.2 st.kv = none) :
    Operation.clientDeletes env (p :: rest) st =
      Operation.clientDeletes env rest (st.getValid (env.readClock p.2) p.1 p.2).2 := by
  simp only [Operation.clientDeletes, h, Loading.getValid, hnone, if_true]

/-- A key that is deleted on both sides. -/
theorem InSync.delete {a : Addr} {kv : KVStore n PyValue} {server : Server} (h : InSync a kv server)
    (now : Int) (key : String) :
    InSync a (kv.setPartition (KVStore.hash n key a) ((kv.part (KVStore.hash n key a)).delete now key))
      (server.del key) := by
  have hother : ∀ i k, k ≠ key → ((kv.setPartition (KVStore.hash n key a)
      ((kv.part (KVStore.hash n key a)).delete now key)).part i).held k = (kv.part i).held k := by
    intro i k hk
    rw [KVStore.part_setPartition]
    split
    next hi => rw [hi, Partition.held_delete_of_ne now _ hk]
    · rfl
  refine ⟨fun k doc hdoc => ?_, fun k hnone => ?_, fun i k hi => ?_⟩
  · rw [Dict.get?_del] at hdoc
    split at hdoc
    · cases hdoc
    next hk =>
      rw [hother _ k hk]
      exact h.noted k doc hdoc
  · by_cases hk : k = key
    · subst hk
      rw [KVStore.part_setPartition, if_pos rfl, Partition.delete]
      split
      · simp
      next hvalid => exact hvalid
    · rw [Dict.get?_del, if_neg hk] at hnone
      exact (congrArg Prod.fst (hother _ k hk)).trans (h.gone k hnone)
  · by_cases hk : k = key
    · subst hk
      rw [KVStore.part_setPartition, if_neg hi]
      exact h.placed i k hi
    · rw [hother i k hk]
      exact h.placed i k hi

/-- **A batch that deletes** keeps the two in sync. -/
theorem InSync.deleteKeys {a : Addr} {env : Env} {l : List (Fin n × String)}
    (hslot : ∀ p ∈ l, KVStore.hash n p.2 a = p.1) {st st' : Loading n C} {server : Server}
    (hrun : Loading.deleteKeys env l st = (.ok (), st'))
    (hquiet : st'.Quiet) (h : InSync a st.kv server) :
    InSync a st'.kv (server.delAll (Operation.clientDeletes env l st)) := by
  induction l generalizing st server with
  | nil =>
      obtain rfl := (Prod.mk.inj hrun).2
      exact h
  | cons p rest ih =>
      have hrest : ∀ q ∈ rest, KVStore.hash n q.2 a = q.1 := fun q hq => hslot q (List.mem_cons_of_mem _ hq)
      rcases Loading.deleteKeys_cons_quiet hrun hquiet with ⟨hok, hlater⟩ | ⟨hmissing, hnone, hlater⟩
      · rw [clientDeletes_cons_ok rest st hok]
        have hnext := h.delete (env.readClock p.2) p.2
        rw [hslot p List.mem_cons_self] at hnext
        exact ih hrest hlater hnext
      · rw [clientDeletes_cons_missing rest st hmissing hnone]
        rw [Loading.getValid_of_lasting h.lasting] at hlater ⊢
        exact ih hrest hlater h

/-! ## Runs -/

/-- One batch of a loading task, with what it meets and the `cas` values the server picks. -/
structure Batch (C : Type*) where
  kind : TaskKind
  cfg : LoadConfig
  env : Env
  gen : BatchedDocumentGenerator PyValue
  task : TaskState C
  cas : String → Int

/-- The store and the server. -/
structure System (n : Nat) where
  kv : KVStore n PyValue
  server : Server

/-- What the client calls of a batch that does not fail have made of the server: a `setMulti` that returned has
    stored what it was given, a delete that returned has deleted its key. -/
def Batch.Serves (b : Batch C) (dic : Dict (Fin n) (List String)) (st : Loading n C) (server server' : Server) :
    Prop :=
  match b.cfg.opType with
  | .create => b.env.setMulti = .ok () → server' =
      server.setMulti b.cfg.flag b.cas (Loading.processValuesForCreate b.kind b.env st).2.keyVal
  | .update => b.env.setMulti = .ok () → server' =
      server.setMulti b.cfg.flag b.cas (Loading.processValuesForUpdate b.env dic st).2.keyVal
  | .delete => server' = server.delAll (Operation.clientDeletes b.env (Loading.slotKeys dic) st)
  | .read | .other _ => server' = server

/-- A batch of documents that do not expire, in the collection `a`, that did not fail: no exception left it and
    none is recorded in its task. -/
structure Step (a : Addr) (s : System n) (b : Batch C) (s' : System n) : Prop where
  addr : b.cfg.addr = a
  exp : b.cfg.exp = 0
  hashes : b.cfg.onlyStoreHash = true
  ends : ∃ gen task, next b.kind b.cfg b.env b.gen s.kv b.task = some ⟨.ok (), gen, s'.kv, task⟩ ∧
    task.future.exception = none
  serves : ∀ dic kv, s.kv.acquirePartitions b.gen.nextBatch.1.keys a = some (dic, kv) →
    b.Serves dic ⟨kv, b.gen.nextBatch.1, b.task⟩ s.server s'.server

/-- What holds between batches: no lock is taken, and the two sides are in sync. -/
structure Ready (a : Addr) (s : System n) : Prop where
  free : s.kv.Free
  inSync : InSync a s.kv s.server

/-- The operation of a batch keeps the two in sync. -/
theorem InSync.runOp {a : Addr} {b : Batch C} (haddr : b.cfg.addr = a) (hexp : b.cfg.exp = 0)
    (hhash : b.cfg.onlyStoreHash = true) {dic : Dict (Fin n) (List String)} {st st' : Loading n C}
    (hdic : Loading.Groups b.cfg dic st.keyVal.keys)
    (hrun : Loading.runOp b.kind b.cfg b.env dic st = (.ok (), st')) (hquiet : st'.Quiet) {server server' : Server}
    (hserves : b.Serves dic st server server') (h : InSync a st.kv server) : InSync a st'.kv server' := by
  unfold Batch.Serves at hserves
  unfold Loading.runOp at hrun
  cases hop : b.cfg.opType with
  | create =>
      simp only [hop] at hserves hrun
      have hsets := Loading.createBatch_sets hdic hrun hquiet
      rw [hserves hsets.client]
      exact h.set haddr hexp hhash hdic hsets b.cas
  | update =>
      simp only [hop] at hserves hrun
      have hsets := Loading.updateBatch_sets hdic h.lasting hrun hquiet
      rw [hserves hsets.client]
      exact h.set haddr hexp hhash hdic hsets b.cas
  | delete =>
      simp only [hop] at hserves hrun
      subst haddr
      rw [hserves]
      exact h.deleteKeys (fun p hp => ((hdic.mem p.1 p.2).1 hp).2) hrun hquiet
  | read =>
      simp only [hop] at hserves hrun
      have hkv : st'.kv = st.kv := by
        have hkeeps : Keeps (fun s : Loading n C => s.kv = st.kv) (Loading.readBatch b.env) := by
          refine Keeps.tryExcept (fun s hs => hs) fun e q hq => ?_
          split at hq <;> cases hq
          exact fun s hs => hs
        have hend := hkeeps st rfl
        rw [hrun] at hend
        exact hend
      rw [hserves, hkv]
      exact h
  | other name =>
      simp only [hop] at hrun
      rw [← (Prod.mk.inj hrun).2] at hquiet
      exact absurd hquiet (Loading.not_quiet_fail _ st)

/-- **The step lemma**: a batch that did not fail leaves the two sides in sync and no lock behind. -/
theorem Step.ready {a : Addr} {s s' : System n} {b : Batch C} (hstep : Step a s b s') (h : Ready a s) :
    Ready a s' := by
  obtain ⟨gen, task, hnext, hquiet⟩ := hstep.ends
  unfold next at hnext
  simp only at hnext
  split at hnext
  · cases hnext
  next dic kv hacquire =>
    obtain ⟨hdic, hlocks, -⟩ := KVStore.acquirePartitions_eq_some hacquire
    split at hnext
    · cases hnext
    next st hrun =>
      obtain ⟨kv', hrelease, hres⟩ := Option.map_eq_some_iff.1 hnext
      cases hres
      have hlocked := Loading.keeps_runOp kv b.kind b.cfg b.env dic ⟨kv, b.gen.nextBatch.1, b.task⟩ fun _ => rfl
      rw [hrun] at hlocked
      have hheld : ∀ i ∈ dic.keys, st.kv.locked i = true := by
        intro i hi
        rw [hlocked, hlocks.locked, decide_eq_true hi, Bool.or_true]
      obtain ⟨kv'', hrelease', hunlocked, hpart, -⟩ := KVStore.releasePartitions_spec dic.nodup_keys hheld
      obtain rfl := Option.some.inj (hrelease.symm.trans hrelease')
      refine ⟨fun i => ?_, ?_⟩
      · rw [hunlocked, hlocked, hlocks.locked, h.free i, Bool.false_or]
        by_cases hi : i ∈ dic.keys <;> simp [hi]
      · have hgroups : Loading.Groups b.cfg dic b.gen.nextBatch.1.keys :=
          hdic ▸ Loading.groups_groupKeys b.cfg b.gen.nextBatch.1.nodup_keys
        have hserves := hstep.serves dic kv (hstep.addr ▸ hacquire)
        exact (InSync.runOp hstep.addr hstep.exp hstep.hashes hgroups hrun hquiet hserves
          (h.inSync.of_part hlocks.part)).of_part hpart

/-- Two sides in sync agree in the sense of a validating task. -/
theorem InSync.agrees {a : Addr} {kv : KVStore n PyValue} {server : Server} (h : InSync a kv server)
    (cfg : ValidateConfig) {env : ValidateEnv} (hint : ∀ hash : ℕ, env.int (.str (toString hash)) = .ok hash) :
    ValidateDataTask.Agrees cfg env kv server where
  valid i _ key e he := by
    obtain ⟨-, -, doc, hdoc, -, hflag, hash, hcrc, hvalue⟩ := h.of_valid he
    exact ⟨doc, hash, hdoc, hcrc, hvalue ▸ hint hash, fun _ => hflag.symm⟩
  deleted i _ key hdeleted := by
    obtain ⟨value, hvalue⟩ := Dict.mem_keys_iff_exists.1 hdeleted
    by_contra hsome
    obtain ⟨doc, hdoc⟩ := Option.ne_none_iff_exists'.1 hsome
    by_cases hi : i = KVStore.hash n key a
    · subst hi
      obtain ⟨e, hheld, -⟩ := h.noted key doc hdoc
      exact Option.some_ne_none value (hvalue.symm.trans (congrArg Prod.snd hheld))
    · exact Option.some_ne_none value (hvalue.symm.trans (congrArg Prod.snd (h.placed i key hi)))

/-- **Loading, then validating**: after any batches that did not fail, from the empty store and the empty
    server, the two sides agree, and a run of the validating task records no exception. -/
theorem validate_after_loading {a : Addr} {batches : List (Batch C)} {s : System n}
    (hrun : Runs (Step a) ⟨KVStore.new n PyValue, ∅⟩ batches s) {cfg : ValidateConfig}
    (hcfg : cfg.onlyStoreHash = true) {env : ValidateEnv}
    (hint : ∀ hash : ℕ, env.int (.str (toString hash)) = .ok hash) (now : Int) :
    ValidateDataTask.Agrees cfg env s.kv s.server ∧
      ∃ t : ValidateDataTask n C, ValidateDataTask.validate cfg env now s.kv s.server = some t ∧
        t.st.future.exception = none := by
  have hready : Ready a s := hrun.invariant_of_all (Ready a) (fun _ _ _ hstep h => hstep.ready h)
    ⟨KVStore.free_new n PyValue, inSync_new a⟩
  have hagrees := hready.inSync.agrees cfg hint
  refine ⟨hagrees, ?_⟩
  have hlasting := hready.inSync.lasting
  obtain ⟨t, hvalidate, hiff⟩ := ValidateDataTask.validate_finds (C := C) hcfg hready.free
    (fun i tick => hlasting.still i (env.clock tick)) (fun i => hlasting.still i now) s.server
  refine ⟨t, hvalidate, hiff.2 ⟨fun key e hlooked => ?_, fun i hi key hkey => ?_⟩⟩
  · exact hagrees.valid _ (KVStore.hash_mem_scope key cfg.addr) key e hlooked.1
  · exact fun hdeleted => hdeleted.1 (hagrees.deleted i hi key hkey)

/-- `int` on the texts of numbers, and an outside around it. -/
def readEnv : ValidateEnv where
  json := ⟨fun _ => .error .valueError, fun _ => none⟩
  int := fun
    | .str s => match PyText.readInt s.toList with
        | some k => .ok k
        | none => .error .valueError
    | .int k => .ok k
    | _ => .error .typeError
  ne := fun _ _ => true
  str := fun _ => ""
  clock := fun _ => 0

theorem readEnv_int (hash : ℕ) : readEnv.int (.str (toString hash)) = .ok hash := by
  simp only [readEnv, PyText.readInt_toString]

/-- The batch that creates `k0`. -/
def createOne : Batch Unit :=
  ⟨.loadDocuments, ⟨.create, 0, 0, true, {}⟩, succeeding, oneDocument, ⟨false, Future.new⟩, fun _ => 1⟩

/-- One document is created and found. -/
theorem validate_after_loading_one : ∃ s : System 4, s.server.keys = ["k0"] ∧
    ValidateDataTask.Agrees Validate.plainConfig readEnv s.kv s.server ∧
      ∃ t : ValidateDataTask 4 Unit, ValidateDataTask.validate Validate.plainConfig readEnv 0 s.kv s.server = some t ∧
        t.st.future.exception = none := by
  have hacquired : ((KVStore.new 4 PyValue).acquirePartitions oneDocument.nextBatch.1.keys {}).isSome = true :=
    KVStore.acquirePartitions_isSome rfl fun _ _ => rfl
  obtain ⟨⟨dic, kv⟩, hacquire⟩ := Option.isSome_iff_exists.1 hacquired
  have hends : ((next .loadDocuments createOne.cfg succeeding oneDocument (KVStore.new 4 PyValue)
      createOne.task).map fun res => (res.outcome.isOk, res.task.future.exception)) = some (true, none) := by
    decide +kernel
  obtain ⟨⟨outcome, gen, kv', task⟩, hnext, hres⟩ := Option.map_eq_some_iff.1 hends
  obtain ⟨hok, hquiet⟩ := Prod.mk.inj hres
  obtain ⟨⟨⟩, rfl⟩ : ∃ u, outcome = .ok u := by
    cases outcome with
    | ok u => exact ⟨u, rfl⟩
    | error e => cases hok
  let server := (∅ : Server).setMulti 0 createOne.cas (Loading.processValuesForCreate .loadDocuments succeeding
    (⟨kv, oneDocument.nextBatch.1, createOne.task⟩ : Loading 4 Unit)).2.keyVal
  have hstep : Step {} ⟨KVStore.new 4 PyValue, ∅⟩ createOne ⟨kv', server⟩ := by
    refine ⟨rfl, rfl, rfl, ⟨gen, task, hnext, hquiet⟩, fun dic' kv'' hacquire' => ?_⟩
    obtain ⟨-, rfl⟩ := Prod.mk.inj (Option.some.inj (hacquire.symm.trans hacquire'))
    exact fun _ => rfl
  exact ⟨⟨kv', server⟩, rfl,
    validate_after_loading (.cons hstep (.nil _)) rfl readEnv_int 0⟩

end LoadThenValidate

end TestInfra
