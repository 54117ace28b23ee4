import TestInfra.KVStore.View
import TestInfra.Tasks.Release
import TestInfra.Tasks.Throughput
import Mathlib.Data.List.Perm.Basic
import Mathlib.Tactic.Ring

set_option autoImplicit false

/-! # Both modes load the same documents

Cutting a generator into parts loses no document and makes none twice (`flatMap_parts`); every loop on
the way, in batches of any size, `Loads` exactly the documents of its generator; and what a child
loaded into an empty store, merged, is loaded into the parent. So the high throughput mode ends, in
every order in which the children arrive, with the content of setting every document directly, and so
does the normal mode in batches.

With batch size 1, for which the high throughput mode is not entered, the normal mode makes its values
in `_unlocked_create`: it encodes a document that is no object as it is and keeps a base-64 text, where
a batch encodes the text once more and mutates it. It then ends with the same content exactly when the
two ways store the same for every document. -/

namespace TestInfra

open Raises Raises.Prog

/-! ## Cutting a range -/

theorem pyRange_nil {start stop step : Int} (hstep : 0 < step) (h : stop ≤ start) :
    pyRange start stop step = [] := by
  have hq : (stop - start + step - 1) / step < 1 := Int.ediv_lt_of_lt_mul hstep (by omega)
  have hzero : ((stop - start + step - 1) / step).toNat = 0 := by omega
  simp only [pyRange, hzero, List.range_zero, List.map_nil]

theorem pyRange_cons {start stop step : Int} (hstep : 0 < step) (h : start < stop) :
    pyRange start stop step = start :: pyRange (start + step) stop step := by
  have hq : (stop - start + step - 1) / step = (stop - (start + step) + step - 1) / step + 1 := by
    have hnum : stop - start + step - 1 = (stop - (start + step) + step - 1) + 1 * step := by ring
    rw [hnum, Int.add_mul_ediv_right _ _ (by omega)]
  have hnonneg : 0 ≤ (stop - (start + step) + step - 1) / step :=
    Int.ediv_nonneg (by omega) (by omega)
  have hnat : ((stop - start + step - 1) / step).toNat
      = ((stop - (start + step) + step - 1) / step).toNat + 1 := by omega
  simp only [pyRange, hnat, List.range_succ_eq_map, List.map_cons, List.map_map]
  congr 1
  · simp
  · refine List.map_congr_left fun j _ => ?_
    simp only [Function.comp_apply, Nat.succ_eq_add_one]
    push_cast
    ring

namespace KVGenerator

variable {V : Type*}

/-- The documents of the positions from `a` up to `b`. -/
def docsBetween (doc : Int → String × V) (a b : Int) : List (String × V) :=
  (List.range (b - a).toNat).map fun j : Nat => doc (a + (j : Int))

theorem docsBetween_nil (doc : Int → String × V) {a b : Int} (h : b ≤ a) :
    docsBetween doc a b = [] := by
  have hzero : (b - a).toNat = 0 := by omega
  simp only [docsBetween, hzero, List.range_zero, List.map_nil]

theorem docsBetween_append (doc : Int → String × V) {a b c : Int} (hab : a ≤ b) (hbc : b ≤ c) :
    docsBetween doc a b ++ docsBetween doc b c = docsBetween doc a c := by
  have hlen : (c - a).toNat = (b - a).toNat + (c - b).toNat := by omega
  simp only [docsBetween, hlen, List.range_add, List.map_append, List.map_map]
  congr 1
  refine List.map_congr_left fun j _ => ?_
  simp only [Function.comp_apply]
  congr 1
  omega

/-- **The parts of a range make up the range**: wherever the cutting starts, however wide the parts
    are and however far past the end it looks. -/
theorem flatMap_docsBetween (doc : Int → String × V) (a : Int) {stop last step : Int}
    (hstep : 0 < step) (hlast : stop ≤ last) :
    (pyRange a last step).flatMap
        (fun pos => docsBetween doc pos (if pos + step > stop then stop else pos + step))
      = docsBetween doc a stop := by
  -- induction on the distance from `a` to the end of the cutting
  have hind : ∀ (m : Nat) (a : Int), (last - a).toNat ≤ m →
      (pyRange a last step).flatMap
          (fun pos => docsBetween doc pos (if pos + step > stop then stop else pos + step))
        = docsBetween doc a stop := by
    intro m
    induction m with
    | zero =>
        intro a ha
        have hle : last ≤ a := by omega
        rw [pyRange_nil hstep hle, List.flatMap_nil, docsBetween_nil doc (by omega)]
    | succ m ih =>
        intro a ha
        by_cases hle : last ≤ a
        · rw [pyRange_nil hstep hle, List.flatMap_nil, docsBetween_nil doc (by omega)]
        · rw [pyRange_cons hstep (by omega), List.flatMap_cons, ih (a + step) (by omega)]
          by_cases hover : a + step > stop
          · rw [if_pos hover, docsBetween_nil doc (show stop ≤ a + step by omega), List.append_nil]
          · rw [if_neg hover]
            exact docsBetween_append doc (by omega) (by omega)
  exact hind _ a (Nat.le_refl _)

end KVGenerator

namespace Throughput

variable {n : Nat} {C : Type*}

/-- **No document is lost and none is made twice** by the cutting: the parts hold the documents of the
    generators, in their order. -/
theorem flatMap_parts (quotient : Int → ℕ+ → Int) (processConcurrency : ℕ+) (batchSize : Nat)
    (hbatch : 0 < batchSize) {gens : List (KVGenerator PyValue)}
    (hfresh : ∀ g ∈ gens, g.itr = g.start) :
    (allParts quotient processConcurrency batchSize hbatch gens).flatMap (fun b => b.docGen.rest)
      = gens.flatMap KVGenerator.rest := by
  rw [allParts, List.flatMap_assoc]
  refine List.flatMap_congr fun g hg => ?_
  rw [partitionGenerator, List.flatMap_map]
  have hstep : 0 < max (quotient g.stop processConcurrency) 1 := by omega
  have hlast : g.stop ≤ max g.stop 1 := by omega
  have hcut := KVGenerator.flatMap_docsBetween g.doc g.start hstep hlast
  have hrest : g.rest = KVGenerator.docsBetween g.doc g.start g.stop := by
    rw [← hfresh g hg]
    rfl
  rw [hrest, ← hcut]
  rfl

/-! ## What one batch loads -/

/-- Where and how the tasks store a document. -/
def spec [NeZero n] (cfg : LoadConfig) (env : Env) : KVStore.LoadSpec n :=
  ⟨fun k => KVStore.hash n k cfg.addr, env.setClock, cfg.exp, cfg.flag⟩

/-- The document as it goes into the store. -/
def storeDoc (value : String × PyValue → PyValue) (d : String × PyValue) : String × PyValue :=
  (d.1, value d)

/-- Every document can be processed, and `value` is what is stored for it. -/
def Processes (cfg : LoadConfig) (env : Env) (value : String × PyValue → PyValue)
    (docs : List (String × PyValue)) : Prop :=
  ∀ d ∈ docs, (Loading.createValue .loadDocuments env d.1 d.2 >>= Loading.storedValue cfg)
    = .ok (value d)

/-- The same of `_unlocked_create`. -/
def ProcessesSingle (cfg : LoadConfig) (env : Env) (isBase64 : Bool) (value : String × PyValue → PyValue)
    (docs : List (String × PyValue)) : Prop :=
  ∀ d ∈ docs, (createValueSingle env isBase64 d.1 d.2 >>= Loading.storedValue cfg) = .ok (value d)

/-- Values that can be processed are stored as a text or its hash. -/
theorem exists_processes (cfg : LoadConfig) {env : Env} {docs : Dict String PyValue}
    (h : ∀ k v, docs.get? k = some v → ∃ w, Loading.createValue .loadDocuments env k v = .ok w) :
    ∃ value, Processes cfg env value docs.items := by
  refine ⟨fun d => (Loading.createValue .loadDocuments env d.1 d.2 >>= Loading.storedValue cfg).toOption.getD
    .none, fun d hd => ?_⟩
  obtain ⟨w, hw⟩ := h d.1 d.2 ((Dict.get?_eq_some_iff _ _ _).2 hd)
  obtain ⟨t, rfl⟩ := (Loading.processed_createValue .loadDocuments env d.1 d.2).text w hw
  obtain ⟨x, hx⟩ := Loading.storedValue_str cfg t
  have heq : (Loading.createValue .loadDocuments env d.1 d.2 >>= Loading.storedValue cfg) = .ok x := by
    rw [hw]
    exact hx
  simp only [heq]
  rfl

/-- `json.dumps` encodes whatever `json.loads` gave. -/
def DumpsLoaded (js : JsonLib) : Prop := ∀ x v, js.loads x = .ok v → (js.dumps v).isSome = true

/-- Only a text that is not empty can be mutated. -/
theorem checkIndex_of_mutate {r : PyValue.Draw} {v w : PyValue} (h : v.mutate r = .ok w) :
    ∃ t, v.checkIndex = .ok (.str t) := by
  cases v with
  | str t =>
      refine ⟨t, ?_⟩
      simp only [PyValue.mutate] at h
      split at h
      · cases h
      · next hlen => simp only [PyValue.checkIndex, if_neg hlen]
  | bytes b =>
      simp only [PyValue.mutate] at h
      split at h <;> cases h
  | _ => cases h

/-- A value that can be processed in a batch can be processed on its own. -/
theorem exists_createValueSingle {env : Env} (hdumps : DumpsLoaded env.json) {key : String}
    {value w : PyValue} (h : Loading.createValue .loadDocuments env key value = .ok w) (isBase64 : Bool) :
    ∃ t, createValueSingle env isBase64 key value = .ok (.str t) := by
  obtain ⟨t, rfl⟩ := (Loading.processed_createValue .loadDocuments env key value).text w h
  simp only [Loading.createValue, Loading.createValueGeneric, JsonLib.edited] at h
  simp only [createValueSingle, JsonLib.edited]
  rcases hloads : env.json.loads value with (_ | _) | v
  · rw [hloads] at h
    cases isBase64 with
    | true => exact checkIndex_of_mutate h
    | false => exact ⟨t, h⟩
  · rw [hloads] at h
    exact ⟨t, h⟩
  · rw [hloads] at h
    -- an object is edited as in a batch; anything else is encoded as it was decoded
    obtain ⟨text, htext⟩ := Option.isSome_iff_exists.1 (hdumps _ v hloads)
    cases v with
    | dict d =>
        refine ⟨t, ?_⟩
        simp only [Except.mapError, bind, Except.bind, PyValue.setItem, JsonLib.dump] at h ⊢
        cases hdict : env.json.dumps (.dict (Assoc.store "mutated" (.int 0) d)) with
        | none => simpa only [hdict] using h
        | some s => simpa only [hdict] using h
    | _ => exact ⟨text, by simp [JsonLib.dump, htext, Except.mapError, bind, Except.bind]⟩

/-- Documents that can be processed in batches can be processed one by one. -/
theorem exists_processesSingle (cfg : LoadConfig) {env : Env} (hdumps : DumpsLoaded env.json)
    {value : String × PyValue → PyValue} {docs : List (String × PyValue)}
    (h : Processes cfg env value docs) (isBase64 : Bool) :
    ∃ stored, ProcessesSingle cfg env isBase64 stored docs := by
  refine ⟨fun d => (createValueSingle env isBase64 d.1 d.2 >>= Loading.storedValue cfg).toOption.getD .none,
    fun d hd => ?_⟩
  obtain ⟨w, hw⟩ : ∃ w, Loading.createValue .loadDocuments env d.1 d.2 = .ok w := by
    rcases hc : Loading.createValue .loadDocuments env d.1 d.2 with e | w
    · have hd := h d hd
      rw [hc] at hd
      cases hd
    · exact ⟨w, rfl⟩
  obtain ⟨t, ht⟩ := exists_createValueSingle hdumps hw isBase64
  obtain ⟨x, hx⟩ := Loading.storedValue_str cfg t
  have heq : (createValueSingle env isBase64 d.1 d.2 >>= Loading.storedValue cfg) = .ok x := by
    rw [ht]
    exact hx
  simp only [heq]
  rfl

theorem map_fst_storeDoc (value : String × PyValue → PyValue) (docs : List (String × PyValue)) :
    (docs.map (storeDoc value)).map Prod.fst = docs.map Prod.fst := by
  rw [List.map_map]
  rfl

theorem processValuesForCreate_eq {env : Env} {st : Loading n C}
    {w : String × PyValue → PyValue}
    (hw : ∀ e ∈ st.keyVal.items, Loading.createValue .loadDocuments env e.1 e.2 = .ok (w e)) :
    ∃ keyVal, Loading.processValuesForCreate .loadDocuments env st
        = (.ok (), { st with keyVal := keyVal }) ∧
      ∀ k x, keyVal.get? k = some x ↔ ∃ v, st.keyVal.get? k = some v ∧ x = w (k, v) := by
  -- the loop stores the processed values one by one
  have hloop : ∀ (l : List (String × PyValue)) (st : Loading n C),
      (∀ e ∈ l, Loading.createValue .loadDocuments env e.1 e.2 = .ok (w e)) →
      forEach (Loading.processForCreate .loadDocuments env) l st
        = (.ok (), { st with keyVal :=
            (l.map (storeDoc w)).foldl (fun d e => d.set e.1 e.2) st.keyVal }) := by
    intro l
    induction l with
    | nil => exact fun st _ => rfl
    | cons e rest ih =>
        intro st hl
        have hstep : Loading.processForCreate .loadDocuments env e st
            = (.ok (), { st with keyVal := st.keyVal.set e.1 (w e) }) := by
          simp only [Loading.processForCreate, hl e List.mem_cons_self]
        rw [forEach, seq_of_ok hstep, ih _ fun e' he' => hl e' (List.mem_cons_of_mem _ he')]
        rfl
  have hfind : ∀ (l : List (String × PyValue)) (k : String),
      Assoc.find k (l.map (storeDoc w)) = (Assoc.find k l).map fun v => w (k, v) := by
    intro l k
    induction l with
    | nil => rfl
    | cons e rest ih =>
        simp only [List.map_cons, storeDoc, Assoc.find] at ih ⊢
        by_cases hk : e.1 = k
        · subst hk; simp
        · simp only [if_neg hk, ih]
  have hnod : ((st.keyVal.items.map (storeDoc w)).map Prod.fst).Nodup := by
    rw [map_fst_storeDoc]
    exact st.keyVal.nodup_keys
  refine ⟨_, hloop st.keyVal.items st hw, ?_⟩
  intro k x
  have hget : st.keyVal.get? k = Assoc.find k st.keyVal.items := rfl
  rw [Dict.get?_foldl_set _ hnod, hfind, ← hget]
  cases st.keyVal.get? k <;> simp [eq_comm]

/-- The client part of a create batch, when the client succeeds. -/
theorem createBatchClient_eq {env : Env} (hset : env.setMulti = .ok ()) {st : Loading n C}
    {w : String × PyValue → PyValue}
    (hw : ∀ e ∈ st.keyVal.items, Loading.createValue .loadDocuments env e.1 e.2 = .ok (w e)) :
    ∃ keyVal, Loading.createBatchClient .loadDocuments env st
        = (.ok (), { st with keyVal := keyVal }) ∧
      ∀ k x, keyVal.get? k = some x ↔ ∃ v, st.keyVal.get? k = some v ∧ x = w (k, v) := by
  obtain ⟨keyVal, heq, hget⟩ := processValuesForCreate_eq hw
  refine ⟨keyVal, ?_, hget⟩
  have hseq : ((Loading.processValuesForCreate .loadDocuments env).seq
      (Loading.client env.setMulti)) st = (.ok (), { st with keyVal := keyVal }) := by
    rw [seq_of_ok heq, hset]
    rfl
  simp only [Loading.createBatchClient, Prog.tryExcept, hseq]

/-- The client part of a create batch, when `setMulti` fails with an exception that is caught. -/
theorem createBatchClient_failed {env : Env} {e : Exn} (hset : env.setMulti = .error e)
    (hcaught : Loading.caughtBySet e = true) {st : Loading n C} {w : String × PyValue → PyValue}
    (hw : ∀ e ∈ st.keyVal.items, Loading.createValue .loadDocuments env e.1 e.2 = .ok (w e)) :
    ∃ keyVal, Loading.createBatchClient .loadDocuments env st
        = (.ok (), Loading.fail e { st with keyVal := keyVal }) ∧
      ∀ k x, keyVal.get? k = some x ↔ ∃ v, st.keyVal.get? k = some v ∧ x = w (k, v) := by
  obtain ⟨keyVal, heq, hget⟩ := processValuesForCreate_eq hw
  refine ⟨keyVal, ?_, hget⟩
  have hseq : ((Loading.processValuesForCreate .loadDocuments env).seq
      (Loading.client env.setMulti)) st = (.error e, { st with keyVal := keyVal }) := by
    rw [seq_of_ok heq, hset]
    rfl
  rw [Loading.createBatchClient, tryExcept_of_error hseq]
  simp only [Loading.handleSet, hcaught, if_true]

/-- An exception that is not caught leaves the client part of a create batch. -/
theorem createBatchClient_of_uncaught {env : Env} {st st' : Loading n C} {e : Exn}
    (h : ((Loading.processValuesForCreate .loadDocuments env).seq (Loading.client env.setMulti)) st
      = (.error e, st')) (he : Loading.caughtBySet e = false) :
    Loading.createBatchClient .loadDocuments env st = (.error e, st') := by
  rw [Loading.createBatchClient, tryExcept_of_error h]
  simp only [Loading.handleSet, he, Bool.false_eq_true, if_false]

/-- `Processes`, seen as the two functions it is made of. -/
theorem Processes.exists_text {cfg : LoadConfig} {env : Env} {value : String × PyValue → PyValue}
    {docs : List (String × PyValue)} (h : Processes cfg env value docs) :
    ∃ w : String × PyValue → PyValue, ∀ d ∈ docs,
      Loading.createValue .loadDocuments env d.1 d.2 = .ok (w d) ∧
        Loading.storedValue cfg (w d) = .ok (value d) := by
  refine ⟨fun d => (Loading.createValue .loadDocuments env d.1 d.2).toOption.getD .none, ?_⟩
  intro d hd
  have hd := h d hd
  cases hc : Loading.createValue .loadDocuments env d.1 d.2 with
  | error e => rw [hc] at hd; cases hd
  | ok x =>
      rw [hc] at hd
      simp only [hc]
      exact ⟨rfl, hd⟩

/-- `cache_items` sets the processed documents in the child's store. -/
theorem cacheItems_eq [NeZero n] {cfg : LoadConfig} {env : Env} {st : Loading n C}
    {s : String × PyValue → PyValue}
    (hs : ∀ e ∈ st.keyVal.items, Loading.storedValue cfg e.2 = .ok (s e)) :
    cacheItems cfg env st = (.ok (), ⟨st.kv.setAll (spec cfg env)
      (st.keyVal.items.map (storeDoc s)), st.keyVal, st.task⟩) := by
  have hloop : ∀ (l : List (String × PyValue)) (st : Loading n C),
      (∀ e ∈ l, Loading.storedValue cfg e.2 = .ok (s e)) →
      forEach (cacheItem cfg env) l st = (.ok (), ⟨st.kv.setAll (spec cfg env)
        (l.map (storeDoc s)), st.keyVal, st.task⟩) := by
    intro l
    induction l with
    | nil => exact fun st _ => rfl
    | cons e rest ih =>
        intro st hl
        have hstep : cacheItem cfg env e st
            = (.ok (), { st with kv := st.kv.setDoc (spec cfg env) (storeDoc s e) }) := by
          simp only [cacheItem, hl e List.mem_cons_self]
          rfl
        rw [forEach, seq_of_ok hstep, ih _ fun e' he' => hl e' (List.mem_cons_of_mem _ he')]
        rfl
  exact hloop st.keyVal.items st hs

/-- The items of a batch are the next documents of the generator. -/
theorem nextBatch_items {gen : BatchedDocumentGenerator PyValue}
    (hnod : (gen.docGen.rest.map Prod.fst).Nodup) :
    gen.nextBatch.1.items = gen.docGen.rest.take gen.batchSize := by
  rw [gen.nextBatch_fst]
  have htake : ((gen.docGen.rest.take gen.batchSize).map Prod.fst).Nodup := by
    rw [List.map_take]
    exact hnod.sublist (List.take_sublist _ _)
  rw [Dict.items_foldl_set htake (by simp)]
  rfl

/-- Which documents the processed `key_val` of a batch holds. -/
theorem mem_items_processed {docs : List (String × PyValue)} {batch keyVal : Dict String PyValue}
    {w : String × PyValue → PyValue} (hitems : batch.items = docs)
    (hget : ∀ k x, keyVal.get? k = some x ↔ ∃ v, batch.get? k = some v ∧ x = w (k, v))
    (e : String × PyValue) : e ∈ keyVal.items ↔ e ∈ docs.map (storeDoc w) := by
  obtain ⟨k, x⟩ := e
  rw [← Dict.get?_eq_some_iff, hget, List.mem_map]
  constructor
  · rintro ⟨v, hv, rfl⟩
    exact ⟨(k, v), hitems ▸ (Dict.get?_eq_some_iff _ _ _).1 hv, rfl⟩
  · rintro ⟨⟨k', v⟩, hmem, heq⟩
    cases heq
    exact ⟨v, (Dict.get?_eq_some_iff _ _ _).2 (hitems ▸ hmem), rfl⟩

/-- The stored form of a processed document. -/
def stored (cfg : LoadConfig) (e : String × PyValue) : PyValue :=
  match Loading.storedValue cfg e.2 with
  | .ok x => x
  | .error _ => .none

/-- `cache_items` after the values of the batch were processed. -/
theorem cacheItems_loads [NeZero n] {cfg : LoadConfig} (env : Env)
    {value w : String × PyValue → PyValue} {docs : List (String × PyValue)}
    (hw : ∀ d ∈ docs, Loading.storedValue cfg (w d) = .ok (value d))
    {batch keyVal : Dict String PyValue} (hitems : batch.items = docs)
    (hget : ∀ k x, keyVal.get? k = some x ↔ ∃ v, batch.get? k = some v ∧ x = w (k, v))
    (kv : KVStore n PyValue) (task : TaskState C) :
    ∃ kv', cacheItems cfg env ⟨kv, keyVal, task⟩ = (.ok (), ⟨kv', keyVal, task⟩) ∧
      KVStore.Loads (spec cfg env) (docs.map (storeDoc value)) kv kv' := by
  have hmem := mem_items_processed hitems hget
  have hstored : ∀ d ∈ docs, stored cfg (storeDoc w d) = value d := fun d hd => by
    simp only [stored, storeDoc, hw d hd]
  have hs : ∀ e ∈ keyVal.items, Loading.storedValue cfg e.2 = .ok (stored cfg e) := by
    intro e he
    obtain ⟨d, hd, rfl⟩ := List.mem_map.1 ((hmem e).1 he)
    rw [hstored d hd]
    exact hw d hd
  have hcache : cacheItems cfg env (⟨kv, keyVal, task⟩ : Loading n C) = _ := cacheItems_eq hs
  refine ⟨_, hcache, ?_⟩
  have hkeys : ((keyVal.items.map (storeDoc (stored cfg))).map Prod.fst).Nodup := by
    rw [map_fst_storeDoc]
    exact keyVal.nodup_keys
  refine (KVStore.Loads.setAll (spec cfg env) hkeys kv).of_mem_iff fun e => ?_
  simp only [List.mem_map, hmem]
  constructor
  · rintro ⟨e', ⟨d, hd, rfl⟩, rfl⟩
    exact ⟨d, hd, by rw [storeDoc, ← hstored d hd]; rfl⟩
  · rintro ⟨d, hd, rfl⟩
    exact ⟨storeDoc w d, ⟨d, hd, rfl⟩, by rw [storeDoc, hstored d hd]; rfl⟩

/-- **One batch of a child**: the next documents of its generator are loaded into its own store. -/
theorem childBatch_loads [NeZero n] {cfg : LoadConfig} {env : Env}
    {value : String × PyValue → PyValue} (hset : env.setMulti = .ok ())
    {docs : List (String × PyValue)} (hval : Processes cfg env value docs) {st : Loading n C}
    (hitems : st.keyVal.items = docs) :
    ∃ st', ((Loading.createBatchClient .loadDocuments env).seq (cacheItems cfg env)) st
        = (.ok (), st') ∧ st'.task = st.task ∧
      KVStore.Loads (spec cfg env) (docs.map (storeDoc value)) st.kv st'.kv := by
  obtain ⟨w, hw⟩ := hval.exists_text
  have hwst : ∀ e ∈ st.keyVal.items,
      Loading.createValue .loadDocuments env e.1 e.2 = .ok (w e) := fun e he => (hw e (hitems ▸ he)).1
  obtain ⟨keyVal, hclient, hget⟩ := createBatchClient_eq hset hwst
  obtain ⟨kv', hcache, hload⟩ :=
    cacheItems_loads env (fun d hd => (hw d hd).2) hitems hget st.kv st.task
  exact ⟨_, (seq_of_ok hclient).trans hcache, rfl, hload⟩

/-! ## What the loops load -/

theorem documentsLeft_eq (g : KVGenerator PyValue) : documentsLeft g = g.rest.length := by
  simp [documentsLeft, KVGenerator.rest]

/-- The documents of a generator, cut where a batch ends. -/
theorem disjoint_batch {docs : List (String × PyValue)} (hnod : (docs.map Prod.fst).Nodup)
    (value : String × PyValue → PyValue) (m : Nat) :
    (((docs.take m).map (storeDoc value)).map Prod.fst).Disjoint
      (((docs.drop m).map (storeDoc value)).map Prod.fst) := by
  rw [map_fst_storeDoc, map_fst_storeDoc, List.map_take, List.map_drop]
  exact List.disjoint_take_drop hnod (Nat.le_refl m)

theorem hasNext_of_rest_nil {gen : BatchedDocumentGenerator PyValue} (h : gen.docGen.rest = []) :
    gen.hasNext = false := by
  cases hn : gen.docGen.hasNext with
  | false => exact hn
  | true =>
      rw [KVGenerator.rest_of_hasNext hn] at h
      cases h

/-- A batch takes at least one document. -/
theorem length_drop_le {gen : BatchedDocumentGenerator PyValue} (hn : gen.hasNext = true) {fuel : Nat}
    (hfuel : gen.docGen.rest.length ≤ fuel + 1) :
    (gen.docGen.rest.drop gen.batchSize).length ≤ fuel := by
  have hpos := gen.batchSize_pos
  have hlong : 0 < gen.docGen.rest.length := by
    rw [KVGenerator.rest_of_hasNext hn]
    simp
  rw [List.length_drop]
  omega

/-- **The loop of a child** runs its generator to the end and loads all its documents. -/
theorem generatorLoop_loads [NeZero n] {cfg : LoadConfig} {env : Env}
    {value : String × PyValue → PyValue} (hset : env.setMulti = .ok ()) (fuel round : Nat)
    (gen : BatchedDocumentGenerator PyValue) (st : Loading n C)
    (hfuel : gen.docGen.rest.length ≤ fuel) (htask : st.task.future.done = false)
    (hval : Processes cfg env value gen.docGen.rest)
    (hnod : (gen.docGen.rest.map Prod.fst).Nodup) :
    (generatorLoop cfg (fun _ => env) fuel round gen st).1.hasNext = false ∧
      KVStore.Loads (spec cfg env) (gen.docGen.rest.map (storeDoc value)) st.kv
        (generatorLoop cfg (fun _ => env) fuel round gen st).2.kv := by
  induction fuel generalizing round gen st with
  | zero =>
      have hrest : gen.docGen.rest = [] := List.eq_nil_of_length_eq_zero (by omega)
      refine ⟨hasNext_of_rest_nil hrest, ?_⟩
      rw [hrest]
      exact KVStore.Loads.nil st.kv
  | succ fuel ih =>
      cases hn : gen.hasNext with
      | false =>
          have hrest : gen.docGen.rest = [] := KVGenerator.rest_of_not_hasNext hn
          simp only [generatorLoop, hn, Bool.false_and, Bool.false_eq_true, if_false, hrest,
            List.map_nil]
          exact ⟨trivial, KVStore.Loads.nil st.kv⟩
      | true =>
          have hdrop := gen.nextBatch_rest
          have hlen : gen.nextBatch.2.docGen.rest.length ≤ fuel := by
            rw [hdrop]
            exact length_drop_le hn hfuel
          have hbatch : Processes cfg env value (gen.docGen.rest.take gen.batchSize) :=
            fun d hd => hval d (List.mem_of_mem_take hd)
          have hitems : (⟨st.kv, gen.nextBatch.1, st.task⟩ : Loading n C).keyVal.items
              = gen.docGen.rest.take gen.batchSize := nextBatch_items hnod
          obtain ⟨st', hrun, htask', hload⟩ := childBatch_loads hset hbatch hitems
          have hnod' : (gen.nextBatch.2.docGen.rest.map Prod.fst).Nodup := by
            rw [hdrop, List.map_drop]
            exact hnod.sublist (List.drop_sublist _ _)
          obtain ⟨hend, hload'⟩ := ih (round + 1) gen.nextBatch.2 st' hlen (by rw [htask']; exact htask)
            (fun d hd => hval d (List.mem_of_mem_drop (hdrop ▸ hd))) hnod'
          simp only [generatorLoop, hn, htask, Bool.not_false, Bool.and_self, if_true, hrun]
          refine ⟨hend, ?_⟩
          rw [← List.take_append_drop gen.batchSize gen.docGen.rest, List.map_append]
          rw [hdrop] at hload'
          exact hload.append hload' (disjoint_batch hnod value gen.batchSize)

/-- `_populate_kvstore` sets the documents of `key_val`, grouped by partition. -/
theorem populateKvstore_eq [NeZero n] {cfg : LoadConfig} (env : Env)
    {dic : Dict (Fin n) (List String)} {st : Loading n C} {s : String → PyValue}
    (hpw : (Loading.slotKeys dic).Pairwise fun p q => p.2 ≠ q.2)
    (hslot : ∀ p ∈ Loading.slotKeys dic, KVStore.hash n p.2 cfg.addr = p.1)
    (hs : ∀ p ∈ Loading.slotKeys dic, ∃ x, st.keyVal.get? p.2 = some x ∧
      Loading.storedValue cfg x = .ok (s p.2)) :
    ∃ keyVal, Loading.populateKvstore cfg env dic st = (.ok (), ⟨st.kv.setAll (spec cfg env)
      ((Loading.slotKeys dic).map fun p => (p.2, s p.2)), keyVal, st.task⟩) := by
  rw [Loading.populateKvstore, Loading.forEach_slotKeys]
  generalize Loading.slotKeys dic = l at hpw hslot hs
  induction l generalizing st with
  | nil => exact ⟨st.keyVal, rfl⟩
  | cons p rest ih =>
      obtain ⟨hne, hpw⟩ := List.pairwise_cons.1 hpw
      obtain ⟨x, hx, hstored⟩ := hs p List.mem_cons_self
      have hstep : Loading.populateKey cfg env p.1 p.2 st = (.ok (),
          ⟨st.kv.setDoc (spec cfg env) (p.2, s p.2), st.keyVal.set p.2 (s p.2), st.task⟩) := by
        simp only [Loading.populateKey, hx, hstored, KVStore.setDoc, spec,
          hslot p List.mem_cons_self]
      rw [forEach, seq_of_ok hstep]
      refine ih hpw (fun q hq => hslot q (List.mem_cons_of_mem _ hq)) fun q hq => ?_
      have hq2 : q.2 ≠ p.2 := (hne q hq).symm
      rw [Dict.get?_set, if_neg hq2]
      exact hs q (List.mem_cons_of_mem _ hq)

/-- What is stored under a key of the batch. -/
def storedUnder (value : String × PyValue → PyValue) (batch : Dict String PyValue) (k : String) :
    PyValue :=
  match batch.get? k with
  | some v => value (k, v)
  | none => .none

/-- `_populate_kvstore` after the values of the batch were processed. -/
theorem populateKvstore_loads [NeZero n] {cfg : LoadConfig} (env : Env)
    {value w : String × PyValue → PyValue} {docs : List (String × PyValue)}
    (hw : ∀ d ∈ docs, Loading.storedValue cfg (w d) = .ok (value d))
    {batch keyVal : Dict String PyValue} (hitems : batch.items = docs)
    (hget : ∀ k x, keyVal.get? k = some x ↔ ∃ v, batch.get? k = some v ∧ x = w (k, v))
    (kv : KVStore n PyValue) (task : TaskState C) :
    ∃ kv' keyVal', Loading.populateKvstore cfg env (KVStore.groupKeys n cfg.addr batch.keys)
        ⟨kv, keyVal, task⟩ = (.ok (), ⟨kv', keyVal', task⟩) ∧
      (∀ i, kv'.locked i = kv.locked i) ∧ kv'.acquireLock = kv.acquireLock ∧
      KVStore.Loads (spec cfg env) (docs.map (storeDoc value)) kv kv' := by
  have hkey : ∀ k ∈ batch.keys, ∃ v, batch.get? k = some v ∧ (k, v) ∈ docs := by
    intro k hk
    obtain ⟨v, hv⟩ := Dict.mem_keys_iff_exists.1 hk
    exact ⟨v, hv, hitems ▸ (Dict.get?_eq_some_iff _ _ _).1 hv⟩
  have hmem := Loading.mem_slotKeys_groupKeys (n := n) cfg.addr batch.keys
  have hpw := Loading.slotKeys_pairwise (n := n) cfg.addr batch.nodup_keys
  have hs : ∀ p ∈ Loading.slotKeys (KVStore.groupKeys n cfg.addr batch.keys),
      ∃ x, (⟨kv, keyVal, task⟩ : Loading n C).keyVal.get? p.2 = some x ∧
        Loading.storedValue cfg x = .ok (storedUnder value batch p.2) := by
    intro p hp
    obtain ⟨v, hv, hdoc⟩ := hkey p.2 ((hmem p.1 p.2).1 hp).1
    refine ⟨w (p.2, v), (hget _ _).2 ⟨v, hv, rfl⟩, ?_⟩
    simp only [storedUnder, hv]
    exact hw _ hdoc
  have hslot : ∀ p ∈ Loading.slotKeys (KVStore.groupKeys n cfg.addr batch.keys),
      KVStore.hash n p.2 cfg.addr = p.1 := fun p hp => ((hmem p.1 p.2).1 hp).2
  obtain ⟨keyVal', hpop⟩ := populateKvstore_eq env hpw hslot hs
  refine ⟨_, keyVal', hpop, fun i => KVStore.locked_setAll _ _ _ i,
    KVStore.acquireLock_setAll _ _ _, ?_⟩
  have hkeys : (((Loading.slotKeys (KVStore.groupKeys n cfg.addr batch.keys)).map
      fun p => (p.2, storedUnder value batch p.2)).map Prod.fst).Nodup := by
    rw [List.map_map]
    exact List.pairwise_map.2 hpw
  refine (KVStore.Loads.setAll (spec cfg env) hkeys kv).of_mem_iff fun e => ?_
  simp only [List.mem_map, Prod.exists, hmem]
  constructor
  · rintro ⟨i, k, ⟨hk, rfl⟩, rfl⟩
    obtain ⟨v, hv, hdoc⟩ := hkey k hk
    exact ⟨k, v, hdoc, by simp only [storeDoc, storedUnder, hv]⟩
  · rintro ⟨k, v, hdoc, rfl⟩
    have hv : batch.get? k = some v := (Dict.get?_eq_some_iff _ _ _).2 (hitems ▸ hdoc)
    refine ⟨_, k, ⟨Dict.mem_keys_of_get? hv, rfl⟩, ?_⟩
    simp only [storeDoc, storedUnder, hv]

/-- **A create batch of `LoadDocumentsTask`** loads its documents and touches no lock. -/
theorem createBatch_loads [NeZero n] {cfg : LoadConfig} {env : Env}
    {value : String × PyValue → PyValue} (hset : env.setMulti = .ok ())
    {docs : List (String × PyValue)} (hval : Processes cfg env value docs)
    {batch : Dict String PyValue} (hitems : batch.items = docs) (kv : KVStore n PyValue)
    (task : TaskState C) :
    ∃ kv' keyVal, Loading.createBatch .loadDocuments cfg env
        (KVStore.groupKeys n cfg.addr batch.keys) ⟨kv, batch, task⟩ = (.ok (), ⟨kv', keyVal, task⟩) ∧
      (∀ i, kv'.locked i = kv.locked i) ∧ kv'.acquireLock = kv.acquireLock ∧
      KVStore.Loads (spec cfg env) (docs.map (storeDoc value)) kv kv' := by
  obtain ⟨w, hw⟩ := hval.exists_text
  have hwst : ∀ e ∈ (⟨kv, batch, task⟩ : Loading n C).keyVal.items,
      Loading.createValue .loadDocuments env e.1 e.2 = .ok (w e) := fun e he => (hw e (hitems ▸ he)).1
  obtain ⟨keyVal, hclient, hget⟩ := createBatchClient_eq hset hwst
  obtain ⟨kv', keyVal', hpop, hrest⟩ :=
    populateKvstore_loads env (fun d hd => (hw d hd).2) hitems hget kv task
  exact ⟨kv', keyVal', (seq_of_ok hclient).trans hpop, hrest⟩

/-- What a round of the normal mode does: it returns, leaves no lock behind, loads the next
    `batch_size` documents and stands right after them. -/
structure Round [NeZero n] (cfg : LoadConfig) (env : Env) (value : String × PyValue → PyValue)
    (gen : BatchedDocumentGenerator PyValue) (kv : KVStore n PyValue) (task : TaskState C)
    (res : NextResult n C) : Prop where
  outcome : res.outcome = .ok ()
  task_eq : res.task = task
  batchSize : res.gen.batchSize = gen.batchSize
  isBase64 : res.gen.docGen.isBase64 = gen.docGen.isBase64
  rest : res.gen.docGen.rest = gen.docGen.rest.drop gen.batchSize
  free : res.kv.Free
  acquireLock : res.kv.acquireLock = false
  loads : KVStore.Loads (spec cfg env) ((gen.docGen.rest.take gen.batchSize).map (storeDoc value)) kv
    res.kv

theorem isBase64_takeBatch (count : Nat) (g : KVGenerator PyValue) (keyVal : Dict String PyValue) :
    (BatchedDocumentGenerator.takeBatch count g keyVal).2.isBase64 = g.isBase64 := by
  induction count generalizing g keyVal with
  | zero => rfl
  | succ count ih =>
      rw [BatchedDocumentGenerator.takeBatch]
      split
      · rw [ih]
        rfl
      · rfl

/-- **One batch of the normal mode.** -/
theorem next_round [NeZero n] {cfg : LoadConfig} {env : Env} {value : String × PyValue → PyValue}
    (hop : cfg.opType = .create) (hset : env.setMulti = .ok ())
    (gen : BatchedDocumentGenerator PyValue) {kv : KVStore n PyValue} (task : TaskState C)
    (hfree : kv.Free) (hacq : kv.acquireLock = false)
    (hval : Processes cfg env value (gen.docGen.rest.take gen.batchSize))
    (hnod : (gen.docGen.rest.map Prod.fst).Nodup) :
    ∃ res, next .loadDocuments cfg env gen kv task = some res ∧
      Round cfg env value gen kv task res := by
  have hlocksFree : ∀ key ∈ gen.nextBatch.1.keys, kv.locked (KVStore.hash n key cfg.addr) = false :=
    fun key _ => hfree _
  obtain ⟨⟨dic, kv₁⟩, hsome⟩ := Option.isSome_iff_exists.1
    (KVStore.acquirePartitions_isSome hacq hlocksFree)
  obtain ⟨rfl, hlocks, hacq₁⟩ := KVStore.acquirePartitions_eq_some hsome
  obtain ⟨kv₂, keyVal, hrun, hlocked, hacq₂, hload⟩ :=
    createBatch_loads hset hval (nextBatch_items hnod) kv₁ task
  -- exactly the locks of the batch are held
  have hheld : ∀ i, kv₂.locked i
      = decide (i ∈ (KVStore.groupKeys n cfg.addr gen.nextBatch.1.keys).keys) := by
    intro i
    rw [hlocked, hlocks.locked, hfree i, Bool.false_or]
  obtain ⟨kv₃, hrel, hlock₃, hpart₃, hacq₃⟩ := KVStore.releasePartitions_spec
    (KVStore.groupKeys n cfg.addr gen.nextBatch.1.keys).nodup_keys
    (fun i hi => (hheld i).trans (decide_eq_true hi))
  refine ⟨⟨.ok (), gen.nextBatch.2, kv₃, task⟩, ?_, rfl, rfl, rfl, isBase64_takeBatch _ _ _,
    gen.nextBatch_rest, fun i => ?_, ?_, ?_⟩
  · simp only [next, hsome, Loading.runOp, hop, hrun, hrel, Option.map_some]
  · rw [hlock₃, hheld i]
    by_cases hi : i ∈ (KVStore.groupKeys n cfg.addr gen.nextBatch.1.keys).keys <;> simp [hi]
  · rw [hacq₃, hacq₂, hacq₁]
  · exact hload.of_part_eq (fun i => (hlocks.part i).symm) hpart₃

/-- **One document of the normal mode**, when the batch size is 1. -/
theorem nextSingle_round [NeZero n] {cfg : LoadConfig} {env : Env}
    {value : String × PyValue → PyValue} (hset : env.set = .ok ())
    (gen : BatchedDocumentGenerator PyValue) {kv : KVStore n PyValue} (task : TaskState C)
    (hfree : kv.Free) (hacq : kv.acquireLock = false) (hone : gen.batchSize = 1)
    (hn : gen.docGen.hasNext = true)
    (hval : ProcessesSingle cfg env gen.docGen.isBase64 value gen.docGen.rest) :
    ∃ res, nextSingle cfg env gen kv task = some res ∧ Round cfg env value gen kv task res := by
  have hrest := KVGenerator.rest_of_hasNext hn
  have hdoc := hval gen.docGen.next.1 (by rw [hrest]; exact List.mem_cons_self)
  obtain ⟨w, hw, hstored⟩ : ∃ w, createValueSingle env gen.docGen.isBase64 gen.docGen.next.1.1
      gen.docGen.next.1.2 = .ok w ∧ Loading.storedValue cfg w = .ok (value gen.docGen.next.1) := by
    cases hc : createValueSingle env gen.docGen.isBase64 gen.docGen.next.1.1
      gen.docGen.next.1.2 with
    | error e => rw [hc] at hdoc; cases hdoc
    | ok w => rw [hc] at hdoc; exact ⟨w, rfl, hdoc⟩
  have hlock : kv.acquirePartition gen.docGen.next.1.1 cfg.addr
      = some (kv.setLock (KVStore.hash n gen.docGen.next.1.1 cfg.addr) true) :=
    KVStore.acquire_eq_some.2 ⟨hfree _, rfl⟩
  refine ⟨⟨.ok (), { gen with docGen := gen.docGen.next.2 },
    kv.setDoc (spec cfg env) (storeDoc value gen.docGen.next.1), task⟩, ?_, rfl, rfl, rfl, rfl, ?_,
    hfree.setPartition _ _, hacq, ?_⟩
  · have hbind : (env.set >>= fun _ => Loading.storedValue cfg w)
        = .ok (value gen.docGen.next.1) := by
      rw [hset]
      exact hstored
    have hb : gen.docGen.next.2.isBase64 = gen.docGen.isBase64 := rfl
    simp only [nextSingle, hlock, hb, hw, unlockedStore, hbind, KVStore.part_setLock,
      KVStore.releasePartition, KVStore.release_setPartition (hfree _), Option.map_some]
    rfl
  · show gen.docGen.next.2.rest = gen.docGen.rest.drop gen.batchSize
    rw [hone, hrest]
    rfl
  · have htake : gen.docGen.rest.take gen.batchSize = [gen.docGen.next.1] := by
      rw [hone, hrest]
      rfl
    rw [htake]
    exact KVStore.Loads.setDoc (spec cfg env) kv (storeDoc value gen.docGen.next.1)

/-- `value` is what the normal mode stores for the documents: with batch size 1 they are processed one by
    one. -/
def NormalProcesses (cfg : LoadConfig) (env : Env) (batchSize : Nat) (isBase64 : Bool)
    (value : String × PyValue → PyValue) (docs : List (String × PyValue)) : Prop :=
  if batchSize = 1 then ProcessesSingle cfg env isBase64 value docs else Processes cfg env value docs

theorem NormalProcesses.subset {cfg : LoadConfig} {env : Env} {batchSize : Nat} {isBase64 : Bool}
    {value : String × PyValue → PyValue} {docs docs' : List (String × PyValue)}
    (h : NormalProcesses cfg env batchSize isBase64 value docs) (hsub : docs' ⊆ docs) :
    NormalProcesses cfg env batchSize isBase64 value docs' := by
  unfold NormalProcesses at h ⊢
  split
  · next hone =>
      rw [if_pos hone] at h
      exact fun d hd => h d (hsub hd)
  · next hone =>
      rw [if_neg hone] at h
      exact fun d hd => h d (hsub hd)

theorem nextCreate_round [NeZero n] {cfg : LoadConfig} {env : Env}
    {value : String × PyValue → PyValue} (hop : cfg.opType = .create) (hset : env.set = .ok ())
    (hmulti : env.setMulti = .ok ()) (gen : BatchedDocumentGenerator PyValue) {kv : KVStore n PyValue}
    (task : TaskState C) (hfree : kv.Free) (hacq : kv.acquireLock = false)
    (hn : gen.docGen.hasNext = true)
    (hval : NormalProcesses cfg env gen.batchSize gen.docGen.isBase64 value gen.docGen.rest)
    (hnod : (gen.docGen.rest.map Prod.fst).Nodup) :
    ∃ res, nextCreate cfg env gen kv task = some res ∧ Round cfg env value gen kv task res := by
  unfold nextCreate
  unfold NormalProcesses at hval
  by_cases hone : gen.batchSize = 1
  · rw [if_pos hone] at hval ⊢
    exact nextSingle_round hset gen task hfree hacq hone hn hval
  · rw [if_neg hone] at hval ⊢
    exact next_round hop hmulti gen task hfree hacq (fun d hd => hval d (List.mem_of_mem_take hd)) hnod

/-- **The loop of the normal mode** runs the generator to the end and loads all its documents. -/
theorem loadLoop_loads [NeZero n] {cfg : LoadConfig} {env : Env}
    {value : String × PyValue → PyValue} (hop : cfg.opType = .create) (hset : env.set = .ok ())
    (hmulti : env.setMulti = .ok ()) (fuel : Nat) (gen : BatchedDocumentGenerator PyValue) {kv : KVStore n PyValue}
    {task : TaskState C} (hfuel : gen.docGen.rest.length ≤ fuel) (htask : task.future.done = false)
    (hfree : kv.Free) (hacq : kv.acquireLock = false)
    (hval : NormalProcesses cfg env gen.batchSize gen.docGen.isBase64 value gen.docGen.rest)
    (hnod : (gen.docGen.rest.map Prod.fst).Nodup) :
    ∃ res, loadLoop cfg env fuel gen kv task = some res ∧ res.gen.hasNext = false ∧
      res.outcome = .ok () ∧ res.task = task ∧ res.kv.Free ∧ res.kv.acquireLock = false ∧
      KVStore.Loads (spec cfg env) (gen.docGen.rest.map (storeDoc value)) kv res.kv := by
  induction fuel generalizing gen kv with
  | zero =>
      have hrest : gen.docGen.rest = [] := List.eq_nil_of_length_eq_zero (by omega)
      refine ⟨_, rfl, hasNext_of_rest_nil hrest, rfl, rfl, hfree, hacq, ?_⟩
      rw [hrest]
      exact KVStore.Loads.nil kv
  | succ fuel ih =>
      cases hn : gen.hasNext with
      | false =>
          have hrest : gen.docGen.rest = [] := KVGenerator.rest_of_not_hasNext hn
          simp only [loadLoop, hn, Bool.false_and, Bool.false_eq_true, if_false, hrest, List.map_nil]
          exact ⟨_, rfl, hn, rfl, rfl, hfree, hacq, KVStore.Loads.nil kv⟩
      | true =>
          obtain ⟨res, hrun, hround⟩ :=
            nextCreate_round hop hset hmulti gen task hfree hacq hn hval hnod
          have hlen : res.gen.docGen.rest.length ≤ fuel := by
            rw [hround.rest]
            exact length_drop_le hn hfuel
          have hval' : NormalProcesses cfg env res.gen.batchSize res.gen.docGen.isBase64 value
              res.gen.docGen.rest := by
            rw [hround.batchSize, hround.isBase64, hround.rest]
            exact hval.subset (List.drop_subset _ _)
          have hnod' : (res.gen.docGen.rest.map Prod.fst).Nodup := by
            rw [hround.rest, List.map_drop]
            exact hnod.sublist (List.drop_sublist _ _)
          obtain ⟨res', hrun', hend, hok, htask', hfree', hacq', hload⟩ :=
            ih res.gen hlen hround.free hround.acquireLock hval' hnod'
          refine ⟨res', ?_, hend, hok, htask', hfree', hacq', ?_⟩
          · simp only [loadLoop, hn, htask, Bool.not_false, Bool.and_self, if_true, hrun,
              hround.outcome, hround.task_eq]
            exact hrun'
          · rw [← List.take_append_drop gen.batchSize gen.docGen.rest, List.map_append]
            rw [hround.rest] at hload
            exact hround.loads.append hload (disjoint_batch hnod value gen.batchSize)

/-! ## What the modes load -/

/-- The documents as the normal mode stores them, `stored` being asked first whether the generator makes
    base-64 texts. -/
def normalDocs (stored : Bool → String × PyValue → PyValue) (gens : List (KVGenerator PyValue)) :
    List (String × PyValue) :=
  gens.flatMap fun g => g.rest.map (storeDoc (stored g.isBase64))

theorem map_fst_normalDocs (stored : Bool → String × PyValue → PyValue)
    (gens : List (KVGenerator PyValue)) :
    (normalDocs stored gens).map Prod.fst = (gens.flatMap KVGenerator.rest).map Prod.fst := by
  simp only [normalDocs, List.map_flatMap, map_fst_storeDoc]

/-- The documents of the first of several generators and those of the others have no key in common. -/
theorem nodup_flatMap_cons {g : KVGenerator PyValue} {rest : List (KVGenerator PyValue)}
    (h : (((g :: rest).flatMap KVGenerator.rest).map Prod.fst).Nodup)
    (stored : Bool → String × PyValue → PyValue) :
    (g.rest.map Prod.fst).Nodup ∧ ((rest.flatMap KVGenerator.rest).map Prod.fst).Nodup ∧
      ((g.rest.map (storeDoc (stored g.isBase64))).map Prod.fst).Disjoint
        ((normalDocs stored rest).map Prod.fst) := by
  rw [List.flatMap_cons, List.map_append] at h
  rw [map_fst_storeDoc, map_fst_normalDocs]
  exact ⟨h.of_append_left, h.of_append_right, List.disjoint_of_nodup_append h⟩

/-- **The normal mode** loads the documents of all generators. -/
theorem runNormalThroughputMode_loads [NeZero n] {cfg : LoadConfig} {env : Env}
    {stored : Bool → String × PyValue → PyValue} (hop : cfg.opType = .create) (hset : env.set = .ok ())
    (hmulti : env.setMulti = .ok ()) {batchSize : Nat} (hbatch : 0 < batchSize)
    (gens : List (KVGenerator PyValue)) {kv : KVStore n PyValue} {task : TaskState C}
    (htask : task.future.done = false) (hfree : kv.Free) (hacq : kv.acquireLock = false)
    (hval : ∀ g ∈ gens, NormalProcesses cfg env batchSize g.isBase64 (stored g.isBase64) g.rest)
    (hnod : ((gens.flatMap KVGenerator.rest).map Prod.fst).Nodup) :
    ∃ kv', runNormalThroughputMode cfg env batchSize hbatch gens kv task
        = some ⟨.ok (), kv', task⟩ ∧ KVStore.Loads (spec cfg env) (normalDocs stored gens) kv kv' := by
  induction gens generalizing kv with
  | nil => exact ⟨kv, rfl, KVStore.Loads.nil kv⟩
  | cons g rest ih =>
      obtain ⟨hnodg, hnodr, hdis⟩ := nodup_flatMap_cons hnod stored
      obtain ⟨res, hrun, -, hok, htask', hfree', hacq', hload⟩ := loadLoop_loads hop hset hmulti
        (documentsLeft g) ⟨g, batchSize, hbatch⟩ (Nat.le_of_eq (documentsLeft_eq g).symm) htask hfree
        hacq (hval g List.mem_cons_self) hnodg
      obtain ⟨kv', hrun', hload'⟩ := ih hfree' hacq'
        (fun g' hg' => hval g' (List.mem_cons_of_mem _ hg')) hnodr
      refine ⟨kv', ?_, hload.append hload' hdis⟩
      simp only [runNormalThroughputMode, hrun, hok, htask']
      exact hrun'

/-- What the normal mode stores exists when the documents can be processed in batches. -/
theorem exists_normalProcesses (cfg : LoadConfig) {env : Env} (hdumps : DumpsLoaded env.json)
    {value : String × PyValue → PyValue} {gens : List (KVGenerator PyValue)}
    (hval : Processes cfg env value (gens.flatMap KVGenerator.rest)) (batchSize : Nat) :
    ∃ stored : Bool → String × PyValue → PyValue,
      (∀ g ∈ gens, NormalProcesses cfg env batchSize g.isBase64 (stored g.isBase64) g.rest) ∧
      (batchSize ≠ 1 → ∀ isBase64, stored isBase64 = value) := by
  have hmem : ∀ g ∈ gens, g.rest ⊆ gens.flatMap KVGenerator.rest :=
    fun g hg d hd => List.mem_flatMap.2 ⟨g, hg, hd⟩
  by_cases hone : batchSize = 1
  · choose stored hstored using exists_processesSingle cfg hdumps hval
    refine ⟨stored, fun g hg => ?_, fun h => absurd hone h⟩
    rw [NormalProcesses, if_pos hone]
    exact fun d hd => hstored g.isBase64 d (hmem g hg hd)
  · refine ⟨fun _ => value, fun g hg => ?_, fun _ _ => rfl⟩
    rw [NormalProcesses, if_neg hone]
    exact fun d hd => hval d (hmem g hg hd)

/-- The normal mode stores the documents a batch stores when it processes each of them in the same way. -/
theorem mem_normalDocs_iff {stored : Bool → String × PyValue → PyValue}
    {value : String × PyValue → PyValue} {gens : List (KVGenerator PyValue)}
    (hkeys : ((gens.flatMap KVGenerator.rest).map Prod.fst).Nodup) :
    (∀ e, e ∈ normalDocs stored gens ↔ e ∈ (gens.flatMap KVGenerator.rest).map (storeDoc value)) ↔
      ∀ g ∈ gens, ∀ d ∈ g.rest, stored g.isBase64 d = value d := by
  have hmem : ∀ {g d}, g ∈ gens → d ∈ g.rest → d ∈ gens.flatMap KVGenerator.rest :=
    fun hg hd => List.mem_flatMap.2 ⟨_, hg, hd⟩
  constructor
  · intro h g hg d hd
    have hin : (d.1, stored g.isBase64 d) ∈ normalDocs stored gens :=
      List.mem_flatMap.2 ⟨g, hg, List.mem_map_of_mem hd⟩
    obtain ⟨d', hd', heq⟩ := List.mem_map.1 ((h _).1 hin)
    obtain ⟨hkey, hvalue⟩ := Prod.mk.inj heq
    rw [List.inj_on_of_nodup_map hkeys hd' (hmem hg hd) hkey] at hvalue
    exact hvalue.symm
  · intro h
    have heq : normalDocs stored gens = (gens.flatMap KVGenerator.rest).map (storeDoc value) := by
      rw [normalDocs, List.map_flatMap]
      refine List.flatMap_congr fun g hg => List.map_congr_left fun d hd => ?_
      rw [storeDoc, storeDoc, h g hg d hd]
    exact fun e => by rw [heq]

/-- **Emptying the queue** loads what the children loaded, whichever stores they are. -/
theorem mergeResults_loads {spec : KVStore.LoadSpec n} {α : Type*} (child : α → KVStore n PyValue)
    (docs : α → List (String × PyValue)) (parts : List α) {kv : KVStore n PyValue}
    (task : TaskState C) (hfree : kv.Free)
    (hchild : ∀ b ∈ parts, KVStore.Loads spec (docs b) (KVStore.new n PyValue) (child b))
    (hnod : ((parts.flatMap docs).map Prod.fst).Nodup) :
    ∃ kv', mergeResults (parts.map fun b => .ok (child b).getPartitions) kv task
        = some ⟨.ok (), kv', task⟩ ∧ KVStore.Loads spec (parts.flatMap docs) kv kv' := by
  induction parts generalizing kv with
  | nil => exact ⟨kv, rfl, KVStore.Loads.nil kv⟩
  | cons b rest ih =>
      rw [List.flatMap_cons, List.map_append] at hnod
      obtain ⟨merged, hmerge, hfree', -, hload⟩ := (hchild b List.mem_cons_self).merge hfree
      obtain ⟨kv', hrun, hload'⟩ := ih hfree'
        (fun b' hb' => hchild b' (List.mem_cons_of_mem _ hb')) hnod.of_append_right
      refine ⟨kv', ?_, ?_⟩
      · simp only [List.map_cons, mergeResults, hmerge]
        exact hrun
      · rw [List.flatMap_cons]
        exact hload.append hload' (List.disjoint_of_nodup_append hnod)

/-- The store a child ends with. -/
def childStore [NeZero n] (cfg : LoadConfig) (env : Env) (task : TaskState C)
    (gen : BatchedDocumentGenerator PyValue) : KVStore n PyValue :=
  (generatorLoop cfg (fun _ => env) (documentsLeft gen.docGen) 0 gen
    (⟨KVStore.new n PyValue, ∅, task⟩ : Loading n C)).2.kv

theorem childResults_eq [NeZero n] (cfg : LoadConfig) (env : Env) {connect : Nat → Except Exn Unit}
    (hconnect : ∀ i, connect i = .ok ()) (parts : List (BatchedDocumentGenerator PyValue))
    (task : TaskState C) :
    childResults (n := n) cfg env connect parts task
      = parts.map fun gen => .ok (childStore cfg env task gen).getPartitions := by
  refine List.ext_getElem? fun i => ?_
  simp only [childResults, runGenerator, hconnect, List.getElem?_mapIdx, List.getElem?_map]
  rfl

/-- **The high throughput mode** loads the documents of all generators, in every order in which the
    children's results arrive. -/
theorem mergeResults_childResults_loads [NeZero n] {cfg : LoadConfig} {env : Env}
    {value : String × PyValue → PyValue} (hset : env.setMulti = .ok ())
    {connect : Nat → Except Exn Unit} (hconnect : ∀ i, connect i = .ok ())
    {parts : List (BatchedDocumentGenerator PyValue)} {kv : KVStore n PyValue} {task : TaskState C}
    (htask : task.future.done = false) (hfree : kv.Free)
    (hval : Processes cfg env value (parts.flatMap fun b => b.docGen.rest))
    (hnod : ((parts.flatMap fun b => b.docGen.rest).map Prod.fst).Nodup)
    {arrived : List (Except Exn (Fin n → Partition PyValue))}
    (hperm : arrived.Perm (childResults cfg env connect parts task)) :
    ∃ kv', mergeResults arrived kv task = some ⟨.ok (), kv', task⟩ ∧
      KVStore.Loads (spec cfg env)
        ((parts.flatMap fun b => b.docGen.rest).map (storeDoc value)) kv kv' := by
  rw [childResults_eq cfg env hconnect] at hperm
  -- the results that arrived are those of the parts, in some order
  obtain ⟨parts', rfl, hparts⟩ :=
    Eq.mpr (congrFun (congrFun (List.eq_map_comp_perm _) arrived) parts) hperm
  have hdocs := hparts.flatMap_right fun b => b.docGen.rest.map (storeDoc value)
  have hflat : (parts.flatMap fun b => b.docGen.rest.map (storeDoc value))
      = (parts.flatMap fun b => b.docGen.rest).map (storeDoc value) := List.map_flatMap.symm
  have hnod' : ((parts'.flatMap fun b => b.docGen.rest.map (storeDoc value)).map Prod.fst).Nodup := by
    rw [(hdocs.map Prod.fst).nodup_iff, hflat, map_fst_storeDoc]
    exact hnod
  have hchild : ∀ b ∈ parts', KVStore.Loads (spec cfg env) (b.docGen.rest.map (storeDoc value))
      (KVStore.new n PyValue) (childStore cfg env task b) := by
    intro b hb
    have hmem : ∀ d ∈ b.docGen.rest, d ∈ parts.flatMap fun b => b.docGen.rest :=
      fun d hd => List.mem_flatMap.2 ⟨b, hparts.mem_iff.1 hb, hd⟩
    have hnodb : (b.docGen.rest.map Prod.fst).Nodup := by
      rw [List.map_flatMap] at hnod
      exact (List.nodup_flatMap.1 hnod).1 b (hparts.mem_iff.1 hb)
    exact (generatorLoop_loads hset _ 0 b ⟨KVStore.new n PyValue, ∅, task⟩
      (Nat.le_of_eq (documentsLeft_eq b.docGen).symm) htask (fun d hd => hval d (hmem d hd)) hnodb).2
  obtain ⟨kv', hrun, hload⟩ := mergeResults_loads (childStore cfg env task)
    (fun b => b.docGen.rest.map (storeDoc value)) parts' task hfree hchild hnod'
  refine ⟨kv', hrun, hload.of_mem_iff fun e => ?_⟩
  rw [hdocs.mem_iff, hflat]

/-- **Both modes against setting every document directly.** For fresh generators with pairwise distinct
    keys, any concurrency, batch size and order of arrival: the parts hold exactly the documents of the
    generators, and the high throughput mode ends with the valid items and the deleted and expired keys of
    direct sets. So does the normal mode, of the documents as it processes them; in batches these are the
    same, and with batch size 1 it agrees when `_unlocked_create` stores what a batch stores. -/
theorem throughput_modes_agree [NeZero n] {cfg : LoadConfig} {env : Env}
    {value : String × PyValue → PyValue} {connect : Nat → Except Exn Unit}
    (quotient : Int → ℕ+ → Int) (processConcurrency : ℕ+) {batchSize : Nat} (hbatch : 0 < batchSize)
    {gens : List (KVGenerator PyValue)} {kv : KVStore n PyValue} {task : TaskState C}
    (hop : cfg.opType = .create) (hset : env.set = .ok ()) (hmulti : env.setMulti = .ok ())
    (hconnect : ∀ i, connect i = .ok ()) (htask : task.future.done = false) (hfree : kv.Free)
    (hacq : kv.acquireLock = false) (hfresh : ∀ g ∈ gens, g.itr = g.start)
    (hkeys : ((gens.flatMap KVGenerator.rest).map Prod.fst).Nodup)
    (hval : Processes cfg env value (gens.flatMap KVGenerator.rest)) (hdumps : DumpsLoaded env.json) :
    let parts := allParts quotient processConcurrency batchSize hbatch gens
    let direct := kv.setAll (spec cfg env) ((gens.flatMap KVGenerator.rest).map (storeDoc value))
    (parts.flatMap fun b => b.docGen.rest) = gens.flatMap KVGenerator.rest ∧
      (∀ res, RunHighThroughputMode cfg env connect quotient processConcurrency batchSize hbatch gens
          kv task res →
        ∃ high, res = some ⟨.ok (), high, task⟩ ∧ KVStore.SameItems high direct) ∧
      ∃ normal stored, runNormalThroughputMode cfg env batchSize hbatch gens kv task
          = some ⟨.ok (), normal, task⟩ ∧
        (∀ g ∈ gens, NormalProcesses cfg env batchSize g.isBase64 (stored g.isBase64) g.rest) ∧
        KVStore.SameItems normal (kv.setAll (spec cfg env) (normalDocs stored gens)) ∧
        (KVStore.SameItems normal direct ↔
          batchSize = 1 → ∀ g ∈ gens, ∀ d ∈ g.rest, stored g.isBase64 d = value d) := by
  intro parts direct
  have hparts : (parts.flatMap fun b => b.docGen.rest) = gens.flatMap KVGenerator.rest :=
    flatMap_parts quotient processConcurrency batchSize hbatch hfresh
  have hdirect : KVStore.Loads (spec cfg env)
      ((gens.flatMap KVGenerator.rest).map (storeDoc value)) kv direct :=
    KVStore.Loads.setAll (spec cfg env) (by rw [map_fst_storeDoc]; exact hkeys) kv
  refine ⟨hparts, ?_, ?_⟩
  · rintro res ⟨arrived, hperm, rfl⟩
    obtain ⟨high, hrun, hload⟩ := mergeResults_childResults_loads hmulti hconnect htask hfree
      (hparts ▸ hval) (hparts ▸ hkeys) hperm
    rw [hparts] at hload
    exact ⟨high, hrun, hload.sameItems hdirect⟩
  · obtain ⟨stored, hstored, hsame⟩ := exists_normalProcesses cfg hdumps hval batchSize
    obtain ⟨normal, hrun, hload⟩ :=
      runNormalThroughputMode_loads hop hset hmulti hbatch gens htask hfree hacq hstored hkeys
    have hnod : ((normalDocs stored gens).map Prod.fst).Nodup := by
      rw [map_fst_normalDocs]
      exact hkeys
    refine ⟨normal, stored, hrun, hstored,
      hload.sameItems (KVStore.Loads.setAll (spec cfg env) hnod kv), ?_⟩
    have hfst : (normalDocs stored gens).map Prod.fst
        = ((gens.flatMap KVGenerator.rest).map (storeDoc value)).map Prod.fst := by
      rw [map_fst_normalDocs, map_fst_storeDoc]
    rw [hload.sameItems_iff hdirect hfst, mem_normalDocs_iff hkeys]
    constructor
    · exact fun h _ => h
    · intro h
      by_cases hone : batchSize = 1
      · exact h hone
      · exact fun g _ d _ => by rw [hsame hone]

/-! ## Two documents -/

/-- A create workload that keeps whole documents. -/
def plainCreate : LoadConfig := ⟨.create, 0, 0, false, {}⟩

/-- A generator of `k0` and `k1`. -/
def twoDocuments : KVGenerator PyValue :=
  ⟨0, 2, 0, fun i => ("k" ++ toString i, .str "\x7b\"mutated\": 0\x7d"), false⟩

/-- Two children, each with one document; the normal mode loads both in one batch. -/
theorem throughput_modes_agree_two_documents :
    let idle : TaskState Unit := ⟨false, Future.new⟩
    let store := KVStore.new 1000 PyValue
    let direct := store.setAll (spec plainCreate succeeding)
      (twoDocuments.rest.map fun d => (d.1, .str "\x7b\"mutated\": 0\x7d"))
    (∀ res, RunHighThroughputMode plainCreate succeeding (fun _ => .ok ()) (fun a b => a / b) 4 2
        (by decide) [twoDocuments] store idle res →
      ∃ high, res = some ⟨.ok (), high, idle⟩ ∧ KVStore.SameItems high direct) ∧
    ∃ normal, runNormalThroughputMode plainCreate succeeding 2 (by decide) [twoDocuments] store idle
        = some ⟨.ok (), normal, idle⟩ ∧ KVStore.SameItems normal direct := by
  intro idle store direct
  have hop : plainCreate.opType = .create := rfl
  have hset : succeeding.set = .ok () := rfl
  have hmulti : succeeding.setMulti = .ok () := rfl
  have hconnect : ∀ i, (fun _ => .ok () : Nat → Except Exn Unit) i = .ok () := fun _ => rfl
  have htask : idle.future.done = false := rfl
  have hfree : store.Free := KVStore.free_new 1000 PyValue
  have hacq : store.acquireLock = false := rfl
  have hfresh : ∀ g ∈ [twoDocuments], g.itr = g.start := by
    intro g hg
    rw [List.mem_singleton.1 hg]
    rfl
  have hkeys : (([twoDocuments].flatMap KVGenerator.rest).map Prod.fst).Nodup := by decide +kernel
  have hval : Processes plainCreate succeeding (fun _ => .str "\x7b\"mutated\": 0\x7d")
      ([twoDocuments].flatMap KVGenerator.rest) := fun d hd => rfl
  have hdumps : DumpsLoaded succeeding.json := fun _ _ _ => rfl
  have h := throughput_modes_agree (fun a b => a / b) 4 (show 0 < 2 by decide) hop hset hmulti hconnect
    htask hfree hacq hfresh hkeys hval hdumps
  rw [List.flatMap_singleton] at h
  obtain ⟨-, hhigh, normal, stored, hrun, -, -, hiff⟩ := h
  exact ⟨hhigh, normal, hrun, hiff.2 fun hone => absurd hone (by decide)⟩

/-! ## A list, one by one -/

/-- The codec on the text `[1]`, which decodes to a list. -/
def listJson : JsonLib where
  loads
    | .str "[1]" => .ok (.list [.int 1])
    | _ => .error .valueError
  dumps
    | .list [.int 1] => some "[1]"
    | .str "[1]" => some "\"[1]\""
    | _ => none

/-- The document of one key is the text `[1]`. -/
def oneList : KVGenerator PyValue := ⟨0, 1, 0, fun i => ("k" ++ toString i, .str "[1]"), false⟩

/-- With batch size 1 the normal mode stores `[1]` and the high throughput mode `"[1]"`, the text encoded once
    more. -/
theorem modes_differ_one_by_one :
    let idle : TaskState Unit := ⟨false, Future.new⟩
    let store := KVStore.new 1000 PyValue
    let env := { succeeding with json := listJson }
    ∃ normal high,
      runNormalThroughputMode plainCreate env 1 (by decide) [oneList] store idle
        = some ⟨.ok (), normal, idle⟩ ∧
      RunHighThroughputMode plainCreate env (fun _ => .ok ()) (fun a b => a / b) 4 1 (by decide) [oneList]
        store idle (some ⟨.ok (), high, idle⟩) ∧
      ¬ KVStore.SameItems normal high := by
  intro idle store env
  have hset : env.set = .ok () := rfl
  have hmulti : env.setMulti = .ok () := rfl
  have hfree : store.Free := KVStore.free_new 1000 PyValue
  have hkeys : (([oneList].flatMap KVGenerator.rest).map Prod.fst).Nodup := by decide +kernel
  have hparts : ((allParts (fun a b => a / b) 4 1 (by decide) [oneList]).flatMap fun b => b.docGen.rest)
      = [oneList].flatMap KVGenerator.rest := flatMap_parts _ _ _ _ fun g hg => by
    rw [List.mem_singleton.1 hg]
    rfl
  have hsingle : ∀ g ∈ [oneList], NormalProcesses plainCreate env 1 g.isBase64 (fun _ => .str "[1]") g.rest := by
    intro g hg d hd
    rw [List.mem_singleton.1 hg] at hd
    rw [List.mem_singleton.1 hd]
    rfl
  have hbatch : Processes plainCreate env (fun _ => .str "\"[1]\"") ([oneList].flatMap KVGenerator.rest) := by
    intro d hd
    rw [List.mem_singleton.1 hd]
    rfl
  have hnormal : ∃ kv', runNormalThroughputMode plainCreate env 1 (by decide) [oneList] store idle
        = some ⟨.ok (), kv', idle⟩ ∧
      KVStore.Loads (spec plainCreate env) (normalDocs (fun _ _ => .str "[1]") [oneList]) store kv' :=
    runNormalThroughputMode_loads rfl hset hmulti (by decide) [oneList] rfl hfree rfl hsingle hkeys
  have hhigh : ∃ kv', mergeResults (childResults plainCreate env (fun _ => .ok ())
        (allParts (fun a b => a / b) 4 1 (by decide) [oneList]) idle) store idle = some ⟨.ok (), kv', idle⟩ ∧
      KVStore.Loads (spec plainCreate env)
        (((allParts (fun a b => a / b) 4 1 (by decide) [oneList]).flatMap fun b => b.docGen.rest).map
          (storeDoc fun _ => .str "\"[1]\"")) store kv' :=
    mergeResults_childResults_loads hmulti (fun _ => rfl) rfl hfree (hparts ▸ hbatch) (hparts ▸ hkeys)
      (List.Perm.refl _)
  obtain ⟨normal, hrun, hloads⟩ := hnormal
  obtain ⟨high, hrun', hloads'⟩ := hhigh
  refine ⟨normal, high, hrun, ⟨_, List.Perm.refl _, hrun'.symm⟩, ?_⟩
  rw [hparts] at hloads'
  rw [hloads.sameItems_iff hloads' rfl, mem_normalDocs_iff hkeys]
  intro h
  have htext : "[1]" = "\"[1]\"" := PyValue.str.inj (h oneList List.mem_cons_self _ List.mem_cons_self)
  exact absurd htext (by decide)

end Throughput

end TestInfra
