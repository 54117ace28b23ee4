import TestInfra.Tasks.Loading
import Mathlib.Data.List.Nodup

set_option autoImplicit false

/-! # When a batch gives its locks back

`next` releases the locks of its batch exactly when no exception leaves the batch operation. This
module says for each operation when that is the case. The one that matters is the update: a key that
is **not valid** in the reference store is dropped from `key_val`, but `_populate_kvstore` still looks
it up, and the `KeyError` is in no handler's list. -/

namespace TestInfra

open Raises Raises.Prog

namespace Loading

variable {n : Nat} {C : Type*}

/-! ## Values -/

/-- The exceptions of an expression are none that the batch methods catch. -/
def Uncaught {A : Type} (x : Except Exn A) : Prop := ∀ e, x = .error e → caughtBySet e = false

theorem Uncaught.bind {A B : Type} {x : Except Exn A} {f : A → Except Exn B} (hx : Uncaught x)
    (hf : ∀ a, Uncaught (f a)) : Uncaught (x >>= f) := by
  intro e he
  cases x with
  | error err => cases he; exact hx _ rfl
  | ok a => exact hf a e he

/-- What value processing does: a text, or an exception no batch method catches. -/
structure Processed (x : Except Exn PyValue) : Prop where
  text : ∀ w, x = .ok w → ∃ s, w = .str s
  uncaught : Uncaught x

theorem processed_error {e : Exn} (h : caughtBySet e = false) : Processed (.error e) :=
  ⟨fun w hw => (by cases hw), fun e' he => (by cases he; exact h)⟩

theorem processed_str (s : String) : Processed (.ok (.str s)) :=
  ⟨fun w hw => (by cases hw; exact ⟨s, rfl⟩), fun e he => (by cases he)⟩

theorem processed_dump (js : JsonLib) (v : PyValue) : Processed (js.dump v) := by
  unfold JsonLib.dump
  cases js.dumps v with
  | none => exact processed_error rfl
  | some s => exact processed_str s

theorem processed_mutate (r : PyValue.Draw) (v : PyValue) : Processed (v.mutate r) := by
  unfold PyValue.mutate
  split
  · dsimp only
    split
    · exact processed_error rfl
    · exact processed_str _
  · split <;> exact processed_error rfl
  · exact processed_error rfl

theorem processed_edited (js : JsonLib) {edit : PyValue → Except Exn PyValue}
    (hedit : ∀ v, Uncaught (edit v)) (v : PyValue) :
    Processed (js.edited edit v) := by
  unfold JsonLib.edited
  cases js.loads v with
  | error err => cases err <;> exact processed_error rfl
  | ok j =>
      show Processed (edit j >>= js.dump)
      cases hj : edit j with
      | error err => exact processed_error (hedit j err hj)
      | ok j' => exact processed_dump js j'

theorem setItem_uncaught (x : PyValue) (k : String) (v : PyValue) : Uncaught (x.setItem k v) := by
  intro e he
  unfold PyValue.setItem at he
  split at he <;> cases he
  rfl

theorem getItem_uncaught (x : PyValue) (k : String) : Uncaught (x.getItem k) := by
  intro e he
  unfold PyValue.getItem at he
  split at he
  · split at he <;> cases he
    rfl
  · cases he
    rfl

theorem addOne_uncaught (x : PyValue) : Uncaught x.addOne := by
  intro e he
  unfold PyValue.addOne at he
  split at he <;> cases he
  rfl

theorem incItem_uncaught (x : PyValue) (k : String) : Uncaught (x.incItem k) :=
  (getItem_uncaught x k).bind fun v => (addOne_uncaught v).bind fun w => setItem_uncaught x k w

theorem processed_createValue (kind : TaskKind) (env : Env) (key : String) (v : PyValue) :
    Processed (createValue kind env key v) := by
  have hed := processed_edited env.json (fun x => setItem_uncaught x "mutated" (.int 0)) v
  cases kind with
  | loadDocuments =>
      simp only [createValue, createValueGeneric]
      split
      · exact processed_mutate _ v
      · exact processed_dump _ v
      · exact hed
  | batchedLoadDocuments =>
      simp only [createValue, createValueBatched]
      split
      · exact processed_mutate _ v
      · exact hed

theorem processed_updateValue (env : Env) (key : String) (v : PyValue) :
    Processed (updateValue env key v) := by
  have hed := processed_edited env.json (fun x => incItem_uncaught x "mutated") v
  simp only [updateValue]
  split
  · exact processed_mutate _ v
  · exact hed

/-! ## The keys of a batch and their slots -/

theorem forEach_slotKeys {σ : Type*} (f : Fin n → String → Prog σ Exn)
    (dic : Dict (Fin n) (List String)) :
    forEach (fun g => forEach (f g.1) g.2) dic.items
      = forEach (fun p => f p.1 p.2) (slotKeys dic) :=
  forEach_forEach (fun p : Fin n × String => f p.1 p.2)
    (fun (g : Fin n × List String) key => (g.1, key)) (fun g => g.2) dic.items

theorem mem_slotKeys (dic : Dict (Fin n) (List String)) (i : Fin n) (key : String) :
    (i, key) ∈ slotKeys dic ↔ ∃ keys, dic.get? i = some keys ∧ key ∈ keys := by
  simp only [slotKeys, List.mem_flatMap, List.mem_map, Prod.mk.injEq, Prod.exists,
    Dict.get?_eq_some_iff]
  constructor
  · rintro ⟨j, keys, hmem, key', hkey, rfl, rfl⟩
    exact ⟨keys, hmem, hkey⟩
  · rintro ⟨keys, hmem, hkey⟩
    exact ⟨i, keys, hmem, key, hkey, rfl, rfl⟩

theorem mem_slotKeys_groupKeys [NeZero n] (a : Addr) (keys : List String) (i : Fin n)
    (key : String) :
    (i, key) ∈ slotKeys (KVStore.groupKeys n a keys) ↔ key ∈ keys ∧ KVStore.hash n key a = i := by
  rw [mem_slotKeys, KVStore.get?_groupKeys]
  constructor
  · rintro ⟨ks, hks, hkey⟩
    split at hks
    · cases hks
      simpa using hkey
    · cases hks
  · rintro ⟨hkey, hi⟩
    rw [if_pos ⟨key, hkey, hi⟩]
    exact ⟨_, rfl, by simpa using ⟨hkey, hi⟩⟩

/-- The nested loops visit every key of the batch once. -/
theorem slotKeys_pairwise [NeZero n] (a : Addr) {keys : List String} (hnod : keys.Nodup) :
    (slotKeys (KVStore.groupKeys n a keys)).Pairwise fun p q => p.2 ≠ q.2 := by
  have hmap : (slotKeys (KVStore.groupKeys n a keys)).map Prod.snd
      = (KVStore.groupKeys n a keys).items.flatMap Prod.snd := by
    simp only [slotKeys, List.map_flatMap, List.map_map]
    congr 1
    funext g
    simp [Function.comp_def]
  have hgroup : ∀ g ∈ (KVStore.groupKeys n a keys).items,
      g.2 = keys.filter fun key => KVStore.hash n key a = g.1 := by
    intro g hg
    have := (Dict.get?_eq_some_iff _ g.1 g.2).2 hg
    rw [KVStore.get?_groupKeys] at this
    split at this
    · exact (Option.some.inj this).symm
    · cases this
  have hnodup : ((KVStore.groupKeys n a keys).items.flatMap Prod.snd).Nodup := by
    refine List.nodup_flatMap.2 ⟨fun g hg => ?_, ?_⟩
    · rw [hgroup g hg]
      exact hnod.filter _
    · have hkeys := (KVStore.groupKeys n a keys).nodup_keys
      have hpair : (KVStore.groupKeys n a keys).items.Pairwise fun g g' => g.1 ≠ g'.1 :=
        List.pairwise_map.1 hkeys
      refine hpair.imp_of_mem fun {g g'} hg hg' hne => ?_
      show List.Disjoint g.2 g'.2
      rw [List.disjoint_left]
      intro key hk hk'
      rw [hgroup g hg, List.mem_filter, decide_eq_true_eq] at hk
      rw [hgroup g' hg', List.mem_filter, decide_eq_true_eq] at hk'
      exact hne (hk.2.symm.trans hk'.2)
  rw [← hmap] at hnodup
  exact List.pairwise_map.1 hnodup

/-! ## The loops -/

/-- `key_val` holds a text under the key. -/
def HasText (keyVal : Dict String PyValue) (key : String) : Prop :=
  ∃ s, keyVal.get? key = some (.str s)

/-- The key is valid in the store when the batch looks at it. -/
def Live (env : Env) (kv : KVStore n PyValue) (i : Fin n) (key : String) : Prop :=
  validValue (env.readClock key) i key kv ≠ none

theorem processValuesForCreate_spec (kind : TaskKind) (env : Env) (st : Loading n C) :
    ((∀ k v, st.keyVal.get? k = some v → ∃ w, createValue kind env k v = .ok w) ∧
      (processValuesForCreate kind env st).1 = .ok () ∧
      ∀ k ∈ st.keyVal.keys, HasText (processValuesForCreate kind env st).2.keyVal k) ∨
    ((¬ ∀ k v, st.keyVal.get? k = some v → ∃ w, createValue kind env k v = .ok w) ∧
      ∃ e, (processValuesForCreate kind env st).1 = .error e ∧ caughtBySet e = false) := by
  have hiff : (∀ e ∈ st.keyVal.items, ∃ w, createValue kind env e.1 e.2 = .ok w) ↔
      ∀ k v, st.keyVal.get? k = some v → ∃ w, createValue kind env k v = .ok w := by
    simp only [Dict.get?_eq_some_iff, Prod.forall]
  rw [← hiff]
  -- the keys that are not in the rest of the loop hold a text already
  have hloop := forEach_dichotomy (f := processForCreate (n := n) (C := C) kind env)
    (I := fun rest s => ∀ k ∈ st.keyVal.keys, k ∉ rest.map Prod.fst → HasText s.keyVal k)
    (P := fun e => ∃ w, createValue kind env e.1 e.2 = .ok w) (B := fun e => caughtBySet e = false)
    (fun e rest s hI hP => ?_) (fun e rest s _ hP => ?_) st.keyVal.items st
    (fun k hk hout => absurd hk hout)
  · rcases hloop with ⟨hall, hok, htext⟩ | ⟨hall, hbad⟩
    · exact Or.inl ⟨hall, hok, fun k hk => htext k hk (by simp)⟩
    · exact Or.inr ⟨hall, hbad⟩
  · obtain ⟨w, hw⟩ := hP
    obtain ⟨t, rfl⟩ := (processed_createValue kind env e.1 e.2).text w hw
    simp only [processForCreate, hw, true_and]
    intro k hk hout
    by_cases hke : k = e.1
    · exact ⟨t, by simp [hke]⟩
    · obtain ⟨t', ht'⟩ := hI k hk (by simp [hke, hout])
      exact ⟨t', by simp [hke, ht']⟩
  · cases hv : createValue kind env e.1 e.2 with
    | ok w => exact absurd ⟨w, hv⟩ hP
    | error err =>
        simp only [processForCreate, hv]
        exact ⟨err, rfl, (processed_createValue kind env e.1 e.2).uncaught err hv⟩

theorem valid_expireKey_of_ne {V : Type*} (now : Int) {key k : String} (p : Partition V)
    (h : k ≠ key) : (p.expireKey now key).valid.get? k = p.valid.get? k := by
  unfold Partition.expireKey
  split
  · split
    · simp [h]
    · rfl
  · rfl

theorem validValue_congr {kv kv' : KVStore n PyValue} {i : Fin n} {key : String} (now : Int)
    (h : (kv.part i).valid.get? key = (kv'.part i).valid.get? key) :
    validValue now i key kv = validValue now i key kv' := by
  have hget : ((kv.part i).getValid now key).1 = ((kv'.part i).getValid now key).1 := by
    simp only [Partition.getValid, Partition.expireKey, h]
    split
    · split
      · simp
      · rw [h]
    · rw [h]
  simp only [validValue, hget]

/-- One round of the update loop for a key of the batch. -/
theorem processForUpdate_eq (env : Env) (i : Fin n) {key : String} {v : PyValue} {st : Loading n C}
    (hv : st.keyVal.get? key = some v) :
    processForUpdate env i key st =
      let st' := (st.getValid (env.readClock key) i key).2
      match validValue (env.readClock key) i key st.kv with
      | none => (.ok (), { st' with keyVal := st.keyVal.del key })
      | some _ =>
          match updateValue env key v with
          | .ok w => (.ok (), { st' with keyVal := st.keyVal.set key w })
          | .error err => (.error err, { st' with keyVal := st.keyVal.set key v }) := by
  cases hval : validValue (env.readClock key) i key st.kv with
  | none => simp only [processForUpdate, getValid, hv, hval]
  | some stored =>
      cases hupd : updateValue env key v <;>
        simp only [processForUpdate, getValid, hv, hval, hupd]

/-- What a key dealt with by the update loop has in `key_val`. -/
def Updated (env : Env) (kv : KVStore n PyValue) (keyVal : Dict String PyValue) (p : Fin n × String) :
    Prop :=
  (¬ Live env kv p.1 p.2 → keyVal.get? p.2 = none) ∧ (Live env kv p.1 p.2 → HasText keyVal p.2)

/-- A key still ahead of the update loop, as it was at the start. -/
def Untouched (st₀ st : Loading n C) (p : Fin n × String) : Prop :=
  st.keyVal.get? p.2 = st₀.keyVal.get? p.2 ∧
    (st.kv.part p.1).valid.get? p.2 = (st₀.kv.part p.1).valid.get? p.2

theorem untouched_getValid {st₀ st : Loading n C} {q : Fin n × String} (now : Int) (i : Fin n)
    {key : String} (hne : q.2 ≠ key) {keyVal : Dict String PyValue}
    (hk : keyVal.get? q.2 = st.keyVal.get? q.2) (h : Untouched st₀ st q) :
    Untouched st₀ { (st.getValid now i key).2 with keyVal := keyVal } q := by
  refine ⟨hk.trans h.1, Eq.trans ?_ h.2⟩
  simp only [getValid, KVStore.part_setPartition]
  split
  · next hi => rw [hi]; exact valid_expireKey_of_ne now _ hne
  · rfl

/-- The update loop raises on the first live key whose new value cannot be processed. -/
def UpdateReady (env : Env) (st : Loading n C) (p : Fin n × String) : Prop :=
  ∀ v, st.keyVal.get? p.2 = some v → Live env st.kv p.1 p.2 → ∃ w, updateValue env p.2 v = .ok w

theorem processForUpdate_ready (env : Env) {st₀ st : Loading n C} {p : Fin n × String}
    (hin : p.2 ∈ st₀.keyVal.keys) (hp : Untouched st₀ st p) (hready : UpdateReady env st₀ p) :
    ∃ keyVal, processForUpdate env p.1 p.2 st =
        (.ok (), { (st.getValid (env.readClock p.2) p.1 p.2).2 with keyVal := keyVal }) ∧
      Updated env st₀.kv keyVal p ∧ ∀ k, k ≠ p.2 → keyVal.get? k = st.keyVal.get? k := by
  obtain ⟨v, hv₀⟩ := Dict.mem_keys_iff_exists.1 hin
  have hv : st.keyVal.get? p.2 = some v := hp.1.trans hv₀
  have hval := validValue_congr (env.readClock p.2) hp.2
  rw [processForUpdate_eq env p.1 hv, hval]
  cases hlive : validValue (env.readClock p.2) p.1 p.2 st₀.kv with
  | none =>
      have hdead : ¬ Live env st₀.kv p.1 p.2 := fun h => h hlive
      exact ⟨_, rfl, ⟨fun _ => by simp, fun h => absurd h hdead⟩, fun k hk => by simp [hk]⟩
  | some stored =>
      have halive : Live env st₀.kv p.1 p.2 := by unfold Live; rw [hlive]; simp
      obtain ⟨w, hw⟩ := hready v hv₀ halive
      obtain ⟨t, rfl⟩ := (processed_updateValue env p.2 v).text w hw
      simp only [hw]
      exact ⟨_, rfl, ⟨fun h => absurd halive h, fun _ => ⟨t, by simp⟩⟩, fun k hk => by simp [hk]⟩

theorem processForUpdate_not_ready (env : Env) {st₀ st : Loading n C} {p : Fin n × String}
    (hp : Untouched st₀ st p) (hready : ¬ UpdateReady env st₀ p) :
    ∃ e, (processForUpdate env p.1 p.2 st).1 = .error e ∧ caughtBySet e = false := by
  unfold UpdateReady at hready
  push Not at hready
  obtain ⟨v, hv₀, halive, hno⟩ := hready
  have hval := validValue_congr (env.readClock p.2) hp.2
  rw [processForUpdate_eq env p.1 (hp.1.trans hv₀), hval]
  cases hlive : validValue (env.readClock p.2) p.1 p.2 st₀.kv with
  | none => exact absurd hlive halive
  | some stored =>
      cases hu : updateValue env p.2 v with
      | ok w => exact absurd hu (hno w)
      | error err => exact ⟨err, rfl, (processed_updateValue env p.2 v).uncaught err hu⟩

theorem processValuesForUpdate_spec (env : Env) {dic : Dict (Fin n) (List String)}
    (st : Loading n C) (hpw : (slotKeys dic).Pairwise fun p q => p.2 ≠ q.2)
    (hin : ∀ p ∈ slotKeys dic, p.2 ∈ st.keyVal.keys) :
    ((∀ p ∈ slotKeys dic, UpdateReady env st p) ∧
      (processValuesForUpdate env dic st).1 = .ok () ∧
      ∀ p ∈ slotKeys dic, Updated env st.kv (processValuesForUpdate env dic st).2.keyVal p) ∨
    ((¬ ∀ p ∈ slotKeys dic, UpdateReady env st p) ∧
      ∃ e, (processValuesForUpdate env dic st).1 = .error e ∧ caughtBySet e = false) := by
  rw [processValuesForUpdate, forEach_slotKeys]
  -- `pre` is dealt with, `rest` is as it was
  have hloop := forEach_dichotomy (f := fun p => processForUpdate (C := C) env p.1 p.2)
    (I := fun rest s => ∃ pre, slotKeys dic = pre ++ rest ∧
      (∀ p ∈ pre, Updated env st.kv s.keyVal p) ∧ ∀ p ∈ rest, Untouched st s p)
    (P := UpdateReady env st) (B := fun e => caughtBySet e = false)
    (fun p rest s hI hP => ?_) (fun p rest s hI hP => ?_) (slotKeys dic) st
    ⟨[], rfl, by simp, fun p _ => ⟨rfl, rfl⟩⟩
  · rcases hloop with ⟨hall, hok, pre, hpre, hdone, -⟩ | hbad
    · rw [List.append_nil] at hpre
      exact Or.inl ⟨hall, hok, hpre ▸ hdone⟩
    · exact Or.inr hbad
  · obtain ⟨pre, hpre, hdone, htodo⟩ := hI
    have hmem : p ∈ slotKeys dic := by rw [hpre]; simp
    have hne : (∀ q ∈ pre, q.2 ≠ p.2) ∧ ∀ q ∈ rest, q.2 ≠ p.2 := by
      rw [hpre, List.pairwise_append, List.pairwise_cons] at hpw
      exact ⟨fun q hq => hpw.2.2 q hq p List.mem_cons_self, fun q hq => (hpw.2.1.1 q hq).symm⟩
    obtain ⟨keyVal, heq, hupd, hother⟩ :=
      processForUpdate_ready env (hin p hmem) (htodo p List.mem_cons_self) hP
    rw [heq]
    refine ⟨rfl, pre ++ [p], by simp [hpre], ?_, ?_⟩
    · intro q hq
      rcases List.mem_append.1 hq with hq | hq
      · obtain ⟨h1, h2⟩ := hdone q hq
        have hsame := hother q.2 (hne.1 q hq)
        refine ⟨fun h => hsame.trans (h1 h), ?_⟩
        intro h
        obtain ⟨t, ht⟩ := h2 h
        exact ⟨t, hsame.trans ht⟩
      · rw [List.mem_singleton.1 hq]
        exact hupd
    · intro q hq
      have hq2 := hne.2 q hq
      exact untouched_getValid _ p.1 hq2 (hother q.2 hq2) (htodo q (List.mem_cons_of_mem _ hq))
  · obtain ⟨pre, -, -, htodo⟩ := hI
    exact processForUpdate_not_ready env (htodo p List.mem_cons_self) hP

theorem storedValue_str (cfg : LoadConfig) (t : String) :
    ∃ value, storedValue cfg (.str t) = .ok value := by
  unfold storedValue
  split
  · obtain ⟨h, hh⟩ := crc32Hash_str t
    exact ⟨_, by rw [hh]; rfl⟩
  · exact ⟨_, rfl⟩

/-- Filling the store needs every key of the batch in `key_val`. -/
theorem populateKvstore_spec (cfg : LoadConfig) (env : Env) {dic : Dict (Fin n) (List String)}
    (st : Loading n C) (hpw : (slotKeys dic).Pairwise fun p q => p.2 ≠ q.2)
    (htext : ∀ p ∈ slotKeys dic, st.keyVal.get? p.2 = none ∨ HasText st.keyVal p.2) :
    ((∀ p ∈ slotKeys dic, HasText st.keyVal p.2) ∧ (populateKvstore cfg env dic st).1 = .ok ()) ∨
    ((¬ ∀ p ∈ slotKeys dic, HasText st.keyVal p.2) ∧
      ∃ e, (populateKvstore cfg env dic st).1 = .error e ∧ caughtBySet e = false) := by
  rw [populateKvstore, forEach_slotKeys]
  have hloop := forEach_dichotomy (f := fun p => populateKey (C := C) cfg env p.1 p.2)
    (I := fun rest s => rest <:+ slotKeys dic ∧
      ∀ p ∈ rest, s.keyVal.get? p.2 = st.keyVal.get? p.2)
    (P := fun p => HasText st.keyVal p.2) (B := fun e => caughtBySet e = false)
    (fun p rest s hI hP => ?_) (fun p rest s hI hP => ?_) (slotKeys dic) st
    ⟨List.suffix_refl _, fun p _ => rfl⟩
  · rcases hloop with ⟨hall, hok, -⟩ | hbad
    · exact Or.inl ⟨hall, hok⟩
    · exact Or.inr hbad
  · obtain ⟨hsuf, hsame⟩ := hI
    obtain ⟨t, ht⟩ := hP
    have hget : s.keyVal.get? p.2 = some (.str t) := (hsame p List.mem_cons_self).trans ht
    have hne := (List.pairwise_cons.1 (hpw.sublist hsuf.sublist)).1
    obtain ⟨value, hvalue⟩ := storedValue_str cfg t
    simp only [populateKey, hget, hvalue, true_and]
    refine ⟨(List.suffix_cons p rest).trans hsuf, ?_⟩
    intro q hq
    have hq2 : q.2 ≠ p.2 := (hne q hq).symm
    rw [Dict.get?_set, if_neg hq2]
    exact hsame q (List.mem_cons_of_mem _ hq)
  · obtain ⟨hsuf, hsame⟩ := hI
    have hget : s.keyVal.get? p.2 = none := by
      rw [hsame p List.mem_cons_self]
      exact (htext p (hsuf.subset List.mem_cons_self)).resolve_right hP
    simp only [populateKey, hget]
    exact ⟨.keyError, rfl, rfl⟩

/-! ## Deleting -/

/-- The delete of the key ends the batch: a `MemcachedError`, unless it says that a key is missing
    that the store does not hold either. -/
def Stops (env : Env) (kv : KVStore n PyValue) (p : Fin n × String) : Prop :=
  ∃ status, env.delete p.2 = .error (.memcachedError status) ∧
    (status = errNotFound → Live env kv p.1 p.2)

/-- The delete of the key raises what `_delete_batch` does not catch. -/
def Escapes (env : Env) (p : Fin n × String) : Prop :=
  ∃ e, env.delete p.2 = .error e ∧ (∀ status, e ≠ .memcachedError status) ∧ caughtByDelete e = false

/-- Every escaping delete comes after one that ended the batch. -/
def DeleteHandled (env : Env) (kv : KVStore n PyValue) (l : List (Fin n × String)) : Prop :=
  ∀ pre p post, l = pre ++ p :: post → Escapes env p → ∃ q ∈ pre, Stops env kv q

theorem deleteHandled_cons (env : Env) (kv : KVStore n PyValue) (p : Fin n × String)
    (rest : List (Fin n × String)) :
    DeleteHandled env kv (p :: rest)
      ↔ ¬ Escapes env p ∧ (Stops env kv p ∨ DeleteHandled env kv rest) := by
  constructor
  · intro h
    refine ⟨?_, ?_⟩
    · intro hesc
      obtain ⟨q, hq, -⟩ := h [] p rest rfl hesc
      exact absurd hq (by simp)
    · by_cases hst : Stops env kv p
      · exact Or.inl hst
      · refine Or.inr fun pre q post hrest hesc => ?_
        obtain ⟨q', hq', hst'⟩ := h (p :: pre) q post (by rw [hrest]; rfl) hesc
        rcases List.mem_cons.1 hq' with rfl | hq'
        · exact absurd hst' hst
        · exact ⟨q', hq', hst'⟩
  · rintro ⟨hno, hor⟩ pre q post heq hesc
    cases pre with
    | nil =>
        cases heq
        exact absurd hesc hno
    | cons p' pre =>
        cases heq
        rcases hor with hst | hrest
        · exact ⟨p, List.mem_cons_self, hst⟩
        · obtain ⟨q', hq', hst'⟩ := hrest pre q post rfl hesc
          exact ⟨q', List.mem_cons_of_mem _ hq', hst'⟩

theorem deletes_of_ok {env : Env} {p : Fin n × String} {u : Unit} (hd : env.delete p.2 = .ok u)
    (kv : KVStore n PyValue) : ¬ Escapes env p ∧ ¬ Stops env kv p := by
  constructor
  · rintro ⟨e, he, -⟩
    rw [hd] at he
    cases he
  · rintro ⟨status, he, -⟩
    rw [hd] at he
    cases he

theorem deletes_of_memcachedError {env : Env} {p : Fin n × String} {status : Nat}
    (hd : env.delete p.2 = .error (.memcachedError status)) (kv : KVStore n PyValue) :
    ¬ Escapes env p ∧ (Stops env kv p ↔ (status = errNotFound → Live env kv p.1 p.2)) := by
  refine ⟨?_, ?_, fun h => ⟨status, hd, h⟩⟩
  · rintro ⟨e, he, hm, -⟩
    rw [hd] at he
    cases he
    exact hm status rfl
  · rintro ⟨status', he, h⟩
    rw [hd] at he
    cases he
    exact h

theorem deletes_of_other {env : Env} {p : Fin n × String} {e : Exn} (hd : env.delete p.2 = .error e)
    (hm : ∀ status, e ≠ .memcachedError status) (kv : KVStore n PyValue) :
    (Escapes env p ↔ caughtByDelete e = false) ∧ ¬ Stops env kv p := by
  refine ⟨⟨?_, fun hc => ⟨e, hd, hm, hc⟩⟩, ?_⟩
  · rintro ⟨e', he, -, hc⟩
    rw [hd] at he
    cases he
    exact hc
  · rintro ⟨status, he, -⟩
    rw [hd] at he
    cases he
    exact hm status rfl

theorem valid_delete_of_ne {V : Type*} (now : Int) {key k : String} (p : Partition V)
    (h : k ≠ key) : (p.delete now key).valid.get? k = p.valid.get? k := by
  unfold Partition.delete
  split
  · simp [h]
  · rfl

/-- The validity of the keys ahead does not depend on the key dealt with. -/
theorem valid_setPartition_of_ne {kv : KVStore n PyValue} {p q : Fin n × String}
    {part : Partition PyValue} (hpart : part.valid.get? q.2 = (kv.part p.1).valid.get? q.2) :
    ((kv.setPartition p.1 part).part q.1).valid.get? q.2 = (kv.part q.1).valid.get? q.2 := by
  rw [KVStore.part_setPartition]
  split
  · next hi => rw [hi]; exact hpart
  · rfl

theorem deleteKeys_of_ok {env : Env} {p : Fin n × String} (rest : List (Fin n × String))
    (st : Loading n C) (h : env.delete p.2 = .ok ()) :
    deleteKeys env (p :: rest) st = deleteKeys env rest { st with
      kv := st.kv.setPartition p.1 ((st.kv.part p.1).delete (env.readClock p.2) p.2) } := by
  simp only [deleteKeys, h]

theorem deleteKeys_of_memcachedError {env : Env} {p : Fin n × String} {status : Nat}
    (rest : List (Fin n × String)) (st : Loading n C)
    (h : env.delete p.2 = .error (.memcachedError status)) :
    deleteKeys env (p :: rest) st =
      if status = errNotFound then
        let st' := (st.getValid (env.readClock p.2) p.1 p.2).2
        if validValue (env.readClock p.2) p.1 p.2 st.kv = none then deleteKeys env rest st'
        else (.ok (), st'.fail (.memcachedError status))
      else (.ok (), st.fail (.memcachedError status)) := by
  simp only [deleteKeys, h, getValid]
  cases validValue (env.readClock p.2) p.1 p.2 st.kv <;> rfl

theorem deleteKeys_of_other {env : Env} {p : Fin n × String} {e : Exn}
    (rest : List (Fin n × String)) (st : Loading n C) (h : env.delete p.2 = .error e)
    (hm : ∀ status, e ≠ .memcachedError status) :
    deleteKeys env (p :: rest) st =
      if caughtByDelete e then deleteKeys env rest (st.fail e) else (.error e, st) := by
  simp only [deleteKeys, h]

theorem deleteKeys_ok_iff (env : Env) (kv₀ : KVStore n PyValue) {l : List (Fin n × String)}
    (hpw : l.Pairwise fun p q => p.2 ≠ q.2) (st : Loading n C)
    (hsame : ∀ p ∈ l, (st.kv.part p.1).valid.get? p.2 = (kv₀.part p.1).valid.get? p.2) :
    (deleteKeys env l st).1 = .ok () ↔ DeleteHandled env kv₀ l := by
  induction l generalizing st with
  | nil => exact ⟨fun _ pre p post h => by simp at h, fun _ => rfl⟩
  | cons p rest ih =>
      obtain ⟨hne, hpw⟩ := List.pairwise_cons.1 hpw
      have hrest : ∀ q ∈ rest, (st.kv.part q.1).valid.get? q.2 = (kv₀.part q.1).valid.get? q.2 :=
        fun q hq => hsame q (List.mem_cons_of_mem _ hq)
      have hlive := validValue_congr (env.readClock p.2) (hsame p List.mem_cons_self)
      rw [deleteHandled_cons]
      cases hd : env.delete p.2 with
      | ok u =>
          obtain ⟨hesc, hst⟩ := deletes_of_ok hd kv₀
          rw [deleteKeys_of_ok rest st hd, ih hpw _ fun q hq => ?_]
          · simp only [hesc, hst, not_false_eq_true, false_or, true_and]
          · rw [valid_setPartition_of_ne (valid_delete_of_ne _ _ (hne q hq).symm)]
            exact hrest q hq
      | error e =>
          by_cases hm : ∃ status, e = .memcachedError status
          · obtain ⟨status, rfl⟩ := hm
            obtain ⟨hesc, hst⟩ := deletes_of_memcachedError hd kv₀
            rw [deleteKeys_of_memcachedError rest st hd, hst, hlive]
            simp only [hesc, not_false_eq_true, true_and]
            by_cases hnf : status = errNotFound
            · rw [if_pos hnf]
              by_cases hv : validValue (env.readClock p.2) p.1 p.2 kv₀ = none
              · -- the key is missing on both sides: go on
                rw [if_pos hv, ih hpw _ fun q hq => ?_]
                · exact ⟨Or.inr, fun h => h.resolve_left fun hl => hl hnf hv⟩
                · exact (valid_setPartition_of_ne
                    (valid_expireKey_of_ne _ _ (hne q hq).symm)).trans (hrest q hq)
              · rw [if_neg hv]
                exact ⟨fun _ => Or.inl fun _ => hv, fun _ => rfl⟩
            · rw [if_neg hnf]
              exact ⟨fun _ => Or.inl fun h => absurd h hnf, fun _ => rfl⟩
          · have hm' : ∀ status, e ≠ .memcachedError status := fun status h => hm ⟨status, h⟩
            obtain ⟨hesc, hst⟩ := deletes_of_other hd hm' kv₀
            rw [deleteKeys_of_other rest st hd hm', hesc]
            cases hc : caughtByDelete e with
            | true =>
                rw [if_pos rfl, ih hpw (st.fail e) hrest]
                simp only [hst, Bool.true_eq_false, not_false_eq_true, false_or, true_and]
            | false =>
                rw [if_neg (by decide)]
                exact ⟨fun h => (by cases h), fun h => absurd rfl h.1⟩

/-! ## No operation touches a lock -/

/-- The locks are those of `kv`. -/
def SameLocks (kv : KVStore n PyValue) (st : Loading n C) : Prop :=
  ∀ i, st.kv.locked i = kv.locked i

theorem SameLocks.setPartition {kv : KVStore n PyValue} {st : Loading n C} (h : SameLocks kv st)
    (i : Fin n) (part : Partition PyValue) (keyVal : Dict String PyValue) (task : TaskState C) :
    SameLocks kv ⟨st.kv.setPartition i part, keyVal, task⟩ := by
  intro j
  rw [KVStore.locked_setPartition]
  exact h j

theorem keeps_processForUpdate (kv : KVStore n PyValue) (env : Env) (i : Fin n) (key : String) :
    Keeps (SameLocks (C := C) kv) (processForUpdate env i key) := by
  intro st h
  simp only [processForUpdate, getValid]
  split
  · split <;> exact h.setPartition _ _ _ _
  · split
    · exact h.setPartition _ _ _ _
    · split <;> exact h.setPartition _ _ _ _

theorem keeps_processForCreate (kv : KVStore n PyValue) (kind : TaskKind) (env : Env)
    (e : String × PyValue) : Keeps (SameLocks (C := C) kv) (processForCreate kind env e) := by
  intro st h
  simp only [processForCreate]
  split <;> exact h

theorem keeps_populateKey (kv : KVStore n PyValue) (cfg : LoadConfig) (env : Env) (i : Fin n)
    (key : String) : Keeps (SameLocks (C := C) kv) (populateKey cfg env i key) := by
  intro st h
  simp only [populateKey]
  split
  · exact h
  · split
    · exact h
    · exact h.setPartition _ _ _ _

theorem keeps_populateKvstore (kv : KVStore n PyValue) (cfg : LoadConfig) (env : Env)
    (dic : Dict (Fin n) (List String)) :
    Keeps (SameLocks (C := C) kv) (populateKvstore cfg env dic) :=
  Keeps.forEach (fun g => Keeps.forEach (keeps_populateKey kv cfg env g.1) g.2) dic.items

theorem keeps_client (kv : KVStore n PyValue) (outcome : Except Exn Unit) :
    Keeps (SameLocks (C := C) kv) (client outcome) := fun _ h => h

theorem keeps_handleSet (kv : KVStore n PyValue) (e : Exn) (q : Prog (Loading n C) Exn)
    (hq : handleSet e = some q) : Keeps (SameLocks kv) q := by
  unfold handleSet at hq
  split at hq <;> cases hq
  exact fun _ h => h

theorem keeps_processValuesForCreate (kv : KVStore n PyValue) (kind : TaskKind) (env : Env) :
    Keeps (SameLocks (C := C) kv) (processValuesForCreate kind env) :=
  fun st h => Keeps.forEach (keeps_processForCreate kv kind env) st.keyVal.items st h

theorem keeps_deleteKeys (kv : KVStore n PyValue) (env : Env) (l : List (Fin n × String)) :
    Keeps (SameLocks (C := C) kv) (deleteKeys env l) := by
  induction l with
  | nil => exact keeps_skip _
  | cons p rest ih =>
      intro st h
      simp only [deleteKeys, getValid]
      split
      · exact ih _ (h.setPartition _ _ _ _)
      · split
        · split
          · exact ih _ (h.setPartition _ _ _ _)
          · exact h.setPartition _ _ _ _
        · exact h
      · split
        · exact ih _ h
        · exact h

theorem keeps_setAndPopulate (kv : KVStore n PyValue) (cfg : LoadConfig) (env : Env)
    (dic : Dict (Fin n) (List String)) :
    Keeps (SameLocks (C := C) kv) ((client env.setMulti).seq (populateKvstore cfg env dic)) :=
  (keeps_client kv _).seq (keeps_populateKvstore kv cfg env dic)

theorem keeps_createBatch (kv : KVStore n PyValue) (kind : TaskKind) (cfg : LoadConfig) (env : Env)
    (dic : Dict (Fin n) (List String)) :
    Keeps (SameLocks (C := C) kv) (createBatch kind cfg env dic) := by
  have hproc := keeps_processValuesForCreate (C := C) kv kind env
  cases kind with
  | loadDocuments =>
      unfold createBatch createBatchClient
      exact ((hproc.seq (keeps_client kv _)).tryExcept (keeps_handleSet kv)).seq
        (keeps_populateKvstore kv cfg env dic)
  | batchedLoadDocuments =>
      unfold createBatch
      exact (hproc.seq (keeps_setAndPopulate kv cfg env dic)).tryExcept (keeps_handleSet kv)

theorem keeps_processValuesForUpdate (kv : KVStore n PyValue) (env : Env)
    (dic : Dict (Fin n) (List String)) :
    Keeps (SameLocks (C := C) kv) (processValuesForUpdate env dic) := by
  unfold processValuesForUpdate
  refine Keeps.forEach (fun g => ?_) dic.items
  exact Keeps.forEach (keeps_processForUpdate kv env g.1) g.2

theorem keeps_updateBatch (kv : KVStore n PyValue) (cfg : LoadConfig) (env : Env)
    (dic : Dict (Fin n) (List String)) :
    Keeps (SameLocks (C := C) kv) (updateBatch cfg env dic) := by
  have hproc := keeps_processValuesForUpdate (C := C) kv env dic
  unfold updateBatch
  exact (hproc.seq (keeps_setAndPopulate kv cfg env dic)).tryExcept (keeps_handleSet kv)

theorem keeps_readBatch (kv : KVStore n PyValue) (env : Env) :
    Keeps (SameLocks (C := C) kv) (readBatch env) := by
  unfold readBatch
  refine (keeps_client kv _).tryExcept fun e q hq => ?_
  split at hq <;> cases hq
  exact fun _ h => h

/-- **Frame**: no batch operation, however it ends, takes or frees a lock. -/
theorem keeps_runOp (kv : KVStore n PyValue) (kind : TaskKind) (cfg : LoadConfig) (env : Env)
    (dic : Dict (Fin n) (List String)) : Keeps (SameLocks (C := C) kv) (runOp kind cfg env dic) := by
  unfold runOp
  split
  · exact keeps_createBatch kv kind cfg env dic
  · exact keeps_updateBatch kv cfg env dic
  · exact keeps_deleteKeys kv env (slotKeys dic)
  · exact keeps_readBatch kv env
  · exact fun _ h => h

/-! ## When an operation lets no exception out -/

/-- `setMulti` returned, or raised what `_create_batch` and `_update_batch` catch. -/
def SetHandled (env : Env) : Prop := ∀ e, env.setMulti = .error e → caughtBySet e = true

theorem tryExcept_handleSet_ok_iff (p : Prog (Loading n C) Exn) (st : Loading n C) :
    (p.tryExcept handleSet st).1 = .ok () ↔ ∀ e, (p st).1 = .error e → caughtBySet e = true := by
  simp only [Prog.tryExcept]
  split
  · next s' heq => rw [heq]; simp
  · next e s' heq =>
      rw [heq]
      cases hc : caughtBySet e <;> simp [handleSet, hc]

/-- A guarded block whose first part either returns (when `A` holds) or raises an uncaught
    exception. -/
theorem guarded_ok_iff {p q : Prog (Loading n C) Exn} {st : Loading n C} {A : Prop}
    (hp : (A ∧ (p st).1 = .ok ()) ∨ (¬ A ∧ ∃ e, (p st).1 = .error e ∧ caughtBySet e = false)) :
    ((p.seq q).tryExcept handleSet st).1 = .ok () ↔
      A ∧ ∀ e, (q (p st).2).1 = .error e → caughtBySet e = true := by
  rw [tryExcept_handleSet_ok_iff]
  rcases hp with ⟨hA, hok⟩ | ⟨hA, e, herr, hc⟩
  · rw [seq_of_ok (Prod.ext hok rfl)]
    exact ⟨fun h => ⟨hA, h⟩, fun h => h.2⟩
  · rw [seq_of_error (Prod.ext herr rfl)]
    refine ⟨?_, fun h => absurd h.1 hA⟩
    intro h
    have := h e rfl
    rw [hc] at this
    cases this

/-- The client call and the filling of the store after it. -/
theorem setAndPopulate_handled_iff (cfg : LoadConfig) (env : Env) {dic : Dict (Fin n) (List String)}
    (st : Loading n C) (hpw : (slotKeys dic).Pairwise fun p q => p.2 ≠ q.2)
    (htext : ∀ p ∈ slotKeys dic, st.keyVal.get? p.2 = none ∨ HasText st.keyVal p.2) :
    (∀ e, ((client env.setMulti).seq (populateKvstore cfg env dic) st).1 = .error e →
        caughtBySet e = true) ↔
      SetHandled env ∧ (env.setMulti = .ok () → ∀ p ∈ slotKeys dic, HasText st.keyVal p.2) := by
  unfold SetHandled
  cases hm : env.setMulti with
  | error e =>
      have heq : client (.error e) st = (.error e, st) := rfl
      rw [seq_of_error heq]
      simp
  | ok u =>
      have heq : client (.ok u) st = (.ok (), st) := rfl
      rw [seq_of_ok heq]
      rcases populateKvstore_spec cfg env st hpw htext with ⟨hall, hok⟩ | ⟨hall, e, herr, hc⟩
      · rw [hok]
        exact ⟨fun _ => ⟨by simp, fun _ => hall⟩, by simp⟩
      · refine ⟨?_, fun h => absurd (h.2 rfl) hall⟩
        intro h
        have := h e herr
        rw [hc] at this
        cases this

/-- Neither the client call nor the handler touches `key_val`. -/
theorem keyVal_createBatchClient (kind : TaskKind) (env : Env) (st : Loading n C) :
    (createBatchClient kind env st).2.keyVal = (processValuesForCreate kind env st).2.keyVal := by
  have hfail : ∀ e q (st' : Loading n C), handleSet e = some q → (q st').2.keyVal = st'.keyVal := by
    intro e q st' hq
    unfold handleSet at hq
    split at hq <;> cases hq
    rfl
  have hseq : ((processValuesForCreate kind env).seq (client env.setMulti) st).2
      = (processValuesForCreate kind env st).2 := by
    simp only [Prog.seq]
    split <;> simp_all [client]
  rw [← hseq]
  simp only [createBatchClient, Prog.tryExcept]
  split
  · next s' heq => rw [heq]
  · next e s' heq =>
      rw [heq]
      split
      · next q hq => exact hfail e q s' hq
      · rfl

theorem createBatch_ok_iff (kind : TaskKind) (cfg : LoadConfig) (env : Env)
    {dic : Dict (Fin n) (List String)} (st : Loading n C)
    (hpw : (slotKeys dic).Pairwise fun p q => p.2 ≠ q.2)
    (hin : ∀ p ∈ slotKeys dic, p.2 ∈ st.keyVal.keys) :
    (createBatch kind cfg env dic st).1 = .ok () ↔
      (∀ k v, st.keyVal.get? k = some v → ∃ w, createValue kind env k v = .ok w) ∧
        SetHandled env := by
  have hspec := processValuesForCreate_spec kind env st
  have hguard := hspec.imp (fun h => And.intro h.1 h.2.1) id
  -- once the values are processed, every key of the batch has a text
  have htext : (∀ k v, st.keyVal.get? k = some v → ∃ w, createValue kind env k v = .ok w) →
      ∀ p ∈ slotKeys dic, HasText (processValuesForCreate kind env st).2.keyVal p.2 :=
    fun hall p hp => (hspec.resolve_right fun h => h.1 hall).2.2 p.2 (hin p hp)
  cases kind with
  | loadDocuments =>
      have hclient : (createBatchClient .loadDocuments env st).1 = .ok () ↔
          (∀ k v, st.keyVal.get? k = some v → ∃ w, createValue .loadDocuments env k v = .ok w) ∧
            SetHandled env := guarded_ok_iff hguard
      simp only [createBatch]
      rw [← hclient]
      constructor
      · intro h
        cases hc : (createBatchClient .loadDocuments env st).1 with
        | ok u => rfl
        | error e =>
            rw [seq_of_error (Prod.ext hc rfl)] at h
            cases h
      · intro h
        rw [seq_of_ok (Prod.ext h rfl)]
        have hready := htext (hclient.1 h).1
        rw [← keyVal_createBatchClient] at hready
        exact ((populateKvstore_spec cfg env _ hpw fun p hp => Or.inr (hready p hp)).resolve_right
          fun hbad => hbad.1 hready).2
  | batchedLoadDocuments =>
      simp only [createBatch]
      rw [guarded_ok_iff hguard]
      refine and_congr_right fun hall => ?_
      rw [setAndPopulate_handled_iff cfg env _ hpw fun p hp => Or.inr (htext hall p hp)]
      exact ⟨fun h => h.1, fun h => ⟨h, fun _ => htext hall⟩⟩

theorem updateBatch_ok_iff (cfg : LoadConfig) (env : Env) {dic : Dict (Fin n) (List String)}
    (st : Loading n C) (hpw : (slotKeys dic).Pairwise fun p q => p.2 ≠ q.2)
    (hin : ∀ p ∈ slotKeys dic, p.2 ∈ st.keyVal.keys) :
    (updateBatch cfg env dic st).1 = .ok () ↔
      (∀ p ∈ slotKeys dic, UpdateReady env st p) ∧ SetHandled env ∧
        (env.setMulti = .ok () → ∀ p ∈ slotKeys dic, Live env st.kv p.1 p.2) := by
  have hspec := processValuesForUpdate_spec env st hpw hin
  unfold updateBatch
  rw [guarded_ok_iff (A := ∀ p ∈ slotKeys dic, UpdateReady env st p)
    (hspec.imp (fun h => ⟨h.1, h.2.1⟩) id)]
  refine and_congr_right fun hready => ?_
  have hupd := (hspec.resolve_right fun h => h.1 hready).2.2
  rw [setAndPopulate_handled_iff cfg env _ hpw fun p hp => ?_]
  · refine and_congr_right fun _ => imp_congr_right fun _ => forall₂_congr fun p hp => ?_
    obtain ⟨hdead, hlive⟩ := hupd p hp
    refine ⟨?_, hlive⟩
    rintro ⟨t, ht⟩
    by_contra hno
    rw [hdead hno] at ht
    cases ht
  · obtain ⟨hdead, hlive⟩ := hupd p hp
    by_cases hl : Live env st.kv p.1 p.2
    · exact Or.inr (hlive hl)
    · exact Or.inl (hdead hl)

/-- **When a batch operation ends without an exception**, said of the batch and of the store before
    it. For an update the last part is the one that fails: if the client succeeds, every key of the
    batch has to be valid in the store. -/
def OpHandled [NeZero n] (kind : TaskKind) (cfg : LoadConfig) (env : Env)
    (batch : Dict String PyValue) (kv : KVStore n PyValue) : Prop :=
  match cfg.opType with
  | .create =>
      (∀ k v, batch.get? k = some v → ∃ w, createValue kind env k v = .ok w) ∧ SetHandled env
  | .update =>
      (∀ k v, batch.get? k = some v → Live env kv (KVStore.hash n k cfg.addr) k →
        ∃ w, updateValue env k v = .ok w) ∧ SetHandled env ∧
      (env.setMulti = .ok () → ∀ k ∈ batch.keys, Live env kv (KVStore.hash n k cfg.addr) k)
  | .delete => DeleteHandled env kv (slotKeys (KVStore.groupKeys n cfg.addr batch.keys))
  | .read => ∀ e, env.getMulti = .error e → ∃ status, e = .memcachedError status
  | .other _ => True

theorem readBatch_ok_iff (env : Env) (st : Loading n C) :
    (readBatch env st).1 = .ok () ↔
      ∀ e, env.getMulti = .error e → ∃ status, e = .memcachedError status := by
  simp only [readBatch, Prog.tryExcept, client]
  cases env.getMulti with
  | ok u => simp
  | error e => cases e <;> simp

theorem runOp_ok_iff [NeZero n] (kind : TaskKind) (cfg : LoadConfig) (env : Env)
    (batch : Dict String PyValue) (kv kv' : KVStore n PyValue) (task : TaskState C)
    (hpart : ∀ i, kv'.part i = kv.part i) :
    (runOp kind cfg env (KVStore.groupKeys n cfg.addr batch.keys) ⟨kv', batch, task⟩).1 = .ok () ↔
      OpHandled kind cfg env batch kv := by
  have hpw := slotKeys_pairwise (n := n) cfg.addr batch.nodup_keys
  have hmem := mem_slotKeys_groupKeys (n := n) cfg.addr batch.keys
  have hin : ∀ p ∈ slotKeys (KVStore.groupKeys n cfg.addr batch.keys), p.2 ∈ batch.keys :=
    fun p hp => ((hmem p.1 p.2).1 hp).1
  have hlive : ∀ i k, Live env kv' i k ↔ Live env kv i k := fun i k => by
    have hval : validValue (env.readClock k) i k kv' = validValue (env.readClock k) i k kv :=
      validValue_congr (env.readClock k) (by rw [hpart i])
    unfold Live
    rw [hval]
  -- the keys of the nested loops are the keys of the batch, each in its slot
  have hall : ∀ Q : Fin n → String → Prop,
      (∀ p ∈ slotKeys (KVStore.groupKeys n cfg.addr batch.keys), Q p.1 p.2) ↔
        ∀ k ∈ batch.keys, Q (KVStore.hash n k cfg.addr) k := by
    intro Q
    refine ⟨fun h k hk => h (_, k) ((hmem _ k).2 ⟨hk, rfl⟩), ?_⟩
    intro h p hp
    obtain ⟨hk, hi⟩ := (hmem p.1 p.2).1 hp
    exact hi ▸ h p.2 hk
  cases hop : cfg.opType with
  | create =>
      simp only [runOp, OpHandled, hop]
      exact createBatch_ok_iff kind cfg env ⟨kv', batch, task⟩ hpw hin
  | update =>
      simp only [runOp, OpHandled, hop]
      rw [updateBatch_ok_iff cfg env ⟨kv', batch, task⟩ hpw hin, hall (fun i k => Live env kv' i k),
        hall (fun i k => UpdateReady env ⟨kv', batch, task⟩ (i, k))]
      simp only [UpdateReady, hlive]
      refine and_congr_left fun _ => ⟨fun h k v hv => ?_, fun h k hk v hv => h k v hv⟩
      exact h k (Dict.mem_keys_of_get? hv) v hv
  | delete =>
      simp only [runOp, OpHandled, hop]
      exact deleteKeys_ok_iff env kv hpw ⟨kv', batch, task⟩ fun p _ => by rw [hpart]
  | read =>
      simp only [runOp, OpHandled, hop]
      exact readBatch_ok_iff env ⟨kv', batch, task⟩
  | other name => simp only [runOp, OpHandled, hop]

end Loading

/-- **When a batch gives its locks back.** Whatever the store, the batch, the operation and the
    outcome of every client call: when `next` has ended, the partitions of the batch are unlocked iff
    the batch was empty or no exception left the operation. -/
theorem next_releases_iff {n : Nat} [NeZero n] {C : Type*} {kind : TaskKind} {cfg : LoadConfig}
    {env : Env} {gen : BatchedDocumentGenerator PyValue} {kv : KVStore n PyValue}
    {task : TaskState C} {res : NextResult n C} (h : next kind cfg env gen kv task = some res) :
    (∀ k ∈ gen.nextBatch.1.keys, res.kv.locked (KVStore.hash n k cfg.addr) = false) ↔
      gen.nextBatch.1.keys = [] ∨ Loading.OpHandled kind cfg env gen.nextBatch.1 kv := by
  unfold next at h
  dsimp only at h
  split at h
  · cases h
  · next dic kv' hacq =>
      obtain ⟨rfl, hlocks, -⟩ := KVStore.acquirePartitions_eq_some hacq
      have hok := Loading.runOp_ok_iff kind cfg env gen.nextBatch.1 kv kv' task hlocks.part
      have hframe := Loading.keeps_runOp kv' kind cfg env
        (KVStore.groupKeys n cfg.addr gen.nextBatch.1.keys) ⟨kv', gen.nextBatch.1, task⟩
        (fun _ => rfl)
      have hheld : ∀ i ∈ (KVStore.groupKeys n cfg.addr gen.nextBatch.1.keys).keys,
          kv'.locked i = true := by
        intro i hi
        rw [hlocks.locked, decide_eq_true hi, Bool.or_true]
      have hslot : ∀ k ∈ gen.nextBatch.1.keys, KVStore.hash n k cfg.addr ∈
          (KVStore.groupKeys n cfg.addr gen.nextBatch.1.keys).keys :=
        fun k hk => (KVStore.mem_keys_groupKeys cfg.addr _ _).2 ⟨k, hk, rfl⟩
      split at h
      · -- an exception left the operation: the locks are still held
        next e st heq =>
          rw [heq] at hok hframe
          cases h
          refine ⟨fun hfree => Or.inl ?_, fun hor k hk => ?_⟩
          · rw [List.eq_nil_iff_forall_not_mem]
            intro k hk
            have := hfree k hk
            rw [hframe, hheld _ (hslot k hk)] at this
            cases this
          · rcases hor with hnil | hop
            · rw [hnil] at hk
              cases hk
            · have hbad := hok.2 hop
              cases hbad
      · next st heq =>
          rw [heq] at hok hframe
          obtain ⟨kv'', hrel, rfl⟩ := Option.map_eq_some_iff.1 h
          have hheld' : ∀ i ∈ (KVStore.groupKeys n cfg.addr gen.nextBatch.1.keys).keys,
              st.kv.locked i = true := fun i hi => (hframe i).trans (hheld i hi)
          obtain ⟨kv₃, hrel', hlock, -, -⟩ := KVStore.releasePartitions_spec
            (KVStore.groupKeys n cfg.addr gen.nextBatch.1.keys).nodup_keys hheld'
          rw [hrel] at hrel'
          cases hrel'
          refine ⟨fun _ => Or.inr (hok.1 rfl), ?_⟩
          intro _ k hk
          rw [hlock, decide_eq_false (not_not.2 (hslot k hk)), Bool.and_false]

/-! ## One document -/

/-- A generator of the one document `k0`. -/
def oneDocument : BatchedDocumentGenerator PyValue :=
  ⟨⟨0, 1, 0, fun i => ("k" ++ toString i, .str "\x7b\"mutated\": 0\x7d"), false⟩, 2, by decide⟩

/-- Every client call succeeds; the codec as it acts on the document. -/
def succeeding : Env where
  json := ⟨fun _ => .ok (.dict [("mutated", .int 0)]), fun _ => some "\x7b\"mutated\": 0\x7d"⟩
  draw := fun _ => ⟨0, 0⟩
  readClock := fun _ => 1
  setClock := fun _ => 1
  set := .ok ()
  setMulti := .ok ()
  getMulti := .ok ()
  delete := fun _ => .ok ()

/-- Creating `k0` gives the lock back. -/
theorem next_releases_iff_create : ∃ res : NextResult 1000 Unit,
    next .loadDocuments ⟨.create, 0, 0, true, {}⟩ succeeding oneDocument (KVStore.new 1000 PyValue)
      ⟨false, Future.new⟩ = some res ∧
    ∀ k ∈ oneDocument.nextBatch.1.keys, res.kv.locked (KVStore.hash 1000 k {}) = false := by
  have hsome : (next .loadDocuments ⟨.create, 0, 0, true, {}⟩ succeeding oneDocument
      (KVStore.new 1000 PyValue) (⟨false, Future.new⟩ : TaskState Unit)).isSome = true := by
    decide +kernel
  obtain ⟨res, hres⟩ := Option.isSome_iff_exists.1 hsome
  refine ⟨res, hres, (next_releases_iff hres).2 (Or.inr ⟨fun k v _ => ?_, fun e he => ?_⟩)⟩
  · exact ⟨_, rfl⟩
  · cases he

/-- Every way `next` can end leaves the partitions of the batch unlocked. -/
def ReleasesBatch {n : Nat} [NeZero n] {C : Type*} (kind : TaskKind) (cfg : LoadConfig) (env : Env)
    (gen : BatchedDocumentGenerator PyValue) (kv : KVStore n PyValue) (task : TaskState C) : Prop :=
  ∀ res, next kind cfg env gen kv task = some res →
    ∀ k ∈ gen.nextBatch.1.keys, res.kv.locked (KVStore.hash n k cfg.addr) = false

theorem not_releasesBatch {n : Nat} [NeZero n] {C : Type*} {kind : TaskKind} {cfg : LoadConfig}
    {env : Env} {gen : BatchedDocumentGenerator PyValue} {kv : KVStore n PyValue}
    {task : TaskState C} (k : String) (hk : k ∈ gen.nextBatch.1.keys)
    (h : (next kind cfg env gen kv task).map (fun res => res.kv.locked (KVStore.hash n k cfg.addr))
      = some true) : ¬ ReleasesBatch kind cfg env gen kv task := by
  intro hrel
  obtain ⟨res, hres, hlock⟩ := Option.map_eq_some_iff.1 h
  rw [hrel res hres k hk] at hlock
  cases hlock

/-- Updating `k0`, which the store does not hold, with a client that succeeds: both classes end with
    the partition of `k0` locked. -/
theorem update_of_missing_key_keeps_lock :
    ¬ ReleasesBatch .loadDocuments ⟨.update, 0, 0, true, {}⟩ succeeding oneDocument
        (KVStore.new 1000 PyValue) (⟨false, Future.new⟩ : TaskState Unit) ∧
      ¬ ReleasesBatch .batchedLoadDocuments ⟨.update, 0, 0, true, {}⟩ succeeding oneDocument
        (KVStore.new 1000 PyValue) (⟨false, Future.new⟩ : TaskState Unit) :=
  ⟨not_releasesBatch "k0" (by decide +kernel) (by decide +kernel),
    not_releasesBatch "k0" (by decide +kernel) (by decide +kernel)⟩

end TestInfra
