import TestInfra.Lib.Dict
import TestInfra.Lib.PyText
import TestInfra.LoadRunner.Indexes
import TestInfra.LoadRunner.LoadPlan

set_option autoImplicit false

/-! # A load thread that checks what it reads

`LoadThread.run` sets and gets keys in the order of a fixed sequence of operations. A set takes the key and the
data of the current mutation index, which goes on only when the server took the set. A get takes a key below the
current one, looks for the mutation indexes of that key and compares what the client hands back with the data of the
last one, made again from the index.

`Inv` says what the server holds: under the key of an index that was not set again, the data of that index. It
survives every turn, so what is made again is always what was set. The comparison is with a `str`, and the client of
`lib/mc_bin_client.py` hands back `bytes`: it succeeds exactly where the client hands back the `str` that was set
(`load_no_false_alarm_iff`). -/

namespace TestInfra.LoadRunner

open PyText

/-! ## The thread -/

/-- What a client can hand back as the value of a key. -/
inductive ClientValue where
  | str (t : Text)
  | bytes (b : List UInt8)
deriving DecidableEq

/-- The value of `FakeMemcachedClient.get`, for the data that was set. -/
def fakeClientValue (data : Text) : ClientValue := .str data

/-- The value of `MemcachedClient.get`, which leaves what it received as it is. -/
def memcachedClientValue (data : Text) : ClientValue := .bytes (String.ofList data).toUTF8.toList

/-- The attributes of a thread that do not change. `uuid3 index` is `str(uuid.uuid3(self.uuid, repr(index)))`,
    and `handsBack data` is `get(key)[2]` of the client for a key with this data. -/
structure LoadInfo extends LoadPlan where
  rates : Rates
  name : Text
  cacheData : Bool
  uuid3 : ℕ → Text
  handsBack : Text → ClientValue

/-- The attributes that change, and what the server holds. -/
structure LoadThread extends Progress where
  dataCache : Dict ℕ Text
  server : Dict Text Text

/-- `LoadThread.__init__`, for a server that may hold anything. -/
def LoadThread.start (server : Dict Text Text) : LoadThread :=
  { toProgress := .start, dataCache := ∅, server := server }

/-- `repr` of a number. -/
def reprText (n : ℕ) : Text := (toString n).toList

namespace LoadInfo

/-- `(str(uuid.uuid3(self.uuid, repr(index))) * (1 + valuesize // 36))[:valuesize]`. -/
def filling (info : LoadInfo) (index valuesize : ℕ) : Text :=
  (List.replicate (1 + valuesize / 36) (info.uuid3 index)).flatten.take valuesize

/-- `get_data(index)`, with the cache it leaves. -/
def getData (info : LoadInfo) (index : ℕ) (dataCache : Dict ℕ Text) : Text × Dict ℕ Text :=
  let valuesize := info.dataSize index
  if info.cacheData then
    match dataCache.get? valuesize with
    | some filling => (reprText index ++ filling, dataCache)
    | none =>
        (reprText index ++ info.filling index valuesize, dataCache.set valuesize (info.filling index valuesize))
  else (info.filling index valuesize, dataCache)

/-- `self.name + '_' + repr(key)`. -/
def keyName (info : LoadInfo) (key : ℕ) : Text := info.name ++ '_' :: reprText key

/-- The key a set is about, `get_mutation_key()`. -/
def mutationKey (info : LoadInfo) (st : LoadThread) : ℕ := info.rates.getMutationKey st.mutationIndex

/-- `get_get_key`; `none` is the division by zero. -/
def getKey (info : LoadInfo) (st : LoadThread) : Option ℕ :=
  if info.mutationKey st = 0 then none else some (st.getIndex % info.mutationKey st)

/-- A set that the server takes, or rejects. The data is made before the call. -/
def turnSet (info : LoadInfo) (accepts : Bool) (st : LoadThread) : LoadThread :=
  let key := info.mutationKey st
  let (data, dataCache) := info.getData st.mutationIndex st.dataCache
  if accepts then
    -- the current index is among those that are found
    { toProgress := info.countSet key (info.rates.getMutationIndexes st.mutationIndex key) st.toProgress
      dataCache := dataCache
      server := st.server.set (info.keyName key) data }
  else { st with toProgress := st.backOff, dataCache := dataCache }

/-- A get. A key that the server does not hold is an error like any other; a comparison that fails is counted and
    ends the thread. -/
def turnGet (info : LoadInfo) (accepts : Bool) (st : LoadThread) : LoadThread :=
  match info.getKey st with
  | none => { st with status := .died }
  | some key =>
      match accepts, st.server.get? (info.keyName key) with
      | true, some data =>
          match (info.rates.getMutationIndexes st.mutationIndex key).max? with
          -- `max` of no indexes
          | none => { st with toProgress := { st.answered with status := .died } }
          | some index =>
              let (expected, dataCache) := info.getData index st.dataCache
              if info.handsBack data ≠ .str expected then
                { st with toProgress := st.answered.fail, dataCache := dataCache }
              else
                { st with toProgress := { st.answered with getIndex := st.getIndex + 1 }, dataCache := dataCache }
      | _, _ => { st with toProgress := st.backOff }

/-- One turn of the loop, with whether the server takes the operation. -/
def turn (info : LoadInfo) (st : LoadThread) (accepts : Bool) : LoadThread :=
  info.choose st.toProgress { st with status := .returned } (info.turnSet accepts st) (info.turnGet accepts st) st

/-- `run`, for as many turns as are given. -/
def run (info : LoadInfo) (answers : List Bool) (st : LoadThread) : LoadThread := answers.foldl info.turn st

end LoadInfo

/-! ## Data of an index -/

namespace LoadInfo

variable (info : LoadInfo)

section Equations

variable {info} {index : ℕ} {dataCache : Dict ℕ Text} {filling : Text}

theorem getData_of_cached (hcache : info.cacheData = true) (h : dataCache.get? (info.dataSize index) = some filling) :
    info.getData index dataCache = (reprText index ++ filling, dataCache) := by
  simp only [getData, hcache, if_true, h]

theorem getData_of_missing (hcache : info.cacheData = true) (h : dataCache.get? (info.dataSize index) = none) :
    info.getData index dataCache = (reprText index ++ info.filling index (info.dataSize index),
      dataCache.set (info.dataSize index) (info.filling index (info.dataSize index))) := by
  simp only [getData, hcache, if_true, h]

theorem getData_of_not_cacheData (hcache : info.cacheData = false) :
    info.getData index dataCache = (info.filling index (info.dataSize index), dataCache) := by
  simp only [getData, hcache, Bool.false_eq_true, if_false]

/-- What is cached stays cached. -/
theorem get?_getData {valuesize : ℕ} (h : dataCache.get? valuesize = some filling) (other : ℕ) :
    (info.getData other dataCache).2.get? valuesize = some filling := by
  cases hcache : info.cacheData with
  | false => rwa [getData_of_not_cacheData hcache]
  | true =>
      cases hother : dataCache.get? (info.dataSize other) with
      | some other => rwa [getData_of_cached hcache hother]
      | none =>
          have hne : valuesize ≠ info.dataSize other := by
            rintro rfl
            rw [hother] at h
            cases h
          rw [getData_of_missing hcache hother, Dict.get?_set, if_neg hne, h]

end Equations

/-- The data of the index is settled: it is made without a change to the cache. -/
def Settled (dataCache : Dict ℕ Text) (index : ℕ) (data : Text) : Prop :=
  info.getData index dataCache = (data, dataCache)

variable {info}

theorem settled_of_cached {dataCache : Dict ℕ Text} {index : ℕ} {filling : Text} (hcache : info.cacheData = true)
    (h : dataCache.get? (info.dataSize index) = some filling) :
    info.Settled dataCache index (reprText index ++ filling) := getData_of_cached hcache h

/-- Made once, the data of an index is settled. -/
theorem settled_getData (index : ℕ) (dataCache : Dict ℕ Text) :
    info.Settled (info.getData index dataCache).2 index (info.getData index dataCache).1 := by
  cases hcache : info.cacheData with
  | false =>
      rw [getData_of_not_cacheData hcache]
      exact getData_of_not_cacheData hcache
  | true =>
      cases hcached : dataCache.get? (info.dataSize index) with
      | some filling =>
          rw [getData_of_cached hcache hcached]
          exact settled_of_cached hcache hcached
      | none =>
          rw [getData_of_missing hcache hcached]
          exact settled_of_cached hcache (by rw [Dict.get?_set, if_pos rfl])

/-- Making other data keeps it settled. -/
theorem Settled.getData {dataCache : Dict ℕ Text} {index : ℕ} {data : Text}
    (h : info.Settled dataCache index data) (other : ℕ) :
    info.Settled (info.getData other dataCache).2 index data := by
  cases hcache : info.cacheData with
  | false =>
      rw [Settled, getData_of_not_cacheData hcache] at h ⊢
      obtain rfl : info.filling index (info.dataSize index) = data := congrArg Prod.fst h
      rfl
  | true =>
      cases hcached : dataCache.get? (info.dataSize index) with
      | some filling =>
          rw [Settled, getData_of_cached hcache hcached] at h
          obtain rfl : reprText index ++ filling = data := congrArg Prod.fst h
          exact settled_of_cached hcache (get?_getData hcached other)
      | none =>
          rw [Settled, getData_of_missing hcache hcached] at h
          have hget := congrArg (fun p => p.2.get? (info.dataSize index)) h
          simp [hcached] at hget

theorem keyName_injective {key key' : ℕ} (h : info.keyName key = info.keyName key') : key = key' :=
  toString_toList_injective (List.cons.inj (List.append_cancel_left h)).2

/-! ## What the server holds -/

/-- The index is the last one below the current one that its key was set with. -/
def Last (info : LoadInfo) (st : LoadThread) (index : ℕ) : Prop :=
  index < st.mutationIndex ∧ ∀ i, i < st.mutationIndex →
    info.rates.getMutationKey i = info.rates.getMutationKey index → i ≤ index

/-- The server holds the data of the index, and it is settled. -/
def Holds (info : LoadInfo) (st : LoadThread) (index : ℕ) : Prop :=
  ∃ data, st.server.get? (info.keyName (info.rates.getMutationKey index)) = some data ∧
    info.Settled st.dataCache index data

/-- The invariant of a run: under the key of an index that was not set again, the server holds its data; and no
    comparison has failed. -/
structure Inv (info : LoadInfo) (st : LoadThread) : Prop where
  holds : ∀ index, info.Last st index → info.Holds st index
  valueFailures : st.valueFailures = 0
  status : st.status ≠ .died

theorem inv_start (server : Dict Text Text) : info.Inv (.start server) :=
  ⟨fun index h => absurd h.1 (Nat.not_lt_zero index), rfl, fun h => by cases h⟩

theorem Inv.turnSet {st : LoadThread} (h : info.Inv st) (accepts : Bool) : info.Inv (info.turnSet accepts st) := by
  cases accepts with
  | false =>
      refine ⟨?_, h.valueFailures, h.status⟩
      intro index hlast
      obtain ⟨data, hserver, hsettled⟩ := h.holds index hlast
      exact ⟨data, hserver, hsettled.getData _⟩
  | true =>
      refine ⟨?_, h.valueFailures, h.status⟩
      intro index hlast
      obtain ⟨hlt, hlatest⟩ : index < st.mutationIndex + 1 ∧ ∀ i, i < st.mutationIndex + 1 →
          info.rates.getMutationKey i = info.rates.getMutationKey index → i ≤ index := hlast
      by_cases hcurrent : index = st.mutationIndex
      · subst hcurrent
        refine ⟨(info.getData st.mutationIndex st.dataCache).1, ?_, settled_getData _ _⟩
        show (st.server.set _ _).get? _ = _
        rw [Dict.get?_set]
        exact if_pos rfl
      · -- the key of an index that is still the last one is another key
        have hkey : info.rates.getMutationKey index ≠ info.mutationKey st := fun heq => by
          have := hlatest st.mutationIndex (Nat.lt_succ_self _) heq.symm
          omega
        obtain ⟨data, hserver, hsettled⟩ := h.holds index
          ⟨by omega, fun i hi => hlatest i (Nat.lt_succ_of_lt hi)⟩
        refine ⟨data, ?_, hsettled.getData _⟩
        show (st.server.set _ _).get? _ = _
        rw [Dict.get?_set, if_neg fun heq => hkey (info.keyName_injective heq)]
        exact hserver

/-! ## A get -/

/-- The key of a get has been set, and the server holds the data of its last index, as it is made again. -/
def Sound (info : LoadInfo) (st : LoadThread) : Prop :=
  ∃ key last data, info.getKey st = some key ∧ last < st.mutationIndex ∧ info.rates.getMutationKey last = key ∧
    (info.rates.getMutationIndexes st.mutationIndex key).max? = some last ∧
    st.server.get? (info.keyName key) = some data ∧ info.getData last st.dataCache = (data, st.dataCache)

theorem Inv.sound {st : LoadThread} (h : info.Inv st) (hnew : 0 < info.mutationKey st) : info.Sound st := by
  have hkey : info.getKey st = some (st.getIndex % info.mutationKey st) := if_neg (Nat.ne_of_gt hnew)
  have hbelow : st.getIndex % info.mutationKey st < info.rates.getMutationKey st.mutationIndex :=
    Nat.mod_lt st.getIndex hnew
  obtain ⟨last, hmax, hlt, hlast, hlatest⟩ := Rates.max_getMutationIndexes hbelow
  obtain ⟨data, hserver, hsettled⟩ := h.holds last ⟨hlt, fun i hi heq => hlatest i hi (heq.trans hlast)⟩
  rw [hlast] at hserver
  exact ⟨_, last, data, hkey, hlt, hlast, hmax, hserver, hsettled⟩

/-- For the key of the get, the client hands back the `str` that was set. -/
def HandsBack (info : LoadInfo) (st : LoadThread) : Prop :=
  ∀ key data, info.getKey st = some key → st.server.get? (info.keyName key) = some data →
    info.handsBack data = .str data

/-- A sound get for which the client hands back what was set does not fail: the server rejects it, or it is
    counted. -/
theorem turnGet_of_handsBack {st : LoadThread} (h : info.Sound st) {accepts : Bool}
    (hclient : accepts = true → info.HandsBack st) :
    info.turnGet accepts st = if accepts then
      { st with toProgress := { st.answered with getIndex := st.getIndex + 1 } }
    else { st with toProgress := st.backOff } := by
  obtain ⟨key, last, data, hkey, -, -, hmax, hserver, hdata⟩ := h
  rw [turnGet, hkey]
  dsimp only
  rw [hserver]
  cases accepts with
  | false => rfl
  | true =>
      dsimp only
      rw [hmax]
      simp only [hdata, hclient rfl key data hkey hserver, ne_eq, not_true_eq_false, if_false, if_true]

/-- Anything else that the client hands back ends the thread, and is counted as a failure. -/
theorem turnGet_of_not_handsBack {st : LoadThread} (h : info.Sound st) (hclient : ¬ info.HandsBack st) :
    (info.turnGet true st).status = .died ∧ (info.turnGet true st).valueFailures = st.valueFailures + 1 := by
  obtain ⟨key, last, data, hkey, -, -, hmax, hserver, hdata⟩ := h
  have hdiffers : info.handsBack data ≠ .str data := by
    intro heq
    refine hclient fun key' data' hkey' hserver' => ?_
    obtain rfl : key = key' := Option.some.inj (hkey.symm.trans hkey')
    obtain rfl : data = data' := Option.some.inj (hserver.symm.trans hserver')
    exact heq
  rw [turnGet, hkey]
  dsimp only
  rw [hserver]
  dsimp only
  rw [hmax]
  simp only [hdata, ne_eq, hdiffers, not_false_eq_true, if_true]
  exact ⟨rfl, rfl⟩

theorem Inv.turnGet {st : LoadThread} (h : info.Inv st) (hsound : info.Sound st) {accepts : Bool}
    (hclient : accepts = true → info.HandsBack st) : info.Inv (info.turnGet accepts st) := by
  rw [turnGet_of_handsBack hsound hclient]
  split
  · exact ⟨fun index hlast => h.holds index hlast, h.valueFailures, h.status⟩
  · exact ⟨fun index hlast => h.holds index hlast, h.valueFailures, h.status⟩

/-! ## Runs -/

/-- The next turn is a get. -/
def Gets (info : LoadInfo) (st : LoadThread) : Prop :=
  st.status = .running ∧ info.limited st.toProgress = false ∧ info.operation st.toProgress = .get

instance instDecidableGets (info : LoadInfo) (st : LoadThread) : Decidable (info.Gets st) :=
  inferInstanceAs (Decidable (_ ∧ _ ∧ _))

/-- When the run comes to its first get, a key beyond key 0 has been started. -/
def NewKeyFirst (info : LoadInfo) : List Bool → LoadThread → Prop
  | [], _ => True
  | accepts :: answers, st =>
      if info.Gets st then 0 < info.mutationKey st else NewKeyFirst info answers (info.turn st accepts)

instance instDecidableNewKeyFirst (info : LoadInfo) :
    (answers : List Bool) → (st : LoadThread) → Decidable (info.NewKeyFirst answers st)
  | [], _ => .isTrue trivial
  | accepts :: answers, st =>
      have := instDecidableNewKeyFirst info answers (info.turn st accepts)
      inferInstanceAs (Decidable (if info.Gets st then _ else _))

theorem Inv.turn {st : LoadThread} (h : info.Inv st) (hget : info.Gets st → 0 < info.mutationKey st)
    {accepts : Bool} (hclient : info.Gets st → accepts = true → info.HandsBack st) :
    info.Inv (info.turn st accepts) := by
  refine LoadPlan.choose_induct ?_ (fun _ _ _ => h.turnSet accepts) (fun hrunning hlimited hop => ?_) h
  · exact ⟨fun index hlast => h.holds index hlast, h.valueFailures, fun hdied => by cases hdied⟩
  · have hgets : info.Gets st := ⟨hrunning, hlimited, hop⟩
    exact h.turnGet (h.sound (hget hgets)) (hclient hgets)

theorem turn_of_gets {st : LoadThread} (h : info.Gets st) (accepts : Bool) :
    info.turn st accepts = info.turnGet accepts st := by
  rw [LoadInfo.turn, LoadPlan.choose_of_running h.1 h.2.1, h.2.2]

/-- A thread that does not run stays as it is. -/
theorem run_of_not_running {st : LoadThread} (h : st.status ≠ .running) (answers : List Bool) :
    info.run answers st = st := by
  induction answers with
  | nil => rfl
  | cons accepts answers ih =>
      have hturn : info.turn st accepts = st := LoadPlan.choose_of_not_running h
      exact (congrArg (info.run answers) hturn).trans ih

theorem mutationIndex_turnGet (st : LoadThread) (accepts : Bool) :
    (info.turnGet accepts st).mutationIndex = st.mutationIndex := by
  rw [LoadInfo.turnGet]
  split
  · rfl
  · split
    · dsimp only
      split
      · rfl
      · split <;> rfl
    · rfl

/-- The mutation index does not go back. -/
theorem mutationIndex_le_turn (st : LoadThread) (accepts : Bool) :
    st.mutationIndex ≤ (info.turn st accepts).mutationIndex := by
  refine LoadPlan.choose_induct (P := fun (next : LoadThread) => st.mutationIndex ≤ next.mutationIndex)
    (Nat.le_refl _) (fun _ _ _ => ?_) (fun _ _ _ => ?_) (Nat.le_refl _)
  · cases accepts with
    | false => exact Nat.le_refl _
    | true => exact Nat.le_succ _
  · exact Nat.le_of_eq (mutationIndex_turnGet st accepts).symm

/-- Past key 0, every later key is a key beyond it. -/
theorem mutationKey_pos_iff (st : LoadThread) : 0 < info.mutationKey st ↔ 0 < st.mutationIndex :=
  info.rates.getMutationKey_pos_iff st.mutationIndex

/-- Past the first get, the runs of a thread go on with a key beyond key 0 started. -/
theorem newKeyFirst_turn {st : LoadThread} {accepts : Bool} {answers : List Bool}
    (hfirst : info.NewKeyFirst (accepts :: answers) st ∨ 0 < info.mutationKey st) :
    (info.Gets st → 0 < info.mutationKey st) ∧
      (info.NewKeyFirst answers (info.turn st accepts) ∨ 0 < info.mutationKey (info.turn st accepts)) := by
  have hget : info.Gets st → 0 < info.mutationKey st := fun hgets =>
    hfirst.elim (fun hnew => by rwa [NewKeyFirst, if_pos hgets] at hnew) id
  refine ⟨hget, ?_⟩
  have hgrows : 0 < info.mutationKey st → 0 < info.mutationKey (info.turn st accepts) := by
    rw [mutationKey_pos_iff, mutationKey_pos_iff]
    exact fun hpos => Nat.lt_of_lt_of_le hpos (mutationIndex_le_turn st accepts)
  by_cases hgets : info.Gets st
  · exact .inr (hgrows (hget hgets))
  · exact hfirst.imp (fun hnew => by rwa [NewKeyFirst, if_neg hgets] at hnew) hgrows

/-- It holds before every get of the run, with whether the server takes it. -/
def AtGets (info : LoadInfo) (P : LoadThread → Bool → Prop) (answers : List Bool) (st : LoadThread) : Prop :=
  ∀ pre accepts post, answers = pre ++ accepts :: post → info.Gets (info.run pre st) →
    P (info.run pre st) accepts

theorem atGets_nil (P : LoadThread → Bool → Prop) (st : LoadThread) : info.AtGets P [] st :=
  fun _ _ _ heq => absurd heq (by simp)

theorem atGets_cons {P : LoadThread → Bool → Prop} {accepts : Bool} {answers : List Bool} {st : LoadThread} :
    info.AtGets P (accepts :: answers) st ↔
      (info.Gets st → P st accepts) ∧ info.AtGets P answers (info.turn st accepts) := by
  constructor
  · intro h
    exact ⟨fun hgets => h [] accepts answers rfl hgets,
      fun pre a post heq hgets => h (accepts :: pre) a post (by rw [heq, List.cons_append]) hgets⟩
  · rintro ⟨hhead, htail⟩ pre a post heq hgets
    rcases pre with _ | ⟨b, pre⟩
    · obtain ⟨rfl, rfl⟩ := List.cons.inj heq
      exact hhead hgets
    · obtain ⟨rfl, rfl⟩ := List.cons.inj heq
      exact htail pre a post rfl hgets

/-- The get reads a key that was set, and for a get that the server takes, the client hands back the data that is
    made again from the largest mutation index of the key. -/
def Verifies (info : LoadInfo) (st : LoadThread) (accepts : Bool) : Prop :=
  ∃ key last data, info.getKey st = some key ∧ last < st.mutationIndex ∧ info.rates.getMutationKey last = key ∧
    (info.rates.getMutationIndexes st.mutationIndex key).max? = some last ∧
    st.server.get? (info.keyName key) = some data ∧
    (accepts = true → info.handsBack data = .str (info.getData last st.dataCache).1)

/-- No false alarm: every get of the run verifies what was set, and no comparison fails. -/
structure NoFalseAlarm (info : LoadInfo) (answers : List Bool) (st : LoadThread) : Prop where
  verifies : info.AtGets info.Verifies answers st
  valueFailures : (info.run answers st).valueFailures = 0

/-- What is made again is what was set: all depends on the client. -/
theorem Sound.verifies_iff {st : LoadThread} (h : info.Sound st) (accepts : Bool) :
    info.Verifies st accepts ↔ (accepts = true → info.HandsBack st) := by
  obtain ⟨key, last, data, hkey, hlt, hlast, hmax, hserver, hdata⟩ := h
  constructor
  · rintro ⟨key', last', data', hkey', -, -, hmax', hserver', hclient⟩ haccepts key'' data'' hkey'' hserver''
    obtain rfl : key = key' := Option.some.inj (hkey.symm.trans hkey')
    obtain rfl : key = key'' := Option.some.inj (hkey.symm.trans hkey'')
    obtain rfl : last = last' := Option.some.inj (hmax.symm.trans hmax')
    obtain rfl : data = data' := Option.some.inj (hserver.symm.trans hserver')
    obtain rfl : data = data'' := Option.some.inj (hserver.symm.trans hserver'')
    rw [hclient haccepts, hdata]
  · intro hclient
    refine ⟨key, last, data, hkey, hlt, hlast, hmax, hserver, fun haccepts => ?_⟩
    rw [hclient haccepts key data hkey hserver, hdata]

/-- The state before every get of the run is sound, whatever the client hands back: the thread does not survive a
    comparison that fails. -/
theorem run_sound {answers : List Bool} {st : LoadThread} (h : info.Inv st)
    (hfirst : info.NewKeyFirst answers st ∨ 0 < info.mutationKey st) :
    info.AtGets (fun st _ => info.Sound st) answers st := by
  induction answers generalizing st with
  | nil => exact atGets_nil _ st
  | cons accepts answers ih =>
      obtain ⟨hget, hnext⟩ := newKeyFirst_turn hfirst
      refine atGets_cons.2 ⟨fun hgets => h.sound (hget hgets), ?_⟩
      by_cases hclient : info.Gets st → accepts = true → info.HandsBack st
      · exact ih (h.turn hget hclient) hnext
      · obtain ⟨hgets, hclient⟩ := Classical.not_imp.1 hclient
        obtain ⟨rfl, hmangled⟩ := Classical.not_imp.1 hclient
        have hdied := (turnGet_of_not_handsBack (h.sound (hget hgets)) hmangled).1
        rw [← turn_of_gets hgets true] at hdied
        have hstopped : (info.turn st true).status ≠ .running := by
          rw [hdied]
          exact fun heq => by cases heq
        intro pre a post _ hgets'
        rw [run_of_not_running hstopped] at hgets'
        exact absurd hgets'.1 hstopped

/-- The invariant holds to the end of a run in which the client hands back what was set. -/
theorem Inv.run {answers : List Bool} {st : LoadThread} (h : info.Inv st)
    (hfirst : info.NewKeyFirst answers st ∨ 0 < info.mutationKey st)
    (hclient : info.AtGets (fun st accepts => accepts = true → info.HandsBack st) answers st) :
    info.Inv (info.run answers st) := by
  induction answers generalizing st with
  | nil => exact h
  | cons accepts answers ih =>
      obtain ⟨hget, hnext⟩ := newKeyFirst_turn hfirst
      obtain ⟨hhead, htail⟩ := atGets_cons.1 hclient
      exact ih (h.turn hget hhead) hnext htail

/-- `MemcachedClient.get` never hands back the `str` that was set. -/
theorem Sound.not_handsBack {st : LoadThread} (h : info.Sound st) (hclient : info.handsBack = memcachedClientValue) :
    ¬ info.HandsBack st := by
  obtain ⟨key, last, data, hkey, -, -, -, hserver, -⟩ := h
  intro hback
  have heq := hback key data hkey hserver
  rw [hclient] at heq
  cases heq

/-- **When there is no false alarm**: for any rates, sequences, client and answers of the server, if a key beyond
    key 0 was started when the run comes to its first get, then every get is about a key that has been set and for
    which the server holds what is made again from the largest of its mutation indexes; and no comparison fails
    exactly if, at every get that the server takes, the client hands back the `str` that was set: for
    `MemcachedClient`, if the server takes no get. -/
theorem load_no_false_alarm_iff (info : LoadInfo) (server : Dict Text Text) (answers : List Bool)
    (hfirst : info.NewKeyFirst answers (.start server)) :
    info.AtGets (fun st _ => info.Sound st) answers (.start server) ∧
    (info.NoFalseAlarm answers (.start server) ↔
      info.AtGets (fun st accepts => accepts = true → info.HandsBack st) answers (.start server)) ∧
    (info.handsBack = memcachedClientValue →
      (info.NoFalseAlarm answers (.start server) ↔
        info.AtGets (fun _ accepts => accepts = false) answers (.start server))) := by
  have hsound := run_sound (inv_start server) (.inl hfirst)
  have hiff : info.NoFalseAlarm answers (.start server) ↔
      info.AtGets (fun st accepts => accepts = true → info.HandsBack st) answers (.start server) := by
    constructor
    · intro h pre accepts post heq hgets
      exact ((hsound pre accepts post heq hgets).verifies_iff accepts).1 (h.verifies pre accepts post heq hgets)
    · intro h
      refine ⟨fun pre accepts post heq hgets => ?_, ((inv_start server).run (.inl hfirst) h).valueFailures⟩
      exact ((hsound pre accepts post heq hgets).verifies_iff accepts).2 (h pre accepts post heq hgets)
  refine ⟨hsound, hiff, fun hclient => hiff.trans ⟨fun h => ?_, fun h => ?_⟩⟩
  · intro pre accepts post heq hgets
    refine Bool.eq_false_iff.2 fun haccepts => ?_
    exact (hsound pre accepts post heq hgets).not_handsBack hclient (h pre accepts post heq hgets haccepts)
  · intro pre accepts post heq hgets haccepts
    rw [h pre accepts post heq hgets] at haccepts
    cases haccepts

end LoadInfo

/-- Two sets and a get in turn, on values of two sizes that are cached. -/
def sampleInfo : LoadInfo where
  rates := ⟨1, 2, Nat.one_pos, Nat.two_pos⟩
  name := "t".toList
  cacheData := true
  uuid3 := fun index => reprText (index + 100)
  handsBack := fakeClientValue
  operationSequence := [.set, .set, .get]
  valuesizeSequence := [2, 3]
  operations_ne := by decide
  valuesizes_ne := by decide
  limitItems := 0
  limitOperations := 0
  limitSize := 0

theorem load_no_false_alarm_sample : sampleInfo.NoFalseAlarm [true, false, true, true, true, true] (.start ∅) :=
  (sampleInfo.load_no_false_alarm_iff ∅ [true, false, true, true, true, true] (by decide +kernel)).2.1.2
    fun _ _ _ _ _ _ _ _ _ _ => rfl

/-- With the client of the repository the first get that is taken is counted as a failure. -/
theorem load_false_alarm : LoadInfo.NewKeyFirst { sampleInfo with handsBack := memcachedClientValue }
      [true, true, true] (.start ∅) ∧
    ¬ LoadInfo.NoFalseAlarm { sampleInfo with handsBack := memcachedClientValue } [true, true, true] (.start ∅) := by
  refine ⟨by decide +kernel, fun h => ?_⟩
  have hfailures := h.valueFailures
  revert hfailures
  decide +kernel

end TestInfra.LoadRunner
