import TestInfra.Lib.Dict

set_option autoImplicit false

/-! # One partition of the reference key-value store

`Partition` (`lib/memcached/helper/kvstore.py`) is the model of what the server should hold: valid
entries, deleted keys with their last value, timestamps, and the list of keys that expired. Keys
expire **lazily**: a set with an expiry only records the deadline, and the next query that looks at
the key after the deadline moves it from the valid to the deleted side and notes it as expired.

Each operation takes the reading `now` of the clock it would get from `time.time()`; times are
integers (ticks). Queries return their answer together with the partition they leave behind. -/

namespace TestInfra

/-- A valid entry (`{"value": .., "expires": .., "flag": ..}`); `expires = 0` means never. -/
structure Entry (V : Type*) where
  value : V
  expires : Int
  flag : Int
deriving DecidableEq, Repr

/-- The deadline of the entry has passed (the test of `__expire_key`). -/
def Entry.Lapsed {V : Type*} (now : Int) (e : Entry V) : Prop := e.expires ≠ 0 ∧ e.expires < now

instance {V : Type*} (now : Int) (e : Entry V) : Decidable (e.Lapsed now) :=
  inferInstanceAs (Decidable (_ ∧ _))

/-- The five containers of `Partition`, and its id. -/
structure Partition (V : Type*) where
  partId : Nat
  valid : Dict String (Entry V)
  deleted : Dict String V
  timestamp : Dict String Int
  expiredKeys : List String

namespace Partition

variable {V : Type*}

/-- `Partition(part_id)`. -/
def new (partId : Nat) : Partition V := ⟨partId, ∅, ∅, ∅, []⟩

instance : Inhabited (Partition V) := ⟨new 0⟩

/-! ## The operations -/

/-- `set`: the key becomes valid; it leaves the deleted side, and **one** occurrence leaves the
    expired list (`list.remove`). -/
def set (now : Int) (key : String) (value : V) (exp flag : Int) (p : Partition V) : Partition V :=
  { p with
    deleted := p.deleted.del key
    expiredKeys := p.expiredKeys.erase key
    valid := p.valid.set key ⟨value, if exp ≠ 0 then now + exp else exp, flag⟩
    timestamp := p.timestamp.set key now }

/-- `delete`: a valid key moves to the deleted side; anything else is left alone. -/
def delete (now : Int) (key : String) (p : Partition V) : Partition V :=
  match p.valid.get? key with
  | some e =>
      { p with
        deleted := p.deleted.set key e.value
        timestamp := p.timestamp.set key now
        valid := p.valid.del key }
  | none => p

/-- `__expire_key`: a valid key whose deadline has passed moves to the deleted side and is appended
    to the expired list. -/
def expireKey (now : Int) (key : String) (p : Partition V) : Partition V :=
  match p.valid.get? key with
  | some e =>
      if e.Lapsed now then
        { p with
          deleted := p.deleted.set key e.value
          expiredKeys := p.expiredKeys ++ [key]
          valid := p.valid.del key }
      else p
  | none => p

/-- `[self.__expire_key(key) for key in valid_keys]`. -/
def expireKeys (now : Int) (keys : List String) (p : Partition V) : Partition V :=
  keys.foldl (fun q key => q.expireKey now key) p

/-- The sweep over a copy of the valid keys that the key-set queries start with. -/
def expireValid (now : Int) (p : Partition V) : Partition V := p.expireKeys now p.valid.keys

/-- `get_timestamp` (`0` when the key has none). -/
def getTimestamp (key : String) (p : Partition V) : Int := (p.timestamp.get? key).getD 0

/-- `get_key`: the raw entry, without expiring it. -/
def getKey (key : String) (p : Partition V) : Option (Entry V) := p.valid.get? key

def getValid (now : Int) (key : String) (p : Partition V) : Option V × Partition V :=
  let q := p.expireKey now key
  ((q.valid.get? key).map Entry.value, q)

def getDeleted (now : Int) (key : String) (p : Partition V) : Option V × Partition V :=
  let q := p.expireKey now key
  (q.deleted.get? key, q)

def getFlag (now : Int) (key : String) (p : Partition V) : Option Int × Partition V :=
  let q := p.expireKey now key
  ((q.valid.get? key).map Entry.flag, q)

def validKeySet (now : Int) (p : Partition V) : List String × Partition V :=
  let q := p.expireValid now
  (q.valid.keys, q)

def deletedKeySet (now : Int) (p : Partition V) : List String × Partition V :=
  let q := p.expireValid now
  (q.deleted.keys, q)

def expiredKeySet (now : Int) (p : Partition V) : List String × Partition V :=
  let q := p.expireValid now
  (q.expiredKeys, q)

/-- `expired`: `none` is the exception "Key: .. is not a valid key", raised before anything moves. -/
def expired (now : Int) (key : String) (p : Partition V) : Option Bool × Partition V :=
  if key ∉ p.valid.keys ∧ key ∉ p.deleted.keys then (none, p)
  else
    let q := p.expireKey now key
    (some (decide (key ∈ q.expiredKeys)), q)

/-- `__len__`. -/
def len (now : Int) (p : Partition V) : Nat × Partition V :=
  let q := p.expireValid now
  (q.valid.keys.length, q)

/-- `has_valid_keys`; nothing expires. -/
def hasValidKeys (p : Partition V) : Bool := decide (0 < p.valid.keys.length)

/-- `has_deleted_keys`. -/
def hasDeletedKeys (p : Partition V) : Bool := decide (0 < p.deleted.keys.length)

/-- `merge`: take over the other side's valid entries and all its timestamps; a key that became valid
    loses its deleted mark and one expired mark. The other side's deleted and expired keys are not
    looked at. -/
def merge (p other : Partition V) : Partition V :=
  { p with
    valid := p.valid.update other.valid
    deleted := p.deleted.delAll (other.valid.keys.filter (· ∈ p.deleted.keys))
    expiredKeys := (other.valid.keys.filter (· ∈ p.expiredKeys)).foldl List.erase p.expiredKeys
    timestamp := p.timestamp.update other.timestamp }

/-! ## Histories -/

/-- The operations a history is made of. -/
inductive Op (V : Type*) where
  | set (key : String) (value : V) (exp flag : Int)
  | delete (key : String)
  | getValid (key : String)
  | getDeleted (key : String)
  | getFlag (key : String)
  | validKeySet
  | deletedKeySet
  | expiredKeySet
  | expired (key : String)
  | len

/-- The partition an operation leaves behind. -/
def apply (now : Int) : Op V → Partition V → Partition V
  | .set key value exp flag, p => p.set now key value exp flag
  | .delete key, p => p.delete now key
  | .getValid key, p => (p.getValid now key).2
  | .getDeleted key, p => (p.getDeleted now key).2
  | .getFlag key, p => (p.getFlag now key).2
  | .validKeySet, p => (p.validKeySet now).2
  | .deletedKeySet, p => (p.deletedKeySet now).2
  | .expiredKeySet, p => (p.expiredKeySet now).2
  | .expired key, p => (p.expired now key).2
  | .len, p => (p.len now).2

/-- A history: operations with the clock reading each of them gets. -/
abbrev History (V : Type*) := List (Int × Op V)

def run (h : History V) (p : Partition V) : Partition V :=
  h.foldl (fun q e => q.apply e.1 e.2) p

@[simp] theorem run_nil (p : Partition V) : run [] p = p := rfl

@[simp] theorem run_cons (now : Int) (op : Op V) (h : History V) (p : Partition V) :
    run ((now, op) :: h) p = run h (p.apply now op) := rfl

/-- Every operation other than `set` and `delete` amounts to expiring a list of keys. -/
theorem apply_query (now : Int) (op : Op V) (p : Partition V) :
    (∃ key value exp flag, op = .set key value exp flag) ∨ (∃ key, op = .delete key) ∨
      ∃ keys, p.apply now op = p.expireKeys now keys := by
  cases op with
  | set key value exp flag => exact Or.inl ⟨key, value, exp, flag, rfl⟩
  | delete key => exact Or.inr (Or.inl ⟨key, rfl⟩)
  | getValid key => exact Or.inr (Or.inr ⟨[key], rfl⟩)
  | getDeleted key => exact Or.inr (Or.inr ⟨[key], rfl⟩)
  | getFlag key => exact Or.inr (Or.inr ⟨[key], rfl⟩)
  | validKeySet => exact Or.inr (Or.inr ⟨p.valid.keys, rfl⟩)
  | deletedKeySet => exact Or.inr (Or.inr ⟨p.valid.keys, rfl⟩)
  | expiredKeySet => exact Or.inr (Or.inr ⟨p.valid.keys, rfl⟩)
  | expired key =>
      refine Or.inr (Or.inr ?_)
      by_cases h : key ∉ p.valid.keys ∧ key ∉ p.deleted.keys
      · exact ⟨[], by simp only [apply, expired, if_pos h, expireKeys, List.foldl_nil]⟩
      · exact ⟨[key], by
          simp only [apply, expired, if_neg h, expireKeys, List.foldl_cons, List.foldl_nil]⟩
  | len => exact Or.inr (Or.inr ⟨p.valid.keys, rfl⟩)

/-! ## The invariant -/

/-- What every reachable partition satisfies. -/
structure Inv (p : Partition V) : Prop where
  disjoint : ∀ k ∈ p.valid.keys, k ∉ p.deleted.keys
  expired_deleted : ∀ k ∈ p.expiredKeys, k ∈ p.deleted.keys ∧ k ∉ p.valid.keys
  expired_nodup : p.expiredKeys.Nodup
  stamped : ∀ k, k ∈ p.valid.keys ∨ k ∈ p.deleted.keys → k ∈ p.timestamp.keys

theorem inv_new (partId : Nat) : (new partId : Partition V).Inv :=
  ⟨by simp [new], by simp [new], by simp [new], by simp [new]⟩

theorem Inv.set {p : Partition V} (h : p.Inv) (now : Int) (key : String) (value : V)
    (exp flag : Int) : (p.set now key value exp flag).Inv := by
  refine ⟨?_, ?_, ?_, ?_⟩
  · intro k hk
    simp only [Partition.set, Dict.mem_keys_set, Dict.mem_keys_del, not_and] at hk ⊢
    rcases hk with rfl | hk
    · exact fun hne => absurd rfl hne
    · exact fun _ => h.disjoint k hk
  · intro k hk
    simp only [Partition.set] at hk ⊢
    obtain ⟨hne, hk⟩ := (h.expired_nodup.mem_erase_iff).1 hk
    have := h.expired_deleted k hk
    simp [hne, this]
  · exact h.expired_nodup.erase key
  · intro k hk
    simp only [Partition.set, Dict.mem_keys_set, Dict.mem_keys_del] at hk ⊢
    have := h.stamped k
    tauto

theorem Inv.delete {p : Partition V} (h : p.Inv) (now : Int) (key : String) :
    (p.delete now key).Inv := by
  unfold Partition.delete
  cases hv : p.valid.get? key with
  | none => exact h
  | some e =>
      have hmem : key ∈ p.valid.keys := Dict.mem_keys_of_get? hv
      refine ⟨?_, ?_, h.expired_nodup, ?_⟩
      · intro k hk
        simp only [Dict.mem_keys_del, Dict.mem_keys_set] at hk ⊢
        rintro (hkey | hdel)
        · exact hk.1 hkey
        · exact h.disjoint k hk.2 hdel
      · intro k hk
        have := h.expired_deleted k hk
        simp [this]
      · intro k hk
        simp only [Dict.mem_keys_del, Dict.mem_keys_set] at hk ⊢
        have := h.stamped k
        tauto

theorem Inv.expireKey {p : Partition V} (h : p.Inv) (now : Int) (key : String) :
    (p.expireKey now key).Inv := by
  unfold Partition.expireKey
  cases hv : p.valid.get? key with
  | none => exact h
  | some e =>
      have hmem : key ∈ p.valid.keys := Dict.mem_keys_of_get? hv
      dsimp only
      split
      · have hfresh : key ∉ p.expiredKeys := fun hk => (h.expired_deleted key hk).2 hmem
        refine ⟨?_, ?_, ?_, ?_⟩
        · intro k hk
          simp only [Dict.mem_keys_del, Dict.mem_keys_set] at hk ⊢
          rintro (hkey | hdel)
          · exact hk.1 hkey
          · exact h.disjoint k hk.2 hdel
        · intro k hk
          simp only [List.mem_append, List.mem_singleton] at hk
          rcases hk with hk | rfl
          · have := h.expired_deleted k hk
            simp [this]
          · simp
        · exact h.expired_nodup.append (List.nodup_singleton key)
            (List.disjoint_singleton.2 hfresh)
        · intro k hk
          simp only [Dict.mem_keys_del, Dict.mem_keys_set] at hk
          rcases hk with hk | rfl | hk
          · exact h.stamped k (Or.inl hk.2)
          · exact h.stamped k (Or.inl hmem)
          · exact h.stamped k (Or.inr hk)
      · exact h

theorem Inv.expireKeys {p : Partition V} (h : p.Inv) (now : Int) (keys : List String) :
    (p.expireKeys now keys).Inv := by
  induction keys generalizing p with
  | nil => exact h
  | cons key rest ih => exact ih (h.expireKey now key)

theorem Inv.apply {p : Partition V} (h : p.Inv) (now : Int) (op : Op V) : (p.apply now op).Inv := by
  rcases apply_query now op p with ⟨key, value, exp, flag, rfl⟩ | ⟨key, rfl⟩ | ⟨keys, hq⟩
  · exact h.set now key value exp flag
  · exact h.delete now key
  · rw [hq]; exact h.expireKeys now keys

theorem Inv.run {p : Partition V} (h : p.Inv) (hist : History V) : (run hist p).Inv := by
  induction hist generalizing p with
  | nil => exact h
  | cons e rest ih => exact ih (h.apply e.1 e.2)

/-- `list.remove` of several keys: exactly these keys leave a duplicate-free list. -/
theorem mem_foldl_erase (ks l : List String) (hl : l.Nodup) (k : String) :
    k ∈ ks.foldl List.erase l ↔ k ∈ l ∧ k ∉ ks := by
  induction ks generalizing l with
  | nil => simp
  | cons a rest ih =>
      rw [List.foldl_cons, ih _ (hl.erase a), hl.mem_erase_iff, List.mem_cons]
      tauto

theorem nodup_foldl_erase (ks l : List String) (hl : l.Nodup) : (ks.foldl List.erase l).Nodup := by
  induction ks generalizing l with
  | nil => exact hl
  | cons a rest ih => exact ih _ (hl.erase a)

theorem Inv.merge {p q : Partition V} (hp : p.Inv) (hq : q.Inv) : (p.merge q).Inv := by
  refine ⟨?_, ?_, ?_, ?_⟩
  · intro k hk
    simp only [Partition.merge, Dict.mem_keys_update, Dict.mem_keys_delAll, List.mem_filter,
      decide_eq_true_eq] at hk ⊢
    rintro ⟨hnew, hdel⟩
    rcases hk with hk | hk
    · exact hnew ⟨hk, hdel⟩
    · exact hp.disjoint k hk hdel
  · intro k hk
    simp only [Partition.merge] at hk ⊢
    rw [mem_foldl_erase _ _ hp.expired_nodup, List.mem_filter, decide_eq_true_eq] at hk
    obtain ⟨hexp, hnew⟩ := hk
    have hold := hp.expired_deleted k hexp
    have hother : k ∉ q.valid.keys := fun h => hnew ⟨h, hexp⟩
    simp [hold, hother]
  · exact nodup_foldl_erase _ _ hp.expired_nodup
  · intro k hk
    simp only [Partition.merge, Dict.mem_keys_update, Dict.mem_keys_delAll] at hk ⊢
    rcases hk with (hk | hk) | hk
    · exact Or.inl (hq.stamped k (Or.inl hk))
    · exact Or.inr (hp.stamped k (Or.inl hk))
    · exact Or.inr (hp.stamped k (Or.inr hk.2))

/-- A partition built by operations and merges, together with the last clock reading it took. The
    clock does not run backwards, and a merged partition was built no later than the merge. -/
inductive Built : Int → Partition V → Prop where
  | new (start : Int) (partId : Nat) : Built start (new partId)
  | op {last now : Int} {p : Partition V} (o : Op V) :
      Built last p → last ≤ now → Built now (p.apply now o)
  | merge {last last' now : Int} {p q : Partition V} :
      Built last p → Built last' q → last ≤ now → last' ≤ now → Built now (p.merge q)

/-- **Partition invariant.** Whatever operations and merges built a partition, its valid and deleted
    keys are disjoint, the expired list is duplicate-free and holds deleted keys only, and every valid
    or deleted key is stamped. -/
theorem built_inv {now : Int} {p : Partition V} (h : Built now p) : p.Inv := by
  induction h with
  | new start partId => exact inv_new partId
  | op o _ _ ih => exact ih.apply _ o
  | merge _ _ _ _ ihp ihq => exact ihp.merge ihq

/-- A key that expires, is set again and then takes part in a merge. -/
theorem built_inv_reset_after_expiry :
    (((new 0 : Partition Nat).set 0 "k" 1 5 0).apply 9 .len
      |>.apply 9 (.set "k" 2 0 0)
      |>.merge ((new 0).apply 3 (.set "j" 7 0 0))).Inv :=
  built_inv (.merge (.op (.set "k" 2 0 0) (.op .len (.op (.set "k" 1 5 0) (.new 0 0) (Int.le_refl 0))
    (by decide)) (Int.le_refl 9)) (.op (.set "j" 7 0 0) (.new 0 0) (by decide)) (Int.le_refl 9)
    (by decide : (3 : Int) ≤ 9))

end Partition

end TestInfra
