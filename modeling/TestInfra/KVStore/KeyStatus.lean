import TestInfra.KVStore.Partition

set_option autoImplicit false

/-! # A partition is a family of independent key automata

The abstract view of a partition: each key is `absent`, `valid` with an entry, or `deleted`, and every
operation acts on each key separately (`KeyStatus.step`). `Partition.status` reads the view off the
five containers, and `status_apply` / `status_run` / `status_merge` say that the code refines it. The
containers are not opened again after this file. -/

namespace TestInfra

/-- Where one key stands. -/
inductive KeyStatus (V : Type*) where
  | absent
  | valid (e : Entry V)
  | deleted

namespace KeyStatus

variable {V : Type*}

/-- A look at the key: a lapsed entry is deleted. -/
def expire (now : Int) : KeyStatus V → KeyStatus V
  | .valid e => if e.Lapsed now then .deleted else .valid e
  | s => s

def delete : KeyStatus V → KeyStatus V
  | .valid _ => .deleted
  | s => s

/-- What an operation does to key `k`. -/
def step (now : Int) (k : String) : Partition.Op V → KeyStatus V → KeyStatus V
  | .set key value exp flag, s =>
      if k = key then .valid ⟨value, if exp ≠ 0 then now + exp else exp, flag⟩ else s
  | .delete key, s => if k = key then s.delete else s
  | .getValid key, s | .getDeleted key, s | .getFlag key, s | .expired key, s =>
      if k = key then s.expire now else s
  | .validKeySet, s | .deletedKeySet, s | .expiredKeySet, s | .len, s => s.expire now

def run (k : String) (h : Partition.History V) (s : KeyStatus V) : KeyStatus V :=
  h.foldl (fun s e => s.step e.1 k e.2) s

@[simp] theorem run_nil (k : String) (s : KeyStatus V) : run k [] s = s := rfl

@[simp] theorem run_cons (k : String) (now : Int) (op : Partition.Op V) (h : Partition.History V)
    (s : KeyStatus V) : run k ((now, op) :: h) s = run k h (s.step now k op) := rfl

/-- Taking over another partition's key: its valid entry wins, everything else is ignored. -/
def merge (s other : KeyStatus V) : KeyStatus V :=
  match other with
  | .valid e => .valid e
  | _ => s

@[simp] theorem expire_absent (now : Int) : (absent : KeyStatus V).expire now = absent := rfl

@[simp] theorem expire_deleted (now : Int) : (deleted : KeyStatus V).expire now = deleted := rfl

theorem expire_expire (now : Int) (s : KeyStatus V) : (s.expire now).expire now = s.expire now := by
  cases s with
  | absent => rfl
  | deleted => rfl
  | valid e => by_cases h : e.Lapsed now <;> simp [expire, h]

end KeyStatus

namespace Partition

variable {V : Type*}

/-- The status of a key, read off the containers. -/
def status (p : Partition V) (k : String) : KeyStatus V :=
  match p.valid.get? k with
  | some e => .valid e
  | none => if k ∈ p.deleted.keys then .deleted else .absent

theorem status_valid {p : Partition V} {k : String} {e : Entry V} (h : p.valid.get? k = some e) :
    p.status k = .valid e := by
  simp only [status, h]

theorem status_of_not_valid {p : Partition V} {k : String} (h : p.valid.get? k = none) :
    p.status k = if k ∈ p.deleted.keys then .deleted else .absent := by
  simp only [status, h]

theorem status_eq_valid_iff (p : Partition V) (k : String) (e : Entry V) :
    p.status k = .valid e ↔ p.valid.get? k = some e := by
  cases hv : p.valid.get? k with
  | some e' => simp [status, hv]
  | none =>
      rw [status_of_not_valid hv]
      split <;> simp

theorem status_eq_deleted_iff {p : Partition V} (hp : p.Inv) (k : String) :
    p.status k = .deleted ↔ k ∈ p.deleted.keys := by
  cases hv : p.valid.get? k with
  | some e =>
      have hmem : k ∈ p.valid.keys := Dict.mem_keys_of_get? hv
      simp [status, hv, hp.disjoint k hmem]
  | none =>
      rw [status_of_not_valid hv]
      split <;> simp_all

/-- Equal statuses are equal valid entries and equal deleted marks. -/
theorem status_eq_iff {p q : Partition V} (hp : p.Inv) (hq : q.Inv) (k : String) :
    p.status k = q.status k ↔
      p.valid.get? k = q.valid.get? k ∧ (k ∈ p.deleted.keys ↔ k ∈ q.deleted.keys) := by
  constructor
  · intro h
    refine ⟨?_, by rw [← status_eq_deleted_iff hp, ← status_eq_deleted_iff hq, h]⟩
    apply Option.ext
    intro e
    rw [← status_eq_valid_iff p, ← status_eq_valid_iff q, h]
  · rintro ⟨hv, hd⟩
    simp only [status, hv, hd]

/-! ## The operations refine the automaton -/

@[simp] theorem status_new (i : Nat) (k : String) : (new i : Partition V).status k = .absent := by
  simp [status, new]

theorem status_set (now : Int) (key : String) (value : V) (exp flag : Int) (p : Partition V)
    (k : String) :
    (p.set now key value exp flag).status k
      = if k = key then .valid ⟨value, if exp ≠ 0 then now + exp else exp, flag⟩
        else p.status k := by
  by_cases hk : k = key
  · rw [if_pos hk]
    exact status_valid (by simp [set, hk])
  · simp [status, set, hk]

theorem status_delete (now : Int) (key : String) (p : Partition V) (k : String) :
    (p.delete now key).status k = if k = key then (p.status k).delete else p.status k := by
  unfold delete
  cases hv : p.valid.get? key with
  | none =>
      by_cases hk : k = key
      · subst hk
        rw [if_pos rfl, status_of_not_valid hv]
        split <;> rfl
      · rw [if_neg hk]
  | some e =>
      by_cases hk : k = key
      · subst hk
        rw [if_pos rfl, status_valid hv]
        simp [status, KeyStatus.delete]
      · simp [status, hk]

theorem status_expireKey (now : Int) (key : String) (p : Partition V) (k : String) :
    (p.expireKey now key).status k = if k = key then (p.status k).expire now else p.status k := by
  unfold expireKey
  cases hv : p.valid.get? key with
  | none =>
      by_cases hk : k = key
      · subst hk
        rw [if_pos rfl, status_of_not_valid hv]
        split <;> rfl
      · rw [if_neg hk]
  | some e =>
      dsimp only
      by_cases hk : k = key
      · subst hk
        rw [if_pos rfl, status_valid hv]
        by_cases hl : e.Lapsed now
        · rw [if_pos hl]
          simp [status, KeyStatus.expire, hl]
        · rw [if_neg hl, status_valid hv]
          simp only [KeyStatus.expire, if_neg hl]
      · rw [if_neg hk]
        split
        · simp [status, hk]
        · rfl

theorem status_expireKeys (now : Int) (keys : List String) (p : Partition V) (k : String) :
    (p.expireKeys now keys).status k
      = if k ∈ keys then (p.status k).expire now else p.status k := by
  induction keys generalizing p with
  | nil => simp [expireKeys]
  | cons key rest ih =>
      show ((p.expireKey now key).expireKeys now rest).status k = _
      rw [ih, status_expireKey]
      by_cases hk : k = key <;> by_cases hr : k ∈ rest <;>
        simp [hk, hr, KeyStatus.expire_expire]

theorem status_expireValid (now : Int) (p : Partition V) (k : String) :
    (p.expireValid now).status k = (p.status k).expire now := by
  rw [expireValid, status_expireKeys]
  split
  · rfl
  · next hk =>
      rw [status_of_not_valid ((Dict.not_mem_keys_iff _ _).1 hk)]
      split <;> rfl

/-- **One operation acts on each key by the key automaton.** -/
theorem status_apply (now : Int) (op : Op V) (p : Partition V) (k : String) :
    (p.apply now op).status k = (p.status k).step now k op := by
  cases op with
  | set key value exp flag => exact status_set now key value exp flag p k
  | delete key => exact status_delete now key p k
  | getValid key => exact status_expireKey now key p k
  | getDeleted key => exact status_expireKey now key p k
  | getFlag key => exact status_expireKey now key p k
  | validKeySet => exact status_expireValid now p k
  | deletedKeySet => exact status_expireValid now p k
  | expiredKeySet => exact status_expireValid now p k
  | expired key =>
      simp only [apply, expired, KeyStatus.step]
      by_cases h : key ∉ p.valid.keys ∧ key ∉ p.deleted.keys
      · -- the exception is raised before anything moves, and the key has nothing to expire
        rw [if_pos h]
        by_cases hk : k = key
        · subst hk
          rw [if_pos rfl, status_of_not_valid ((Dict.not_mem_keys_iff _ _).1 h.1), if_neg h.2]
          rfl
        · rw [if_neg hk]
      · rw [if_neg h]
        exact status_expireKey now key p k
  | len => exact status_expireValid now p k

theorem status_run (h : History V) (p : Partition V) (k : String) :
    (run h p).status k = (p.status k).run k h := by
  induction h generalizing p with
  | nil => rfl
  | cons e rest ih =>
      rw [run_cons, ih, status_apply]
      rfl

theorem status_merge (p q : Partition V) (k : String) :
    (p.merge q).status k = (p.status k).merge (q.status k) := by
  cases hq : q.valid.get? k with
  | some e =>
      rw [status_valid hq]
      exact status_valid (by simp [merge, hq])
  | none =>
      have hmem : k ∉ q.valid.keys := (Dict.not_mem_keys_iff _ _).2 hq
      have hm : (q.status k) = .deleted ∨ (q.status k) = .absent := by
        rw [status_of_not_valid hq]
        split <;> simp
      have hmerge : (p.status k).merge (q.status k) = p.status k := by
        rcases hm with hm | hm <;> rw [hm] <;> rfl
      rw [hmerge]
      simp [status, merge, hq, hmem]

end Partition

end TestInfra
