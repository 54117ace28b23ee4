import TestInfra.KVStore.Partition
import Mathlib.Data.Set.Card

set_option autoImplicit false

/-! # Lazy expiry refines eager expiry

The reference is a store in which nothing is ever overdue: before each operation every entry whose deadline has
passed moves to the deleted side. Each key is a cell of its own (`Cell`), and the store is the family of its
cells.

A partition may hold any backlog of overdue entries. `cell` reads the cells off its containers, and `Tracks` is
the simulation relation: from the last clock reading on, the cells are those of the reference once both are
swept. Set and delete overwrite a cell whether it is overdue or not, and a query only sweeps, so every operation
keeps the relation (`tracks_apply`) and every query answers as the reference does (`queries_eager`). -/

namespace TestInfra

/-! ## The reference store -/

/-- What the store holds for one key: a valid entry, and the last deleted value. -/
structure Cell (V : Type*) where
  entry : Option (Entry V)
  gone : Option V

namespace Cell

variable {V : Type*}

def empty : Cell V := ⟨none, none⟩

/-- An overdue entry moves to the deleted side. -/
def sweep (now : Int) (c : Cell V) : Cell V :=
  match c.entry with
  | some e => if e.Lapsed now then ⟨none, some e.value⟩ else c
  | none => c

/-- A set entry replaces what was there. -/
def set (e : Entry V) : Cell V := ⟨some e, none⟩

/-- A valid entry moves to the deleted side. -/
def delete (c : Cell V) : Cell V :=
  match c.entry with
  | some e => ⟨none, some e.value⟩
  | none => c

theorem sweep_of_none (now : Int) {c : Cell V} (h : c.entry = none) : c.sweep now = c := by
  simp only [sweep, h]

theorem sweep_of_lapsed {now : Int} {c : Cell V} {e : Entry V} (h : c.entry = some e) (hl : e.Lapsed now) :
    c.sweep now = ⟨none, some e.value⟩ := by
  simp only [sweep, h, if_pos hl]

theorem sweep_of_not_lapsed {now : Int} {c : Cell V} {e : Entry V} (h : c.entry = some e) (hl : ¬ e.Lapsed now) :
    c.sweep now = c := by
  simp only [sweep, h, if_neg hl]

end Cell

/-- An overdue entry stays overdue. -/
theorem Entry.Lapsed.mono {V : Type*} {e : Entry V} {now later : Int} (h : e.Lapsed now) (hle : now ≤ later) :
    e.Lapsed later := ⟨h.1, lt_of_lt_of_le h.2 hle⟩

namespace Cell

variable {V : Type*}

/-- The later of two sweeps is enough. -/
theorem sweep_sweep {now later : Int} (hle : now ≤ later) (c : Cell V) :
    (c.sweep now).sweep later = c.sweep later := by
  cases he : c.entry with
  | none => rw [sweep_of_none now he]
  | some e =>
      by_cases hl : e.Lapsed now
      · rw [sweep_of_lapsed he hl, sweep_of_lapsed he (hl.mono hle)]
        rfl
      · rw [sweep_of_not_lapsed he hl]

/-- Whether an entry is swept before it is deleted makes no difference. -/
theorem delete_sweep (now : Int) (c : Cell V) : (c.sweep now).delete = c.delete := by
  cases he : c.entry with
  | none => rw [sweep_of_none now he]
  | some e =>
      by_cases hl : e.Lapsed now
      · rw [sweep_of_lapsed he hl]
        simp only [delete, he]
      · rw [sweep_of_not_lapsed he hl]

/-- A deleted cell has nothing to sweep. -/
theorem sweep_delete (now : Int) (c : Cell V) : c.delete.sweep now = c.delete := by
  refine sweep_of_none now ?_
  cases he : c.entry with
  | none => simp only [delete, he]
  | some e => simp only [delete, he]

end Cell

/-- The reference store. -/
abbrev Eager (V : Type*) := String → Cell V

namespace Eager

variable {V : Type*}

/-- The store with nothing in it. -/
def empty : Eager V := fun _ => .empty

/-- Every overdue entry moves to the deleted side. -/
def sweep (now : Int) (s : Eager V) : Eager V := fun k => (s k).sweep now

/-- An operation, behind the sweep; a query does no more than that. -/
def apply (now : Int) (op : Partition.Op V) (s : Eager V) : Eager V :=
  match op with
  | .set key value exp flag =>
      Function.update (s.sweep now) key (.set ⟨value, if exp ≠ 0 then now + exp else exp, flag⟩)
  | .delete key => Function.update (s.sweep now) key (s.sweep now key).delete
  | _ => s.sweep now

def run (h : Partition.History V) (s : Eager V) : Eager V := h.foldl (fun s e => s.apply e.1 e.2) s

/-- The answers of the reference to queries at a time. -/
def getValid (now : Int) (key : String) (s : Eager V) : Option V := (s.sweep now key).entry.map Entry.value

def getFlag (now : Int) (key : String) (s : Eager V) : Option Int := (s.sweep now key).entry.map Entry.flag

def getDeleted (now : Int) (key : String) (s : Eager V) : Option V := (s.sweep now key).gone

def validKeys (now : Int) (s : Eager V) : Set String := {k | (s.sweep now k).entry.isSome}

def deletedKeys (now : Int) (s : Eager V) : Set String := {k | (s.sweep now k).gone.isSome}

/-- The number of valid keys. -/
noncomputable def len (now : Int) (s : Eager V) : ℕ := (s.validKeys now).ncard

end Eager

namespace Partition

variable {V : Type*}

/-- The clock does not run backwards, from `last` through the history to `now`. -/
def Clocked : Int → History V → Int → Prop
  | last, [], now => last ≤ now
  | last, (t, _) :: h, now => last ≤ t ∧ Clocked t h now

theorem Clocked.le {last now : Int} {h : History V} (hc : Clocked last h now) : last ≤ now := by
  induction h generalizing last with
  | nil => exact hc
  | cons e h ih => exact le_trans hc.1 (ih hc.2)

/-! ## The cells of a partition -/

/-- The cell of a key, read off the containers. -/
def cell (p : Partition V) (k : String) : Cell V := ⟨p.valid.get? k, p.deleted.get? k⟩

theorem cell_new (i : Nat) (k : String) : (new i : Partition V).cell k = .empty := by
  simp [cell, new, Cell.empty]

theorem cell_set (now : Int) (key : String) (value : V) (exp flag : Int) (p : Partition V) (k : String) :
    (p.set now key value exp flag).cell k
      = if k = key then .set ⟨value, if exp ≠ 0 then now + exp else exp, flag⟩ else p.cell k := by
  by_cases hk : k = key
  · simp [cell, set, Cell.set, hk]
  · simp [cell, set, hk]

theorem cell_delete (now : Int) (key : String) (p : Partition V) (k : String) :
    (p.delete now key).cell k = if k = key then (p.cell k).delete else p.cell k := by
  unfold delete
  cases hv : p.valid.get? key with
  | none =>
      by_cases hk : k = key
      · subst hk
        simp [cell, Cell.delete, hv]
      · rw [if_neg hk]
  | some e =>
      by_cases hk : k = key
      · subst hk
        simp [cell, Cell.delete, hv]
      · simp [cell, hk]

theorem cell_expireKey (now : Int) (key : String) (p : Partition V) (k : String) :
    (p.expireKey now key).cell k = if k = key then (p.cell k).sweep now else p.cell k := by
  unfold expireKey
  cases hv : p.valid.get? key with
  | none =>
      by_cases hk : k = key
      · subst hk
        rw [if_pos rfl, Cell.sweep_of_none now (show (p.cell k).entry = none from hv)]
      · rw [if_neg hk]
  | some e =>
      by_cases hk : k = key
      · subst hk
        have hentry : (p.cell k).entry = some e := hv
        by_cases hl : e.Lapsed now
        · rw [Cell.sweep_of_lapsed hentry hl]
          simp [cell, hl]
        · rw [Cell.sweep_of_not_lapsed hentry hl]
          simp [hl]
      · dsimp only
        split <;> simp [cell, hk]

theorem cell_expireKeys (now : Int) (keys : List String) (p : Partition V) (k : String) :
    (p.expireKeys now keys).cell k = if k ∈ keys then (p.cell k).sweep now else p.cell k := by
  induction keys generalizing p with
  | nil => simp [expireKeys]
  | cons key rest ih =>
      show ((p.expireKey now key).expireKeys now rest).cell k = _
      rw [ih, cell_expireKey]
      by_cases hk : k = key <;> by_cases hr : k ∈ rest <;>
        simp [hk, hr, Cell.sweep_sweep (Int.le_refl now)]

theorem cell_expireValid (now : Int) (p : Partition V) (k : String) :
    (p.expireValid now).cell k = (p.cell k).sweep now := by
  rw [expireValid, cell_expireKeys]
  split
  · rfl
  · next hk =>
      rw [Cell.sweep_of_none now (show (p.cell k).entry = none from (Dict.not_mem_keys_iff _ _).1 hk)]

/-! ## The simulation -/

/-- From `last` on, the cells of the partition and of the reference sweep to the same. -/
def Tracks (last : Int) (p : Partition V) (s : Eager V) : Prop :=
  ∀ now, last ≤ now → ∀ k, (p.cell k).sweep now = (s k).sweep now

theorem tracks_new (last : Int) (i : Nat) : Tracks last (new i : Partition V) .empty := by
  intro now _ k
  rw [cell_new]
  rfl

/-- A cell that is not touched is only swept on the side of the reference. -/
theorem Tracks.untouched {last now later : Int} {p : Partition V} {s : Eager V} (h : Tracks last p s)
    (hle : last ≤ now) (hlater : now ≤ later) (k : String) : (p.cell k).sweep later = (s.sweep now k).sweep later := by
  rw [Eager.sweep, Cell.sweep_sweep hlater]
  exact h later (le_trans hle hlater) k

/-- A query sweeps the cells it looks at. -/
theorem Tracks.expireKeys {last now : Int} {p : Partition V} {s : Eager V} (h : Tracks last p s) (hle : last ≤ now)
    (keys : List String) : Tracks now (p.expireKeys now keys) (s.sweep now) := by
  intro later hlater k
  rw [cell_expireKeys]
  split
  · rw [Cell.sweep_sweep hlater]
    exact h.untouched hle hlater k
  · exact h.untouched hle hlater k

/-- **Every operation keeps the relation**, whatever backlog of overdue entries the partition has. -/
theorem tracks_apply {last now : Int} {p : Partition V} {s : Eager V} (h : Tracks last p s) (hle : last ≤ now)
    (op : Op V) : Tracks now (p.apply now op) (s.apply now op) := by
  cases op with
  | set key value exp flag =>
      intro later hlater k
      show ((p.set now key value exp flag).cell k).sweep later = _
      rw [cell_set, Eager.apply, Function.update_apply]
      split
      · rfl
      · exact h.untouched hle hlater k
  | delete key =>
      intro later hlater k
      show ((p.delete now key).cell k).sweep later = _
      rw [cell_delete, Eager.apply, Function.update_apply]
      split
      · next hk =>
          subst hk
          -- swept before or not, the value goes to the deleted side
          rw [Eager.sweep, Cell.delete_sweep, Cell.sweep_delete, Cell.sweep_delete,
            ← Cell.delete_sweep now (p.cell k), h now hle k, Cell.delete_sweep]
      · exact h.untouched hle hlater k
  | getValid key => exact h.expireKeys hle [key]
  | getDeleted key => exact h.expireKeys hle [key]
  | getFlag key => exact h.expireKeys hle [key]
  | validKeySet => exact h.expireKeys hle p.valid.keys
  | deletedKeySet => exact h.expireKeys hle p.valid.keys
  | expiredKeySet => exact h.expireKeys hle p.valid.keys
  | expired key =>
      show Tracks now (p.expired now key).2 (s.sweep now)
      rw [expired]
      split
      · exact h.expireKeys hle []
      · exact h.expireKeys hle [key]
  | len => exact h.expireKeys hle p.valid.keys

theorem tracks_run {start now : Int} {h : History V} (hc : Clocked start h now) {p : Partition V} {s : Eager V}
    (ht : Tracks start p s) : Tracks now (run h p) (s.run h) := by
  induction h generalizing start p s with
  | nil => exact fun later hlater => ht later (le_trans hc hlater)
  | cons e h ih => exact ih hc.2 (tracks_apply ht hc.1 e.2)

/-! ## The answers -/

theorem mem_keys_iff_cell (p : Partition V) (k : String) : k ∈ p.valid.keys ↔ (p.cell k).entry.isSome :=
  Dict.mem_keys_iff _ _

theorem mem_deleted_iff_cell (p : Partition V) (k : String) : k ∈ p.deleted.keys ↔ (p.cell k).gone.isSome :=
  Dict.mem_keys_iff _ _

/-- The answers of a partition to queries at a time are those of the reference; the key sets as sets. -/
structure AnswersAs (now : Int) (p : Partition V) (s : Eager V) : Prop where
  getValid : ∀ k, (p.getValid now k).1 = s.getValid now k
  getFlag : ∀ k, (p.getFlag now k).1 = s.getFlag now k
  getDeleted : ∀ k, (p.getDeleted now k).1 = s.getDeleted now k
  validKeySet : ∀ k, k ∈ (p.validKeySet now).1 ↔ k ∈ s.validKeys now
  deletedKeySet : ∀ k, k ∈ (p.deletedKeySet now).1 ↔ k ∈ s.deletedKeys now
  len : (p.len now).1 = s.len now

theorem answersAs_of_tracks {last now : Int} {p : Partition V} {s : Eager V} (h : Tracks last p s)
    (hle : last ≤ now) : AnswersAs now p s := by
  have hone : ∀ k, (p.expireKey now k).cell k = s.sweep now k := by
    intro k
    rw [cell_expireKey, if_pos rfl]
    exact h now hle k
  have hall : ∀ k, (p.expireValid now).cell k = s.sweep now k := by
    intro k
    rw [cell_expireValid]
    exact h now hle k
  have hkeys : ∀ k, k ∈ (p.expireValid now).valid.keys ↔ k ∈ s.validKeys now := by
    intro k
    rw [mem_keys_iff_cell, hall]
    rfl
  refine ⟨?_, ?_, ?_, hkeys, ?_, ?_⟩
  · intro k
    show ((p.expireKey now k).cell k).entry.map Entry.value = _
    rw [hone]
    rfl
  · intro k
    show ((p.expireKey now k).cell k).entry.map Entry.flag = _
    rw [hone]
    rfl
  · intro k
    show ((p.expireKey now k).cell k).gone = _
    rw [hone]
    rfl
  · intro k
    show k ∈ (p.expireValid now).deleted.keys ↔ _
    rw [mem_deleted_iff_cell, hall]
    rfl
  · show (p.expireValid now).valid.keys.length = _
    have hset : s.validKeys now = ↑((p.expireValid now).valid.keys.toFinset) := by
      ext k
      rw [List.coe_toFinset]
      exact (hkeys k).symm
    rw [Eager.len, hset, Set.ncard_coe_finset, List.toFinset_card_of_nodup (Dict.nodup_keys _)]

/-- **Lazy expiry refines eager expiry**: after any history under a clock that does not run backwards, every query
    of a partition answers what the reference does, which moves every overdue entry before each operation. -/
theorem queries_eager (i : Nat) (start now : Int) (h : History V) (hc : Clocked start h now) :
    AnswersAs now (run h (new i)) (Eager.run h .empty) :=
  answersAs_of_tracks (tracks_run hc (tracks_new start i)) (Int.le_refl now)

/-- A backlog: a key that is overdue when it is deleted, and one that is overdue when it is set again. -/
theorem queries_eager_backlog :
    AnswersAs 20 (run [(1, .set "a" 1 5 0), (1, .set "b" 2 5 0), (9, .delete "a"), (9, .set "b" 3 0 0)]
        (new 0 : Partition Nat))
      (Eager.run [(1, .set "a" 1 5 0), (1, .set "b" 2 5 0), (9, .delete "a"), (9, .set "b" 3 0 0)] .empty) :=
  queries_eager 0 0 20 _ (by simp [Clocked])

end Partition

end TestInfra
