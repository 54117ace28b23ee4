import TestInfra.KVStore.Eager

set_option autoImplicit false

/-! # Which keys count as expired

A query notes an overdue key as expired, `set` takes the note back, and `delete` moves a key to the deleted side
without looking at its deadline. So a query in front of a delete may change what counts as expired.

`Standing` says where a key stands, with the note, and each operation acts on each key by `Standing.step`.
`Behind` compares a run with the same run with queries put in: they differ only in overdue keys that the queries
have noted. Only a delete of such a key lets the difference stay (`expired_unaffected_iff`). -/

namespace TestInfra

/-- Every operation other than `set` and `delete`. -/
def Partition.Op.IsQuery {V : Type*} : Partition.Op V → Prop
  | .set .. => False
  | .delete _ => False
  | _ => True

/-- Where one key stands; `expired` is a deleted key that is noted as expired. -/
inductive Standing (V : Type*) where
  | absent
  | valid (e : Entry V)
  | deleted
  | expired

namespace Standing

variable {V : Type*}

/-- A look at the key: an overdue entry expires. -/
def look (now : Int) : Standing V → Standing V
  | .valid e => if e.Lapsed now then .expired else .valid e
  | s => s

def delete : Standing V → Standing V
  | .valid _ => .deleted
  | s => s

/-- What an operation does to key `k`. -/
def step (now : Int) (k : String) : Partition.Op V → Standing V → Standing V
  | .set key value exp flag, s =>
      if k = key then .valid ⟨value, if exp ≠ 0 then now + exp else exp, flag⟩ else s
  | .delete key, s => if k = key then s.delete else s
  | .getValid key, s | .getDeleted key, s | .getFlag key, s | .expired key, s =>
      if k = key then s.look now else s
  | .validKeySet, s | .deletedKeySet, s | .expiredKeySet, s | .len, s => s.look now

theorem look_of_lapsed {now : Int} {e : Entry V} (h : e.Lapsed now) : look now (.valid e) = .expired := by
  rw [look, if_pos h]

theorem look_of_not_lapsed {now : Int} {e : Entry V} (h : ¬ e.Lapsed now) : look now (.valid e) = .valid e := by
  rw [look, if_neg h]

theorem look_look (now : Int) (s : Standing V) : (s.look now).look now = s.look now := by
  cases s with
  | valid e => by_cases h : e.Lapsed now <;> simp [look, h]
  | absent => rfl
  | deleted => rfl
  | expired => rfl

theorem look_eq_absent_iff (now : Int) (s : Standing V) : s.look now = .absent ↔ s = .absent := by
  cases s with
  | valid e => by_cases h : e.Lapsed now <;> simp [look, h]
  | absent => simp [look]
  | deleted => simp [look]
  | expired => simp [look]

/-! ## A run, and the run with queries -/

/-- The second standing is the first one, or an overdue entry has been noted in it. -/
def Behind (now : Int) (s t : Standing V) : Prop := t = s ∨ ∃ e, s = .valid e ∧ e.Lapsed now ∧ t = .expired

/-- As `Behind`, or an overdue entry was noted in the second before it was deleted in both. -/
def MayBehind (now : Int) (s t : Standing V) : Prop := Behind now s t ∨ (s = .deleted ∧ t = .expired)

/-- No set of key `k`. -/
def NoSet (k : String) (op : Partition.Op V) : Prop := ∀ value exp flag, op ≠ .set k value exp flag

theorem Behind.mono {now later : Int} {s t : Standing V} (h : Behind now s t) (hle : now ≤ later) :
    Behind later s t :=
  h.imp_right fun ⟨e, hs, hl, ht⟩ => ⟨e, hs, hl.mono hle, ht⟩

theorem Behind.look {now : Int} {s t : Standing V} (h : Behind now s t) : Behind now s (t.look now) := by
  rcases h with rfl | ⟨e, rfl, hl, rfl⟩
  · cases t with
    | valid e =>
        by_cases hl : e.Lapsed now
        · exact .inr ⟨e, rfl, hl, look_of_lapsed hl⟩
        · exact .inl (look_of_not_lapsed hl)
    | absent => exact .inl rfl
    | deleted => exact .inl rfl
    | expired => exact .inl rfl
  · exact .inr ⟨e, rfl, hl, rfl⟩

/-- A look at both makes them the same. -/
theorem Behind.look_eq {now : Int} {s t : Standing V} (h : Behind now s t) : t.look now = s.look now := by
  rcases h with rfl | ⟨e, rfl, hl, rfl⟩
  · rfl
  · rw [look_of_lapsed hl]
    rfl

/-- What an operation can do to a key: set it, delete it, look at it, or leave it alone. -/
theorem step_cases (now : Int) (k : String) (op : Partition.Op V) :
    (∃ value exp flag, op = .set k value exp flag ∧
      ∀ s : Standing V, s.step now k op = .valid ⟨value, if exp ≠ 0 then now + exp else exp, flag⟩) ∨
    (op = .delete k ∧ ∀ s : Standing V, s.step now k op = s.delete) ∨
    (∀ s : Standing V, s.step now k op = s.look now) ∨ ∀ s : Standing V, s.step now k op = s := by
  have hlook : ∀ key, (∀ s : Standing V, (if k = key then s.look now else s) = s.look now) ∨
      ∀ s : Standing V, (if k = key then s.look now else s) = s := by
    intro key
    by_cases hk : k = key
    · exact .inl fun s => if_pos hk
    · exact .inr fun s => if_neg hk
  cases op with
  | set key value exp flag =>
      by_cases hk : k = key
      · subst hk
        exact .inl ⟨value, exp, flag, rfl, fun s => if_pos rfl⟩
      · exact .inr (.inr (.inr fun s => if_neg hk))
  | delete key =>
      by_cases hk : k = key
      · subst hk
        exact .inr (.inl ⟨rfl, fun s => if_pos rfl⟩)
      · exact .inr (.inr (.inr fun s => if_neg hk))
  | getValid key => exact .inr (.inr (hlook key))
  | getDeleted key => exact .inr (.inr (hlook key))
  | getFlag key => exact .inr (.inr (hlook key))
  | expired key => exact .inr (.inr (hlook key))
  | validKeySet => exact .inr (.inr (.inl fun _ => rfl))
  | deletedKeySet => exact .inr (.inr (.inl fun _ => rfl))
  | expiredKeySet => exact .inr (.inr (.inl fun _ => rfl))
  | len => exact .inr (.inr (.inl fun _ => rfl))

/-- An operation that is done in both runs, and does not delete an overdue key. -/
theorem Behind.step {now : Int} {s t : Standing V} (h : Behind now s t) {k : String} {op : Partition.Op V}
    (hop : op = .delete k → ∀ e, s = .valid e → ¬ e.Lapsed now) :
    Behind now (s.step now k op) (t.step now k op) := by
  rcases step_cases now k op with ⟨_, _, _, -, hstep⟩ | ⟨hdelete, hstep⟩ | hstep | hstep <;> rw [hstep, hstep]
  · exact .inl rfl
  · rcases h with rfl | ⟨e, hs, hl, -⟩
    · exact .inl rfl
    · exact absurd hl (hop hdelete e hs)
  · exact .inl h.look_eq
  · exact h

theorem MayBehind.step {now : Int} {s t : Standing V} (h : MayBehind now s t) (k : String) (op : Partition.Op V) :
    MayBehind now (s.step now k op) (t.step now k op) := by
  rcases step_cases now k op with ⟨_, _, _, -, hstep⟩ | ⟨-, hstep⟩ | hstep | hstep <;> rw [hstep, hstep]
  · exact .inl (.inl rfl)
  · rcases h with (rfl | ⟨e, rfl, -, rfl⟩) | ⟨rfl, rfl⟩
    · exact .inl (.inl rfl)
    · exact .inr ⟨rfl, rfl⟩
    · exact .inr ⟨rfl, rfl⟩
  · rcases h with h | ⟨rfl, rfl⟩
    · exact .inl (.inl h.look_eq)
    · exact .inr ⟨rfl, rfl⟩
  · exact h

/-- A query that is put in acts on the second run alone. -/
theorem step_query (now : Int) (k : String) {q : Partition.Op V} (hq : q.IsQuery) (s : Standing V) :
    s.step now k q = s.look now ∨ s.step now k q = s := by
  rcases step_cases now k q with ⟨_, _, _, rfl, -⟩ | ⟨rfl, -⟩ | hstep | hstep
  · exact hq.elim
  · exact hq.elim
  · exact .inl (hstep s)
  · exact .inr (hstep s)

/-- Only a set takes a key out of the deleted ones. -/
theorem step_of_noSet (now : Int) {k : String} {op : Partition.Op V} (h : NoSet k op) :
    (deleted : Standing V).step now k op = .deleted ∧ (expired : Standing V).step now k op = .expired := by
  rcases step_cases now k op with ⟨value, exp, flag, rfl, -⟩ | ⟨-, hstep⟩ | hstep | hstep
  · exact absurd rfl (h value exp flag)
  · exact ⟨hstep _, hstep _⟩
  · exact ⟨hstep _, hstep _⟩
  · exact ⟨hstep _, hstep _⟩

end Standing

namespace Partition

variable {V : Type*}

/-! ## The standing of a key -/

/-- Read off the containers. -/
def standing (p : Partition V) (k : String) : Standing V :=
  match p.valid.get? k with
  | some e => .valid e
  | none => if k ∈ p.expiredKeys then .expired else if k ∈ p.deleted.keys then .deleted else .absent

theorem standing_valid {p : Partition V} {k : String} {e : Entry V} (h : p.valid.get? k = some e) :
    p.standing k = .valid e := by
  simp only [standing, h]

theorem standing_of_not_valid {p : Partition V} {k : String} (h : p.valid.get? k = none) :
    p.standing k = if k ∈ p.expiredKeys then .expired else if k ∈ p.deleted.keys then .deleted else .absent := by
  simp only [standing, h]

/-- A key whose four containers agree stands where it stood. -/
theorem standing_congr {p q : Partition V} {k : String} (hv : q.valid.get? k = p.valid.get? k)
    (hd : k ∈ q.deleted.keys ↔ k ∈ p.deleted.keys) (he : k ∈ q.expiredKeys ↔ k ∈ p.expiredKeys) :
    q.standing k = p.standing k := by
  simp only [standing, hv, hd, he]

theorem Inv.not_expired_of_valid {p : Partition V} (h : p.Inv) {k : String} {e : Entry V}
    (hv : p.valid.get? k = some e) : k ∉ p.expiredKeys := by
  intro hk
  have hmem : k ∈ p.valid.keys := Dict.mem_keys_of_get? hv
  exact (h.expired_deleted k hk).2 hmem

theorem standing_eq_valid_iff (p : Partition V) (k : String) (e : Entry V) :
    p.standing k = .valid e ↔ p.valid.get? k = some e := by
  refine ⟨?_, standing_valid⟩
  intro h
  cases hv : p.valid.get? k with
  | some e' =>
      rw [standing_valid hv] at h
      cases h
      rfl
  | none =>
      rw [standing_of_not_valid hv] at h
      split at h
      · cases h
      · split at h <;> cases h

theorem standing_eq_expired_iff {p : Partition V} (hp : p.Inv) (k : String) :
    p.standing k = .expired ↔ k ∈ p.expiredKeys := by
  cases hv : p.valid.get? k with
  | some e =>
      rw [standing_valid hv]
      exact ⟨fun h => (by cases h), fun h => absurd h (hp.not_expired_of_valid hv)⟩
  | none =>
      rw [standing_of_not_valid hv]
      split
      · next h => exact ⟨fun _ => h, fun _ => rfl⟩
      · next h =>
          refine ⟨?_, fun hs => absurd hs h⟩
          intro hs
          split at hs <;> cases hs

theorem standing_eq_absent_iff {p : Partition V} (hp : p.Inv) (k : String) :
    p.standing k = .absent ↔ k ∉ p.valid.keys ∧ k ∉ p.deleted.keys := by
  cases hv : p.valid.get? k with
  | some e =>
      have hmem : k ∈ p.valid.keys := Dict.mem_keys_of_get? hv
      rw [standing_valid hv]
      exact ⟨fun h => (by cases h), fun h => absurd hmem h.1⟩
  | none =>
      have hmem : k ∉ p.valid.keys := (Dict.not_mem_keys_iff _ _).2 hv
      rw [standing_of_not_valid hv]
      split
      · next h => exact ⟨fun hs => (by cases hs), fun hs => absurd (hp.expired_deleted k h).1 hs.2⟩
      · split
        · next h => exact ⟨fun hs => (by cases hs), fun hs => absurd h hs.2⟩
        · next h => exact ⟨fun _ => ⟨hmem, h⟩, fun _ => rfl⟩

@[simp] theorem standing_new (i : Nat) (k : String) : (new i : Partition V).standing k = .absent := by
  simp [standing, new]

/-! ## The operations, key by key -/

theorem standing_set {p : Partition V} (hp : p.Inv) (now : Int) (key : String) (value : V) (exp flag : Int)
    (k : String) :
    (p.set now key value exp flag).standing k
      = if k = key then .valid ⟨value, if exp ≠ 0 then now + exp else exp, flag⟩ else p.standing k := by
  by_cases hk : k = key
  · rw [if_pos hk]
    exact standing_valid (by simp [set, hk])
  · rw [if_neg hk]
    refine standing_congr (by simp [set, hk]) (by simp [set, hk]) ?_
    simp only [set]
    rw [hp.expired_nodup.mem_erase_iff]
    exact ⟨fun h => h.2, fun h => ⟨hk, h⟩⟩

theorem standing_delete {p : Partition V} (hp : p.Inv) (now : Int) (key : String) (k : String) :
    (p.delete now key).standing k = if k = key then (p.standing k).delete else p.standing k := by
  unfold delete
  cases hv : p.valid.get? key with
  | none =>
      by_cases hk : k = key
      · subst hk
        rw [if_pos rfl, standing_of_not_valid hv]
        split
        · rfl
        · split <;> rfl
      · rw [if_neg hk]
  | some e =>
      by_cases hk : k = key
      · subst hk
        rw [if_pos rfl, standing_valid hv]
        simp [standing, Standing.delete, hp.not_expired_of_valid hv]
      · rw [if_neg hk]
        exact standing_congr (by simp [hk]) (by simp [hk]) Iff.rfl

theorem standing_expireKey (now : Int) (key : String) (p : Partition V) (k : String) :
    (p.expireKey now key).standing k = if k = key then (p.standing k).look now else p.standing k := by
  unfold expireKey
  cases hv : p.valid.get? key with
  | none =>
      by_cases hk : k = key
      · subst hk
        rw [if_pos rfl, standing_of_not_valid hv]
        split
        · rfl
        · split <;> rfl
      · rw [if_neg hk]
  | some e =>
      dsimp only
      by_cases hk : k = key
      · subst hk
        rw [if_pos rfl, standing_valid hv]
        by_cases hl : e.Lapsed now
        · rw [if_pos hl, Standing.look_of_lapsed hl]
          simp [standing]
        · rw [if_neg hl, Standing.look_of_not_lapsed hl, standing_valid hv]
      · rw [if_neg hk]
        split
        · exact standing_congr (by simp [hk]) (by simp [hk]) (by simp [hk])
        · rfl

theorem standing_expireKeys (now : Int) (keys : List String) (p : Partition V) (k : String) :
    (p.expireKeys now keys).standing k = if k ∈ keys then (p.standing k).look now else p.standing k := by
  induction keys generalizing p with
  | nil => simp [expireKeys]
  | cons key rest ih =>
      show ((p.expireKey now key).expireKeys now rest).standing k = _
      rw [ih, standing_expireKey]
      by_cases hk : k = key <;> by_cases hr : k ∈ rest <;>
        simp [hk, hr, Standing.look_look]

theorem standing_expireValid (now : Int) (p : Partition V) (k : String) :
    (p.expireValid now).standing k = (p.standing k).look now := by
  rw [expireValid, standing_expireKeys]
  split
  · rfl
  · next hk =>
      rw [standing_of_not_valid ((Dict.not_mem_keys_iff _ _).1 hk)]
      split
      · rfl
      · split <;> rfl

/-- **One operation acts on each key by the automaton.** -/
theorem standing_apply {p : Partition V} (hp : p.Inv) (now : Int) (op : Op V) (k : String) :
    (p.apply now op).standing k = (p.standing k).step now k op := by
  cases op with
  | set key value exp flag => exact standing_set hp now key value exp flag k
  | delete key => exact standing_delete hp now key k
  | getValid key => exact standing_expireKey now key p k
  | getDeleted key => exact standing_expireKey now key p k
  | getFlag key => exact standing_expireKey now key p k
  | validKeySet => exact standing_expireValid now p k
  | deletedKeySet => exact standing_expireValid now p k
  | expiredKeySet => exact standing_expireValid now p k
  | expired key =>
      simp only [apply, expired, Standing.step]
      by_cases h : key ∉ p.valid.keys ∧ key ∉ p.deleted.keys
      · rw [if_pos h]
        split
        · next hk =>
            rw [hk, (standing_eq_absent_iff hp key).2 h]
            rfl
        · rfl
      · rw [if_neg h]
        exact standing_expireKey now key p k
  | len => exact standing_expireValid now p k

/-! ## The answers about expired keys -/

/-- What `expired(key)` answers, by where the key stands after the look. -/
theorem expired_eq {p : Partition V} (hp : p.Inv) (now : Int) (k : String) :
    (p.expired now k).1 =
      match (p.standing k).look now with
      | .absent => none
      | .expired => some true
      | _ => some false := by
  have hafter : (p.expireKey now k).standing k = (p.standing k).look now := by
    rw [standing_expireKey, if_pos rfl]
  have hexpired := standing_eq_expired_iff (hp.expireKey now k) k
  rw [hafter] at hexpired
  rw [expired]
  split
  · next h => rw [(standing_eq_absent_iff hp k).2 h]; rfl
  · next h =>
      have hknown := mt (standing_eq_absent_iff hp k).1 h
      by_cases hmem : k ∈ (p.expireKey now k).expiredKeys
      · rw [hexpired.2 hmem]
        simp [hmem]
      · simp only [hmem, decide_false]
        cases hs : (p.standing k).look now with
        | absent => exact absurd ((Standing.look_eq_absent_iff now _).1 hs) hknown
        | deleted => rfl
        | expired => exact absurd (hexpired.1 hs) hmem
        | valid e => rfl

theorem mem_expiredKeySet_iff {p : Partition V} (hp : p.Inv) (now : Int) (k : String) :
    k ∈ (p.expiredKeySet now).1 ↔ (p.standing k).look now = .expired := by
  rw [← standing_expireValid]
  exact (standing_eq_expired_iff (hp.expireKeys now p.valid.keys) k).symm

/-- The same keys count as expired: every `expired(key)` answers the same, and the sets are the same. -/
def SameExpired (now : Int) (p q : Partition V) : Prop :=
  (∀ k, (p.expired now k).1 = (q.expired now k).1) ∧
    ∀ k, k ∈ (p.expiredKeySet now).1 ↔ k ∈ (q.expiredKeySet now).1

/-! ## Histories with queries put in -/

/-- The second history is the first one with queries put in. -/
inductive WithQueries : History V → History V → Prop where
  | nil : WithQueries [] []
  | keep (e : Int × Op V) {h h' : History V} : WithQueries h h' → WithQueries (e :: h) (e :: h')
  | query (now : Int) {q : Op V} {h h' : History V} :
      q.IsQuery → WithQueries h h' → WithQueries h ((now, q) :: h')

theorem WithQueries.refl (h : History V) : WithQueries h h := by
  induction h with
  | nil => exact .nil
  | cons e h ih => exact .keep e ih

/-- One query put in. -/
theorem WithQueries.insert (h₁ h₂ : History V) (now : Int) {q : Op V} (hq : q.IsQuery) :
    WithQueries (h₁ ++ h₂) (h₁ ++ (now, q) :: h₂) := by
  induction h₁ with
  | nil => exact .query now hq (.refl h₂)
  | cons e h₁ ih => exact .keep e ih

/-- Put into no operations, there are only queries. -/
theorem WithQueries.of_nil {g : History V} (hw : WithQueries [] g) : ∀ x ∈ g, x.2.IsQuery := by
  generalize hnil : ([] : History V) = l at hw
  induction hw with
  | nil => exact fun x hx => absurd hx List.not_mem_nil
  | keep e _ _ => cases hnil
  | query now hq _ ih => exact List.forall_mem_cons.2 ⟨hq, ih hnil⟩

/-- The last operation of the history, and the queries put in behind it. -/
theorem WithQueries.snoc_inv {h g : History V} {e : Int × Op V} (hw : WithQueries (h ++ [e]) g) :
    ∃ g₁ qs, g = g₁ ++ e :: qs ∧ WithQueries h g₁ ∧ ∀ x ∈ qs, x.2.IsQuery := by
  generalize hl : h ++ [e] = l at hw
  induction hw generalizing h with
  | nil => exact absurd hl (by simp)
  | @keep e' l' g' hrest ih =>
      rcases h with _ | ⟨a, h⟩
      · rw [List.nil_append, List.cons.injEq] at hl
        obtain ⟨rfl, rfl⟩ := hl
        exact ⟨[], g', rfl, .nil, hrest.of_nil⟩
      · rw [List.cons_append, List.cons.injEq] at hl
        obtain ⟨rfl, hl⟩ := hl
        obtain ⟨g₁, qs, rfl, hw₁, hqs⟩ := ih hl
        exact ⟨a :: g₁, qs, rfl, .keep a hw₁, hqs⟩
  | query now hq _ ih =>
      obtain ⟨g₁, qs, rfl, hw₁, hqs⟩ := ih hl
      exact ⟨(now, _) :: g₁, qs, rfl, .query now hq hw₁, hqs⟩

/-! ## Runs -/

theorem run_append (h g : History V) (p : Partition V) : run (h ++ g) p = run g (run h p) :=
  List.foldl_append

theorem Clocked.append {start now t : Int} {op : Op V} {h g : History V} :
    Clocked start (h ++ (t, op) :: g) now ↔ Clocked start h t ∧ Clocked t g now := by
  induction h generalizing start with
  | nil => exact Iff.rfl
  | cons e h ih =>
      rw [List.cons_append, Clocked, Clocked, ih, and_assoc]

/-- Queries put in behind the last operation leave the second run behind as before. -/
theorem behind_queries {start now : Int} {qs : History V} (hqs : ∀ x ∈ qs, x.2.IsQuery) (hc : Clocked start qs now)
    {q : Partition V} (hq : q.Inv) {k : String} {s : Standing V} :
    (Standing.Behind start s (q.standing k) → Standing.Behind now s ((run qs q).standing k)) ∧
      (Standing.MayBehind start s (q.standing k) → Standing.MayBehind now s ((run qs q).standing k)) := by
  induction qs generalizing start q with
  | nil => exact ⟨fun h => h.mono hc, fun h => h.imp_left fun h => h.mono hc⟩
  | cons e qs ih =>
      obtain ⟨hquery, hqs⟩ := List.forall_mem_cons.1 hqs
      obtain ⟨hkeep, hmay⟩ := ih hqs hc.2 (hq.apply e.1 e.2)
      rw [standing_apply hq] at hkeep hmay
      have hstep := Standing.step_query e.1 k hquery (q.standing k)
      refine ⟨fun h => hkeep ?_, fun h => hmay ?_⟩
      · rcases hstep with hstep | hstep
        · rw [hstep]
          exact (h.mono hc.1).look
        · rw [hstep]
          exact h.mono hc.1
      · rcases h with h | ⟨hs, ht⟩
        · rcases hstep with hstep | hstep
          · rw [hstep]
            exact .inl (h.mono hc.1).look
          · rw [hstep]
            exact .inl (h.mono hc.1)
        · refine .inr ⟨hs, ?_⟩
          rw [ht] at hstep ⊢
          rcases hstep with hstep | hstep
          · exact hstep
          · exact hstep

/-- A delete of the key finds it overdue, and the key is not set again. -/
def DeletedOverdue (i : Nat) (h : History V) (k : String) : Prop :=
  ∃ h₁ t h₂ e, h = h₁ ++ (t, .delete k) :: h₂ ∧ (run h₁ (new i)).valid.get? k = some e ∧ e.Lapsed t ∧
    ∀ x ∈ h₂, Standing.NoSet k x.2

/-- One more operation that does not set the key keeps the condition. -/
theorem DeletedOverdue.snoc {i : Nat} {h : History V} {k : String} (hd : DeletedOverdue i h k) (t : Int)
    {op : Op V} (hop : Standing.NoSet k op) : DeletedOverdue i (h ++ [(t, op)]) k := by
  obtain ⟨h₁, t₁, h₂, e, rfl, hv, hl, hno⟩ := hd
  refine ⟨h₁, t₁, h₂ ++ [(t, op)], e, by simp, hv, hl, ?_⟩
  rw [List.forall_mem_append]
  exact ⟨hno, by simpa using hop⟩

/-- **The two runs, key by key**: the run with queries is behind the other one, except for keys that were deleted
    overdue. -/
theorem standing_behind {i : Nat} {start now : Int} {h g : History V} (hw : WithQueries h g)
    (hc : Clocked start g now) (k : String) :
    Standing.MayBehind now ((run h (new i)).standing k) ((run g (new i)).standing k) ∧
      (¬ DeletedOverdue i h k →
        Standing.Behind now ((run h (new i)).standing k) ((run g (new i)).standing k)) := by
  induction h using List.reverseRecOn generalizing g now with
  | nil =>
      have hb := (behind_queries hw.of_nil hc (inv_new i) (k := k) (s := .absent)).1 (.inl (standing_new i k))
      rw [run_nil, standing_new]
      exact ⟨.inl hb, fun _ => hb⟩
  | append_singleton h e ih =>
      obtain ⟨t, op⟩ := e
      obtain ⟨g₁, qs, rfl, hw₁, hqs⟩ := hw.snoc_inv
      obtain ⟨hc₁, hcqs⟩ := Clocked.append.1 hc
      obtain ⟨hmay, hbehind⟩ := ih hw₁ hc₁
      have hp : (run h (new i : Partition V)).Inv := (inv_new i).run h
      have hq : (run g₁ (new i : Partition V)).Inv := (inv_new i).run g₁
      have hlast : (run (h ++ [(t, op)]) (new i : Partition V)).standing k =
          ((run h (new i)).standing k).step t k op := by
        rw [run_append, run_cons, run_nil, standing_apply hp]
      obtain ⟨hkeep, hkeepMay⟩ := behind_queries hqs hcqs (hq.apply t op) (k := k)
        (s := ((run h (new i)).standing k).step t k op)
      rw [standing_apply hq] at hkeep hkeepMay
      rw [hlast, run_append, run_cons]
      refine ⟨hkeepMay (hmay.step k op), fun hno => hkeep ?_⟩
      by_cases hset : Standing.NoSet k op
      · -- an earlier overdue delete would still count
        refine (hbehind fun hd => hno (hd.snoc t hset)).step ?_
        rintro rfl e he hl
        exact hno ⟨h, t, [], e, rfl, (standing_eq_valid_iff _ k e).1 he, hl, fun x hx => absurd hx List.not_mem_nil⟩
      · obtain ⟨value, exp, flag, rfl⟩ : ∃ value exp flag, op = .set k value exp flag := by
          by_contra hnot
          exact hset fun value exp flag heq => hnot ⟨value, exp, flag, heq⟩
        exact .inl (by simp [Standing.step])

theorem standing_of_noSet {h : History V} {k : String} (hno : ∀ x ∈ h, Standing.NoSet k x.2) {p : Partition V}
    (hp : p.Inv) :
    (p.standing k = .deleted → (run h p).standing k = .deleted) ∧
      (p.standing k = .expired → (run h p).standing k = .expired) := by
  induction h generalizing p with
  | nil => exact ⟨id, id⟩
  | cons e h ih =>
      obtain ⟨hfirst, hrest⟩ := List.forall_mem_cons.1 hno
      obtain ⟨hdeleted, hexpired⟩ := ih hrest (hp.apply e.1 e.2)
      obtain ⟨hd, he⟩ := Standing.step_of_noSet e.1 hfirst
      rw [standing_apply hp] at hdeleted hexpired
      exact ⟨fun h => hdeleted (h ▸ hd), fun h => hexpired (h ▸ he)⟩

/-- **Reading does not change what counts as expired unless an overdue key is deleted**: whatever queries are put
    into a history, the same keys count as expired at its end, if and only if no delete finds its key overdue
    without the key being set again. -/
theorem expired_unaffected_iff (i : Nat) (start now : Int) (h : History V) (hc : Clocked start h now) :
    (∀ g, WithQueries h g → Clocked start g now → SameExpired now (run h (new i)) (run g (new i))) ↔
      ∀ k, ¬ DeletedOverdue i h k := by
  constructor
  · rintro hsame k ⟨h₁, t, h₂, e, rfl, hv, hl, hno⟩
    obtain ⟨hc₁, hc₂⟩ := Clocked.append.1 hc
    have hp : (run h₁ (new i : Partition V)).Inv := (inv_new i).run h₁
    have hstanding := standing_valid hv
    -- the query right in front of the delete
    have hclock : Clocked start (h₁ ++ (t, .getValid k) :: (t, .delete k) :: h₂) now :=
      Clocked.append.2 ⟨hc₁, Int.le_refl t, hc₂⟩
    have hquery : (Op.getValid k : Op V).IsQuery := trivial
    have hset := (hsame _ (.insert h₁ _ t hquery) hclock).2 k
    rw [mem_expiredKeySet_iff ((inv_new i).run _), mem_expiredKeySet_iff ((inv_new i).run _)] at hset
    have hbase : (run (h₁ ++ (t, .delete k) :: h₂) (new i)).standing k = .deleted := by
      rw [run_append, run_cons]
      refine (standing_of_noSet hno (hp.apply t _)).1 ?_
      rw [standing_apply hp, hstanding]
      simp [Standing.step, Standing.delete]
    have hnoted : (run (h₁ ++ (t, .getValid k) :: (t, .delete k) :: h₂) (new i)).standing k = .expired := by
      rw [run_append, run_cons, run_cons]
      refine (standing_of_noSet hno ((hp.apply t _).apply t _)).2 ?_
      rw [standing_apply (hp.apply t _), standing_apply hp, hstanding]
      simp [Standing.step, Standing.delete, Standing.look_of_lapsed hl]
    rw [hbase, hnoted] at hset
    cases hset.2 rfl
  · intro hno g hw hcg
    have hp : (run h (new i : Partition V)).Inv := (inv_new i).run h
    have hq : (run g (new i : Partition V)).Inv := (inv_new i).run g
    have hlook : ∀ k, ((run g (new i)).standing k).look now = ((run h (new i)).standing k).look now := fun k =>
      ((standing_behind hw hcg k).2 (hno k)).look_eq
    refine ⟨?_, ?_⟩
    · intro k
      rw [expired_eq hp, expired_eq hq, hlook]
    · intro k
      rw [mem_expiredKeySet_iff hp, mem_expiredKeySet_iff hq, hlook]

/-- A key that is deleted before its deadline. -/
theorem expired_unaffected_in_time :
    SameExpired 9 (run [(1, .set "a" 1 5 0), (3, .delete "a")] (new 0 : Partition Nat))
      (run [(1, .set "a" 1 5 0), (2, .len), (3, .delete "a"), (8, .getFlag "a")] (new 0)) := by
  have hclock : Clocked 0 [(1, .set "a" 1 5 0), (3, .delete "a")] 9 := by simp [Clocked]
  have hcond : ∀ k, ¬ DeletedOverdue 0 [(1, .set "a" 1 5 0), (3, .delete "a")] k := by
    rintro k ⟨h₁, t, h₂, e, heq, hv, hl, -⟩
    rcases h₁ with _ | ⟨a, _ | ⟨b, h₁⟩⟩
    · simp at heq
    · simp only [List.cons_append, List.nil_append, List.cons.injEq, Prod.mk.injEq, Op.delete.injEq] at heq
      obtain ⟨rfl, ⟨rfl, rfl⟩, -⟩ := heq
      cases hv
      exact absurd hl (by decide)
    · simp at heq
  exact (expired_unaffected_iff 0 0 9 _ hclock).2 hcond _
    (.keep _ (.query 2 trivial (.keep _ (.query 8 trivial .nil)))) (by simp [Clocked])

/-- A key that is overdue when it is deleted: with a query in front of the delete it counts as expired. -/
theorem expired_affected :
    WithQueries [(1, .set "a" 1 5 0), (9, .delete "a")]
        [(1, .set "a" 1 5 0), (9, .getValid "a"), (9, .delete "a")] ∧
      ¬ SameExpired 9 (run [(1, .set "a" 1 5 0), (9, .delete "a")] (new 0 : Partition Nat))
        (run [(1, .set "a" 1 5 0), (9, .getValid "a"), (9, .delete "a")] (new 0)) := by
  refine ⟨.keep _ (.query 9 trivial (.keep _ .nil)), ?_⟩
  intro h
  exact absurd (h.1 "a") (by decide)

end Partition

end TestInfra
