import TestInfra.KVStore.KeyStatus

set_option autoImplicit false

/-! # Merging against running on

`merge` is meant to bring the result of a later, separately recorded history into a partition. This
file compares it with what it stands for: running the later history `h2` on the partition that `h1`
left. Both sides are products of key automata (`KeyStatus`), so the comparison is made key by key, and
the two agree exactly when every key passes `MergeAgrees`. -/

namespace TestInfra

namespace Partition

variable {V : Type*}

/-- The history sets the key. -/
def SetsKey (h : History V) (k : String) : Prop :=
  ∃ now value exp flag, (now, Op.set k value exp flag) ∈ h

/-- The operation, at time `now`, takes the valid entry `e` of key `k` away: it deletes the key, or it
    looks at the key after the deadline. -/
def Op.Removes (now : Int) (k : String) (e : Entry V) : Op V → Prop
  | .set _ _ _ _ => False
  | .delete key => key = k
  | .getValid key | .getDeleted key | .getFlag key | .expired key => key = k ∧ e.Lapsed now
  | .validKeySet | .deletedKeySet | .expiredKeySet | .len => e.Lapsed now

/-- When merging is right for key `k`: a key that `h2` sets is still valid at the end of `h2`, or was
    already deleted before; a key that `h2` does not set keeps the entry `h1` left it, if any. -/
def MergeAgrees (h2 : History V) (p1 p2 : Partition V) (k : String) : Prop :=
  (SetsKey h2 k → k ∈ p2.valid.keys ∨ k ∈ p1.deleted.keys) ∧
  (¬ SetsKey h2 k → ∀ e, p1.valid.get? k = some e → ∀ x ∈ h2, ¬ x.2.Removes x.1 k e)

/-- The merged partition holds the same valid entries and the same deleted keys as the other one. -/
def SameContent (p q : Partition V) : Prop :=
  (∀ k, p.valid.get? k = q.valid.get? k) ∧ ∀ k, k ∈ p.deleted.keys ↔ k ∈ q.deleted.keys

theorem sameContent_iff {p q : Partition V} (hp : p.Inv) (hq : q.Inv) :
    SameContent p q ↔ ∀ k, p.status k = q.status k := by
  simp only [SameContent, status_eq_iff hp hq, forall_and]

end Partition

namespace KeyStatus

variable {V : Type*}

open TestInfra.Partition

/-! ## Runs of the key automaton -/

/-- One operation that does not set the key: the key leaves `valid` only when the operation removes
    its entry, and nothing else changes. -/
theorem step_of_not_set (now : Int) {k : String} {op : Op V} (s : KeyStatus V)
    (h : ∀ value exp flag, op ≠ .set k value exp flag) :
    s.step now k op = s ∨ (s.step now k op = .deleted ∧ ∃ e, s = .valid e ∧ op.Removes now k e) := by
  cases s with
  | absent =>
      refine Or.inl ?_
      cases op with
      | set key value exp flag =>
          have hk : k ≠ key := fun hk => h value exp flag (by rw [hk])
          simp [step, hk]
      | _ => simp [step, KeyStatus.delete]
  | deleted =>
      refine Or.inl ?_
      cases op with
      | set key value exp flag =>
          have hk : k ≠ key := fun hk => h value exp flag (by rw [hk])
          simp [step, hk]
      | _ => simp [step, KeyStatus.delete]
  | valid e =>
      cases op with
      | set key value exp flag =>
          have hk : k ≠ key := fun hk => h value exp flag (by rw [hk])
          simp [step, hk]
      | delete key =>
          by_cases hk : k = key <;> simp [step, KeyStatus.delete, Op.Removes, hk]
      | getValid key | getDeleted key | getFlag key | expired key =>
          by_cases hk : k = key <;> by_cases hl : e.Lapsed now <;>
            simp [step, expire, Op.Removes, hk, hl]
      | validKeySet | deletedKeySet | expiredKeySet | len =>
          by_cases hl : e.Lapsed now <;> simp [step, expire, Op.Removes, hl]

/-- The converse: an operation that removes the entry leaves the key deleted. -/
theorem step_of_removes {now : Int} {k : String} {op : Op V} {e : Entry V}
    (h : op.Removes now k e) : (valid e).step now k op = .deleted := by
  cases op with
  | set key value exp flag => exact absurd h id
  | delete key => simp only [step, if_pos (show k = key from h.symm), KeyStatus.delete]
  | getValid key | getDeleted key | getFlag key | expired key =>
      simp only [step, if_pos (show k = key from h.1.symm), expire, if_pos h.2]
  | validKeySet | deletedKeySet | expiredKeySet | len =>
      simp only [step, expire, if_pos (show e.Lapsed now from h)]

theorem not_setsKey_cons {now : Int} {op : Op V} {h : History V} {k : String}
    (hs : ¬ SetsKey ((now, op) :: h) k) :
    (∀ value exp flag, op ≠ .set k value exp flag) ∧ ¬ SetsKey h k := by
  refine ⟨fun value exp flag ho => hs ⟨now, value, exp, flag, by simp [ho]⟩, ?_⟩
  rintro ⟨t, value, exp, flag, hm⟩
  exact hs ⟨t, value, exp, flag, List.mem_cons_of_mem _ hm⟩

theorem run_deleted_of_not_set {k : String} {h : History V} (hs : ¬ SetsKey h k) :
    run k h (deleted : KeyStatus V) = .deleted := by
  induction h with
  | nil => rfl
  | cons x rest ih =>
      obtain ⟨hop, hrest⟩ := not_setsKey_cons hs
      rw [run_cons]
      rcases step_of_not_set x.1 deleted hop with hstep | ⟨hstep, _⟩ <;>
        rw [hstep] <;> exact ih hrest

theorem run_absent_of_not_set {k : String} {h : History V} (hs : ¬ SetsKey h k) :
    run k h (absent : KeyStatus V) = .absent := by
  induction h with
  | nil => rfl
  | cons x rest ih =>
      obtain ⟨hop, hrest⟩ := not_setsKey_cons hs
      rw [run_cons]
      rcases step_of_not_set x.1 absent hop with hstep | ⟨_, e, he, _⟩
      · rw [hstep]; exact ih hrest
      · cases he

/-- Without a set, an entry survives exactly when no operation of the history removes it. -/
theorem run_valid_of_not_set {k : String} {h : History V} {e : Entry V} (hs : ¬ SetsKey h k) :
    run k h (valid e) = .valid e ↔ ∀ x ∈ h, ¬ x.2.Removes x.1 k e := by
  induction h with
  | nil => simp
  | cons x rest ih =>
      obtain ⟨now, op⟩ := x
      obtain ⟨hop, hrest⟩ := not_setsKey_cons hs
      rw [run_cons, List.forall_mem_cons]
      by_cases hr : op.Removes now k e
      · rw [step_of_removes hr, run_deleted_of_not_set hrest]
        simp [hr]
      · rcases step_of_not_set now (valid e) hop with hstep | ⟨_, e', he, hr'⟩
        · rw [hstep, ih hrest]
          simp [hr]
        · cases he; exact absurd hr' hr

theorem step_ne_absent {now : Int} {k : String} {op : Op V} {s : KeyStatus V} (hs : s ≠ .absent) :
    s.step now k op ≠ .absent := by
  by_cases h : ∃ value exp flag, op = .set k value exp flag
  · obtain ⟨value, exp, flag, rfl⟩ := h
    simp [step]
  · simp only [not_exists] at h
    rcases step_of_not_set now s h with hstep | ⟨hstep, _⟩ <;> rw [hstep]
    · exact hs
    · simp

theorem run_ne_absent {k : String} {h : History V} {s : KeyStatus V} (hs : s ≠ .absent) :
    run k h s ≠ .absent := by
  induction h generalizing s with
  | nil => exact hs
  | cons x rest ih => exact ih (step_ne_absent hs)

/-- A history that sets the key forgets where the key stood before, and leaves it present. -/
theorem run_of_set {k : String} {h : History V} (hs : SetsKey h k) (s : KeyStatus V) :
    run k h s = run k h .absent ∧ run k h s ≠ .absent := by
  induction h generalizing s with
  | nil => obtain ⟨_, _, _, _, hm⟩ := hs; cases hm
  | cons x rest ih =>
      obtain ⟨now, op⟩ := x
      rw [run_cons, run_cons]
      by_cases hrest : SetsKey rest k
      · have h1 := ih hrest (s.step now k op)
        have h2 := ih hrest ((absent : KeyStatus V).step now k op)
        exact ⟨h1.1.trans h2.1.symm, h1.2⟩
      · obtain ⟨t, value, exp, flag, hm⟩ := hs
        rcases List.mem_cons.1 hm with heq | hm
        · cases heq
          simp only [step, if_true, true_and]
          exact run_ne_absent (by simp)
        · exact absurd ⟨t, value, exp, flag, hm⟩ hrest

end KeyStatus

namespace Partition

variable {V : Type*}

open KeyStatus

/-! ## The comparison -/

theorem mergeAgrees_iff_status {p1 : Partition V} (h2 : History V) (j : Nat) (hp1 : p1.Inv)
    (k : String) :
    MergeAgrees h2 p1 (run h2 (new j)) k ↔
      (p1.merge (run h2 (new j))).status k = (run h2 p1).status k := by
  have hp2 : (run h2 (new j : Partition V)).status k = KeyStatus.run k h2 .absent := by
    rw [status_run, status_new]
  rw [status_merge, hp2, status_run h2 p1]
  by_cases hset : SetsKey h2 k
  · -- the sequential run forgets `p1`; merging is right if the recorded key is valid or `p1` agrees
    obtain ⟨hforget, hpresent⟩ := run_of_set hset (p1.status k)
    rw [hforget] at hpresent ⊢
    have hvalid : k ∈ (run h2 (new j : Partition V)).valid.keys
        ↔ ∃ e, KeyStatus.run k h2 .absent = .valid e := by
      rw [Dict.mem_keys_iff_exists, ← hp2]
      simp only [status_eq_valid_iff]
    simp only [MergeAgrees, hset, true_implies, not_true_eq_false, false_implies, and_true, hvalid,
      ← status_eq_deleted_iff hp1]
    cases hrun : (KeyStatus.run k h2 .absent : KeyStatus V) with
    | absent => exact absurd hrun hpresent
    | valid e => simp [KeyStatus.merge]
    | deleted => simp [KeyStatus.merge]
  · rw [run_absent_of_not_set hset]
    simp only [MergeAgrees, hset, false_implies, not_false_eq_true, true_implies, true_and,
      KeyStatus.merge, ← status_eq_valid_iff]
    cases hst : p1.status k with
    | absent => simp [run_absent_of_not_set hset]
    | deleted => simp [run_deleted_of_not_set hset]
    | valid e =>
        rw [eq_comm (a := KeyStatus.valid e), run_valid_of_not_set hset]
        simp

/-- **Merging against running on.** Merging the partition of `h2` into the partition of `h1` gives the
    content of running `h2` after `h1` exactly when every key passes `MergeAgrees`. -/
theorem merge_sameContent_iff (i j : Nat) (h1 h2 : History V) :
    SameContent ((run h1 (new i)).merge (run h2 (new j))) (run (h1 ++ h2) (new i)) ↔
      ∀ k, MergeAgrees h2 (run h1 (new i)) (run h2 (new j)) k := by
  have hrun : run (h1 ++ h2) (new i : Partition V) = run h2 (run h1 (new i)) := by
    simp only [run, List.foldl_append]
  have hp1 : (run h1 (new i : Partition V)).Inv := (inv_new i).run h1
  have hp2 : (run h2 (new j : Partition V)).Inv := (inv_new j).run h2
  rw [hrun, sameContent_iff (hp1.merge hp2) (hp1.run h2)]
  exact forall_congr' fun k => (mergeAgrees_iff_status h2 j hp1 k).symm

/-- A key that the later history sets and then deletes is still valid, with its old value, after the
    merge. -/
theorem merge_revives_deleted_key :
    ¬ SameContent
      ((run [(1, .set "doc" "old" 0 0)] (new 7)).merge
        (run [(2, .set "doc" "new" 0 0), (3, .delete "doc")] (new 7)))
      (run ([(1, .set "doc" "old" 0 0)] ++ [(2, .set "doc" "new" 0 0), (3, .delete "doc")])
        (new 7)) := by
  intro h
  have hdoc := h.1 "doc"
  revert hdoc
  decide +kernel

end Partition

end TestInfra
