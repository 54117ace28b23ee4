import Mathlib.Data.List.Lex
import Mathlib.Data.List.Sort
import Mathlib.Order.Lattice

set_option autoImplicit false

/-! # Stable sorts by two orders

`l.insertionSort r` is the stable sort of a list. Two orders sort a list in the same way if they agree on each entry and
the entries behind it (`insertionSort_eq_iff`).

`DirLex` is the order on rows with a direction for each column. -/

namespace StableSort

variable {α : Type*} {r s : α → α → Prop} [DecidableRel r] [DecidableRel s]

/-! ## Two orders -/

theorem orderedInsert_congr {a : α} {l : List α} (h : ∀ b ∈ l, r a b ↔ s a b) :
    l.orderedInsert r a = l.orderedInsert s a := by
  induction l with
  | nil => rfl
  | cons b l ih =>
      rw [List.forall_mem_cons] at h
      rw [List.orderedInsert_cons, List.orderedInsert_cons, ih h.2]
      exact if_congr h.1 rfl rfl

/-- The first place of an entry. -/
theorem append_cons_inj {a : α} {u v u' v' : List α} (hu : a ∉ u) (hu' : a ∉ u') (h : u ++ a :: v = u' ++ a :: v') :
    u = u' ∧ v = v' := by
  rcases List.append_eq_append_iff.1 h with ⟨w, rfl, hw⟩ | ⟨w, rfl, hw⟩
  · rcases w with _ | ⟨b, w⟩
    · rw [List.nil_append, List.cons.injEq] at hw
      exact ⟨(List.append_nil u).symm, hw.2⟩
    · rw [List.cons_append, List.cons.injEq] at hw
      exact absurd (List.mem_append_right u (hw.1 ▸ List.mem_cons_self)) hu'
  · rcases w with _ | ⟨b, w⟩
    · rw [List.nil_append, List.cons.injEq] at hw
      exact ⟨List.append_nil u', hw.2.symm⟩
    · rw [List.cons_append, List.cons.injEq] at hw
      exact absurd (List.mem_append_right u' (hw.1 ▸ List.mem_cons_self)) hu

/-- Where an entry goes in a sorted list: behind the entries it is not related to. -/
theorem exists_orderedInsert [Std.Total r] [IsTrans α r] (a : α) {l : List α} (hl : l.Pairwise r) :
    ∃ u v, l = u ++ v ∧ l.orderedInsert r a = u ++ a :: v ∧ a ∉ u ∧ (∀ b ∈ u, ¬ r a b) ∧ ∀ b ∈ v, r a b := by
  have hrefl : r a a := (total_of r a a).elim id id
  induction l with
  | nil =>
      refine ⟨[], [], rfl, rfl, List.not_mem_nil, ?_, ?_⟩
      all_goals exact fun b hb => absurd hb List.not_mem_nil
  | cons c l ih =>
      obtain ⟨hc, hl⟩ := List.pairwise_cons.1 hl
      rw [List.orderedInsert_cons]
      by_cases hac : r a c
      · refine ⟨[], c :: l, rfl, if_pos hac, List.not_mem_nil, fun b hb => absurd hb List.not_mem_nil, ?_⟩
        rw [List.forall_mem_cons]
        exact ⟨hac, fun b hb => trans_of r hac (hc b hb)⟩
      · obtain ⟨u, v, rfl, hinsert, hu, hless, hmore⟩ := ih hl
        refine ⟨c :: u, v, rfl, by rw [if_neg hac, hinsert]; rfl, ?_, ?_, hmore⟩
        · rw [List.mem_cons, not_or]
          exact ⟨fun heq => hac (heq ▸ hrefl), hu⟩
        · rw [List.forall_mem_cons]
          exact ⟨hac, hless⟩

variable [Std.Total r] [IsTrans α r] [Std.Total s] [IsTrans α s]

/-- **Two orders sort a list in the same way** if they agree on each entry and the entries behind it. -/
theorem insertionSort_eq_iff {l : List α} :
    l.insertionSort r = l.insertionSort s ↔ l.Pairwise fun a b => (r a b ↔ s a b) := by
  induction l with
  | nil => exact iff_of_true rfl List.Pairwise.nil
  | cons a l ih =>
      rw [List.insertionSort_cons, List.insertionSort_cons, List.pairwise_cons, ← ih]
      constructor
      · intro h
        obtain ⟨u, v, hl, hinsert, hu, hless, hmore⟩ := exists_orderedInsert a (List.pairwise_insertionSort r l)
        obtain ⟨u', v', hl', hinsert', hu', hless', hmore'⟩ := exists_orderedInsert a (List.pairwise_insertionSort s l)
        rw [hinsert, hinsert'] at h
        obtain ⟨rfl, rfl⟩ := append_cons_inj hu hu' h
        refine ⟨fun b hb => ?_, hl.trans hl'.symm⟩
        rw [← List.mem_insertionSort r, hl, List.mem_append] at hb
        rcases hb with hb | hb
        · exact iff_of_false (hless b hb) (hless' b hb)
        · exact iff_of_true (hmore b hb) (hmore' b hb)
      · rintro ⟨hagree, hsame⟩
        rw [← hsame]
        exact orderedInsert_congr fun b hb => hagree b ((List.mem_insertionSort r).1 hb)

/-! ## Rows -/

variable {β : Type*} [LinearOrder β]

/-- The order of rows by their columns from left to right; `true` is a descending column. -/
def DirLex : List Bool → List β → List β → Prop
  | [], _, _ => True
  | _ :: _, [], _ => True
  | _ :: _, _ :: _, [] => False
  | desc :: descs, a :: as, b :: bs => (if desc then b < a else a < b) ∨ a = b ∧ DirLex descs as bs

instance decidableDirLex : (descs : List Bool) → (as bs : List β) → Decidable (DirLex descs as bs)
  | [], _, _ => isTrue trivial
  | _ :: _, [], _ => isTrue trivial
  | _ :: _, _ :: _, [] => isFalse id
  | desc :: descs, a :: as, b :: bs =>
      have := decidableDirLex descs as bs
      inferInstanceAs (Decidable ((if desc then b < a else a < b) ∨ a = b ∧ DirLex descs as bs))

theorem dirLex_total (descs : List Bool) (as bs : List β) : DirLex descs as bs ∨ DirLex descs bs as := by
  induction descs generalizing as bs with
  | nil => exact .inl trivial
  | cons desc descs ih =>
      rcases as with _ | ⟨a, as⟩
      · exact .inl trivial
      rcases bs with _ | ⟨b, bs⟩
      · exact .inr trivial
      rcases lt_trichotomy a b with hlt | rfl | hgt
      · cases desc with
        | false => exact .inl (.inl hlt)
        | true => exact .inr (.inl hlt)
      · exact (ih as bs).imp (fun h => .inr ⟨rfl, h⟩) fun h => .inr ⟨rfl, h⟩
      · cases desc with
        | false => exact .inr (.inl hgt)
        | true => exact .inl (.inl hgt)

theorem dirLex_trans {descs : List Bool} {as bs cs : List β} (hab : DirLex descs as bs) (hbc : DirLex descs bs cs) :
    DirLex descs as cs := by
  induction descs generalizing as bs cs with
  | nil => trivial
  | cons desc descs ih =>
      rcases as with _ | ⟨a, as⟩
      · trivial
      rcases bs with _ | ⟨b, bs⟩
      · exact absurd hab id
      rcases cs with _ | ⟨c, cs⟩
      · exact absurd hbc id
      rcases hab with hab | ⟨rfl, hab⟩
      · rcases hbc with hbc | ⟨rfl, -⟩
        · left
          cases desc with
          | false => exact lt_trans hab hbc
          | true => exact lt_trans hbc hab
        · exact .inl hab
      · rcases hbc with hbc | ⟨rfl, hbc⟩
        · exact .inl hbc
        · exact .inr ⟨rfl, ih hab hbc⟩

instance {γ : Type*} (descs : List Bool) (f : γ → List β) : Std.Total fun x y => DirLex descs (f x) (f y) :=
  ⟨fun x y => dirLex_total descs (f x) (f y)⟩

instance {γ : Type*} (descs : List Bool) (f : γ → List β) : IsTrans γ fun x y => DirLex descs (f x) (f y) :=
  ⟨fun _ _ _ hab hbc => dirLex_trans hab hbc⟩

/-- Two directions of the columns agree on two rows if they agree on the first column in which the rows differ. -/
theorem dirLex_agree_iff {γ : Type*} (desc desc' : γ → Bool) (f g : γ → β) (columns : List γ) :
    (DirLex (columns.map desc) (columns.map f) (columns.map g)
        ↔ DirLex (columns.map desc') (columns.map f) (columns.map g)) ↔
      ∀ before column after, columns = before ++ column :: after → (∀ c ∈ before, f c = g c) → f column ≠ g column →
        desc column = desc' column := by
  induction columns with
  | nil =>
      refine iff_of_true Iff.rfl fun before column after h => ?_
      exact absurd h.symm (List.append_ne_nil_of_right_ne_nil _ (List.cons_ne_nil _ _))
  | cons c columns ih =>
      simp only [List.map_cons, DirLex]
      by_cases heq : f c = g c
      · -- the first column does not tell the rows apart
        simp only [heq, lt_irrefl, ite_self, false_or, true_and]
        rw [ih]
        constructor
        · intro h before column after hsplit hsame hne
          rcases before with _ | ⟨first, before⟩
          · rw [List.nil_append, List.cons.injEq] at hsplit
            exact absurd (hsplit.1 ▸ heq) hne
          · rw [List.cons_append, List.cons.injEq] at hsplit
            rw [List.forall_mem_cons] at hsame
            exact h before column after hsplit.2 hsame.2 hne
        · intro h before column after hsplit hsame hne
          refine h (c :: before) column after (by rw [hsplit]; rfl) ?_ hne
          rw [List.forall_mem_cons]
          exact ⟨heq, hsame⟩
      · simp only [heq, false_and, or_false]
        have hhead : ((if desc c then g c < f c else f c < g c) ↔ if desc' c then g c < f c else f c < g c)
            ↔ desc c = desc' c := by
          rcases lt_or_gt_of_ne heq with hlt | hgt
          · have hnot := lt_asymm hlt
            cases desc c <;> cases desc' c <;> simp [hlt, hnot]
          · have hnot := lt_asymm hgt
            cases desc c <;> cases desc' c <;> simp [hgt, hnot]
        rw [hhead]
        constructor
        · intro h before column after hsplit hsame _
          rcases before with _ | ⟨first, before⟩
          · rw [List.nil_append, List.cons.injEq] at hsplit
            exact hsplit.1 ▸ h
          · rw [List.cons_append, List.cons.injEq] at hsplit
            exact absurd (hsplit.1 ▸ hsame first List.mem_cons_self) heq
        · intro h
          exact h [] c columns rfl (fun _ hc => absurd hc List.not_mem_nil) heq

/-- The entries may be read in a larger order. -/
theorem dirLex_map_iff {γ : Type*} [LinearOrder γ] {f : β → γ} (hf : ∀ a b, f a < f b ↔ a < b) (descs : List Bool)
    (as bs : List β) : DirLex descs (as.map f) (bs.map f) ↔ DirLex descs as bs := by
  have heq (a b : β) : f a = f b ↔ a = b := by
    refine ⟨fun h => ?_, congrArg f⟩
    by_contra hne
    rcases lt_or_gt_of_ne hne with hlt | hlt
    · exact absurd ((hf a b).2 hlt) (h ▸ lt_irrefl _)
    · exact absurd ((hf b a).2 hlt) (h ▸ lt_irrefl _)
  induction descs generalizing as bs with
  | nil => exact Iff.rfl
  | cons desc descs ih =>
      rcases as with _ | ⟨a, as⟩
      · exact Iff.rfl
      rcases bs with _ | ⟨b, bs⟩
      · exact Iff.rfl
      simp only [List.map_cons, DirLex, hf, heq, ih]

theorem cons_le_cons_iff {a b : β} {as bs : List β} : a :: as ≤ b :: bs ↔ a < b ∨ a = b ∧ as ≤ bs := by
  rw [← not_lt, List.cons_lt_cons_iff, not_or, not_and, not_lt, not_lt]
  constructor
  · rintro ⟨hle, htail⟩
    rcases lt_or_eq_of_le hle with hlt | rfl
    · exact .inl hlt
    · exact .inr ⟨rfl, htail rfl⟩
  · rintro (hlt | ⟨rfl, htail⟩)
    · exact ⟨hlt.le, fun heq => absurd heq hlt.ne'⟩
    · exact ⟨le_rfl, fun _ => htail⟩

theorem nil_le (as : List β) : [] ≤ as := not_lt.1 (List.not_lt_nil as)

/-- Rows in the same direction in all columns are compared as lists. -/
theorem dirLex_false_iff {as bs : List β} (h : as.length = bs.length) :
    DirLex (as.map fun _ => false) as bs ↔ as ≤ bs := by
  induction as generalizing bs with
  | nil => exact iff_of_true trivial (nil_le bs)
  | cons a as ih =>
      rcases bs with _ | ⟨b, bs⟩
      · exact absurd h (Nat.succ_ne_zero _)
      rw [List.map_cons, DirLex, ih (Nat.succ.inj h), cons_le_cons_iff]
      rfl

theorem dirLex_true_iff {as bs : List β} (h : as.length = bs.length) :
    DirLex (as.map fun _ => true) as bs ↔ bs ≤ as := by
  induction as generalizing bs with
  | nil =>
      obtain rfl := List.eq_nil_of_length_eq_zero h.symm
      exact iff_of_true trivial (nil_le [])
  | cons a as ih =>
      rcases bs with _ | ⟨b, bs⟩
      · exact absurd h (Nat.succ_ne_zero _)
      rw [List.map_cons, DirLex, ih (Nat.succ.inj h), cons_le_cons_iff, eq_comm (a := b)]
      rfl

end StableSort
