import Mathlib.Algebra.BigOperators.Group.Finset.Basic
import Mathlib.Logic.Function.Basic
import Mathlib.Logic.Relation
import Mathlib.Tactic.Abel

set_option autoImplicit false

/-! # Threads interleaving over shared state

A system is a shared state and one local state per thread; a step moves one thread and the shared
state and leaves the other threads where they are. `Reachable` quantifies over every interleaving, of
any number of threads, and `Reachable.invariant` is the induction rule all safety proofs use.
`ReachableWhen` keeps to the interleavings whose every step meets a condition on the whole state, and
`runSchedule` computes the interleaving that a list of threads describes. -/

namespace Interleave

variable {T σ L : Type*} [DecidableEq T]

/-- The shared state and the local state of every thread. -/
structure State (T σ L : Type*) where
  shared : σ
  thread : T → L

/-- The state after thread `t` moved to `l` and left `x` behind. -/
def State.move (s : State T σ L) (t : T) (x : σ) (l : L) : State T σ L :=
  ⟨x, Function.update s.thread t l⟩

@[simp] theorem State.move_shared (s : State T σ L) (t : T) (x : σ) (l : L) :
    (s.move t x l).shared = x := rfl

@[simp] theorem State.move_self (s : State T σ L) (t : T) (x : σ) (l : L) :
    (s.move t x l).thread t = l := by
  simp [State.move]

theorem State.move_other (s : State T σ L) {t u : T} (x : σ) (l : L) (h : u ≠ t) :
    (s.move t x l).thread u = s.thread u := by
  simp [State.move, h]

theorem State.forall_move {P : T → L → Prop} (s : State T σ L) (t : T) (x : σ) (l : L)
    (ht : P t l) (hother : ∀ u, u ≠ t → P u (s.thread u)) : ∀ u, P u ((s.move t x l).thread u) := by
  intro u
  by_cases hu : u = t
  · subst hu; rw [State.move_self]; exact ht
  · rw [State.move_other s x l hu]; exact hother u hu

theorem State.exists_move {P : L → Prop} (s : State T σ L) (t : T) (x : σ) (l : L) :
    (∃ u, P ((s.move t x l).thread u)) ↔ P l ∨ ∃ u, u ≠ t ∧ P (s.thread u) := by
  constructor
  · rintro ⟨u, hu⟩
    by_cases hut : u = t
    · subst hut; rw [State.move_self] at hu; exact Or.inl hu
    · rw [State.move_other s x l hut] at hu; exact Or.inr ⟨u, hut, hu⟩
  · rintro (hl | ⟨u, hut, hu⟩)
    · exact ⟨t, by rwa [State.move_self]⟩
    · exact ⟨u, by rwa [State.move_other s x l hut]⟩

omit [DecidableEq T] in
/-- One thread told apart from the others. -/
theorem State.exists_iff {P : L → Prop} (s : State T σ L) (t : T) :
    (∃ u, P (s.thread u)) ↔ P (s.thread t) ∨ ∃ u, u ≠ t ∧ P (s.thread u) := by
  constructor
  · rintro ⟨u, hu⟩
    by_cases hut : u = t
    · exact Or.inl (hut ▸ hu)
    · exact Or.inr ⟨u, hut, hu⟩
  · rintro (h | ⟨u, -, hu⟩)
    · exact ⟨t, h⟩
    · exact ⟨u, hu⟩

/-- What at most one thread has is still had by at most one, if the moving thread gets it only when no
    other has it. -/
theorem State.unique_move {P : L → Prop} (s : State T σ L) (t : T) (x : σ) (l : L)
    (hs : ∀ u v, P (s.thread u) → P (s.thread v) → u = v)
    (hnew : P l → ∀ u, u ≠ t → ¬ P (s.thread u)) (u v : T) (hu : P ((s.move t x l).thread u))
    (hv : P ((s.move t x l).thread v)) : u = v := by
  by_cases hut : u = t <;> by_cases hvt : v = t
  · rw [hut, hvt]
  · rw [hut, State.move_self] at hu
    rw [State.move_other s _ _ hvt] at hv
    exact absurd hv (hnew hu v hvt)
  · rw [hvt, State.move_self] at hv
    rw [State.move_other s _ _ hut] at hu
    exact absurd hu (hnew hv u hut)
  · rw [State.move_other s _ _ hut] at hu
    rw [State.move_other s _ _ hvt] at hv
    exact hs u v hu hv

/-- A sum over the threads changes by what the moving thread changes. -/
theorem State.sum_move [Fintype T] {M : Type*} [AddCommGroup M] (f : T → L → M) (s : State T σ L)
    (t : T) (x : σ) (l : L) :
    ∑ u, f u ((s.move t x l).thread u) = ∑ u, f u (s.thread u) + (f t l - f t (s.thread t)) := by
  have hsplit : ∀ g : T → M, ∑ u, g u = g t + ∑ u ∈ Finset.univ.erase t, g u := fun g =>
    (Finset.add_sum_erase Finset.univ g (Finset.mem_univ t)).symm
  have hrest : ∑ u ∈ Finset.univ.erase t, f u ((s.move t x l).thread u)
      = ∑ u ∈ Finset.univ.erase t, f u (s.thread u) :=
    Finset.sum_congr rfl fun u hu => by rw [State.move_other s x l (Finset.ne_of_mem_erase hu)]
  rw [hsplit, hsplit (fun u => f u (s.thread u)), hrest, State.move_self]
  abel

/-- One thread takes an atomic step: `act t x l x' l'` says that thread `t`, in local state `l` over
    the shared state `x`, can move to `l'` and `x'`. -/
def Step (act : T → σ → L → σ → L → Prop) (s s' : State T σ L) : Prop :=
  ∃ t x' l', act t s.shared (s.thread t) x' l' ∧ s' = s.move t x' l'

/-- Some interleaving leads from `s₀` to `s`. -/
def Reachable (act : T → σ → L → σ → L → Prop) (s₀ s : State T σ L) : Prop :=
  Relation.ReflTransGen (Step act) s₀ s

/-- What holds initially and is kept by every step of every thread holds in every reachable state. -/
theorem Reachable.invariant {act : T → σ → L → σ → L → Prop} {s₀ s : State T σ L}
    {I : State T σ L → Prop} (h : Reachable act s₀ s) (h₀ : I s₀)
    (hstep : ∀ (s : State T σ L) (t : T) (x' : σ) (l' : L), I s →
      act t s.shared (s.thread t) x' l' → I (s.move t x' l')) : I s := by
  induction h with
  | refl => exact h₀
  | tail _ hst ih =>
      obtain ⟨t, x', l', hact, rfl⟩ := hst
      exact hstep _ t x' l' ih hact

/-! ## Steps under a condition on the whole state -/

/-- A step of a thread that `guard` lets go. -/
def StepWhen (guard : State T σ L → T → Prop) (act : T → σ → L → σ → L → Prop) (s s' : State T σ L) :
    Prop :=
  ∃ t x' l', guard s t ∧ act t s.shared (s.thread t) x' l' ∧ s' = s.move t x' l'

/-- Some interleaving whose every step `guard` lets go leads from `s₀` to `s`. -/
def ReachableWhen (guard : State T σ L → T → Prop) (act : T → σ → L → σ → L → Prop)
    (s₀ s : State T σ L) : Prop :=
  Relation.ReflTransGen (StepWhen guard act) s₀ s

theorem ReachableWhen.invariant {guard : State T σ L → T → Prop} {act : T → σ → L → σ → L → Prop}
    {s₀ s : State T σ L} {I : State T σ L → Prop} (h : ReachableWhen guard act s₀ s) (h₀ : I s₀)
    (hstep : ∀ (s : State T σ L) (t : T) (x' : σ) (l' : L), I s → guard s t →
      act t s.shared (s.thread t) x' l' → I (s.move t x' l')) : I s := by
  induction h with
  | refl => exact h₀
  | tail _ hst ih =>
      obtain ⟨t, x', l', hguard, hact, rfl⟩ := hst
      exact hstep _ t x' l' ih hguard hact

/-! ## Threads that follow a function -/

/-- The steps of threads whose next step is computed. -/
def ofNext (next : T → σ → L → Option (σ × L)) : T → σ → L → σ → L → Prop :=
  fun t x l x' l' => next t x l = some (x', l')

/-- The state after the threads of `ts` took one step each, in that order. -/
def runSchedule (next : T → σ → L → Option (σ × L)) :
    List T → State T σ L → Option (State T σ L)
  | [], s => some s
  | t :: ts, s =>
      match next t s.shared (s.thread t) with
      | some (x', l') => runSchedule next ts (s.move t x' l')
      | none => none

/-- The same, stopping at a step that `guard` does not let go. -/
def runScheduleWhen (guard : State T σ L → T → Prop) [∀ s t, Decidable (guard s t)]
    (next : T → σ → L → Option (σ × L)) : List T → State T σ L → Option (State T σ L)
  | [], s => some s
  | t :: ts, s =>
      match next t s.shared (s.thread t) with
      | some (x', l') => if guard s t then runScheduleWhen guard next ts (s.move t x' l') else none
      | none => none

theorem reachable_of_runSchedule {next : T → σ → L → Option (σ × L)} (ts : List T)
    {s s' : State T σ L} (h : runSchedule next ts s = some s') : Reachable (ofNext next) s s' := by
  induction ts generalizing s with
  | nil =>
      obtain rfl : s = s' := by simpa [runSchedule] using h
      exact Relation.ReflTransGen.refl
  | cons t ts ih =>
      rw [runSchedule] at h
      split at h
      · next x' l' hnext => exact (ih h).head ⟨t, x', l', hnext, rfl⟩
      · next => cases h

theorem reachableWhen_of_runSchedule {guard : State T σ L → T → Prop}
    [∀ s t, Decidable (guard s t)] {next : T → σ → L → Option (σ × L)} (ts : List T)
    {s s' : State T σ L} (h : runScheduleWhen guard next ts s = some s') :
    ReachableWhen guard (ofNext next) s s' := by
  induction ts generalizing s with
  | nil =>
      obtain rfl : s = s' := by simpa [runScheduleWhen] using h
      exact Relation.ReflTransGen.refl
  | cons t ts ih =>
      rw [runScheduleWhen] at h
      split at h
      · next x' l' hnext =>
        split at h
        · next hguard => exact (ih h).head ⟨t, x', l', hguard, hnext, rfl⟩
        · cases h
      · cases h

end Interleave
