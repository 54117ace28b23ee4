import Mathlib.Data.List.Basic

set_option autoImplicit false

/-! # Finite runs

A run is a list of events with the states before and after. An invariant need not be kept by every event: if
the events that do not keep it do not occur, it holds at the end (`Runs.invariant`), and if it is lost, one of
them has occurred (`Runs.exists_breaker`). -/

variable {σ ε : Type*}

/-- From the first state the events lead to the last one. -/
inductive Runs (step : σ → ε → σ → Prop) : σ → List ε → σ → Prop where
  | nil (s : σ) : Runs step s [] s
  | cons {s mid t : σ} {e : ε} {rest : List ε} :
      step s e mid → Runs step mid rest t → Runs step s (e :: rest) t

namespace Runs

variable {step : σ → ε → σ → Prop}

theorem nil_iff {s t : σ} : Runs step s [] t ↔ t = s := by
  constructor
  · rintro ⟨⟩
    rfl
  · rintro rfl
    exact .nil t

theorem cons_iff {s t : σ} {e : ε} {rest : List ε} :
    Runs step s (e :: rest) t ↔ ∃ mid, step s e mid ∧ Runs step mid rest t := by
  constructor
  · rintro (_ | ⟨hstep, hrest⟩)
    exact ⟨_, hstep, hrest⟩
  · rintro ⟨mid, hstep, hrest⟩
    exact .cons hstep hrest

theorem append_iff {s t : σ} {front back : List ε} :
    Runs step s (front ++ back) t ↔ ∃ mid, Runs step s front mid ∧ Runs step mid back t := by
  induction front generalizing s with
  | nil =>
      constructor
      · exact fun hback => ⟨s, .nil s, hback⟩
      · rintro ⟨mid, hfront, hback⟩
        rw [nil_iff] at hfront
        exact hfront ▸ hback
  | cons e rest ih =>
      simp only [List.cons_append, cons_iff, ih]
      constructor
      · rintro ⟨first, hstep, mid, hrest, hback⟩
        exact ⟨mid, ⟨first, hstep, hrest⟩, hback⟩
      · rintro ⟨mid, ⟨first, hstep, hrest⟩, hback⟩
        exact ⟨first, hstep, mid, hrest, hback⟩

/-- The induction rule: what the events of a run keep holds at its end. -/
theorem invariant (Keeps : ε → Prop) {Inv : σ → Prop}
    (hkeep : ∀ s e t, Keeps e → step s e t → Inv s → Inv t) {s t : σ} {events : List ε}
    (hrun : Runs step s events t) (hevents : ∀ e ∈ events, Keeps e) (hs : Inv s) : Inv t := by
  induction hrun with
  | nil _ => exact hs
  | cons hstep _ ih =>
      refine ih (fun e he => hevents e (List.mem_cons_of_mem _ he)) ?_
      exact hkeep _ _ _ (hevents _ List.mem_cons_self) hstep hs

/-- What every event keeps holds at the end. -/
theorem invariant_of_all (Inv : σ → Prop) (hkeep : ∀ s e t, step s e t → Inv s → Inv t) {s t : σ}
    {events : List ε} (hrun : Runs step s events t) (hs : Inv s) : Inv t :=
  hrun.invariant (fun _ => True) (fun s e t _ => hkeep s e t) (fun _ _ => trivial) hs

/-- What held at the start and no longer holds was broken by an event of the run. -/
theorem exists_breaker (Keeps : ε → Prop) {Inv : σ → Prop}
    (hkeep : ∀ s e t, Keeps e → step s e t → Inv s → Inv t) {s t : σ} {events : List ε}
    (hrun : Runs step s events t) (hs : Inv s) (ht : ¬ Inv t) : ∃ e ∈ events, ¬ Keeps e := by
  by_contra hnone
  push Not at hnone
  exact ht (hrun.invariant Keeps hkeep hnone hs)

end Runs
