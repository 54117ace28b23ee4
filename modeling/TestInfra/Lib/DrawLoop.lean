import Mathlib.Data.Countable.Basic
import Mathlib.Data.Nat.Pairing
import Mathlib.Logic.Relation

set_option autoImplicit false

/-! # Loops that draw

A loop draws something in each turn and does with it what its state allows: it may stop, fail, stay as it is, or go on
to another state. In a fair sequence everything that can be drawn comes again and again.

Under every fair sequence the loop returns if and only if no state it can reach is a trap: none in which a draw fails,
and none in which all draws leave it as it is (`returns_iff`). -/

namespace DrawLoop

variable {δ σ : Type*}

/-! ## Sequences -/

/-- Each draw comes again and again. -/
def Fair (c : ℕ → δ) : Prop := ∀ d N, ∃ n, N ≤ n ∧ c n = d

/-- A sequence without its first draw. -/
def tail (c : ℕ → δ) : ℕ → δ := fun n => c (n + 1)

/-- A sequence with a draw put in front. -/
def cons (d : δ) (c : ℕ → δ) : ℕ → δ
  | 0 => d
  | n + 1 => c n

@[simp] theorem cons_zero (d : δ) (c : ℕ → δ) : cons d c 0 = d := rfl

@[simp] theorem tail_cons (d : δ) (c : ℕ → δ) : tail (cons d c) = c := rfl

theorem Fair.tail {c : ℕ → δ} (h : Fair c) : Fair (tail c) := by
  intro d N
  obtain ⟨n, hn, rfl⟩ := h d (N + 1)
  exact ⟨n - 1, by omega, congrArg c (by omega)⟩

theorem Fair.cons {c : ℕ → δ} (h : Fair c) (d : δ) : Fair (cons d c) := by
  intro d' N
  obtain ⟨n, hn, rfl⟩ := h d' N
  exact ⟨n + 1, Nat.le_succ_of_le hn, rfl⟩

/-- There are fair sequences: in front of each number, all smaller ones have come. -/
theorem exists_fair (δ : Type*) [Countable δ] [Nonempty δ] : ∃ c : ℕ → δ, Fair c := by
  obtain ⟨f, hf⟩ := exists_surjective_nat δ
  refine ⟨fun n => f n.unpair.1, fun d N => ?_⟩
  obtain ⟨k, rfl⟩ := hf d
  refine ⟨Nat.pair k N, Nat.right_le_pair k N, ?_⟩
  simp only [Nat.unpair_pair]

/-! ## Loops -/

/-- What a turn does. -/
inductive Turn (σ : Type*) where
  | stop
  | fail
  | stay
  | next (s : σ)

/-- How a loop ends. -/
inductive Loop (σ : Type*) where
  | returned (s : σ)
  | failed
  | running

variable (turn : δ → σ → Turn σ) (full : σ → Bool)

/-- A loop of at most so many turns. It returns where a turn stops, and in a state that is full. -/
def loop : ℕ → (ℕ → δ) → σ → Loop σ
  | 0, _, _ => .running
  | n + 1, c, s =>
      match turn (c 0) s with
      | .stop => .returned s
      | .fail => .failed
      | .stay => loop n (tail c) s
      | .next s' => if full s' then .returned s' else loop n (tail c) s'

/-- The states a loop can come to before it is full. -/
inductive Reach (s : σ) : σ → Prop where
  | refl : Reach s s
  | next {t u : σ} (h : Reach s t) (d : δ) (hturn : turn d t = .next u) (hfull : full u = false) : Reach s u

/-- With enough turns the loop returns. -/
def Returns (c : ℕ → δ) (s : σ) : Prop := ∃ n t, loop turn full n c s = .returned t

/-- No draw fails, and some draw does something. -/
def Live (s : σ) : Prop := (∀ d, turn d s ≠ .fail) ∧ ∃ d, turn d s ≠ .stay

variable {turn full}

theorem Reach.trans {s t u : σ} (h : Reach turn full s t) (h' : Reach turn full t u) : Reach turn full s u := by
  induction h' with
  | refl => exact h
  | next _ d hturn hfull ih => exact .next ih d hturn hfull

/-- What holds at first and is kept by a step holds in all states. -/
theorem Reach.invariant {P : σ → Prop} {s t : σ} (h : Reach turn full s t) (hs : P s)
    (hstep : ∀ t d u, P t → turn d t = .next u → full u = false → P u) : P t := by
  induction h with
  | refl => exact hs
  | next _ d hturn hfull ih => exact hstep _ d _ ih hturn hfull

theorem loop_of_stay {c : ℕ → δ} {s : σ} (h : turn (c 0) s = .stay) (n : ℕ) :
    loop turn full (n + 1) c s = loop turn full n (tail c) s := by
  rw [loop, h]

theorem loop_of_next {c : ℕ → δ} {s t : σ} (h : turn (c 0) s = .next t) (hfull : full t = false) (n : ℕ) :
    loop turn full (n + 1) c s = loop turn full n (tail c) t := by
  rw [loop, h]
  simp only [hfull]
  rfl

theorem returns_of_tail {c : ℕ → δ} {s t : σ}
    (h : ∀ n, loop turn full (n + 1) c s = loop turn full n (tail c) t) (htail : Returns turn full (tail c) t) :
    Returns turn full c s := by
  obtain ⟨n, u, hn⟩ := htail
  exact ⟨n + 1, u, by rw [h, hn]⟩

/-- What holds while the loop runs gives what holds when it has returned. -/
theorem of_returned {P Q : σ → Prop} (hstop : ∀ s, P s → Q s)
    (hstep : ∀ d s t, P s → turn d s = .next t → if full t then Q t else P t) {n : ℕ} {c : ℕ → δ} {s t : σ} (hs : P s)
    (h : loop turn full n c s = .returned t) : Q t := by
  induction n generalizing c s with
  | zero => exact nomatch h
  | succ n ih =>
      rcases hturn : turn (c 0) s with _ | _ | _ | u
      · rw [loop, hturn] at h
        rw [← Loop.returned.inj h]
        exact hstop s hs
      · rw [loop, hturn] at h
        exact nomatch h
      · rw [loop_of_stay hturn] at h
        exact ih hs h
      · have hu := hstep _ s u hs hturn
        by_cases hfull : full u = true
        · rw [loop, hturn] at h
          simp only [if_pos hfull] at h hu
          rw [← Loop.returned.inj h]
          exact hu
        · rw [loop_of_next hturn (Bool.eq_false_iff.2 hfull)] at h
          rw [if_neg hfull] at hu
          exact ih hu h

variable {P : σ → Prop} {rank : σ → ℕ}

/-- **Without traps the loop returns**: each state gives way to another one at last, and the states get smaller. -/
theorem returns_of_live (hrank : ∀ d s t, P s → turn d s = .next t → full t = false → P t ∧ rank t < rank s) {s : σ}
    (hs : P s) (hlive : ∀ t, Reach turn full s t → Live turn t) {c : ℕ → δ} (hc : Fair c) :
    Returns turn full c s := by
  induction hk : rank s using Nat.strong_induction_on generalizing s c with
  | h k ih =>
      obtain ⟨hfail, d, hd⟩ := hlive s .refl
      have hnext : ∀ {c : ℕ → δ}, Fair c → ∀ t, turn (c 0) s = .next t → Returns turn full c s := by
        intro c hc t hturn
        by_cases hfull : full t = true
        · exact ⟨1, t, by rw [loop, hturn]; exact if_pos hfull⟩
        · have hfull' := Bool.eq_false_iff.2 hfull
          have hreach : ∀ u, Reach turn full t u → Live turn u :=
            fun u hu => hlive u ((Reach.next .refl (c 0) hturn hfull').trans hu)
          obtain ⟨ht, hlt⟩ := hrank (c 0) s t hs hturn hfull'
          exact returns_of_tail (loop_of_next hturn hfull') (ih _ (hk ▸ hlt) ht hreach hc.tail rfl)
      obtain ⟨m, -, hm⟩ := hc d 0
      -- the draws up to one that does something
      induction m generalizing c with
      | zero =>
          rcases hturn : turn (c 0) s with _ | _ | _ | t
          · exact ⟨1, s, by rw [loop, hturn]⟩
          · exact absurd hturn (hfail _)
          · exact absurd hturn (hm ▸ hd)
          · exact hnext hc t hturn
      | succ m ihm =>
          rcases hturn : turn (c 0) s with _ | _ | _ | t
          · exact ⟨1, s, by rw [loop, hturn]⟩
          · exact absurd hturn (hfail _)
          · exact returns_of_tail (loop_of_stay hturn) (ihm hc.tail hm)
          · exact hnext hc t hturn

/-- A state with nothing but draws that stay holds the loop for ever. -/
theorem loop_of_all_stay {s : σ} (h : ∀ d, turn d s = .stay) (n : ℕ) (c : ℕ → δ) :
    loop turn full n c s = .running := by
  induction n generalizing c with
  | zero => rfl
  | succ n ih => rw [loop_of_stay (h _), ih]

/-- What returns in all fair sequences does so from every state it can reach. -/
theorem returns_of_reach {s t : σ} (h : ∀ c, Fair c → Returns turn full c s) (ht : Reach turn full s t) :
    ∀ c, Fair c → Returns turn full c t := by
  refine ht.invariant (P := fun t => ∀ c, Fair c → Returns turn full c t) h fun t d u ih hturn hfull c hc => ?_
  obtain ⟨n, v, hn⟩ := ih (cons d c) (hc.cons d)
  rcases n with _ | n
  · exact nomatch hn
  · rw [loop_of_next hturn hfull] at hn
    exact ⟨n, v, hn⟩

/-- **The loop returns in every fair sequence** if and only if it can reach no trap. -/
theorem returns_iff [Countable δ] [Nonempty δ]
    (hrank : ∀ d s t, P s → turn d s = .next t → full t = false → P t ∧ rank t < rank s) {s : σ} (hs : P s) :
    (∀ c, Fair c → Returns turn full c s) ↔ ∀ t, Reach turn full s t → Live turn t := by
  refine ⟨fun h t ht => ?_, fun h c hc => returns_of_live hrank hs h hc⟩
  have hreturns := returns_of_reach h ht
  obtain ⟨c, hc⟩ := exists_fair δ
  constructor
  · intro d hd
    obtain ⟨n, u, hn⟩ := hreturns (cons d c) (hc.cons d)
    rcases n with _ | n
    · exact nomatch hn
    · rw [loop, cons_zero, hd] at hn
      exact nomatch hn
  · by_contra hstay
    rw [not_exists] at hstay
    obtain ⟨n, u, hn⟩ := hreturns c hc
    rw [loop_of_all_stay fun d => not_not.1 (hstay d)] at hn
    exact nomatch hn

end DrawLoop
