import Mathlib.Data.Int.Order.Basic
import Mathlib.Data.List.Count
import Mathlib.Data.List.Infix
import Mathlib.Data.Multiset.AddSub
import Mathlib.Data.Multiset.Count

set_option autoImplicit false

/-! # One worker between a ready queue and a sleep queue

Anyone may append to the two queues, at any time; one worker takes from the ready queue, works, and
carries what has slept enough from the sleep queue to the ready queue. `Moves` lists what can happen,
at the grain of single queue operations, and `Sound` is what holds however the moves are mixed: nothing
is lost or made up, what never sleeps is worked on in order of arrival, and nothing is worked on early.

`wakeup a` is the time before which `a` is not to be worked on, `sleeps a` whether it enters through
the sleep queue. -/

namespace TwoQueue

variable {A : Type*}

/-- What the worker has in its hand: nothing, an element it took and has not started on, one it works
    on, one it took from the sleep queue, or one of these that it found due. -/
inductive Hand (A : Type*) where
  | empty
  | held (a : A)
  | working (a : A)
  | carried (a : A)
  | due (a : A)

namespace Hand

def items : Hand A → List A
  | .empty => []
  | .held a | .working a | .carried a | .due a => [a]

/-- On its way from the ready queue to the work. -/
def taken : Hand A → List A
  | .held a => [a]
  | _ => []

def underWork : Hand A → List A
  | .working a => [a]
  | _ => []

/-- On its way between the queues. -/
def transit : Hand A → List A
  | .carried a | .due a => [a]
  | _ => []

/-- What must have slept enough. -/
def ripe : Hand A → List A
  | .held a | .due a => [a]
  | _ => []

end Hand

/-- The queues, the hand and the clock, with the record of what was accepted, started (and when) and
    completed. -/
structure State (A : Type*) where
  clock : ℤ
  readyq : List A
  sleepq : List A
  hand : Hand A
  accepted : List A
  started : List (A × ℤ)
  completed : List A

/-- What can happen, one queue operation at a time. -/
inductive Moves (wakeup : A → ℤ) (sleeps : A → Bool) (s : State A) : State A → Prop
  /-- Nothing but time passes. -/
  | tick (now : ℤ) (h : s.clock ≤ now) : Moves wakeup sleeps s { s with clock := now }
  | acceptReady (a : A) (hs : sleeps a = false) (hw : wakeup a ≤ s.clock) :
      Moves wakeup sleeps s { s with readyq := s.readyq ++ [a], accepted := s.accepted ++ [a] }
  | acceptSleep (a : A) (hs : sleeps a = true) :
      Moves wakeup sleeps s { s with sleepq := s.sleepq ++ [a], accepted := s.accepted ++ [a] }
  | take (a : A) (rest : List A) (hq : s.readyq = a :: rest) (hh : s.hand = .empty) :
      Moves wakeup sleeps s { s with readyq := rest, hand := .held a }
  | start (a : A) (hh : s.hand = .held a) :
      Moves wakeup sleeps s { s with hand := .working a, started := s.started ++ [(a, s.clock)] }
  | complete (a : A) (hh : s.hand = .working a) :
      Moves wakeup sleeps s { s with hand := .empty, completed := s.completed ++ [a] }
  | lift (a : A) (rest : List A) (hq : s.sleepq = a :: rest) (hh : s.hand = .empty) :
      Moves wakeup sleeps s { s with sleepq := rest, hand := .carried a }
  | find (a : A) (hh : s.hand = .carried a) (hw : wakeup a ≤ s.clock) :
      Moves wakeup sleeps s { s with hand := .due a }
  | wake (a : A) (hh : s.hand = .due a) :
      Moves wakeup sleeps s { s with readyq := s.readyq ++ [a], hand := .empty }
  | rest (a : A) (hh : s.hand = .carried a) :
      Moves wakeup sleeps s { s with sleepq := s.sleepq ++ [a], hand := .empty }

/-- What holds however the moves are mixed. -/
structure Sound (wakeup : A → ℤ) (sleeps : A → Bool) (s : State A) : Prop where
  conserved : ∀ p : A → Bool, s.accepted.countP p
    = s.completed.countP p + s.readyq.countP p + s.sleepq.countP p + s.hand.items.countP p
  begun : ∀ p : A → Bool, (s.started.map Prod.fst).countP p
    = s.completed.countP p + s.hand.underWork.countP p
  inOrder : s.accepted.filter (fun a => !sleeps a)
    = (s.started.map Prod.fst ++ s.hand.taken ++ s.readyq).filter (fun a => !sleeps a)
  asleep : ∀ a ∈ s.sleepq ++ s.hand.transit, sleeps a = true
  ripe : ∀ a ∈ s.readyq ++ s.hand.ripe, wakeup a ≤ s.clock
  onTime : ∀ e ∈ s.started, wakeup e.1 ≤ e.2

variable {wakeup : A → ℤ} {sleeps : A → Bool} {s s' : State A}

/-! ## One move -/

theorem Moves.conserved (h : Moves wakeup sleeps s s') (hs : Sound wakeup sleeps s)
    (p : A → Bool) : s'.accepted.countP p
      = s'.completed.countP p + s'.readyq.countP p + s'.sleepq.countP p + s'.hand.items.countP p := by
  have hc := hs.conserved p
  rcases h with ⟨now, h⟩ | ⟨a, ha, hw⟩ | ⟨a, ha⟩ | ⟨a, rest, hq, hh⟩ | ⟨a, hh⟩ | ⟨a, hh⟩ |
    ⟨a, rest, hq, hh⟩ | ⟨a, hh, hw⟩ | ⟨a, hh⟩ | ⟨a, hh⟩
  · exact hc
  all_goals
    simp only [*, Hand.items, List.countP_append, List.countP_cons, List.countP_nil] at hc ⊢ <;> omega

theorem Moves.begun (h : Moves wakeup sleeps s s') (hs : Sound wakeup sleeps s) (p : A → Bool) :
    (s'.started.map Prod.fst).countP p = s'.completed.countP p + s'.hand.underWork.countP p := by
  have hb := hs.begun p
  rcases h with ⟨now, h⟩ | ⟨a, ha, hw⟩ | ⟨a, ha⟩ | ⟨a, rest, hq, hh⟩ | ⟨a, hh⟩ | ⟨a, hh⟩ |
    ⟨a, rest, hq, hh⟩ | ⟨a, hh, hw⟩ | ⟨a, hh⟩ | ⟨a, hh⟩
  · exact hb
  · exact hb
  · exact hb
  all_goals
    simp only [*, Hand.underWork, List.map_append, List.map_cons, List.map_nil, List.countP_append,
      List.countP_cons, List.countP_nil] at hb ⊢ <;> omega

/-- What never sleeps leaves the ready queue in the order it entered; what the worker brings there
    from the sleep queue does not count. -/
theorem Moves.inOrder (h : Moves wakeup sleeps s s') (hs : Sound wakeup sleeps s) :
    s'.accepted.filter (fun a => !sleeps a)
      = (s'.started.map Prod.fst ++ s'.hand.taken ++ s'.readyq).filter (fun a => !sleeps a) := by
  have ho := hs.inOrder
  have hasleep := hs.asleep
  rcases h with ⟨now, h⟩ | ⟨a, ha, hw⟩ | ⟨a, ha⟩ | ⟨a, rest, hq, hh⟩ | ⟨a, hh⟩ | ⟨a, hh⟩ |
    ⟨a, rest, hq, hh⟩ | ⟨a, hh, hw⟩ | ⟨a, hh⟩ | ⟨a, hh⟩
  · exact ho
  · simp only [List.filter_append] at ho ⊢
    rw [ho, List.append_assoc]
  · simp only [List.filter_append] at ho ⊢
    simp [ho, ha]
  · simpa [hq, hh, Hand.taken] using ho
  · simpa [hh, Hand.taken] using ho
  · simpa [hh, Hand.taken] using ho
  · simpa [hh, Hand.taken] using ho
  · simpa [hh, Hand.taken] using ho
  · -- what comes from the sleep queue is not counted
    have ha : sleeps a = true := hasleep a (by simp [hh, Hand.transit])
    simpa [hh, ha, Hand.taken] using ho
  · simpa [hh, Hand.taken] using ho

theorem Moves.asleep (h : Moves wakeup sleeps s s') (hs : Sound wakeup sleeps s) :
    ∀ a ∈ s'.sleepq ++ s'.hand.transit, sleeps a = true := by
  have hasleep := hs.asleep
  rcases h with ⟨now, h⟩ | ⟨a, ha, hw⟩ | ⟨a, ha⟩ | ⟨a, rest, hq, hh⟩ | ⟨a, hh⟩ | ⟨a, hh⟩ |
    ⟨a, rest, hq, hh⟩ | ⟨a, hh, hw⟩ | ⟨a, hh⟩ | ⟨a, hh⟩ <;>
    simp_all [Hand.transit, or_imp, forall_and]

theorem Moves.ripe (h : Moves wakeup sleeps s s') (hs : Sound wakeup sleeps s) :
    ∀ a ∈ s'.readyq ++ s'.hand.ripe, wakeup a ≤ s'.clock := by
  have hripe := hs.ripe
  rcases h with ⟨now, h⟩ | ⟨a, ha, hw⟩ | ⟨a, ha⟩ | ⟨a, rest, hq, hh⟩ | ⟨a, hh⟩ | ⟨a, hh⟩ |
    ⟨a, rest, hq, hh⟩ | ⟨a, hh, hw⟩ | ⟨a, hh⟩ | ⟨a, hh⟩
  · intro b hb
    exact le_trans (hripe b hb) h
  all_goals simp_all [Hand.ripe, or_imp, forall_and]

theorem Moves.onTime (h : Moves wakeup sleeps s s') (hs : Sound wakeup sleeps s) :
    ∀ e ∈ s'.started, wakeup e.1 ≤ e.2 := by
  have htime := hs.onTime
  rcases h with ⟨now, h⟩ | ⟨a, ha, hw⟩ | ⟨a, ha⟩ | ⟨a, rest, hq, hh⟩ | ⟨a, hh⟩ | ⟨a, hh⟩ |
    ⟨a, rest, hq, hh⟩ | ⟨a, hh, hw⟩ | ⟨a, hh⟩ | ⟨a, hh⟩
  case start =>
    intro e he
    rcases List.mem_append.1 he with he | he
    · exact htime e he
    · obtain rfl := List.mem_singleton.1 he
      exact hs.ripe a (by simp [hh, Hand.ripe])
  all_goals exact htime

/-- **A move keeps all of it.** -/
theorem Sound.move (hs : Sound wakeup sleeps s) (h : Moves wakeup sleeps s s') :
    Sound wakeup sleeps s' :=
  ⟨h.conserved hs, h.begun hs, h.inOrder hs, h.asleep hs, h.ripe hs, h.onTime hs⟩

/-! ## What it says -/

theorem Sound.multiset_accepted (hs : Sound wakeup sleeps s) :
    (s.accepted : Multiset A) = (s.completed : Multiset A) + (s.readyq : Multiset A)
      + (s.sleepq : Multiset A) + (s.hand.items : Multiset A) := by
  classical
  ext a
  simp only [Multiset.count_add, Multiset.coe_count]
  exact hs.conserved (· == a)

/-- What one party sent and never sleeps is worked on in the order it was accepted. -/
theorem Sound.started_prefix (hs : Sound wakeup sleeps s) (p : A → Bool) :
    (s.started.map Prod.fst).filter (fun a => !sleeps a && p a)
      <+: s.accepted.filter (fun a => !sleeps a && p a) := by
  have hsplit : ∀ l : List A, l.filter (fun a => !sleeps a && p a)
      = (l.filter (fun a => !sleeps a)).filter p := by
    intro l
    rw [List.filter_filter]
    exact List.filter_congr fun a _ => Bool.and_comm _ _
  rw [hsplit, hsplit s.accepted, hs.inOrder, List.append_assoc, List.filter_append, List.filter_append]
  exact List.prefix_append _ _

end TwoQueue
