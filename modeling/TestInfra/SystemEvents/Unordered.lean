import Mathlib.Combinatorics.Hall.Basic
import TestInfra.SystemEvents.Ordered

set_option autoImplicit false

/-! # What unordered validation finds

With `ignore_order`, what is left of an event of the server may equal any of the recorded events. The loop counts such
events, and does not look whether one has been counted before: two copies of one recorded event count for two. -/

namespace TestInfra.SystemEvents

open PyText EventHelper

variable {α : Type} [DecidableEq α]

/-! ## Matchings -/

instance (expected event : Event α) : Decidable (Matches expected event) :=
  match h : extractReqValues (.dict event) expected with
  | .ok found => decidable_of_iff (Json.pyEq (.dict found) (.dict expected) = true) (by simp [Matches, h])
  | .error _ => isFalse (by simp [Matches, h])

/-- Every recorded event has an event of the server of its own, one that restricts to it. -/
def Matched (recorded listed : List (Event α)) : Prop :=
  ∃ f : Fin recorded.length → Fin listed.length, Function.Injective f ∧ ∀ i, Matches recorded[i] listed[f i]

/-- For some of the recorded events, whichever they are, the server lists at least as many events that restrict to one
    of them. -/
def Enough (recorded listed : List (Event α)) : Prop :=
  ∀ some : Finset (Fin recorded.length),
    some.card ≤ (Finset.univ.filter fun j : Fin listed.length => ∃ i ∈ some, Matches recorded[i] listed[j]).card

theorem matched_iff_enough {recorded listed : List (Event α)} : Matched recorded listed ↔ Enough recorded listed := by
  have hall := Fintype.all_card_le_filter_rel_iff_exists_injective
    fun (i : Fin recorded.length) (j : Fin listed.length) => Matches recorded[i] listed[j]
  rw [Matched, ← hall, Enough]
  exact forall_congr' fun some => by congr!

/-! ## Validation without order -/

/-- **Unordered validation counts instead of matching**: `validate` is right not to miss an event exactly when the
    server lists enough events for any of the recorded ones; or else an event cannot be read or compared; or the
    events that are looked at do not in turn restrict to recorded ones. -/
theorem validate_unordered_iff (strptime : Text → Option ℤ) (calls : List (Call α))
    (hserial : .enableParallelEvents ∉ calls) (hmax : (recorded calls).length ≤ maxEvents) :
    ∃ h, run calls new = .ok h ∧ ∀ (server : Server α) (since : Option Text) (eventsCount : ℤ),
      (∀ failures, h.validate strptime server since eventsCount true = .ok failures →
        (∀ entry, .unableToValidate entry ∉ failures) →
          Matched (recorded calls) (server.getEvents (h.sinceTime since) eventsCount)) ↔
      ((∀ event ∈ server.getEvents none (-1), Readable strptime event) →
        Comparable true (recorded calls) [] (server.getEvents (h.sinceTime since) eventsCount) →
        List.SublistForall₂ (Counts true (recorded calls)) (recorded calls)
          (server.getEvents (h.sinceTime since) eventsCount) →
        Enough (recorded calls) (server.getEvents (h.sinceTime since) eventsCount)) := by
  obtain ⟨h, hrun, hevents, hcounter⟩ := recorded_all hserial hmax
  refine ⟨h, hrun, fun server since eventsCount => ?_⟩
  rw [← matched_iff_enough]
  by_cases hnil : recorded calls = []
  · -- without recorded events there is nothing to match
    have hmatched : Matched (recorded calls) (server.getEvents (h.sinceTime since) eventsCount) := by
      rw [hnil]
      exact ⟨Fin.elim0, fun i => i.elim0, fun i => i.elim0⟩
    exact ⟨fun _ _ _ _ => hmatched, fun _ _ _ _ => hmatched⟩
  · have hreturns : (∃ failures, h.validate strptime server since eventsCount true = .ok failures) ↔ _ :=
      validate_returns_iff hevents hcounter.ge hnil server since eventsCount true
    constructor
    · intro hright hread hcomparable hmet
      obtain ⟨failures, hok⟩ := hreturns.2 ⟨hread, hcomparable, fun _ => hcounter⟩
      exact hright failures hok ((validate_complete_iff hevents hcounter hnil hok).2 hmet)
    · intro hmatched failures hok hnone
      obtain ⟨hread, hcomparable, -⟩ := hreturns.1 ⟨failures, hok⟩
      exact hmatched hread hcomparable ((validate_complete_iff hevents hcounter hnil hok).1 hnone)

/-- Three recorded events, of which the server lists two or four. -/
theorem validate_unordered_three :
    ∃ h, run (sampleCalls 3) new = .ok h ∧ ∀ n ∈ [2, 4], ∀ failures,
      h.validate sampleTime (sampleServer n) none (-1) true = .ok failures →
        (∀ entry, .unableToValidate entry ∉ failures) →
          Matched (List.replicate 3 sampleEvent) ((sampleServer n).getEvents (h.sinceTime none) (-1)) := by
  have hlength : (recorded (sampleCalls 3)).length = 3 := by rw [recorded_sampleCalls]; rfl
  obtain ⟨h, hrun, hiff⟩ := validate_unordered_iff sampleTime (sampleCalls 3) (sampleCalls_serial 3)
    (hlength.trans_le three_le_maxEvents)
  rw [recorded_sampleCalls] at hiff
  refine ⟨h, hrun, List.forall_mem_cons.2 ⟨?_, List.forall_mem_singleton.2 ?_⟩⟩
  · -- one of the three is missed
    refine (hiff (sampleServer 2) none (-1)).2 fun _ _ hmet => ?_
    obtain ⟨events, hevents, hsub⟩ := List.sublistForall₂_iff.1 hmet
    have hthree := hevents.length_eq
    have htwo : events.length ≤ ((List.range 2).map listedEvent).length := hsub.length_le
    simp at hthree htwo
    omega
  · refine (hiff (sampleServer 4) none (-1)).2 fun _ _ _ => matched_iff_enough.1 ?_
    have hlisted : (sampleServer 4).getEvents (h.sinceTime none) (-1) = (List.range 4).map listedEvent := rfl
    rw [hlisted]
    refine ⟨Fin.castLE (by simp), Fin.castLE_injective _, fun i => ?_⟩
    rw [Fin.getElem_fin, Fin.getElem_fin, List.getElem_replicate, List.getElem_map, List.getElem_range]
    exact matches_listedEvent _

/-! ## Two copies of one event -/

section Sample

/-- Another event, with the same fields. -/
def otherEvent : Event ℤ := [("event_id".toList, .scalar 1), ("component".toList, .str "ns_server".toList)]

/-- Two different events are recorded. -/
def twoCalls : List (Call ℤ) :=
  [.setTestStartTime "2022-01-01T00:00:00.000Z".toList, .addEvent sampleEvent, .addEvent otherEvent]

theorem not_matches_otherEvent (i : ℕ) : ¬ Matches otherEvent (listedEvent i) := by
  rintro ⟨found, hfound, heq⟩
  obtain rfl : sampleEvent = found := Except.ok.inj hfound
  exact absurd heq (by decide)

theorem recorded_twoCalls : recorded twoCalls = [sampleEvent, otherEvent] := rfl

theorem counts_listedEvent {expected : Event ℤ} (h : expected = sampleEvent ∨ expected = otherEvent) (i : ℕ) :
    Counts true [sampleEvent, otherEvent] expected (listedEvent i) := by
  rcases h with rfl | rfl
  · exact ⟨sampleEvent, rfl, by decide⟩
  · exact ⟨sampleEvent, rfl, by decide⟩

/-- The server lists one of the two recorded events twice, and the other is not missed. -/
theorem validate_unordered_two_copies :
    ∃ h failures, run twoCalls new = .ok h ∧
      h.validate sampleTime (sampleServer 2) none (-1) true = .ok failures ∧
      (∀ entry, .unableToValidate entry ∉ failures) ∧
      ¬ Matched (recorded twoCalls) ((sampleServer 2).getEvents (h.sinceTime none) (-1)) := by
  obtain ⟨h, hrun, hevents, hcounter⟩ := @recorded_all _ twoCalls (by simp [twoCalls])
    (Nat.le_of_succ_le three_le_maxEvents)
  rw [recorded_twoCalls] at hevents hcounter ⊢
  have hne : [sampleEvent, otherEvent] ≠ [] := List.cons_ne_nil _ _
  have hlisted : ∀ since, (sampleServer 2).getEvents since (-1) = [listedEvent 0, listedEvent 1] := fun _ => rfl
  have hread : ∀ event ∈ (sampleServer 2).getEvents none (-1), Readable sampleTime event := by
    simp [hlisted, readable_listedEvent]
  have hcomparable : Comparable true [sampleEvent, otherEvent] []
      ((sampleServer 2).getEvents (h.sinceTime none) (-1)) := by
    refine comparable_of_forall fun event hevent expected hexpected => ?_
    simp only [hlisted, List.mem_cons, List.not_mem_nil, or_false] at hevent hexpected
    rcases hevent with rfl | rfl
    · obtain ⟨found, hfound, -⟩ := counts_listedEvent hexpected 0
      exact ⟨found, hfound⟩
    · obtain ⟨found, hfound, -⟩ := counts_listedEvent hexpected 1
      exact ⟨found, hfound⟩
  obtain ⟨failures, hok⟩ := (validate_returns_iff hevents hcounter.ge hne (sampleServer 2) none (-1) true).2
    ⟨hread, hcomparable, fun _ => hcounter⟩
  refine ⟨h, failures, hrun, hok, (validate_complete_iff hevents hcounter hne hok).2 ?_, ?_⟩
  · rw [hlisted]
    exact .cons (counts_listedEvent (.inl rfl) 0) (.cons (counts_listedEvent (.inr rfl) 1) .nil)
  · rintro ⟨f, -, hf⟩
    have hother : Matches otherEvent ((sampleServer 2).getEvents (h.sinceTime none) (-1))[f 1] := hf 1
    obtain ⟨i, -, hi⟩ := List.mem_map.1 (List.getElem_mem (f 1).isLt)
    exact not_matches_otherEvent i (hi ▸ hother)

end Sample

end TestInfra.SystemEvents
