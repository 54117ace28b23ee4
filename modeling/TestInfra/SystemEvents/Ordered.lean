import TestInfra.SystemEvents.Validate

set_option autoImplicit false

/-! # What ordered validation finds

Of an event of the server only what the recorded event has counts: `restrict` is the event cut down to it, at every
depth. `validate` takes for each recorded event the first event of the server that will do, and this finds the
recorded events in order whenever they are there. -/

namespace TestInfra.SystemEvents

open PyText

variable {α : Type}

/-! ## Events cut down -/

mutual

/-- The value cut down to the fields of the dictionaries that are expected. -/
def restrictValue (value : Json α) : Json α → Json α
  | .dict expected =>
    match value with
    | .dict items => .dict (restrict items expected)
    | _ => value
  | _ => value

/-- The event cut down to the fields of the expected one. -/
def restrict (event : Event α) : Event α → Event α
  | [] => []
  | (key, expected) :: rest =>
    match Assoc.find key event with
    | none => restrict event rest
    | some value => (key, restrictValue value expected) :: restrict event rest

end

mutual

/-- Where a dictionary is expected there is one. -/
def ValueShaped (value : Json α) : Json α → Prop
  | .dict expected =>
    match value with
    | .dict items => Shaped items expected
    | _ => False
  | _ => True

/-- The fields that the event shares with the expected one have its nested shape. -/
def Shaped (event : Event α) : Event α → Prop
  | [] => True
  | (key, expected) :: rest => (∀ value, Assoc.find key event = some value → ValueShaped value expected) ∧
      Shaped event rest

end

/-- The event, cut down to the fields of the recorded one, equals it. -/
def RestrictsTo [DecidableEq α] (recorded event : Event α) : Prop :=
  Json.pyEq (.dict (restrict event recorded)) (.dict recorded) = true

section Compare

variable [DecidableEq α] {expected event : Event α}

theorem extractReqValues_of_values (h : Shaped event expected)
    (hvalues : ∀ p ∈ expected, ∀ value, ValueShaped value p.2 →
      extractValue value p.2 = .ok (restrictValue value p.2)) :
    extractReqValues (.dict event) expected = .ok (restrict event expected) := by
  induction expected with
  | nil => rfl
  | cons p expected ih =>
      obtain ⟨key, wanted⟩ := p
      rw [List.forall_mem_cons] at hvalues
      obtain ⟨hvalue, hrest⟩ := h
      unfold extractReqValues restrict
      rw [ih hrest hvalues.2]
      cases hfind : Assoc.find key event with
      | none =>
          have hin : isIn key (.dict event) = .ok false := by simp [isIn, hfind]
          rw [hin]
          rfl
      | some value =>
          have hin : isIn key (.dict event) = .ok true := by simp [isIn, hfind]
          have hitem : getItem key (.dict event) = .ok value := by simp [getItem, item, hfind]
          rw [hin, hitem]
          simp only [Bind.bind, Except.bind, hvalues.1 value (hvalue value hfind), if_true]
          rfl

theorem extractValue_eq_restrictValue {expected : Json α} (value : Json α) (h : ValueShaped value expected) :
    extractValue value expected = .ok (restrictValue value expected) := by
  induction expected using Json.induct generalizing value with
  | scalar a => rfl
  | str text => rfl
  | list items _ => rfl
  | dict expected ih =>
      cases value with
      | dict items =>
          unfold extractValue
          rw [extractReqValues_of_values h fun p hp value hvalue => ih p hp value hvalue]
          rfl
      | _ => exact h.elim

/-- What `extract_req_values` makes of an event of the right shape. -/
theorem extractReqValues_eq_restrict (h : Shaped event expected) :
    extractReqValues (.dict event) expected = .ok (restrict event expected) :=
  extractReqValues_of_values h fun _ _ => extractValue_eq_restrictValue

theorem matches_iff (h : Shaped event expected) : Matches expected event ↔ RestrictsTo expected event := by
  simp [Matches, RestrictsTo, extractReqValues_eq_restrict h]

/-! ## When an event is missing -/

variable {ignoreOrder : Bool} {wanted seen listed before after : List (Event α)}

namespace EventHelper

variable {h : EventHelper α}

/-- When the recorded events are not there in order, the loop ends with a failure. The induction is that of
    `compareEvents_spec`. -/
theorem compareEvents_of_not_met (hevents : h.events = wanted.map .event) (hcounter : wanted.length ≤ h.counter)
    (hwanted : wanted = before ++ expected :: after)
    (hnext : InOrder.Next (Counts ignoreOrder wanted) before expected seen)
    (hnot : ¬ List.SublistForall₂ (Counts ignoreOrder wanted) wanted (seen ++ listed)) {failures : List (Failure α)}
    (hok : h.compareEvents ignoreOrder listed before.length = .ok failures) :
    ∃ entry, failures = [.unableToValidate entry] := by
  have hentry := getElem?_events hevents hwanted
  induction listed generalizing seen before expected after with
  | nil =>
      simp only [compareEvents, hentry, Except.ok.injEq] at hok
      exact ⟨_, hok.symm⟩
  | cons event rest ih =>
      rw [List.append_cons] at hnot
      cases hfound : extractReqValues (.dict event) expected with
      | error r =>
          rw [compareEvents_of_error hentry hfound] at hok
          cases hok
      | ok found =>
          rw [compareEvents_of_ok hentry hfound, hevents] at hok
          by_cases hacc : accepted ignoreOrder (wanted.map .event) found expected = true
          · have hcounts : Counts ignoreOrder wanted expected event := ⟨found, hfound, hacc⟩
            have hlength : (before ++ [expected]).length = before.length + 1 := by simp
            rw [if_pos hacc, ← hlength] at hok
            rcases after with _ | ⟨next, after⟩
            · have hmet := hnext.met_of_hit hcounts
              rw [← hwanted] at hmet
              exact absurd (InOrder.append_right hmet rest) hnot
            · have hwanted' : wanted = (before ++ [expected]) ++ next :: after := by
                rw [hwanted, List.append_cons]
              have hentry' := getElem?_events hevents hwanted'
              have hmore : (before ++ [expected]).length ≠ h.counter := by
                rw [hwanted', List.length_append, List.length_cons] at hcounter
                omega
              rw [if_neg hmore] at hok
              exact ih hwanted' (hnext.hit hcounts next) hnot hok hentry'
          · have hmiss : ¬ Counts ignoreOrder wanted expected event := by
              rintro ⟨found', hfound', hacc'⟩
              rw [hfound, Except.ok.injEq] at hfound'
              exact hacc (hfound' ▸ hacc')
            rw [if_neg hacc] at hok
            exact ih hwanted (hnext.miss hmiss) hnot hok hentry

/-- What `validate` makes of recorded events that are all held: when it returns, it misses an event exactly when they
    are not there in order. -/
theorem validate_complete_iff {strptime : Text → Option ℤ} (hevents : h.events = wanted.map .event)
    (hcounter : h.counter = wanted.length) (hne : wanted ≠ []) {server : Server α} {since : Option Text}
    {eventsCount : ℤ} {failures : List (Failure α)}
    (hok : h.validate strptime server since eventsCount ignoreOrder = .ok failures) :
    (∀ entry, .unableToValidate entry ∉ failures) ↔
      List.SublistForall₂ (Counts ignoreOrder wanted) wanted
        (server.getEvents (h.sinceTime since) eventsCount) := by
  refine ⟨fun hnone => ?_, not_missed_of_met hevents hcounter.ge hne server since eventsCount ignoreOrder hok⟩
  by_contra hnot
  obtain ⟨expected, after, hwanted⟩ := List.exists_cons_of_ne_nil hne
  have hsome : h.events ≠ [] := by simp [hevents, hne]
  obtain ⟨seen, hseen, compared, hcompared, rfl⟩ := (validate_eq_ok_iff hsome).1 hok
  obtain ⟨entry, rfl⟩ := compareEvents_of_not_met hevents hcounter.ge hwanted (InOrder.next_nil expected) hnot
    hcompared
  refine hnone entry ((unableToValidate_mem_iff (of_duplicateEventIdsPresent hseen).2).2 ?_)
  exact List.mem_singleton.2 rfl

omit [DecidableEq α] in
/-- A history of up to `max_events` recorded events holds them all, and counts them. -/
theorem recorded_all {calls : List (Call α)} (hserial : .enableParallelEvents ∉ calls)
    (hmax : (recorded calls).length ≤ maxEvents) :
    ∃ h, run calls new = .ok h ∧ h.events = (recorded calls).map .event ∧ h.counter = (recorded calls).length := by
  obtain ⟨h, hrun, hrec⟩ := recorded_new.run hserial
  have hrec : Recorded (recorded calls) h := hrec
  have hheld : held (recorded calls) = recorded calls := by
    rw [held, Nat.sub_eq_zero_of_le hmax, List.drop_zero]
  exact ⟨h, hrun, hheld ▸ hrec.events_eq, hrec.counter_eq⟩

/-- **Ordered validation is sound and complete**: after any history of one to `max_events` recorded events, none of
    them in a parallel phase, `validate` does not miss an event exactly when the recorded ones are, in order, what is
    left of events of the server, wherever these have the nested shape of those recorded. It returns unless an event
    of the server has no uuid or no time. -/
theorem validate_ordered_iff (strptime : Text → Option ℤ) (calls : List (Call α))
    (hserial : .enableParallelEvents ∉ calls) (hone : 1 ≤ (recorded calls).length)
    (hmax : (recorded calls).length ≤ maxEvents) :
    ∃ h, run calls new = .ok h ∧ ∀ (server : Server α) (since : Option Text) (eventsCount : ℤ),
      (∀ event ∈ server.getEvents (h.sinceTime since) eventsCount, ∀ expected ∈ recorded calls,
        Shaped event expected) →
      ((∃ failures, h.validate strptime server since eventsCount false = .ok failures) ↔
        ∀ event ∈ server.getEvents none (-1), Readable strptime event) ∧
      ∀ failures, h.validate strptime server since eventsCount false = .ok failures →
        ((∀ entry, .unableToValidate entry ∉ failures) ↔
          List.SublistForall₂ RestrictsTo (recorded calls) (server.getEvents (h.sinceTime since) eventsCount)) := by
  obtain ⟨h, hrun, hevents, hcounter⟩ := recorded_all hserial hmax
  have hne : recorded calls ≠ [] := List.length_pos_iff.1 hone
  refine ⟨h, hrun, fun server since eventsCount hshaped => ⟨?_, fun failures hok => ?_⟩⟩
  · have hcomparable : Comparable false (recorded calls) [] (server.getEvents (h.sinceTime since) eventsCount) :=
      comparable_of_forall fun event hevent expected hexpected =>
        ⟨_, extractReqValues_eq_restrict (hshaped event hevent expected hexpected)⟩
    rw [validate_returns_iff hevents hcounter.ge hne]
    exact ⟨fun h => h.1, fun h => ⟨h, hcomparable, fun _ => hcounter⟩⟩
  · rw [validate_complete_iff hevents hcounter hne hok]
    -- for the events at hand, to count is to restrict to the recorded event
    have hcounts : ∀ expected ∈ recorded calls, ∀ event ∈ server.getEvents (h.sinceTime since) eventsCount,
        (Counts false (recorded calls) expected event ↔ RestrictsTo expected event) :=
      fun expected hexpected event hevent => matches_iff (hshaped event hevent expected hexpected)
    constructor
    · exact fun hmet => InOrder.imp hmet fun expected hexpected event hevent =>
        (hcounts expected hexpected event hevent).1
    · exact fun hmet => InOrder.imp hmet fun expected hexpected event hevent =>
        (hcounts expected hexpected event hevent).2

end EventHelper

end Compare

section Sample

theorem shaped_listedEvent (i : ℕ) : Shaped (listedEvent i) sampleEvent :=
  ⟨fun _ _ => trivial, fun _ _ => trivial, trivial⟩

/-- Three events are recorded: none is missed where the server lists four, and one is where it lists two. -/
theorem validate_ordered_three :
    ∃ h, EventHelper.run (sampleCalls 3) .new = .ok h ∧
      (∃ failures, h.validate sampleTime (sampleServer 4) none (-1) false = .ok failures ∧
        ∀ entry, .unableToValidate entry ∉ failures) ∧
      ∃ failures, h.validate sampleTime (sampleServer 2) none (-1) false = .ok failures ∧
        ¬ ∀ entry, .unableToValidate entry ∉ failures := by
  have hlength : (EventHelper.recorded (sampleCalls 3)).length = 3 := by rw [recorded_sampleCalls]; rfl
  obtain ⟨h, hrun, hiff⟩ := EventHelper.validate_ordered_iff sampleTime (sampleCalls 3) (sampleCalls_serial 3)
    (hlength.ge.trans' (by decide)) (hlength.trans_le three_le_maxEvents)
  rw [recorded_sampleCalls] at hiff
  have hlisted (n : ℕ) : ∃ failures, h.validate sampleTime (sampleServer n) none (-1) false = .ok failures ∧
      ((∀ entry, .unableToValidate entry ∉ failures) ↔
        List.SublistForall₂ RestrictsTo (List.replicate 3 sampleEvent) ((List.range n).map listedEvent)) := by
    obtain ⟨hreturns, hcomplete⟩ := hiff (sampleServer n) none (-1) (by
      intro event hevent expected hexpected
      obtain ⟨i, -, rfl⟩ := List.mem_map.1 hevent
      rw [List.eq_of_mem_replicate hexpected]
      exact shaped_listedEvent i)
    obtain ⟨failures, hok⟩ := hreturns.2 (by
      intro event hevent
      obtain ⟨i, -, rfl⟩ := List.mem_map.1 hevent
      exact readable_listedEvent i)
    exact ⟨failures, hok, hcomplete failures hok⟩
  have hmatches (i : ℕ) := (matches_iff (shaped_listedEvent i)).1 (matches_listedEvent i)
  obtain ⟨failures, hok, hmet⟩ := hlisted 4
  obtain ⟨failures', hok', hmet'⟩ := hlisted 2
  refine ⟨h, hrun, ⟨failures, hok, hmet.2 ?_⟩, failures', hok', fun hnone => ?_⟩
  · exact .cons (hmatches 0) (.cons (hmatches 1) (.cons (hmatches 2) .nil))
  · obtain ⟨events, hevents, hsub⟩ := List.sublistForall₂_iff.1 (hmet'.1 hnone)
    have hthree := hevents.length_eq
    have htwo := hsub.length_le
    simp at hthree htwo
    omega

end Sample

end TestInfra.SystemEvents
