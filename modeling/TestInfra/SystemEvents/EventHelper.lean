import TestInfra.Lib.Json
import Mathlib.Data.List.Infix

set_option autoImplicit false

/-! # The events a test expects

`EventHelper` records the events that a test raises and compares them with the events that the server lists. Only
as many events are held as the server keeps: beyond that, recording one drops the oldest (`Recorded.run`). The
counter goes on counting. -/

namespace TestInfra.SystemEvents

open PyText

/-! ## Records -/

inductive Raised where
  | indexError
  | keyError
  | typeError
  | valueError
  | attributeError
deriving DecidableEq, Repr

/-- `CbServer.sys_event_def_logs`, which is `EventHelper.max_events`. Nothing depends on the number, and it is
    not to be counted out in a proof. -/
@[irreducible] def maxEvents : ℕ := 10000

/-- `CbServer.sys_event_log_uuid_uniqueness_time`, in microseconds. -/
def uuidUniquenessTime : ℤ := 60 * 1000000

/-- An event: a dictionary. -/
abbrev Event (α : Type) := List (Text × Json α)

/-- What `self.events` holds: an event, or the events of a parallel phase. -/
inductive Entry (α : Type) where
  | event (event : Event α)
  | group (events : List (Event α))

structure EventHelper (α : Type) where
  testStartTime : Option Text
  events : List (Entry α)
  parallelEvents : Bool
  counter : ℕ

variable {α : Type}

namespace EventHelper

/-- `EventHelper.__init__`. -/
def new : EventHelper α := { testStartTime := none, events := [], parallelEvents := false, counter := 0 }

/-- `set_test_start_time` at a time that is written `now`. -/
def setTestStartTime (now : Text) (h : EventHelper α) : EventHelper α := { h with testStartTime := some now }

def enableParallelEvents (h : EventHelper α) : EventHelper α :=
  { h with parallelEvents := true, events := h.events ++ [.group []] }

def disableParallelEvents (h : EventHelper α) : EventHelper α := { h with parallelEvents := false }

/-- `self.events[-1].append(event_dict)`; a dictionary has no `append`. -/
def appendToLast (event : Event α) : List (Entry α) → Except Raised (List (Entry α))
  | [] => .error .indexError
  | [.event _] => .error .attributeError
  | [.group events] => .ok [.group (events ++ [event])]
  | entry :: rest => (appendToLast event rest).map (entry :: ·)

/-- `EventCounter.max_events_reached`. -/
def maxEventsReached (counter : ℕ) : Bool := maxEvents < counter

/-- `self.events.pop(0)`. -/
def popFirst : List (Entry α) → Except Raised (List (Entry α))
  | [] => .error .indexError
  | _ :: rest => .ok rest

/-- `add_event`. -/
def addEvent (event : Event α) (h : EventHelper α) : Except Raised (EventHelper α) :=
  if h.testStartTime = none then .ok h
  else do
    let events ← if h.parallelEvents then appendToLast event h.events else .ok (h.events ++ [.event event])
    let counter := h.counter + 1
    -- the counter is not taken back when an event is dropped
    let events ← if maxEventsReached counter then popFirst events else .ok events
    return { h with events := events, counter := counter }

/-- The calls that change a helper. -/
inductive Call (α : Type) where
  | setTestStartTime (now : Text)
  | addEvent (event : Event α)
  | enableParallelEvents
  | disableParallelEvents

def step (h : EventHelper α) : Call α → Except Raised (EventHelper α)
  | .setTestStartTime now => .ok (h.setTestStartTime now)
  | .addEvent event => h.addEvent event
  | .enableParallelEvents => .ok h.enableParallelEvents
  | .disableParallelEvents => .ok h.disableParallelEvents

def run (calls : List (Call α)) (h : EventHelper α) : Except Raised (EventHelper α) := calls.foldlM step h

/-! ## What is held after a history -/

/-- The events of the `add_event` calls that count: those after the start time has been set. -/
def recordedFrom : Bool → List (Call α) → List (Event α)
  | _, [] => []
  | _, .setTestStartTime _ :: calls => recordedFrom true calls
  | true, .addEvent event :: calls => event :: recordedFrom true calls
  | started, _ :: calls => recordedFrom started calls

/-- The events recorded by a history of a new helper. -/
def recorded (calls : List (Call α)) : List (Event α) := recordedFrom false calls

/-- The events still held when so many have been recorded: the last ones. -/
def held (events : List (Event α)) : List (Event α) := events.drop (events.length - maxEvents)

/-- The helper has recorded the events, none of them in a parallel phase. -/
structure Recorded (events : List (Event α)) (h : EventHelper α) : Prop where
  events_eq : h.events = (held events).map .event
  counter_eq : h.counter = events.length
  serial : h.parallelEvents = false

theorem maxEvents_pos : 0 < maxEvents := by
  unfold maxEvents
  decide

theorem length_held (events : List (Event α)) : (held events).length = min events.length maxEvents := by
  rw [held, List.length_drop]
  omega

theorem held_eq_nil_iff (events : List (Event α)) : held events = [] ↔ events = [] := by
  have := maxEvents_pos
  rw [← List.length_eq_zero_iff, ← List.length_eq_zero_iff, length_held]
  omega

/-- Recording one more event drops the oldest one when the limit has been reached. -/
theorem held_append_singleton (events : List (Event α)) (event : Event α) :
    held (events ++ [event])
      = if maxEvents < events.length + 1 then (held events ++ [event]).tail else held events ++ [event] := by
  have hlength : (events ++ [event]).length = events.length + 1 := by simp
  rw [held, held, hlength, ← List.drop_append_of_le_length (Nat.sub_le _ _)]
  split
  · next hfull =>
      have hone : events.length + 1 - maxEvents = events.length - maxEvents + 1 := by omega
      rw [List.tail_drop, hone]
  · next hroom =>
      have hone : events.length + 1 - maxEvents = events.length - maxEvents := by omega
      rw [hone]

theorem recorded_new : Recorded [] (new : EventHelper α) :=
  ⟨by rw [held, List.drop_nil]; rfl, rfl, rfl⟩

theorem Recorded.addEvent {events : List (Event α)} {h : EventHelper α} (hrec : Recorded events h)
    (hstart : h.testStartTime.isSome) (event : Event α) :
    ∃ h', h.addEvent event = .ok h' ∧ Recorded (events ++ [event]) h' ∧ h'.testStartTime = h.testStartTime := by
  have hne : h.testStartTime ≠ none := Option.isSome_iff_ne_none.1 hstart
  have happend : h.events ++ [.event event] = (held events ++ [event]).map .event := by
    rw [hrec.events_eq, List.map_append]
    rfl
  rw [EventHelper.addEvent, if_neg hne, hrec.serial, happend, hrec.counter_eq]
  by_cases hfull : maxEvents < events.length + 1
  · have hheld : held (events ++ [event]) = (held events ++ [event]).tail := by
      rw [held_append_singleton, if_pos hfull]
    obtain ⟨oldest, rest, hcons⟩ : ∃ oldest rest, held events ++ [event] = oldest :: rest :=
      List.exists_cons_of_ne_nil (by simp)
    rw [hcons, List.tail_cons] at hheld
    refine ⟨{ h with events := rest.map .event, counter := events.length + 1 }, ?_, ⟨?_, ?_, hrec.serial⟩, rfl⟩
    · simp [hcons, maxEventsReached, hfull, popFirst, hrec.serial]
      rfl
    · rw [hheld]
    · simp
  · have hheld : held (events ++ [event]) = held events ++ [event] := by
      rw [held_append_singleton, if_neg hfull]
    refine ⟨{ h with events := (held events ++ [event]).map .event, counter := events.length + 1 }, ?_,
      ⟨?_, ?_, hrec.serial⟩, rfl⟩
    · simp [maxEventsReached, hfull, hrec.serial]
      rfl
    · rw [hheld]
    · simp

theorem addEvent_of_not_started {h : EventHelper α} (hstart : h.testStartTime = none) (event : Event α) :
    h.addEvent event = .ok h := if_pos hstart

theorem run_cons {h next : EventHelper α} {call : Call α} (hstep : step h call = .ok next) (calls : List (Call α)) :
    run (call :: calls) h = run calls next := by
  rw [run, List.foldlM_cons, hstep]
  rfl

/-- A history without a parallel phase never raises, and the helper has recorded the events of its calls. -/
theorem Recorded.run {events : List (Event α)} {h : EventHelper α} (hrec : Recorded events h)
    {calls : List (Call α)} (hserial : .enableParallelEvents ∉ calls) :
    ∃ h', run calls h = .ok h' ∧ Recorded (events ++ recordedFrom h.testStartTime.isSome calls) h' := by
  induction calls generalizing events h with
  | nil => exact ⟨h, rfl, by rwa [recordedFrom, List.append_nil]⟩
  | cons call calls ih =>
      rw [List.mem_cons, not_or] at hserial
      obtain ⟨hcall, hserial⟩ := hserial
      cases call with
      | setTestStartTime now =>
          exact ih (h := h.setTestStartTime now) ⟨hrec.events_eq, hrec.counter_eq, hrec.serial⟩ hserial
      | addEvent event =>
          cases hstart : h.testStartTime.isSome with
          | false =>
              have hnone := Option.isNone_iff_eq_none.1 (Option.isSome_eq_false_iff.1 hstart)
              have hadd : step h (.addEvent event) = .ok h := addEvent_of_not_started hnone event
              obtain ⟨h', hrun, hrec'⟩ := ih hrec hserial
              rw [hstart] at hrec'
              exact ⟨h', (run_cons hadd calls).trans hrun, hrec'⟩
          | true =>
              obtain ⟨next, hadd, hnext, hstart'⟩ := hrec.addEvent hstart event
              have hadd : step h (.addEvent event) = .ok next := hadd
              obtain ⟨h', hrun, hrec'⟩ := ih hnext hserial
              rw [hstart', hstart, List.append_assoc] at hrec'
              exact ⟨h', (run_cons hadd calls).trans hrun, hrec'⟩
      | enableParallelEvents => exact absurd rfl hcall
      | disableParallelEvents =>
          exact ih (h := h.disableParallelEvents) ⟨hrec.events_eq, hrec.counter_eq, rfl⟩ hserial

end EventHelper

end TestInfra.SystemEvents
