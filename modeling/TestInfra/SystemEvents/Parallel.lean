import TestInfra.SystemEvents.Validate

set_option autoImplicit false

/-! # Parallel phases

Between `enable_parallel_events` and `disable_parallel_events` the events of a test go into one group. What is held
is counted in entries, but an entry is dropped for every event beyond the limit: a group goes with all of its events,
and when many events come in parallel, the group they are to be put into has gone itself (`run_parallel_spec`).

`validate` waits for a group without end, so a test with parallel events never validates
(`validate_ne_nil_of_parallel`). -/

namespace TestInfra.SystemEvents

open PyText

variable {α : Type}

/-! ## What has been recorded -/

/-- What the calls have recorded, as if nothing was ever dropped. -/
structure Log (α : Type) where
  started : Bool
  parallel : Bool
  entries : List (Entry α)
  /-- The events outside of the phases. -/
  serialEvents : ℕ
  /-- The events of the phases. -/
  parallelEvents : ℕ
  phases : ℕ

/-- The event goes into the group at the end. -/
def grow (event : Event α) (entries : List (Entry α)) : List (Entry α) :=
  match entries.getLast? with
  | some (.group events) => entries.dropLast ++ [.group (events ++ [event])]
  | _ => entries

/-- The entry is an event. -/
def Entry.isEvent : Entry α → Bool
  | .event _ => true
  | .group _ => false

namespace Log

def new : Log α := ⟨false, false, [], 0, 0, 0⟩

/-- The number of events. -/
def recorded (log : Log α) : ℕ := log.serialEvents + log.parallelEvents

def addEvent (event : Event α) (log : Log α) : Log α :=
  if log.started then
    if log.parallel then
      { log with entries := grow event log.entries, parallelEvents := log.parallelEvents + 1 }
    else { log with entries := log.entries ++ [.event event], serialEvents := log.serialEvents + 1 }
  else log

def step (log : Log α) : EventHelper.Call α → Log α
  | .setTestStartTime _ => { log with started := true }
  | .addEvent event => log.addEvent event
  | .enableParallelEvents =>
      { log with parallel := true, entries := log.entries ++ [.group []], phases := log.phases + 1 }
  | .disableParallelEvents => { log with parallel := false }

/-- What a history has recorded. -/
def ofCalls (calls : List (EventHelper.Call α)) : Log α := calls.foldl step new

/-- The next event finds no entry: it is to go into a group, and as many entries have been dropped as there were. -/
def Full (log : Log α) : Prop :=
  log.started = true ∧ log.parallel = true ∧ maxEvents + log.phases ≤ log.parallelEvents

/-- The entries are the events outside of the phases and the phases, in a phase with its group at the end. -/
structure Sound (log : Log α) : Prop where
  length_eq : log.entries.length = log.serialEvents + log.phases
  events_eq : log.entries.countP Entry.isEvent = log.serialEvents
  last_group : log.parallel = true → ∃ front events, log.entries = front ++ [.group events]

end Log

theorem grow_concat (event : Event α) (front : List (Entry α)) (events : List (Event α)) :
    grow event (front ++ [.group events]) = front ++ [.group (events ++ [event])] := by
  rw [grow, List.getLast?_concat, List.dropLast_concat]

namespace Log

theorem sound_new : (new : Log α).Sound := ⟨rfl, rfl, fun h => (nomatch h)⟩

theorem Sound.step {log : Log α} (h : log.Sound) (call : EventHelper.Call α) : (log.step call).Sound := by
  cases call with
  | setTestStartTime now => exact ⟨h.length_eq, h.events_eq, h.last_group⟩
  | enableParallelEvents =>
      refine ⟨?_, ?_, fun _ => ⟨_, _, rfl⟩⟩
      · simp only [Log.step, List.length_append, h.length_eq, List.length_singleton, Nat.add_assoc]
      · simp only [Log.step, List.countP_append, h.events_eq]
        rfl
  | disableParallelEvents => exact ⟨h.length_eq, h.events_eq, fun hparallel => (nomatch hparallel)⟩
  | addEvent event =>
      show (log.addEvent event).Sound
      rw [addEvent]
      split
      · split
        · next hparallel =>
            obtain ⟨front, events, hentries⟩ := h.last_group hparallel
            have hlength := h.length_eq
            have hevents := h.events_eq
            rw [hentries] at hlength hevents
            refine ⟨?_, ?_, fun _ => ⟨front, events ++ [event], ?_⟩⟩
            · simpa [hentries, grow_concat] using hlength
            · simpa [hentries, grow_concat, Entry.isEvent] using hevents
            · rw [hentries, grow_concat]
        · next hserial =>
            refine ⟨?_, ?_, fun hparallel => absurd hparallel hserial⟩
            · simp only [List.length_append, h.length_eq, List.length_singleton]
              omega
            · simp only [List.countP_append, h.events_eq]
              rfl
      · exact h

theorem ofCalls_concat (calls : List (EventHelper.Call α)) (call : EventHelper.Call α) :
    ofCalls (calls ++ [call]) = (ofCalls calls).step call := List.foldl_concat ..

theorem sound_ofCalls (calls : List (EventHelper.Call α)) : (ofCalls calls).Sound := by
  induction calls using List.reverseRecOn with
  | nil => exact sound_new
  | append_singleton calls call ih =>
      rw [ofCalls_concat]
      exact ih.step call

end Log

/-! ## The helper and the log -/

namespace EventHelper

/-- The helper holds the log without the entries that have been dropped, one for each event beyond the limit. -/
structure Tracks (log : Log α) (h : EventHelper α) : Prop where
  started : h.testStartTime.isSome = log.started
  parallel : h.parallelEvents = log.parallel
  counter : h.counter = log.recorded
  events : h.events = log.entries.drop (log.recorded - maxEvents)
  room : log.parallelEvents ≤ maxEvents + log.phases

theorem tracks_new : Tracks (Log.new : Log α) new := ⟨rfl, rfl, rfl, List.drop_nil.symm, Nat.zero_le _⟩

theorem appendToLast_concat (event : Event α) (front : List (Entry α)) (events : List (Event α)) :
    appendToLast event (front ++ [.group events]) = .ok (front ++ [.group (events ++ [event])]) := by
  induction front with
  | nil => rfl
  | cons entry front ih =>
      have hcons : appendToLast event (entry :: (front ++ [.group events]))
          = (appendToLast event (front ++ [.group events])).map (entry :: ·) := by
        cases front <;> cases entry <;> rfl
      rw [List.cons_append, hcons, ih]
      rfl

/-- With one more entry at the end, and one less at the front when the limit has been passed. -/
theorem popFirst_concat {entries : List (Entry α)} {recorded : ℕ} (hroom : recorded - maxEvents ≤ entries.length)
    (entry : Entry α) :
    (if maxEventsReached (recorded + 1) then popFirst (entries.drop (recorded - maxEvents) ++ [entry])
        else .ok (entries.drop (recorded - maxEvents) ++ [entry]))
      = .ok ((entries ++ [entry]).drop (recorded + 1 - maxEvents)) := by
  rw [← List.drop_append_of_le_length hroom, maxEventsReached]
  by_cases hfull : maxEvents < recorded + 1
  · have hone : recorded + 1 - maxEvents = recorded - maxEvents + 1 := by omega
    rw [if_pos (decide_eq_true hfull), hone]
    have hlt : recorded - maxEvents < (entries ++ [entry]).length := by
      rw [List.length_append, List.length_singleton]
      omega
    rw [List.drop_eq_getElem_cons hlt]
    rfl
  · have hone : recorded + 1 - maxEvents = recorded - maxEvents := by omega
    rw [if_neg (by simpa using hfull), hone]

/-- What `add_event` does once the start time has been set: the event is put into its place, and then the oldest entry
    may go. -/
theorem addEvent_of_started {h : EventHelper α} (hstart : h.testStartTime ≠ none) {event : Event α}
    {entries rest : List (Entry α)}
    (hplace : (if h.parallelEvents then appendToLast event h.events else .ok (h.events ++ [Entry.event event]))
      = .ok entries)
    (hpop : (if maxEventsReached (h.counter + 1) then popFirst entries else .ok entries) = .ok rest) :
    h.addEvent event = .ok { h with events := rest, counter := h.counter + 1 } := by
  rw [addEvent, if_neg hstart]
  cases hparallel : h.parallelEvents <;> cases hreached : maxEventsReached (h.counter + 1) <;>
    simp only [hparallel, hreached, if_true, if_false, Bool.false_eq_true] at hplace hpop ⊢ <;>
    rw [hplace]
  · cases hpop
    rfl
  · show (popFirst entries >>= _) = _
    rw [hpop]
    rfl
  · cases hpop
    rfl
  · show (popFirst entries >>= _) = _
    rw [hpop]
    rfl

section Step

variable {log : Log α} {h : EventHelper α}

theorem Tracks.dropped_le (ht : Tracks log h) (hsound : log.Sound) :
    log.recorded - maxEvents ≤ log.entries.length := by
  have hroom := ht.room
  rw [hsound.length_eq, Log.recorded]
  omega

/-- Outside of a phase an event becomes an entry. -/
theorem Tracks.addSerial (ht : Tracks log h) (hsound : log.Sound) (hstarted : log.started = true)
    (hserial : log.parallel = false) (event : Event α) :
    ∃ h', h.addEvent event = .ok h' ∧ Tracks (log.addEvent event) h' := by
  have hne : h.testStartTime ≠ none := Option.isSome_iff_ne_none.1 (ht.started.trans hstarted)
  have hlog : log.addEvent event =
      { log with entries := log.entries ++ [.event event], serialEvents := log.serialEvents + 1 } := by
    rw [Log.addEvent, if_pos hstarted, if_neg (by rw [hserial]; exact Bool.false_ne_true)]
  have hrecorded : (log.addEvent event).recorded = log.recorded + 1 := by
    rw [hlog, Log.recorded, Log.recorded]
    exact Nat.add_right_comm _ _ _
  have hpop := popFirst_concat (ht.dropped_le hsound) (.event event)
  refine ⟨{ h with events := (log.entries ++ [Entry.event event]).drop (log.recorded + 1 - maxEvents),
                   counter := log.recorded + 1 }, ?_, ?_⟩
  · rw [← ht.events, ← ht.counter] at hpop
    rw [← ht.counter]
    exact addEvent_of_started hne (if_neg (by rw [ht.parallel, hserial]; exact Bool.false_ne_true)) hpop
  · refine ⟨?_, ?_, hrecorded.symm, ?_, ?_⟩
    · rw [hlog]
      exact ht.started
    · rw [hlog]
      exact ht.parallel
    · rw [hrecorded, hlog]
    · rw [hlog]
      exact ht.room

/-- In a phase an event goes into the group, as long as that has not been dropped. -/
theorem Tracks.addParallel (ht : Tracks log h) (hsound : log.Sound) (hstarted : log.started = true)
    (hparallel : log.parallel = true) (hroom : log.parallelEvents < maxEvents + log.phases) (event : Event α) :
    ∃ h', h.addEvent event = .ok h' ∧ Tracks (log.addEvent event) h' := by
  have hne : h.testStartTime ≠ none := Option.isSome_iff_ne_none.1 (ht.started.trans hstarted)
  obtain ⟨front, events, hentries⟩ := hsound.last_group hparallel
  have hlog : log.addEvent event =
      { log with entries := front ++ [.group (events ++ [event])], parallelEvents := log.parallelEvents + 1 } := by
    rw [Log.addEvent, if_pos hstarted, if_pos hparallel, hentries, grow_concat]
  have hrecorded : (log.addEvent event).recorded = log.recorded + 1 := by
    rw [hlog]
    rfl
  have hlength := hsound.length_eq
  have hfront : log.recorded - maxEvents ≤ front.length := by
    rw [hentries, List.length_append, List.length_singleton] at hlength
    rw [Log.recorded]
    omega
  have hlast : appendToLast event (log.entries.drop (log.recorded - maxEvents))
      = .ok (front.drop (log.recorded - maxEvents) ++ [.group (events ++ [event])]) := by
    rw [hentries, List.drop_append_of_le_length hfront, appendToLast_concat]
  have hpop := popFirst_concat hfront (.group (events ++ [event]))
  refine ⟨{ h with events := (front ++ [Entry.group (events ++ [event])]).drop (log.recorded + 1 - maxEvents),
                   counter := log.recorded + 1 }, ?_, ?_⟩
  · rw [← ht.events, ← ht.counter] at hlast
    rw [← ht.counter] at hpop ⊢
    exact addEvent_of_started hne ((if_pos (ht.parallel.trans hparallel)).trans hlast) hpop
  · refine ⟨?_, ?_, hrecorded.symm, ?_, ?_⟩
    · rw [hlog]
      exact ht.started
    · rw [hlog]
      exact ht.parallel
    · rw [hrecorded, hlog]
    · rw [hlog]
      exact hroom

/-- Once everything has been dropped, there is no group to put the event into. -/
theorem Tracks.addFull (ht : Tracks log h) (hsound : log.Sound) (hfull : log.Full) (event : Event α) :
    h.addEvent event = .error .indexError := by
  obtain ⟨hstarted, hparallel, hmany⟩ := hfull
  have hne : h.testStartTime ≠ none := Option.isSome_iff_ne_none.1 (ht.started.trans hstarted)
  have hnil : log.entries.drop (log.recorded - maxEvents) = [] := by
    rw [List.drop_eq_nil_iff, hsound.length_eq, Log.recorded]
    omega
  rw [addEvent, if_neg hne, ht.parallel, hparallel, ht.events, hnil]
  rfl

/-- The log goes through a step of the helper, unless an event comes for a group that is gone. -/
theorem Tracks.step (ht : Tracks log h) (hsound : log.Sound) {call : Call α}
    (hfits : ∀ event, call = .addEvent event → ¬ log.Full) :
    ∃ h', step h call = .ok h' ∧ Tracks (log.step call) h' := by
  cases call with
  | setTestStartTime now => exact ⟨_, rfl, rfl, ht.parallel, ht.counter, ht.events, ht.room⟩
  | disableParallelEvents => exact ⟨_, rfl, ht.started, rfl, ht.counter, ht.events, ht.room⟩
  | enableParallelEvents =>
      refine ⟨_, rfl, ht.started, rfl, ht.counter, ?_, ht.room.trans (by simp [Log.step])⟩
      show h.events ++ [Entry.group []] = (log.entries ++ [Entry.group []]).drop (log.recorded - maxEvents)
      rw [ht.events, List.drop_append_of_le_length (ht.dropped_le hsound)]
  | addEvent event =>
      cases hstarted : log.started with
      | false =>
          have hnone : h.testStartTime = none := by
            rw [← Option.isNone_iff_eq_none, ← Option.isSome_eq_false_iff, ht.started, hstarted]
          have hlog : log.addEvent event = log := by
            rw [Log.addEvent, if_neg (by rw [hstarted]; exact Bool.false_ne_true)]
          refine ⟨h, addEvent_of_not_started hnone event, ?_⟩
          show Tracks (log.addEvent event) h
          rwa [hlog]
      | true =>
          cases hparallel : log.parallel with
          | false => exact ht.addSerial hsound hstarted hparallel event
          | true =>
              refine ht.addParallel hsound hstarted hparallel ?_ event
              by_contra hmany
              exact hfits event rfl ⟨hstarted, hparallel, Nat.le_of_not_lt hmany⟩

end Step

/-! ## Whole histories -/

/-- At some point of the history an event comes for a group that is gone. -/
def Overflows (calls : List (Call α)) : Prop :=
  ∃ pre event post, calls = pre ++ .addEvent event :: post ∧ (Log.ofCalls pre).Full

theorem run_append (front back : List (Call α)) (h : EventHelper α) :
    run (front ++ back) h = (run front h).bind (run back) := List.foldlM_append

theorem run_tracks {calls : List (Call α)} (hfits : ¬ Overflows calls) :
    ∃ h, run calls new = .ok h ∧ Tracks (Log.ofCalls calls) h := by
  induction calls using List.reverseRecOn with
  | nil => exact ⟨new, rfl, tracks_new⟩
  | append_singleton calls call ih =>
      have hbefore : ¬ Overflows calls := by
        rintro ⟨pre, event, post, rfl, hfull⟩
        exact hfits ⟨pre, event, post ++ [call], by simp, hfull⟩
      obtain ⟨h, hrun, ht⟩ := ih hbefore
      have hlast : ∀ event, call = .addEvent event → ¬ (Log.ofCalls calls).Full := by
        rintro event rfl hfull
        exact hfits ⟨calls, event, [], rfl, hfull⟩
      obtain ⟨h', hstep, ht'⟩ := ht.step (Log.sound_ofCalls calls) hlast
      refine ⟨h', ?_, (Log.ofCalls_concat calls call).symm ▸ ht'⟩
      rw [run_append, hrun]
      show run [call] h = .ok h'
      rw [run_cons hstep]
      rfl

theorem run_of_overflows {calls : List (Call α)} (hover : Overflows calls) :
    run calls new = .error .indexError := by
  induction calls using List.reverseRecOn with
  | nil =>
      obtain ⟨pre, event, post, hnil, -⟩ := hover
      simp at hnil
  | append_singleton calls call ih =>
      rw [run_append]
      by_cases hbefore : Overflows calls
      · rw [ih hbefore]
        rfl
      · obtain ⟨h, hrun, ht⟩ := run_tracks hbefore
        obtain ⟨pre, event, post, hcalls, hfull⟩ := hover
        rcases List.eq_nil_or_concat post with rfl | ⟨post, last, rfl⟩
        · obtain ⟨rfl, hcall⟩ := List.append_inj' hcalls rfl
          obtain rfl : call = .addEvent event := (List.cons.inj hcall).1
          rw [hrun]
          show run [.addEvent event] h = .error .indexError
          have hstep : EventHelper.step h (.addEvent event) = .error .indexError :=
            ht.addFull (Log.sound_ofCalls _) hfull event
          rw [run, List.foldlM_cons, hstep]
          rfl
        · have hfront : calls = pre ++ .addEvent event :: post := by
            rw [List.concat_eq_append, ← List.cons_append, ← List.append_assoc] at hcalls
            exact (List.append_inj' hcalls rfl).1
          exact absurd ⟨pre, event, post, hfront, hfull⟩ hbefore

/-- **Parallel phases overflow**: a history of calls on a new helper raises exactly when in some phase an event is
    added although the events of the phases so far are as many as the limit and the phases together, and then it is
    an `IndexError`. Otherwise the helper has counted all events, and holds all entries but the first ones, one for
    each event beyond the limit. -/
theorem run_parallel_spec (calls : List (Call α)) :
    (¬ Overflows calls → ∃ h, run calls new = .ok h ∧ h.counter = (Log.ofCalls calls).recorded ∧
      h.events = (Log.ofCalls calls).entries.drop ((Log.ofCalls calls).recorded - maxEvents)) ∧
    (Overflows calls → run calls new = .error .indexError) := by
  refine ⟨fun hfits => ?_, run_of_overflows⟩
  obtain ⟨h, hrun, ht⟩ := run_tracks hfits
  exact ⟨h, hrun, ht.counter, ht.events⟩

/-! ## Validating after a phase -/

section Validate

variable [DecidableEq α] {h : EventHelper α}

/-- The loop passes events only, so when the counter is beyond those that are held, it does not end well. The
    induction is on the events of the server. -/
theorem compareEvents_ne_nil (ignoreOrder : Bool) (listed : List (Event α))
    (hcounter : h.events.countP Entry.isEvent < h.counter) {vIndex : ℕ}
    (hpassed : (h.events.take vIndex).countP Entry.isEvent = vIndex) :
    h.compareEvents ignoreOrder listed vIndex ≠ .ok [] := by
  induction listed generalizing vIndex with
  | nil =>
      rw [compareEvents]
      split
      · simp
      · simp
  | cons event rest ih =>
      cases hentry : h.events[vIndex]? with
      | none =>
          simp [compareEvents_of_none hentry]
      | some entry =>
          cases entry with
          | group events =>
              simp only [compareEvents, hentry]
              exact ih hpassed
          | event expected =>
              cases hfound : extractReqValues (.dict event) expected with
              | error r =>
                  simp [compareEvents_of_error hentry hfound]
              | ok found =>
                  rw [compareEvents_of_ok hentry hfound]
                  have hnext : (h.events.take (vIndex + 1)).countP Entry.isEvent = vIndex + 1 := by
                    rw [List.take_add_one, hentry, List.countP_append, hpassed]
                    rfl
                  have hle : vIndex + 1 ≤ h.events.countP Entry.isEvent := by
                    rw [← hnext]
                    exact (List.take_sublist _ _).countP_le
                  split
                  · rw [if_neg (by omega)]
                    exact ih hnext
                  · exact ih hpassed

/-- **A test with parallel events does not validate**: once an event has been added in a phase, whatever the
    history, the server and the arguments, `validate` does not return an empty list, unless nothing at all is held
    any more. -/
theorem validate_ne_nil_of_parallel {calls : List (Call α)} (hrun : run calls new = .ok h)
    (hphases : 0 < (Log.ofCalls calls).parallelEvents) (hheld : h.events ≠ []) (strptime : Text → Option ℤ)
    (server : Server α) (since : Option Text) (eventsCount : ℤ) (ignoreOrder : Bool) :
    h.validate strptime server since eventsCount ignoreOrder ≠ .ok [] := by
  have hfits : ¬ Overflows calls := by
    intro hover
    rw [run_of_overflows hover] at hrun
    cases hrun
  obtain ⟨h', hrun', ht⟩ := run_tracks hfits
  obtain rfl : h' = h := Except.ok.inj (hrun'.symm.trans hrun)
  have hcounter : h'.events.countP Entry.isEvent < h'.counter := by
    calc h'.events.countP Entry.isEvent
        ≤ (Log.ofCalls calls).entries.countP Entry.isEvent := by
          rw [ht.events]
          exact (List.drop_sublist _ _).countP_le
      _ = (Log.ofCalls calls).serialEvents := (Log.sound_ofCalls calls).events_eq
      _ < h'.counter := by
          rw [ht.counter, Log.recorded]
          omega
  intro hvalid
  obtain ⟨seen, -, compared, hcompared, hfailures⟩ := (validate_eq_ok_iff hheld).1 hvalid
  obtain ⟨-, rfl⟩ := List.append_eq_nil_iff.1 hfailures.symm
  exact compareEvents_ne_nil ignoreOrder _ hcounter rfl hcompared

end Validate

def parallelCalls : List (Call ℤ) :=
  [.setTestStartTime "2022-01-01T00:00:00.000Z".toList, .enableParallelEvents, .addEvent sampleEvent]

/-- The helper after these calls. -/
def parallelHelper : EventHelper ℤ :=
  { testStartTime := some "2022-01-01T00:00:00.000Z".toList, events := [.group [sampleEvent]],
    parallelEvents := true, counter := 1 }

theorem run_parallelCalls : run parallelCalls new = .ok parallelHelper := by
  have hroom : ¬ maxEventsReached (0 + 1) = true := by simpa [maxEventsReached] using maxEvents_pos.ne'
  have hadd : EventHelper.addEvent sampleEvent { parallelHelper with events := [.group []], counter := 0 }
      = .ok parallelHelper := addEvent_of_started (Option.some_ne_none _) (if_pos rfl) (if_neg hroom)
  simp only [run, parallelCalls, List.foldlM_cons, List.foldlM_nil]
  show (EventHelper.addEvent sampleEvent { parallelHelper with events := [.group []], counter := 0 } >>= pure) = _
  rw [hadd]
  rfl

/-- The server lists the event of the phase, and yet something is said to be missing. -/
theorem validate_ne_nil_of_parallel_one :
    parallelHelper.validate sampleTime (sampleServer 1) none (-1) false ≠ .ok [] :=
  validate_ne_nil_of_parallel run_parallelCalls (by decide) (List.cons_ne_nil _ _) _ _ _ _ _

end EventHelper

end TestInfra.SystemEvents
