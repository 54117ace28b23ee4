import TestInfra.Lib.InOrder
import TestInfra.Lib.Raises
import TestInfra.SystemEvents.EventHelper

set_option autoImplicit false

/-! # Comparing the events of the server with those recorded

`EventHelper.validate` first looks at all events of the server: they have to be in the order of their times, and
no uuid may come back too soon. Then it goes through the events since the start and waits for the recorded ones,
one after the other. It stops when as many have come as the counter says.

The counter is the number of recorded events, also of those that are no longer held. So when some have been dropped
it never stops: once all that are held have come, it looks for one more (`validate_survives_iff`). -/

namespace TestInfra.SystemEvents

open PyText

variable {α : Type}

/-! ## Failures and the server -/

inductive Failure (α : Type) where
  /-- `Events not ordered by time !! UUID %s - timestamp (curr) %s < %s (prev)` -/
  | notOrdered (uuid curr prev : Json α)
  /-- `Duplicate UUID detected for timestamps!! %s is present during %s and %s` -/
  | duplicateUuid (uuid first curr : Json α)
  /-- `Duplicate event_ids seen` -/
  | duplicateIds
  /-- `Unable to fetch events since {0} on {1}` -/
  | unableToFetch (since : Option Text) (ip : Text)
  /-- `Unable to validate event: %s` -/
  | unableToValidate (entry : Entry α)

/-- A server, with the answer of `get_events(since_time, events_count)["events"]`. -/
structure Server (α : Type) where
  ip : Text
  getEvents : Option Text → ℤ → List (Event α)

namespace Fields

def uuid : Text := "uuid".toList

def timestamp : Text := "timestamp".toList

end Fields

/-- `event[field]`. -/
def item (field : Text) (event : Event α) : Except Raised (Json α) :=
  match Assoc.find field event with
  | some value => .ok value
  | none => .error .keyError

/-- Whether a value can be a key of a dictionary. -/
def hashable : Json α → Bool
  | .scalar _ => true
  | .str _ => true
  | _ => false

/-! ## All events of the server -/

section Generic

-- `datetime.strptime(text, "%Y-%m-%dT%H:%M:%S.%fZ")`, in microseconds; `none` for other texts.
variable (strptime : Text → Option ℤ)

/-- `get_datetime_obj_from_str`. -/
def getDatetimeObjFromStr : Json α → Except Raised ℤ
  | .str text =>
      match strptime text with
      | some time => .ok time
      | none => .error .valueError
  | _ => .error .typeError

/-- What the loop over the events has seen; `timestamps` are the last ones of the uuids, the newest first. -/
structure Seen (α : Type) where
  duplicatesPresent : Bool
  prevTimestamp : Option (Json α)
  timestamps : List (Json α × Json α)
  failures : List (Failure α)

def Seen.fail (failure : Failure α) (seen : Seen α) : Seen α :=
  { seen with duplicatesPresent := true, failures := seen.failures ++ [failure] }

/-- Whether the event is not older than the one before. -/
def checkOrder (uuid timestamp : Json α) (curr : ℤ) (seen : Seen α) : Except Raised (Seen α) :=
  match seen.prevTimestamp with
  | none => .ok seen
  | some prev => do
      let prevTime ← getDatetimeObjFromStr strptime prev
      return if curr < prevTime then seen.fail (.notOrdered uuid timestamp prev) else seen

variable [DecidableEq α]

/-- Whether the uuid has not been seen too short a time ago. -/
def checkUuid (uuid timestamp : Json α) (seen : Seen α) : Except Raised (Seen α) :=
  if hashable uuid then
    match seen.timestamps.find? fun p => p.1.pyEq uuid with
    | none => .ok seen
    | some (_, first) => do
        let firstTime ← getDatetimeObjFromStr strptime first
        let currTime ← getDatetimeObjFromStr strptime timestamp
        return if currTime - firstTime < uuidUniquenessTime then seen.fail (.duplicateUuid uuid first timestamp)
          else seen
  else .error .typeError

/-- One turn of the loop of `__duplicate_event_ids_present`. -/
def checkEvent (seen : Seen α) (event : Event α) : Except Raised (Seen α) := do
  let uuid ← item Fields.uuid event
  let timestamp ← item Fields.timestamp event
  let curr ← getDatetimeObjFromStr strptime timestamp
  let seen ← checkOrder strptime uuid timestamp curr seen
  let seen ← checkUuid strptime uuid timestamp seen
  return { seen with prevTimestamp := some timestamp, timestamps := (uuid, timestamp) :: seen.timestamps }

/-- `__duplicate_event_ids_present`, with the failures it appends. -/
def duplicateEventIdsPresent (events : List (Event α)) : Except Raised (Seen α) :=
  events.foldlM (checkEvent strptime) ⟨false, none, [], []⟩

end Generic

/-! ## The events since the start -/

section

variable [DecidableEq α]

/-- `key in value`. -/
def isIn (key : Text) : Json α → Except Raised Bool
  | .dict items => .ok (Assoc.find key items).isSome
  | .list items => .ok (items.any fun x => x.pyEq (.str key))
  | .str text => .ok (decide (key <:+: text))
  | .scalar _ => .error .typeError

/-- `value[key]`. -/
def getItem (key : Text) : Json α → Except Raised (Json α)
  | .dict items => item key items
  | _ => .error .typeError

mutual

/-- What `extract_req_values` puts under a key: the value of the server, cut down where a dictionary is expected. -/
def extractValue (value : Json α) : Json α → Except Raised (Json α)
  | .dict expected => return .dict (← extractReqValues value expected)
  | _ => .ok value

/-- `extract_req_values(cluster_event, local_event)`. -/
def extractReqValues (clusterEvent : Json α) : List (Text × Json α) → Except Raised (List (Text × Json α))
  | [] => .ok []
  | (key, expected) :: rest => do
      if ← isIn key clusterEvent then
        let value ← extractValue (← getItem key clusterEvent) expected
        let output ← extractReqValues clusterEvent rest
        return (key, value) :: output
      else extractReqValues clusterEvent rest

end

/-- `found in entries`. -/
def isAmong (found : Event α) (entries : List (Entry α)) : Bool :=
  entries.any fun
    | .event event => Json.pyEq (.dict found) (.dict event)
    | .group _ => false

/-- Whether what has been extracted counts as the expected event. -/
def accepted (ignoreOrder : Bool) (entries : List (Entry α)) (found expected : Event α) : Bool :=
  if ignoreOrder then isAmong found entries else Json.pyEq (.dict found) (.dict expected)

namespace EventHelper

/-- The loop over the events of the server, from `v_index` on, and the failure that it ends with. -/
def compareEvents (h : EventHelper α) (ignoreOrder : Bool) :
    List (Event α) → ℕ → Except Raised (List (Failure α))
  -- the `else` of the loop, for when it has not been left
  | [], vIndex =>
      match h.events[vIndex]? with
      | none => .error .indexError
      | some entry => .ok [.unableToValidate entry]
  | event :: rest, vIndex =>
      match h.events[vIndex]? with
      | none => .error .indexError
      -- a parallel phase is waited for without end
      | some (.group _) => compareEvents h ignoreOrder rest vIndex
      | some (.event expected) => do
          let found ← extractReqValues (.dict event) expected
          if accepted ignoreOrder h.events found expected then
            if vIndex + 1 = h.counter then return []
            else compareEvents h ignoreOrder rest (vIndex + 1)
          else compareEvents h ignoreOrder rest vIndex

/-- `since_time`, or the start of the test. -/
def sinceTime (h : EventHelper α) : Option Text → Option Text
  | none => h.testStartTime
  | some [] => h.testStartTime
  | some since => some since

/-- `validate`. -/
def validate (strptime : Text → Option ℤ) (h : EventHelper α) (server : Server α) (since : Option Text)
    (eventsCount : ℤ) (ignoreOrder : Bool) : Except Raised (List (Failure α)) :=
  if h.events.isEmpty then .ok []
  else do
    let seen ← duplicateEventIdsPresent strptime (server.getEvents none (-1))
    let duplicates := if seen.duplicatesPresent then [Failure.duplicateIds] else []
    let events := server.getEvents (h.sinceTime since) eventsCount
    let fetched := if events.isEmpty then [Failure.unableToFetch (h.sinceTime since) server.ip] else []
    let compared ← h.compareEvents ignoreOrder events 0
    return seen.failures ++ duplicates ++ fetched ++ compared

end EventHelper

end

/-! ## When the events of the server can be read -/

section Generic

variable (strptime : Text → Option ℤ)

/-- The value is the text of a time. -/
def IsTime (value : Json α) : Prop := ∃ time, getDatetimeObjFromStr strptime value = .ok time

/-- The event has a uuid that a dictionary can be keyed by, and a time. -/
def Readable (event : Event α) : Prop :=
  ∃ uuid timestamp, item Fields.uuid event = .ok uuid ∧ hashable uuid = true ∧
    item Fields.timestamp event = .ok timestamp ∧ IsTime strptime timestamp

/-- What has been seen can be read again, and the failures are those of the first look. -/
structure Seen.Sound (seen : Seen α) : Prop where
  prev : ∀ prev ∈ seen.prevTimestamp, IsTime strptime prev
  timestamps : ∀ p ∈ seen.timestamps, IsTime strptime p.2
  failures : ∀ entry, .unableToValidate entry ∉ seen.failures

variable {strptime} {seen : Seen α}

theorem Seen.Sound.fail (h : seen.Sound strptime) {failure : Failure α}
    (hfailure : ∀ entry, failure ≠ .unableToValidate entry) : (seen.fail failure).Sound strptime := by
  refine ⟨h.prev, h.timestamps, ?_⟩
  intro entry hmem
  rcases List.mem_append.1 hmem with hmem | hmem
  · exact h.failures entry hmem
  · exact hfailure entry (List.mem_singleton.1 hmem).symm

theorem Seen.Sound.checkOrder (h : seen.Sound strptime) (uuid timestamp : Json α) (curr : ℤ) :
    ∃ seen', checkOrder strptime uuid timestamp curr seen = .ok seen' ∧ seen'.Sound strptime := by
  rw [SystemEvents.checkOrder]
  split
  · exact ⟨seen, rfl, h⟩
  · next prev hprev =>
      obtain ⟨prevTime, htime⟩ := h.prev prev hprev
      rw [htime]
      refine ⟨_, rfl, ?_⟩
      split
      · exact h.fail fun entry heq => by cases heq
      · exact h

variable [DecidableEq α]

theorem Seen.Sound.checkUuid (h : seen.Sound strptime) {uuid timestamp : Json α} (hhash : hashable uuid = true)
    (htime : IsTime strptime timestamp) :
    ∃ seen', checkUuid strptime uuid timestamp seen = .ok seen' ∧ seen'.Sound strptime := by
  rw [SystemEvents.checkUuid, if_pos hhash]
  split
  · exact ⟨seen, rfl, h⟩
  · next p first hfind =>
      obtain ⟨firstTime, hfirst⟩ := h.timestamps _ (List.mem_of_find?_eq_some hfind)
      obtain ⟨currTime, hcurr⟩ := htime
      rw [hfirst, hcurr]
      refine ⟨_, rfl, ?_⟩
      split
      · exact h.fail fun entry heq => by cases heq
      · exact h

theorem Seen.Sound.checkEvent (h : seen.Sound strptime) {event : Event α} (hread : Readable strptime event) :
    ∃ seen', checkEvent strptime seen event = .ok seen' ∧ seen'.Sound strptime := by
  obtain ⟨uuid, timestamp, huuid, hhash, htimestamp, htime⟩ := hread
  obtain ⟨curr, hcurr⟩ := htime
  obtain ⟨ordered, hordered, hsound⟩ := h.checkOrder uuid timestamp curr
  obtain ⟨next, hnext, hsound⟩ := hsound.checkUuid hhash ⟨curr, hcurr⟩
  refine ⟨{ next with prevTimestamp := some timestamp, timestamps := (uuid, timestamp) :: next.timestamps },
    ?_, ?_, ?_, hsound.failures⟩
  · refine Raises.bind_eq_ok_iff.2 ⟨uuid, huuid, Raises.bind_eq_ok_iff.2 ⟨timestamp, htimestamp, ?_⟩⟩
    refine Raises.bind_eq_ok_iff.2 ⟨curr, hcurr, Raises.bind_eq_ok_iff.2 ⟨ordered, hordered, ?_⟩⟩
    exact Raises.bind_eq_ok_iff.2 ⟨next, hnext, rfl⟩
  · rintro prev ⟨⟩
    exact ⟨curr, hcurr⟩
  · exact List.forall_mem_cons.2 ⟨⟨curr, hcurr⟩, hsound.timestamps⟩

theorem checkEvent_of_not_readable {event : Event α} (hread : ¬ Readable strptime event) (seen : Seen α) :
    ∃ r, checkEvent strptime seen event = .error r := by
  cases hcheck : checkEvent strptime seen event with
  | error r => exact ⟨r, rfl⟩
  | ok seen' =>
      obtain ⟨uuid, huuid, hcheck⟩ := Raises.bind_eq_ok_iff.1 hcheck
      obtain ⟨timestamp, htimestamp, hcheck⟩ := Raises.bind_eq_ok_iff.1 hcheck
      obtain ⟨curr, hcurr, hcheck⟩ := Raises.bind_eq_ok_iff.1 hcheck
      obtain ⟨ordered, -, hcheck⟩ := Raises.bind_eq_ok_iff.1 hcheck
      obtain ⟨next, huuids, -⟩ := Raises.bind_eq_ok_iff.1 hcheck
      have hhash : hashable uuid = true := by
        by_contra hhash
        rw [checkUuid, if_neg hhash] at huuids
        cases huuids
      exact absurd ⟨uuid, timestamp, huuid, hhash, htimestamp, curr, hcurr⟩ hread

theorem Seen.Sound.foldlM {events : List (Event α)} (h : seen.Sound strptime)
    (hread : ∀ event ∈ events, Readable strptime event) :
    ∃ seen', events.foldlM (SystemEvents.checkEvent strptime) seen = .ok seen' ∧ seen'.Sound strptime := by
  induction events generalizing seen with
  | nil => exact ⟨seen, rfl, h⟩
  | cons event events ih =>
      obtain ⟨hone, hrest⟩ := List.forall_mem_cons.1 hread
      obtain ⟨next, hnext, hsound⟩ := h.checkEvent hone
      rw [List.foldlM_cons, hnext]
      exact ih hsound hrest

theorem foldlM_of_not_readable {events : List (Event α)} (hread : ∃ event ∈ events, ¬ Readable strptime event)
    (seen : Seen α) : ∃ r, events.foldlM (checkEvent strptime) seen = .error r := by
  induction events generalizing seen with
  | nil =>
      obtain ⟨event, hmem, -⟩ := hread
      exact absurd hmem List.not_mem_nil
  | cons event events ih =>
      rw [List.foldlM_cons]
      cases hcheck : checkEvent strptime seen event with
      | error r => exact ⟨r, rfl⟩
      | ok next =>
          obtain ⟨bad, hmem, hnot⟩ := hread
          rcases List.mem_cons.1 hmem with rfl | hmem
          · obtain ⟨r, hr⟩ := checkEvent_of_not_readable hnot seen
            rw [hr] at hcheck
            cases hcheck
          · exact ih ⟨bad, hmem, hnot⟩ next

/-- The first look raises exactly when some event cannot be read, and its failures are its own. -/
theorem duplicateEventIdsPresent_spec (strptime : Text → Option ℤ) (events : List (Event α)) :
    ((∀ event ∈ events, Readable strptime event) →
      ∃ seen, duplicateEventIdsPresent strptime events = .ok seen ∧ seen.Sound strptime) ∧
    ((∃ event ∈ events, ¬ Readable strptime event) →
      ∃ r, duplicateEventIdsPresent strptime events = .error r) := by
  have hstart : (⟨false, none, [], []⟩ : Seen α).Sound strptime :=
    ⟨fun _ h => (by cases h), fun _ h => absurd h List.not_mem_nil, fun _ => List.not_mem_nil⟩
  exact ⟨fun hread => hstart.foldlM hread, fun hread => foldlM_of_not_readable hread _⟩

theorem of_duplicateEventIdsPresent {events : List (Event α)} {seen : Seen α}
    (h : duplicateEventIdsPresent strptime events = .ok seen) :
    (∀ event ∈ events, Readable strptime event) ∧ seen.Sound strptime := by
  obtain ⟨hok, herror⟩ := duplicateEventIdsPresent_spec strptime events
  have hread : ∀ event ∈ events, Readable strptime event := by
    by_contra hread
    push Not at hread
    obtain ⟨r, hr⟩ := herror hread
    rw [hr] at h
    cases h
  obtain ⟨seen', hseen', hsound⟩ := hok hread
  obtain rfl : seen' = seen := Except.ok.inj (hseen'.symm.trans h)
  exact ⟨hread, hsound⟩

end Generic

/-! ## When the recorded events are found -/

section Compare

variable [DecidableEq α]

/-- The event of the server, cut down to what is expected, is the expected one. -/
def Matches (expected event : Event α) : Prop :=
  ∃ found, extractReqValues (.dict event) expected = .ok found ∧ Json.pyEq (.dict found) (.dict expected) = true

/-- The event of the server, cut down to what is expected, is the expected one; or any of the held ones where the
    order does not count. -/
def Counts (ignoreOrder : Bool) (wanted : List (Event α)) (expected event : Event α) : Prop :=
  ∃ found, extractReqValues (.dict event) expected = .ok found ∧
    accepted ignoreOrder (wanted.map .event) found expected = true

/-- After the events `seen`, no event of the server has another kind of value where the expected event has a
    dictionary: whenever the two are compared, the values can be extracted. -/
def Comparable (ignoreOrder : Bool) (wanted seen listed : List (Event α)) : Prop :=
  ∀ pre event post before expected after, listed = pre ++ event :: post → wanted = before ++ expected :: after →
    InOrder.Next (Counts ignoreOrder wanted) before expected (seen ++ pre) →
      ∃ found, extractReqValues (.dict event) expected = .ok found

variable {ignoreOrder : Bool} {wanted seen listed before after : List (Event α)} {expected event : Event α}

theorem Matches.counts (h : Matches expected event) (hmem : expected ∈ wanted) :
    Counts ignoreOrder wanted expected event := by
  obtain ⟨found, hfound, heq⟩ := h
  refine ⟨found, hfound, ?_⟩
  rw [accepted]
  split
  · exact List.any_eq_true.2 ⟨.event expected, List.mem_map_of_mem hmem, heq⟩
  · exact heq

/-- Once all have been met, nothing is compared any more. -/
theorem comparable_of_met (hmet : List.SublistForall₂ (Counts ignoreOrder wanted) wanted seen) :
    Comparable ignoreOrder wanted seen listed := by
  intro pre event post before expected after _ hwanted hnext
  refine absurd (InOrder.append_right hmet pre) ?_
  have hnot := hnext.not_all after
  rwa [← hwanted] at hnot

/-- Events that can always be compared can be compared here. -/
theorem comparable_of_forall (h : ∀ event ∈ listed, ∀ expected ∈ wanted,
    ∃ found, extractReqValues (.dict event) expected = .ok found) : Comparable ignoreOrder wanted seen listed := by
  rintro pre event post before expected after rfl rfl -
  exact h event (List.mem_append_right _ List.mem_cons_self) expected (List.mem_append_right _ List.mem_cons_self)

/-- The next event of the server is compared with the event that is waited for. -/
theorem comparable_cons_iff (hwanted : wanted = before ++ expected :: after)
    (hnext : InOrder.Next (Counts ignoreOrder wanted) before expected seen) :
    Comparable ignoreOrder wanted seen (event :: listed) ↔
      (∃ found, extractReqValues (.dict event) expected = .ok found) ∧
        Comparable ignoreOrder wanted (seen ++ [event]) listed := by
  constructor
  · refine fun h => ⟨h [] event listed before expected after rfl hwanted (by rwa [List.append_nil]), ?_⟩
    intro pre e post before' expected' after' hlisted hwanted' hnext'
    refine h (event :: pre) e post before' expected' after' (by rw [hlisted]; rfl) hwanted' ?_
    rwa [List.append_assoc] at hnext'
  · rintro ⟨hone, h⟩ pre e post before' expected' after' hlisted hwanted' hnext'
    rcases pre with _ | ⟨e', pre⟩
    · obtain ⟨rfl, -⟩ := List.cons.inj hlisted
      rw [List.append_nil] at hnext'
      obtain ⟨-, rfl⟩ := hnext.unique hnext' (hwanted.symm.trans hwanted')
      exact hone
    · obtain ⟨rfl, hrest⟩ := List.cons.inj hlisted
      refine h pre e post before' expected' after' hrest hwanted' ?_
      rwa [List.append_assoc]

namespace EventHelper

variable {h : EventHelper α}

omit [DecidableEq α] in
theorem getElem?_events (hevents : h.events = wanted.map .event) (hwanted : wanted = before ++ expected :: after) :
    h.events[before.length]? = some (.event expected) := by
  rw [hevents, hwanted, List.getElem?_map, List.getElem?_append_right (Nat.le_refl _), Nat.sub_self]
  rfl

/-- Behind the last event there is nothing to compare with. -/
theorem compareEvents_of_none {vIndex : ℕ} (hnone : h.events[vIndex]? = none) :
    h.compareEvents ignoreOrder listed vIndex = .error .indexError := by
  cases listed with
  | nil => simp only [compareEvents, hnone]
  | cons event rest => simp only [compareEvents, hnone]

theorem compareEvents_of_error {r : Raised} {rest : List (Event α)} {vIndex : ℕ}
    (hentry : h.events[vIndex]? = some (.event expected))
    (hfound : extractReqValues (.dict event) expected = .error r) :
    h.compareEvents ignoreOrder (event :: rest) vIndex = .error r := by
  simp only [compareEvents, hentry, hfound]
  rfl

theorem compareEvents_of_ok {found : Event α} {rest : List (Event α)} {vIndex : ℕ}
    (hentry : h.events[vIndex]? = some (.event expected))
    (hfound : extractReqValues (.dict event) expected = .ok found) :
    h.compareEvents ignoreOrder (event :: rest) vIndex
      = if accepted ignoreOrder h.events found expected then
          if vIndex + 1 = h.counter then .ok [] else h.compareEvents ignoreOrder rest (vIndex + 1)
        else h.compareEvents ignoreOrder rest vIndex := by
  simp only [compareEvents, hentry, hfound]
  rfl

/-- The result of the loop when the events `seen` have gone by: it returns unless a comparison raises or all the
    held events come although some have been dropped, and when all come it does not end with a failure. -/
structure Compared (h : EventHelper α) (ignoreOrder : Bool) (wanted seen listed : List (Event α))
    (res : Except Raised (List (Failure α))) : Prop where
  returns_iff : (∃ failures, res = .ok failures) ↔
    Comparable ignoreOrder wanted seen listed ∧
      (List.SublistForall₂ (Counts ignoreOrder wanted) wanted (seen ++ listed) → h.counter = wanted.length)
  complete : ∀ failures, res = .ok failures →
    List.SublistForall₂ (Counts ignoreOrder wanted) wanted (seen ++ listed) → failures = []

/-- At the end of the list an event is still waited for. -/
theorem compared_nil (hevents : h.events = wanted.map .event) (hwanted : wanted = before ++ expected :: after)
    (hnext : InOrder.Next (Counts ignoreOrder wanted) before expected seen) :
    Compared h ignoreOrder wanted seen [] (h.compareEvents ignoreOrder [] before.length) := by
  have hnot := hnext.not_all after
  rw [← hwanted, ← List.append_nil seen] at hnot
  refine ⟨⟨fun _ => ⟨?_, fun hmet => absurd hmet hnot⟩, fun _ => ?_⟩, fun _ _ hmet => absurd hmet hnot⟩
  · intro pre event post _ _ _ hlisted
    exact absurd hlisted (by simp)
  · refine ⟨[.unableToValidate (.event expected)], ?_⟩
    simp only [compareEvents, getElem?_events hevents hwanted]

theorem compared_of_error {r : Raised} (hwanted : wanted = before ++ expected :: after)
    (hnext : InOrder.Next (Counts ignoreOrder wanted) before expected seen)
    (hfound : extractReqValues (.dict event) expected = .error r) :
    Compared h ignoreOrder wanted seen (event :: listed) (.error r) := by
  refine ⟨⟨fun ⟨_, h⟩ => (by cases h), fun hgood => ?_⟩, fun _ h => (by cases h)⟩
  obtain ⟨found, hok⟩ := ((comparable_cons_iff hwanted hnext).1 hgood.1).1
  rw [hfound] at hok
  cases hok

/-- Behind an event that has been compared the loop goes on. -/
theorem Compared.cons {found : Event α} {res : Except Raised (List (Failure α))}
    (hrest : Compared h ignoreOrder wanted (seen ++ [event]) listed res)
    (hwanted : wanted = before ++ expected :: after)
    (hnext : InOrder.Next (Counts ignoreOrder wanted) before expected seen)
    (hfound : extractReqValues (.dict event) expected = .ok found) :
    Compared h ignoreOrder wanted seen (event :: listed) res := by
  obtain ⟨hiff, hcomplete⟩ := hrest
  rw [← List.append_cons] at hiff hcomplete
  refine ⟨?_, hcomplete⟩
  rw [comparable_cons_iff hwanted hnext, hiff]
  exact and_congr_left' ⟨fun h => ⟨⟨found, hfound⟩, h⟩, fun h => h.2⟩

/-- When all have come, the loop stops if the counter says so, and otherwise looks for one more. -/
theorem compared_of_met (hmet : List.SublistForall₂ (Counts ignoreOrder wanted) wanted seen) :
    Compared h ignoreOrder wanted seen listed (if wanted.length = h.counter then .ok [] else .error .indexError) := by
  have hall := InOrder.append_right hmet listed
  have hcomparable : Comparable ignoreOrder wanted seen listed := comparable_of_met hmet
  by_cases hstop : wanted.length = h.counter
  · rw [if_pos hstop]
    refine ⟨⟨fun _ => ⟨hcomparable, fun _ => hstop.symm⟩, fun _ => ⟨[], rfl⟩⟩, ?_⟩
    rintro failures ⟨⟩ _
    rfl
  · rw [if_neg hstop]
    refine ⟨⟨fun ⟨_, h⟩ => (by cases h), fun hgood => ?_⟩, fun _ h => (by cases h)⟩
    exact absurd (hgood.2 hall).symm hstop

/-- The loop from the event on that is waited for. The induction is on the events of the server, and those that
    have gone by say which event is waited for. -/
theorem compareEvents_spec (ignoreOrder : Bool) (listed : List (Event α)) (hevents : h.events = wanted.map .event)
    (hcounter : wanted.length ≤ h.counter) (hwanted : wanted = before ++ expected :: after)
    (hnext : InOrder.Next (Counts ignoreOrder wanted) before expected seen) :
    Compared h ignoreOrder wanted seen listed (h.compareEvents ignoreOrder listed before.length) := by
  induction listed generalizing seen before expected after with
  | nil => exact compared_nil hevents hwanted hnext
  | cons event rest ih =>
      have hentry := getElem?_events hevents hwanted
      cases hfound : extractReqValues (.dict event) expected with
      | error r =>
          rw [compareEvents_of_error hentry hfound]
          exact compared_of_error hwanted hnext hfound
      | ok found =>
          rw [compareEvents_of_ok hentry hfound, hevents]
          refine Compared.cons ?_ hwanted hnext hfound
          by_cases hacc : accepted ignoreOrder (wanted.map .event) found expected = true
          · have hcounts : Counts ignoreOrder wanted expected event := ⟨found, hfound, hacc⟩
            have hlength : (before ++ [expected]).length = before.length + 1 := by simp
            rw [if_pos hacc, ← hlength]
            rcases after with _ | ⟨next, after⟩
            · -- the last one has come: the next entry, if it is looked for, does not exist
              have hmet := hnext.met_of_hit hcounts
              rw [← hwanted] at hmet ⊢
              have hnone : h.events[wanted.length]? = none := by
                rw [hevents, List.getElem?_eq_none_iff, List.length_map]
              rw [compareEvents_of_none hnone]
              exact compared_of_met hmet
            · have hwanted' : wanted = (before ++ [expected]) ++ next :: after := by
                rw [hwanted, List.append_cons]
              have hmore : (before ++ [expected]).length ≠ h.counter := by
                rw [hwanted', List.length_append, List.length_cons] at hcounter
                omega
              rw [if_neg hmore]
              exact ih hwanted' (hnext.hit hcounts next)
          · have hmiss : ¬ Counts ignoreOrder wanted expected event := by
              rintro ⟨found', hfound', hacc'⟩
              rw [hfound, Except.ok.injEq] at hfound'
              exact hacc (hfound' ▸ hacc')
            rw [if_neg hacc]
            exact ih hwanted (hnext.miss hmiss)

/-! ## Validation -/

/-- What is held is met by an event of the server that matches it. -/
def EntryMatches : Entry α → Event α → Prop
  | .event expected, event => Matches expected event
  | .group _, _ => False

/-- `validate` returns, and when the server lists, in order, matching events for all that are held, it does not
    report that one of them is missing. -/
def ValidatesHeld (strptime : Text → Option ℤ) (h : EventHelper α) (server : Server α) (since : Option Text)
    (eventsCount : ℤ) (ignoreOrder : Bool) : Prop :=
  ∃ failures, h.validate strptime server since eventsCount ignoreOrder = .ok failures ∧
    (List.SublistForall₂ EntryMatches h.events (server.getEvents (h.sinceTime since) eventsCount) →
      ∀ entry, .unableToValidate entry ∉ failures)

theorem entryMatches_map_iff :
    List.SublistForall₂ EntryMatches (wanted.map .event) listed ↔ List.SublistForall₂ Matches wanted listed :=
  List.sublistForall₂_map_left_iff

/-- In order, matching events count. -/
theorem counts_of_matches (hmet : List.SublistForall₂ Matches wanted listed) :
    List.SublistForall₂ (Counts ignoreOrder wanted) wanted listed :=
  InOrder.imp hmet fun _ hmem _ _ hmatches => hmatches.counts hmem

/-- Without events there is nothing to validate. -/
theorem validatesHeld_of_nil {strptime : Text → Option ℤ} (hevents : h.events = []) (server : Server α)
    (since : Option Text) (eventsCount : ℤ) (ignoreOrder : Bool) :
    h.ValidatesHeld strptime server since eventsCount ignoreOrder := by
  refine ⟨[], ?_, fun _ _ => List.not_mem_nil⟩
  rw [validate, hevents]
  rfl

/-- With events, `validate` returns when both looks do, and the failures are theirs. -/
theorem validate_eq_ok_iff {strptime : Text → Option ℤ} (hne : h.events ≠ []) {server : Server α}
    {since : Option Text} {eventsCount : ℤ} {failures : List (Failure α)} :
    h.validate strptime server since eventsCount ignoreOrder = .ok failures ↔
      ∃ seen, duplicateEventIdsPresent strptime (server.getEvents none (-1)) = .ok seen ∧
        ∃ compared, h.compareEvents ignoreOrder (server.getEvents (h.sinceTime since) eventsCount) 0 = .ok compared ∧
          failures = seen.failures ++ (if seen.duplicatesPresent then [Failure.duplicateIds] else []) ++
            (if (server.getEvents (h.sinceTime since) eventsCount).isEmpty then
              [Failure.unableToFetch (h.sinceTime since) server.ip] else []) ++ compared := by
  have hsome : ¬ h.events.isEmpty = true := by simp [hne]
  unfold validate
  rw [if_neg hsome, Raises.bind_eq_ok_iff]
  refine exists_congr fun seen => and_congr_right fun _ => ?_
  rw [Raises.bind_eq_ok_iff]
  exact exists_congr fun compared => and_congr_right fun _ => ⟨fun h => (Except.ok.inj h).symm, fun h => h ▸ rfl⟩

omit [DecidableEq α] in
/-- Events are missed by the second look only. -/
theorem unableToValidate_mem_iff {strptime : Text → Option ℤ} {entry : Entry α} {seen : Seen α}
    (hsound : seen.Sound strptime) {events : List (Event α)} {since : Option Text} {ip : Text}
    {compared : List (Failure α)} :
    .unableToValidate entry ∈ seen.failures ++ (if seen.duplicatesPresent then [Failure.duplicateIds] else []) ++
        (if events.isEmpty then [Failure.unableToFetch since ip] else []) ++ compared ↔
      .unableToValidate entry ∈ compared := by
  have hfailures := hsound.failures entry
  rw [List.mem_append, List.mem_append, List.mem_append]
  split <;> split <;> simp [hfailures]

section Held

variable {strptime : Text → Option ℤ} (hevents : h.events = wanted.map .event) (hcounter : wanted.length ≤ h.counter)
  (hne : wanted ≠ []) (server : Server α) (since : Option Text) (eventsCount : ℤ) (ignoreOrder : Bool)

include hevents hcounter hne

/-- With events, `validate` returns when the events of the server can be read and compared, and the held ones do not
    all come although some have been dropped. -/
theorem validate_returns_iff :
    (∃ failures, h.validate strptime server since eventsCount ignoreOrder = .ok failures) ↔
      (∀ event ∈ server.getEvents none (-1), Readable strptime event) ∧
      Comparable ignoreOrder wanted [] (server.getEvents (h.sinceTime since) eventsCount) ∧
      (List.SublistForall₂ (Counts ignoreOrder wanted) wanted (server.getEvents (h.sinceTime since) eventsCount) →
        h.counter = wanted.length) := by
  obtain ⟨expected, after, hwanted⟩ := List.exists_cons_of_ne_nil hne
  have hiff := (compareEvents_spec ignoreOrder (server.getEvents (h.sinceTime since) eventsCount)
    hevents hcounter hwanted (InOrder.next_nil expected)).returns_iff
  rw [List.nil_append] at hiff
  have hsome : h.events ≠ [] := by simp [hevents, hne]
  rw [← hiff]
  constructor
  · rintro ⟨failures, hvalidate⟩
    obtain ⟨seen, hseen, compared, hcompared, -⟩ := (validate_eq_ok_iff hsome).1 hvalidate
    exact ⟨(of_duplicateEventIdsPresent hseen).1, compared, hcompared⟩
  · rintro ⟨hread, compared, hcompared⟩
    obtain ⟨seen, hseen, -⟩ := (duplicateEventIdsPresent_spec strptime _).1 hread
    exact ⟨_, (validate_eq_ok_iff hsome).2 ⟨seen, hseen, compared, hcompared, rfl⟩⟩

/-- With events, `validate` does not miss those that are there in order. -/
theorem not_missed_of_met {failures : List (Failure α)}
    (hok : h.validate strptime server since eventsCount ignoreOrder = .ok failures)
    (hmet : List.SublistForall₂ (Counts ignoreOrder wanted) wanted
      (server.getEvents (h.sinceTime since) eventsCount)) (entry : Entry α) :
    .unableToValidate entry ∉ failures := by
  obtain ⟨expected, after, hwanted⟩ := List.exists_cons_of_ne_nil hne
  have hempty := (compareEvents_spec ignoreOrder (server.getEvents (h.sinceTime since) eventsCount)
    hevents hcounter hwanted (InOrder.next_nil expected)).complete
  have hsome : h.events ≠ [] := by simp [hevents, hne]
  obtain ⟨seen, hseen, compared, hcompared, rfl⟩ := (validate_eq_ok_iff hsome).1 hok
  obtain rfl := hempty compared hcompared hmet
  rw [unableToValidate_mem_iff (of_duplicateEventIdsPresent hseen).2]
  exact List.not_mem_nil

/-- With events, `validate` does well when it returns. -/
theorem validatesHeld_iff :
    h.ValidatesHeld strptime server since eventsCount ignoreOrder ↔
      (∀ event ∈ server.getEvents none (-1), Readable strptime event) ∧
      Comparable ignoreOrder wanted [] (server.getEvents (h.sinceTime since) eventsCount) ∧
      (List.SublistForall₂ (Counts ignoreOrder wanted) wanted (server.getEvents (h.sinceTime since) eventsCount) →
        h.counter = wanted.length) := by
  rw [← validate_returns_iff hevents hcounter hne, ValidatesHeld]
  refine exists_congr fun failures => and_iff_left_of_imp fun hok hmet => ?_
  rw [hevents, entryMatches_map_iff] at hmet
  exact not_missed_of_met hevents hcounter hne server since eventsCount ignoreOrder hok (counts_of_matches hmet)

end Held

/-- **Validation survives exactly the histories that have not rolled over, and those whose events are missing**:
    after any history without a parallel phase, `validate` returns and does not miss what the server lists in
    order, if and only if nothing has been recorded; or all events of the server have a uuid and a time, those
    compared have dictionaries where the expected ones do, and no recorded event has been dropped or the server
    does not list all the held ones. -/
theorem validate_survives_iff (strptime : Text → Option ℤ) (calls : List (Call α))
    (hserial : .enableParallelEvents ∉ calls) :
    ∃ h, run calls new = .ok h ∧ h.events = (held (recorded calls)).map .event ∧
      ∀ (server : Server α) (since : Option Text) (eventsCount : ℤ) (ignoreOrder : Bool),
        h.ValidatesHeld strptime server since eventsCount ignoreOrder ↔
          recorded calls = [] ∨
            (∀ event ∈ server.getEvents none (-1), Readable strptime event) ∧
            Comparable ignoreOrder (held (recorded calls)) []
              (server.getEvents (h.sinceTime since) eventsCount) ∧
            ((recorded calls).length ≤ maxEvents ∨
              ¬ List.SublistForall₂ (Counts ignoreOrder (held (recorded calls))) (held (recorded calls))
                (server.getEvents (h.sinceTime since) eventsCount)) := by
  obtain ⟨h, hrun, hrec⟩ := recorded_new.run hserial
  have hrec : Recorded (recorded calls) h := hrec
  refine ⟨h, hrun, hrec.events_eq, ?_⟩
  intro server since eventsCount ignoreOrder
  by_cases hnil : recorded calls = []
  · have hevents : h.events = [] := by
      rw [hrec.events_eq, (held_eq_nil_iff _).2 hnil]
      rfl
    exact ⟨fun _ => .inl hnil, fun _ => validatesHeld_of_nil hevents server since eventsCount ignoreOrder⟩
  · have hlength := length_held (recorded calls)
    have hcounter : (held (recorded calls)).length ≤ h.counter := by
      rw [hrec.counter_eq]
      omega
    have hdropped : h.counter = (held (recorded calls)).length ↔ (recorded calls).length ≤ maxEvents := by
      rw [hrec.counter_eq]
      omega
    rw [validatesHeld_iff hrec.events_eq hcounter (fun h => hnil ((held_eq_nil_iff _).1 h)), hdropped,
      imp_iff_or_not, or_iff_right hnil]

end EventHelper

end Compare

/-! ## Histories of three and of too many events -/

section Sample

/-- An event as it is recorded. -/
def sampleEvent : Event ℤ := [("event_id".toList, .scalar 0), ("component".toList, .str "ns_server".toList)]

/-- The event as the server lists it the `i`-th time. -/
def listedEvent (i : ℕ) : Event ℤ :=
  (Fields.uuid, .str (toString i).toList) :: (Fields.timestamp, .str "2022-01-01T00:00:00.000Z".toList) :: sampleEvent

def sampleServer (n : ℕ) : Server ℤ := ⟨"10.0.0.1".toList, fun _ _ => (List.range n).map listedEvent⟩

def sampleTime (text : Text) : Option ℤ :=
  if text = "2022-01-01T00:00:00.000Z".toList then some 1640995200000000 else none

/-- So many events are recorded once the start time has been set. -/
def sampleCalls (n : ℕ) : List (EventHelper.Call ℤ) :=
  .setTestStartTime "2022-01-01T00:00:00.000Z".toList :: List.replicate n (.addEvent sampleEvent)

theorem recorded_sampleCalls (n : ℕ) : EventHelper.recorded (sampleCalls n) = List.replicate n sampleEvent := by
  show EventHelper.recordedFrom true (List.replicate n (.addEvent sampleEvent)) = _
  induction n with
  | zero => rfl
  | succ n ih => rw [List.replicate_succ, List.replicate_succ, EventHelper.recordedFrom, ih]

theorem sampleCalls_serial (n : ℕ) : .enableParallelEvents ∉ sampleCalls n := by
  intro hmem
  rcases List.mem_cons.1 hmem with heq | hmem
  · cases heq
  · cases List.eq_of_mem_replicate hmem

theorem extract_listedEvent (i : ℕ) : extractReqValues (.dict (listedEvent i)) sampleEvent = .ok sampleEvent := by
  rfl

theorem matches_listedEvent (i : ℕ) : Matches sampleEvent (listedEvent i) :=
  ⟨sampleEvent, extract_listedEvent i, by decide⟩

theorem readable_listedEvent (i : ℕ) : Readable sampleTime (listedEvent i) :=
  ⟨_, _, rfl, rfl, rfl, 1640995200000000, rfl⟩

theorem three_le_maxEvents : 3 ≤ maxEvents := by
  unfold maxEvents
  decide

/-- Three events are recorded, and the server lists two. -/
theorem validate_survives_three :
    ∃ h, EventHelper.run (sampleCalls 3) .new = .ok h ∧
      h.ValidatesHeld sampleTime (sampleServer 2) none (-1) false := by
  obtain ⟨h, hrun, -, hiff⟩ := EventHelper.validate_survives_iff sampleTime (sampleCalls 3) (sampleCalls_serial 3)
  refine ⟨h, hrun, (hiff (sampleServer 2) none (-1) false).2 (.inr ⟨?_, comparable_of_forall ?_, .inl ?_⟩)⟩
  · intro event hmem
    obtain ⟨i, -, rfl⟩ := List.mem_map.1 hmem
    exact readable_listedEvent i
  · intro event hmem expected hexpected
    obtain ⟨i, -, rfl⟩ := List.mem_map.1 hmem
    rw [EventHelper.held, recorded_sampleCalls, List.drop_replicate] at hexpected
    rw [List.eq_of_mem_replicate hexpected]
    exact ⟨_, extract_listedEvent i⟩
  · rw [recorded_sampleCalls, List.length_replicate]
    exact three_le_maxEvents

/-- One event more than are held, all of those listed by the server: `validate` does not return. -/
theorem validate_rollover :
    ∃ h, EventHelper.run (sampleCalls (maxEvents + 1)) .new = .ok h ∧
      ¬ h.ValidatesHeld sampleTime (sampleServer maxEvents) none (-1) false := by
  obtain ⟨h, hrun, hrec⟩ := EventHelper.recorded_new.run (sampleCalls_serial (maxEvents + 1))
  have hrec : EventHelper.Recorded (EventHelper.recorded (sampleCalls (maxEvents + 1))) h := hrec
  have hone : maxEvents + 1 - (maxEvents + 1 - maxEvents) = maxEvents := by omega
  rw [recorded_sampleCalls] at hrec
  have hheld : EventHelper.held (List.replicate (maxEvents + 1) sampleEvent)
      = List.replicate maxEvents sampleEvent := by
    rw [EventHelper.held, List.length_replicate, List.drop_replicate, hone]
  have hevents := hrec.events_eq
  rw [hheld] at hevents
  have hcounter := hrec.counter_eq
  rw [List.length_replicate] at hcounter
  refine ⟨h, hrun, ?_⟩
  intro hvalidates
  have hne : List.replicate maxEvents sampleEvent ≠ [] := by
    rw [ne_eq, List.replicate_eq_nil_iff]
    exact Nat.ne_of_gt EventHelper.maxEvents_pos
  have hall := ((EventHelper.validatesHeld_iff hevents (by rw [List.length_replicate]; omega) hne _ _ _ _).1
    hvalidates).2.2
  have hmet : List.SublistForall₂ Matches (List.replicate maxEvents sampleEvent)
      ((List.range maxEvents).map listedEvent) := by
    refine List.sublistForall₂_iff.2 ⟨_, List.forall₂_iff_zip.2 ⟨by simp, ?_⟩, List.Sublist.refl _⟩
    intro expected event hmem
    obtain ⟨hexpected, hevent⟩ := List.of_mem_zip hmem
    obtain ⟨i, -, rfl⟩ := List.mem_map.1 hevent
    rw [List.eq_of_mem_replicate hexpected]
    exact matches_listedEvent i
  have := hall (EventHelper.counts_of_matches hmet)
  rw [List.length_replicate] at this
  omega

end Sample

end TestInfra.SystemEvents
