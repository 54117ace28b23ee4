import TestInfra.SystemEvents.Validate

set_option autoImplicit false

/-! # What the duplicate check finds

`__duplicate_event_ids_present` looks back at the event before and at the last event with the same uuid. For events
in the order of their times this is as good as looking at all events before (`spaced_cons_iff`), so the check finds
nothing exactly in the lists that are in order and where events with the same uuid are far enough apart. -/

namespace TestInfra.SystemEvents

open PyText

/-! ## Stamps in order and apart -/

section Spaced

variable {κ : Type*} (same : κ → κ → Bool) (gap : ℤ)

/-- With the newest stamp first: the times are in order, and stamps with the same key are `gap` apart. -/
structure Spaced (history : List (κ × ℤ)) : Prop where
  ordered : history.Pairwise fun later earlier => earlier.2 ≤ later.2
  apart : history.Pairwise fun later earlier => same earlier.1 later.1 = true → gap ≤ later.2 - earlier.2

theorem spaced_nil : Spaced same gap [] := ⟨.nil, .nil⟩

variable {same gap}

/-- Of the stamps before, the last one and the last one with the same key say it all. -/
theorem spaced_cons_iff {stamp : κ × ℤ} {history : List (κ × ℤ)} :
    Spaced same gap (stamp :: history) ↔ Spaced same gap history ∧
      (∀ prev ∈ history.head?, prev.2 ≤ stamp.2) ∧
      ∀ first ∈ history.find? fun p => same p.1 stamp.1, gap ≤ stamp.2 - first.2 := by
  constructor
  · rintro ⟨hordered, hapart⟩
    obtain ⟨hprev, hordered⟩ := List.pairwise_cons.1 hordered
    obtain ⟨hfirst, hapart⟩ := List.pairwise_cons.1 hapart
    refine ⟨⟨hordered, hapart⟩, fun prev hmem => hprev prev (List.mem_of_head? hmem), ?_⟩
    intro first hfind
    have hsame := List.find?_some hfind
    exact hfirst first (List.mem_of_find?_eq_some hfind) hsame
  · rintro ⟨⟨hordered, hapart⟩, hprev, hfirst⟩
    refine ⟨List.pairwise_cons.2 ⟨?_, hordered⟩, List.pairwise_cons.2 ⟨?_, hapart⟩⟩
    · -- the stamp before is not older than those before it
      cases history with
      | nil => simp
      | cons prev history =>
          have hle := hprev prev rfl
          refine List.forall_mem_cons.2 ⟨hle, fun earlier hmem => ?_⟩
          exact Int.le_trans ((List.pairwise_cons.1 hordered).1 earlier hmem) hle
    · intro earlier hmem hsame
      cases hfind : history.find? fun p => same p.1 stamp.1 with
      | none => exact absurd hsame (List.find?_eq_none.1 hfind earlier hmem)
      | some first =>
          -- what comes before the last one with the key is no younger than it
          have hgap := hfirst first hfind
          obtain ⟨-, newer, older, rfl, hnewer⟩ := List.find?_eq_some_iff_append.1 hfind
          have hle : earlier.2 ≤ first.2 := by
            rcases List.mem_append.1 hmem with hmem | hmem
            · have hnot := hnewer earlier hmem
              rw [hsame] at hnot
              cases hnot
            · rcases List.mem_cons.1 hmem with rfl | hmem
              · exact Int.le_refl _
              · exact (List.pairwise_cons.1 (List.pairwise_append.1 hordered).2.1).1 earlier hmem
          omega

end Spaced

/-! ## The stamps of the events -/

section Generic

variable {α : Type} (strptime : Text → Option ℤ)

/-- The uuid of an event, one that a dictionary can be keyed by, and its time. -/
structure Stamped (event : Event α) (stamp : Json α × ℤ) : Prop where
  uuid : item Fields.uuid event = .ok stamp.1
  hashable : hashable stamp.1 = true
  time : (item Fields.timestamp event).bind (getDatetimeObjFromStr strptime) = .ok stamp.2

/-- What has been seen holds the stamps of the events so far, the newest first. -/
structure Seen.Holds (history : List (Json α × ℤ)) (seen : Seen α) : Prop where
  prev : seen.prevTimestamp = seen.timestamps.head?.map Prod.snd
  timestamps : List.Forall₂ (fun p stamp => p.1 = stamp.1 ∧ getDatetimeObjFromStr strptime p.2 = .ok stamp.2)
    seen.timestamps history

variable {strptime} {seen : Seen α} {history : List (Json α × ℤ)}

theorem checkOrder_holds (h : seen.Holds strptime history) (uuid timestamp : Json α) (curr : ℤ) :
    ∃ seen', checkOrder strptime uuid timestamp curr seen = .ok seen' ∧ seen'.timestamps = seen.timestamps ∧
      (seen'.duplicatesPresent = false ↔
        seen.duplicatesPresent = false ∧ ∀ prev ∈ history.head?, prev.2 ≤ curr) := by
  obtain ⟨hprev, htimestamps⟩ := h
  unfold checkOrder
  cases htimestamps' : seen.timestamps with
  | nil =>
      rw [htimestamps'] at hprev htimestamps
      cases htimestamps
      rw [hprev]
      exact ⟨seen, rfl, htimestamps', by simp⟩
  | cons p timestamps =>
      rw [htimestamps'] at hprev htimestamps
      cases htimestamps with
      | @cons _ stamp _ history hp _ =>
          rw [hprev]
          simp only [List.head?_cons, Option.map_some, hp.2]
          refine ⟨_, rfl, ?_⟩
          by_cases hlt : curr < stamp.2
          · simp [hlt, Seen.fail, htimestamps']
          · simp [hlt, htimestamps', Int.not_lt.1 hlt]

variable [DecidableEq α]

/-- The last stamp with the uuid is found where the text of its time is. -/
theorem Seen.Holds.find? (h : seen.Holds strptime history) (uuid : Json α) :
    Option.Rel (fun p stamp => getDatetimeObjFromStr strptime p.2 = .ok stamp.2)
      (seen.timestamps.find? fun p => p.1.pyEq uuid) (history.find? fun p => p.1.pyEq uuid) := by
  obtain ⟨-, htimestamps⟩ := h
  generalize seen.timestamps = timestamps at htimestamps
  induction htimestamps with
  | nil => exact .none
  | @cons p stamp timestamps history hp _ ih =>
      rw [List.find?_cons, List.find?_cons, hp.1]
      cases stamp.1.pyEq uuid with
      | true => exact .some hp.2
      | false => exact ih

theorem checkUuid_holds {seen' : Seen α} (h : seen.Holds strptime history)
    (hseen' : seen'.timestamps = seen.timestamps) {uuid timestamp : Json α} (hhash : hashable uuid = true) {curr : ℤ}
    (hcurr : getDatetimeObjFromStr strptime timestamp = .ok curr) :
    ∃ seen'', checkUuid strptime uuid timestamp seen' = .ok seen'' ∧ seen''.timestamps = seen.timestamps ∧
      (seen''.duplicatesPresent = false ↔ seen'.duplicatesPresent = false ∧
        ∀ first ∈ history.find? fun p => p.1.pyEq uuid, uuidUniquenessTime ≤ curr - first.2) := by
  unfold checkUuid
  have hfind := h.find? uuid
  rw [if_pos hhash, hseen']
  generalize seen.timestamps.find? (fun p => p.1.pyEq uuid) = last at hfind ⊢
  generalize history.find? (fun p => p.1.pyEq uuid) = first at hfind ⊢
  cases hfind with
  | none => exact ⟨seen', rfl, hseen', by simp⟩
  | @some p stamp hp =>
      simp only [hp, hcurr]
      refine ⟨_, rfl, ?_⟩
      by_cases hlt : curr - stamp.2 < uuidUniquenessTime
      · simp [hlt, Seen.fail, hseen']
      · simp [hlt, hseen', Int.not_lt.1 hlt]

/-- One turn of the loop. -/
theorem checkEvent_holds (h : seen.Holds strptime history) {event : Event α} {stamp : Json α × ℤ}
    (hstamp : Stamped strptime event stamp) :
    ∃ seen', checkEvent strptime seen event = .ok seen' ∧ seen'.Holds strptime (stamp :: history) ∧
      (seen'.duplicatesPresent = false ↔ seen.duplicatesPresent = false ∧
        (∀ prev ∈ history.head?, prev.2 ≤ stamp.2) ∧
        ∀ first ∈ history.find? fun p => p.1.pyEq stamp.1, uuidUniquenessTime ≤ stamp.2 - first.2) := by
  obtain ⟨timestamp, htimestamp, hcurr⟩ := Raises.bind_eq_ok_iff.1 hstamp.time
  obtain ⟨ordered, hordered, hsame, hlate⟩ := checkOrder_holds h stamp.1 timestamp stamp.2
  obtain ⟨next, hnext, hsame', hsoon⟩ := checkUuid_holds h hsame hstamp.hashable hcurr
  refine ⟨{ next with prevTimestamp := some timestamp, timestamps := (stamp.1, timestamp) :: next.timestamps },
    ?_, ⟨rfl, ?_⟩, ?_⟩
  · refine Raises.bind_eq_ok_iff.2 ⟨stamp.1, hstamp.uuid, Raises.bind_eq_ok_iff.2 ⟨timestamp, htimestamp, ?_⟩⟩
    refine Raises.bind_eq_ok_iff.2 ⟨stamp.2, hcurr, Raises.bind_eq_ok_iff.2 ⟨ordered, hordered, ?_⟩⟩
    exact Raises.bind_eq_ok_iff.2 ⟨next, hnext, rfl⟩
  · rw [hsame']
    exact .cons ⟨rfl, hcurr⟩ h.timestamps
  · rw [← and_assoc, ← hlate]
    exact hsoon

/-- The loop over events with stamps. -/
theorem foldlM_holds {events : List (Event α)} {stamps : List (Json α × ℤ)}
    (hstamps : List.Forall₂ (Stamped strptime) events stamps) (h : seen.Holds strptime history)
    (hclean : seen.duplicatesPresent = false ↔ Spaced Json.pyEq uuidUniquenessTime history) :
    ∃ seen', events.foldlM (checkEvent strptime) seen = .ok seen' ∧
      (seen'.duplicatesPresent = false ↔ Spaced Json.pyEq uuidUniquenessTime (stamps.reverse ++ history)) := by
  induction hstamps generalizing seen history with
  | nil => exact ⟨seen, rfl, hclean⟩
  | @cons event stamp events stamps hstamp _ ih =>
      obtain ⟨next, hnext, hholds, hiff⟩ := checkEvent_holds h hstamp
      rw [hclean, ← spaced_cons_iff] at hiff
      rw [List.foldlM_cons, hnext, List.reverse_cons, List.append_assoc]
      exact ih hholds hiff

omit [DecidableEq α] in
theorem exists_stamped_of_readable {events : List (Event α)} (h : ∀ event ∈ events, Readable strptime event) :
    ∃ stamps, List.Forall₂ (Stamped strptime) events stamps := by
  induction events with
  | nil => exact ⟨[], .nil⟩
  | cons event events ih =>
      rw [List.forall_mem_cons] at h
      obtain ⟨uuid, timestamp, huuid, hhash, htimestamp, time, htime⟩ := h.1
      obtain ⟨stamps, hstamps⟩ := ih h.2
      exact ⟨(uuid, time) :: stamps,
        .cons ⟨huuid, hhash, Raises.bind_eq_ok_iff.2 ⟨timestamp, htimestamp, htime⟩⟩ hstamps⟩

/-- **The duplicate check finds nothing exactly in a list that is in order and has no event too soon after another
    one with its uuid.** Events without a uuid or a time make it raise. -/
theorem duplicateEventIdsPresent_eq_false_iff (strptime : Text → Option ℤ) (events : List (Event α)) :
    (∃ seen, duplicateEventIdsPresent strptime events = .ok seen ∧ seen.duplicatesPresent = false) ↔
      ∃ stamps, List.Forall₂ (Stamped strptime) events stamps ∧
        stamps.Pairwise (fun earlier later => earlier.2 ≤ later.2) ∧
        stamps.Pairwise (fun earlier later =>
          earlier.1.pyEq later.1 = true → uuidUniquenessTime ≤ later.2 - earlier.2) := by
  have hstart : (⟨false, none, [], []⟩ : Seen α).Holds strptime [] := ⟨rfl, .nil⟩
  have hrun : ∀ stamps, List.Forall₂ (Stamped strptime) events stamps →
      ∃ seen, duplicateEventIdsPresent strptime events = .ok seen ∧
        (seen.duplicatesPresent = false ↔ Spaced Json.pyEq uuidUniquenessTime stamps.reverse) := by
    intro stamps hstamps
    have h := foldlM_holds hstamps hstart ⟨fun _ => spaced_nil _ _, fun _ => rfl⟩
    rwa [List.append_nil] at h
  constructor
  · rintro ⟨seen, hseen, hclean⟩
    have hread : ∀ event ∈ events, Readable strptime event := by
      by_contra hread
      push Not at hread
      obtain ⟨r, hr⟩ := (duplicateEventIdsPresent_spec strptime events).2 hread
      rw [hr] at hseen
      cases hseen
    obtain ⟨stamps, hstamps⟩ := exists_stamped_of_readable hread
    obtain ⟨seen', hseen', hiff⟩ := hrun stamps hstamps
    obtain rfl : seen' = seen := Except.ok.inj (hseen'.symm.trans hseen)
    obtain ⟨hordered, hapart⟩ := hiff.1 hclean
    exact ⟨stamps, hstamps, List.pairwise_reverse.1 hordered, List.pairwise_reverse.1 hapart⟩
  · rintro ⟨stamps, hstamps, hordered, hapart⟩
    obtain ⟨seen, hseen, hiff⟩ := hrun stamps hstamps
    exact ⟨seen, hseen, hiff.2 ⟨List.pairwise_reverse.2 hordered, List.pairwise_reverse.2 hapart⟩⟩

end Generic

end TestInfra.SystemEvents
