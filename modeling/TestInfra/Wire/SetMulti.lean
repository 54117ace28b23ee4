import TestInfra.Wire.GetMulti
import Mathlib.Data.List.Dedup

set_option autoImplicit false

/-! # Pipelined writes

`MemcachedClient.setMulti` sends a `CMD_SET` for every item, with its position as opaque, and a `CMD_NOOP` for
every vbucket, and then reads. An error that a response brings is caught inside the reading loop and collected,
so that the loop goes on to the answer to the `CMD_NOOP` it waits for.

The server answers every request in order, an item with success or with an error. `setMulti_inSync_iff` says when
the call reads what it has to read: the error that is caught is `MemcachedError`, and a code that the error map
of the client does not know raises `TypeError` instead. -/

namespace TestInfra.Wire

open Utf8 Struct

/-! ## Errors -/

/-- The entry of an error map for a code: its fields, as texts. -/
abbrev ErrorEntry := Dict Text Text

/-- `error_map['errors']`. -/
abbrev ErrorMap := Dict ℕ ErrorEntry

/-- What the message of an error is made of: the data of the response, or an entry of the error map with it. -/
inductive ErrorMsg where
  | raw (rv : List UInt8)
  | mapped (name desc : Text) (rv : List UInt8)
deriving DecidableEq, Repr

/-- The data of the response. -/
def ErrorMsg.rv : ErrorMsg → List UInt8
  | raw rv => rv
  | mapped _ _ rv => rv

structure MemcachedError where
  status : ℕ
  msg : ErrorMsg
deriving DecidableEq, Repr

/-- What `_handleKeyedResponse` raises for an error. -/
inductive Raised where
  | memcached (e : MemcachedError)
  /-- The bytes of the response after `**`, or an entry that gives `rv` a second time. -/
  | typeError
  | keyError
deriving DecidableEq, Repr

/-- `name`, `desc` and `rv`, the fields that `"{name} : {desc} : {rv}".format(rv=rv, **err)` is about. -/
def nameField : Text := [110, 97, 109, 101]

def descField : Text := [100, 101, 115, 99]

def rvField : Text := [114, 118]

/-- The error raised for a response with an error code. -/
def raiseError (errorMap : Option ErrorMap) (errcode : ℕ) (rv : List UInt8) : Raised :=
  match errorMap with
  | none => .memcached ⟨errcode, .raw rv⟩
  | some errors =>
      match errors.get? errcode with
      | none => .typeError
      | some err =>
          if (err.get? rvField).isSome then .typeError
          else
            match err.get? nameField, err.get? descField with
            | some name, some desc => .memcached ⟨errcode, .mapped name desc rv⟩
            | _, _ => .keyError

/-- `_handleSingleResponse(None)`. -/
def handleSingleResponse (errorMap : Option ErrorMap) (r : Response) : Except Raised (ℕ × ℕ × List UInt8) :=
  if r.errcode ≠ 0 then .error (raiseError errorMap r.errcode r.data) else .ok (r.opaqueId, r.cas, r.data)

/-! ## `setMulti` -/

def cmdSet : ℕ := 1

/-- `SET_PKT_FMT`, `>II`. -/
def setPktFmt : List ℕ := [4, 4]

/-- The fields of the client that `setMulti` reads. `collectionsOn` is the attribute `collections_supported`, and
    `collectionsSupported` what `is_collections_supported()` returns. -/
structure SetClient extends Client where
  collectionsOn : Bool
  errorMap : Option ErrorMap

/-- `_default`. -/
def defaultName : Text := [95, 100, 101, 102, 97, 117, 108, 116]

/-- `collection_name`. -/
def collectionName (client : SetClient) (scope : Option Text) (collection : Collection) :
    Option Text × Collection :=
  if client.collectionsOn then
    (some (scope.getD defaultName), if collection = .none then .name defaultName else collection)
  else (scope, collection)

/-- `CMD_SET` of an item. -/
def setCommand (k : ℕ) (item : Text × Payload) (extra : List UInt8) (scope : Option Text)
    (collection : Collection) : Command :=
  { cmd := cmdSet, key := .text item.1, val := item.2, opaqueId := k, extraHeader := .bytes extra
    scope := scope, collection := collection }

/-- What sending the items leaves: the client, the vbuckets and the requests. -/
structure SetSent where
  client : Client
  vbs : List ℕ
  requests : List Command

/-- The loop over the items. -/
def sendSets (vbucket : ℤ) (extra : List UInt8) (scope : Option Text) (collection : Collection) :
    List ((Text × Payload) × ℕ) → SetSent → Except SendError SetSent
  | [], st => .ok st
  | (item, k) :: rest, st =>
      match setVbucket st.client item.1 vbucket with
      | .error e => .error e
      | .ok client =>
          match sendCmd client (setCommand k item extra scope collection) with
          | .error e => .error e
          | .ok _ =>
              sendSets vbucket extra scope collection rest
                ⟨client, addVb st.vbs client.vbucketId, st.requests ++ [setCommand k item extra scope collection]⟩

/-- What `setMulti` can raise; `timeout` when no response comes. -/
inductive SetError where
  | send (e : SendError)
  | raised (e : Raised)
  | timeout
deriving DecidableEq, Repr

/-- The reading: what was returned or raised, the number of responses read, and those left unread. -/
structure Reading where
  result : Except SetError (List MemcachedError)
  reads : ℕ
  unread : List Response

/-- `while not done`. -/
def readSets (errorMap : Option ErrorMap) (terminal : ℕ) :
    List Response → List MemcachedError → ℕ → Reading
  | [], _, reads => ⟨.error .timeout, reads, []⟩
  | r :: rest, failed, reads =>
      match handleSingleResponse errorMap r with
      -- `done` keeps its value, so the loop goes on
      | .error (.memcached e) => readSets errorMap terminal rest (failed ++ [e]) (reads + 1)
      | .error e => ⟨.error (.raised e), reads + 1, rest⟩
      | .ok (opaqueId, _, _) =>
          if opaqueId = terminal then ⟨.ok failed, reads + 1, rest⟩
          else readSets errorMap terminal rest failed (reads + 1)

/-- The loop over the vbuckets that reads. -/
def readVbs (errorMap : Option ErrorMap) (terminal : ℕ) : List ℕ → Reading → Reading
  | [], reading => reading
  | _ :: vbs, reading =>
      match reading.result with
      | .error e => ⟨.error e, reading.reads, reading.unread⟩
      | .ok failed => readVbs errorMap terminal vbs (readSets errorMap terminal reading.unread failed reading.reads)

/-- `setMulti`, with the answers to the requests that were sent. -/
def setMulti (respond : Command → Response) (client : SetClient) (exp flags : ℕ) (items : List (Text × Payload))
    (vbucket : ℤ) (scope : Option Text) (collection : Collection) : Reading :=
  let (scope, collection) := collectionName client scope collection
  let terminal := items.length + 10
  match pack setPktFmt [flags, exp] with
  | none => ⟨.error (.send .structError), 0, []⟩
  | some extra =>
      match sendSets vbucket extra scope collection items.zipIdx ⟨client.toClient, [], []⟩ with
      | .error e => ⟨.error (.send e), 0, []⟩
      | .ok st =>
          match sendNoops terminal st.vbs st.client [] with
          | (.error e, _) => ⟨.error (.send e), 0, []⟩
          | (.ok _, _) =>
              let requests := st.requests ++ st.vbs.map fun _ => noopCommand terminal
              readVbs client.errorMap terminal st.vbs ⟨.ok [], 0, requests.map respond⟩

/-! ## The server -/

/-- An error that the server answers. -/
structure Failure where
  errcode : ℕ
  rv : List UInt8
  errcode_ne : errcode ≠ 0

/-- The outcomes of the items: the cas of an item that was stored, or its error. -/
abbrev Outcomes := ℕ → ℕ ⊕ Failure

/-- The answer to a request: the outcome of the item, and success for `CMD_NOOP`. -/
def respondTo (outcomes : Outcomes) (request : Command) : Response :=
  if request.cmd = cmdNoop then ⟨cmdNoop, 0, request.opaqueId, 0, []⟩
  else
    match outcomes request.opaqueId with
    | .inl cas => ⟨request.cmd, 0, request.opaqueId, cas, []⟩
    | .inr f => ⟨request.cmd, f.errcode, request.opaqueId, 0, f.rv⟩

/-- The errors of the items with these numbers, in their order. -/
def failuresAt (outcomes : Outcomes) (ks : List ℕ) : List Failure := ks.filterMap fun k => (outcomes k).getRight?

/-! ## Sending -/

/-- The vbucket of a key. -/
def vbucketOf (client : Client) (vbucket : ℤ) (key : Text) : ℕ :=
  match setVbucket client key vbucket with
  | .ok client => client.vbucketId
  | .error _ => client.vbucketId

/-- Only the vbucket of the client is set, and the one it had is not read. -/
theorem setVbucket_with (client : Client) (vb : ℕ) (key : Text) (vbucket : ℤ) :
    setVbucket { client with vbucketId := vb } key vbucket = setVbucket client key vbucket := rfl

theorem eq_with_of_setVbucket {client client' : Client} {key : Text} {vbucket : ℤ}
    (h : setVbucket client key vbucket = .ok client') :
    client' = { client with vbucketId := vbucketOf client vbucket key } := by
  have hvb : vbucketOf client vbucket key = client'.vbucketId := by rw [vbucketOf, h]
  rw [hvb]
  rw [setVbucket] at h
  split at h
  · split at h
    · cases h
      rfl
    · cases h
  · cases h
    rfl

theorem vbucketId_lt_of_sendCmd {client : Client} {command : Command} {bytes : List UInt8}
    (h : sendCmd client command = .ok bytes) : client.vbucketId < 2 ^ 16 := by
  have hparts : ∃ key, sendParts (command.message client) key = .ok bytes := by
    rw [sendCmd, sendMsg] at h
    split at h
    · rcases hcoded : encodeCollectionId client (command.message client).key (command.message client).scope
        (command.message client).collection with e | key
      · rw [hcoded] at h
        cases h
      · rw [hcoded] at h
        exact ⟨key, h⟩
    · exact ⟨_, h⟩
  obtain ⟨key, hkey⟩ := hparts
  obtain ⟨msg, -, -, -, -, hmsg, -⟩ := (sendParts_eq_ok_iff _ _ _).1 hkey
  exact ((pack_header_isSome_iff _ key).1 (Option.isSome_iff_exists.2 ⟨msg, hmsg⟩)).2.2.2.2.2.1

/-- The request for an item can be made: its vbucket is found, and the packet packed and encoded. -/
def ItemSendable (client : Client) (vbucket : ℤ) (extra : List UInt8) (scope : Option Text)
    (collection : Collection) (p : (Text × Payload) × ℕ) : Prop :=
  ∃ client' bytes, setVbucket client p.1.1 vbucket = .ok client' ∧
    sendCmd client' (setCommand p.2 p.1 extra scope collection) = .ok bytes

theorem ItemSendable.vbucketOf_lt {client : Client} {vbucket : ℤ} {extra : List UInt8} {scope : Option Text}
    {collection : Collection} {p : (Text × Payload) × ℕ}
    (h : ItemSendable client vbucket extra scope collection p) : vbucketOf client vbucket p.1.1 < 2 ^ 16 := by
  obtain ⟨client', bytes, hvb, hsend⟩ := h
  rw [vbucketOf, hvb]
  exact vbucketId_lt_of_sendCmd hsend

section Equations

variable {client client' : Client} {vbucket : ℤ} {extra : List UInt8} {scope : Option Text}
  {collection : Collection} {item : Text × Payload} {k vb : ℕ} {rest : List ((Text × Payload) × ℕ)} {vbs : List ℕ}
  {requests : List Command} {bytes : List UInt8} {e : SendError}

theorem sendSets_of_sent (hvb : setVbucket client item.1 vbucket = .ok client')
    (hsend : sendCmd client' (setCommand k item extra scope collection) = .ok bytes) :
    sendSets vbucket extra scope collection ((item, k) :: rest) ⟨{ client with vbucketId := vb }, vbs, requests⟩ =
      sendSets vbucket extra scope collection rest
        ⟨{ client with vbucketId := vbucketOf client vbucket item.1 }, addVb vbs (vbucketOf client vbucket item.1),
          requests ++ [setCommand k item extra scope collection]⟩ := by
  have hclient := eq_with_of_setVbucket hvb
  have hid : client'.vbucketId = vbucketOf client vbucket item.1 := by rw [hclient]
  simp only [sendSets, setVbucket_with, hvb, hsend, hid]
  rw [← hclient]

theorem sendSets_of_error (hvb : setVbucket client item.1 vbucket = .ok client')
    (hsend : sendCmd client' (setCommand k item extra scope collection) = .error e) :
    sendSets vbucket extra scope collection ((item, k) :: rest) ⟨{ client with vbucketId := vb }, vbs, requests⟩ =
      .error e := by
  simp only [sendSets, setVbucket_with, hvb, hsend]

theorem sendSets_of_vbucket_error (hvb : setVbucket client item.1 vbucket = .error e) :
    sendSets vbucket extra scope collection ((item, k) :: rest) ⟨{ client with vbucketId := vb }, vbs, requests⟩ =
      .error e := by
  simp only [sendSets, setVbucket_with, hvb]

end Equations

/-- The loop over the items: it ends exactly when every request can be made, and has sent them all. -/
theorem sendSets_spec (client : Client) (vbucket : ℤ) (extra : List UInt8) (scope : Option Text)
    (collection : Collection) (pairs : List ((Text × Payload) × ℕ)) (vb : ℕ) (vbs : List ℕ)
    (requests : List Command) :
    ((∃ st, sendSets vbucket extra scope collection pairs ⟨{ client with vbucketId := vb }, vbs, requests⟩ = .ok st) ↔
      ∀ p ∈ pairs, ItemSendable client vbucket extra scope collection p) ∧
    ∀ st, sendSets vbucket extra scope collection pairs ⟨{ client with vbucketId := vb }, vbs, requests⟩ = .ok st →
      st.vbs = (pairs.map fun p => vbucketOf client vbucket p.1.1).foldl addVb vbs ∧
      st.requests = requests ++ pairs.map fun p => setCommand p.2 p.1 extra scope collection := by
  induction pairs generalizing vb vbs requests with
  | nil =>
      refine ⟨⟨fun _ p hp => absurd hp List.not_mem_nil, fun _ => ⟨_, rfl⟩⟩, ?_⟩
      intro st h
      cases h
      simp
  | cons p rest ih =>
      obtain ⟨item, k⟩ := p
      rw [List.forall_mem_cons]
      rcases hvb : setVbucket client item.1 vbucket with e | client'
      · have hno : ¬ ItemSendable client vbucket extra scope collection (item, k) := by
          rintro ⟨client', bytes, hok, -⟩
          rw [hvb] at hok
          cases hok
        rw [sendSets_of_vbucket_error hvb]
        exact ⟨⟨fun ⟨_, h⟩ => (by cases h), fun h => absurd h.1 hno⟩, fun _ h => (by cases h)⟩
      rcases hsend : sendCmd client' (setCommand k item extra scope collection) with e | bytes
      · have hno : ¬ ItemSendable client vbucket extra scope collection (item, k) := by
          rintro ⟨client'', bytes, hok, hbytes⟩
          rw [hvb] at hok
          cases hok
          rw [hsend] at hbytes
          cases hbytes
        rw [sendSets_of_error hvb hsend]
        exact ⟨⟨fun ⟨_, h⟩ => (by cases h), fun h => absurd h.1 hno⟩, fun _ h => (by cases h)⟩
      · rw [sendSets_of_sent hvb hsend]
        obtain ⟨hiff, hspec⟩ := ih (vbucketOf client vbucket item.1) (addVb vbs (vbucketOf client vbucket item.1))
          (requests ++ [setCommand k item extra scope collection])
        refine ⟨hiff.trans ⟨fun h => ⟨⟨client', bytes, hvb, hsend⟩, h⟩, fun h => h.2⟩, ?_⟩
        intro st h
        obtain ⟨hvbs, hrequests⟩ := hspec st h
        refine ⟨hvbs, ?_⟩
        rw [hrequests, List.append_assoc]
        rfl

theorem nodup_foldl_addVb {l vbs : List ℕ} (h : vbs.Nodup) : (l.foldl addVb vbs).Nodup := by
  induction l generalizing vbs with
  | nil => exact h
  | cons vb l ih =>
      refine ih ?_
      rw [addVb]
      split
      · exact h
      · next hvb =>
          rw [List.nodup_append]
          refine ⟨h, List.nodup_singleton vb, ?_⟩
          rintro a ha b hb rfl
          rw [List.mem_singleton] at hb
          exact hvb (hb ▸ ha)

theorem mem_foldl_addVb {l vbs : List ℕ} {v : ℕ} : v ∈ l.foldl addVb vbs ↔ v ∈ vbs ∨ v ∈ l := by
  induction l generalizing vbs with
  | nil => simp
  | cons vb l ih => rw [List.foldl_cons, ih, mem_addVb, List.mem_cons, or_assoc]

/-- The vbuckets of requests that can be made fit their field. -/
theorem vbs_lt_of_sendable {client : Client} {vbucket : ℤ} {extra : List UInt8} {scope : Option Text}
    {collection : Collection} {pairs : List ((Text × Payload) × ℕ)}
    (h : ∀ p ∈ pairs, ItemSendable client vbucket extra scope collection p) :
    ∀ v ∈ (pairs.map fun p => vbucketOf client vbucket p.1.1).foldl addVb [], v < 2 ^ 16 := by
  intro v hv
  rw [mem_foldl_addVb, List.mem_map] at hv
  obtain ⟨p, hp, rfl⟩ := hv.resolve_left List.not_mem_nil
  exact (h p hp).vbucketOf_lt

/-- The vbuckets that are collected are the distinct ones. -/
theorem length_foldl_addVb (l : List ℕ) : (l.foldl addVb []).length = l.dedup.length := by
  refine List.Perm.length_eq ?_
  rw [List.perm_ext_iff_of_nodup (nodup_foldl_addVb List.nodup_nil) (List.nodup_dedup l)]
  intro v
  simp [mem_foldl_addVb]

/-! ## Reading -/

/-- The answer to the request for an item. -/
def setAnswer (outcomes : Outcomes) (k : ℕ) : Response :=
  match outcomes k with
  | .inl cas => ⟨cmdSet, 0, k, cas, []⟩
  | .inr f => ⟨cmdSet, f.errcode, k, 0, f.rv⟩

/-- The code of the error can be put into words: there is no error map, or it has an entry for the code with a
    name and a description (and no field `rv`). -/
def Renders (errorMap : Option ErrorMap) (errcode : ℕ) : Prop :=
  ∀ errors, errorMap = some errors → ∃ err, errors.get? errcode = some err ∧ (err.get? nameField).isSome ∧
    (err.get? descField).isSome ∧ err.get? rvField = none

/-- An error is a `MemcachedError` with the code and the data of the response, exactly when it renders. -/
theorem raiseError_cases (errorMap : Option ErrorMap) (errcode : ℕ) (rv : List UInt8) :
    (Renders errorMap errcode ∧ ∃ e, raiseError errorMap errcode rv = .memcached e ∧ e.status = errcode ∧
      e.msg.rv = rv) ∨
    (¬ Renders errorMap errcode ∧
      (raiseError errorMap errcode rv = .typeError ∨ raiseError errorMap errcode rv = .keyError)) := by
  rcases errorMap with _ | errors
  · exact .inl ⟨fun errors h => (by cases h), _, rfl, rfl, rfl⟩
  have hrenders : Renders (some errors) errcode ↔ ∃ err, errors.get? errcode = some err ∧
      (err.get? nameField).isSome ∧ (err.get? descField).isSome ∧ err.get? rvField = none :=
    ⟨fun h => h errors rfl, fun h _ heq => Option.some.inj heq ▸ h⟩
  rw [hrenders]
  simp only [raiseError]
  rcases herr : errors.get? errcode with _ | err
  · refine .inr ⟨fun h => ?_, .inl rfl⟩
    obtain ⟨_, h, -⟩ := h
    cases h
  dsimp only
  rcases hrv : err.get? rvField with _ | twice
  · rcases hname : err.get? nameField with _ | name
    · refine .inr ⟨fun h => ?_, .inr rfl⟩
      obtain ⟨_, h, hsome, -⟩ := h
      cases h
      rw [hname] at hsome
      cases hsome
    · rcases hdesc : err.get? descField with _ | desc
      · refine .inr ⟨fun h => ?_, .inr rfl⟩
        obtain ⟨_, h, -, hsome, -⟩ := h
        cases h
        rw [hdesc] at hsome
        cases hsome
      · exact .inl ⟨⟨err, rfl, by rw [hname]; rfl, by rw [hdesc]; rfl, hrv⟩, _, rfl, rfl, rfl⟩
  · refine .inr ⟨fun h => ?_, .inl rfl⟩
    obtain ⟨_, h, -, -, hnone⟩ := h
    cases h
    rw [hrv] at hnone
    cases hnone

/-- A `MemcachedError` for each failure: its code and its data. -/
def ErrorsOf (failed : List MemcachedError) (failures : List Failure) : Prop :=
  failed.map (fun e => (e.status, e.msg.rv)) = failures.map fun f => (f.errcode, f.rv)

/-- The answers to the items are read, and their errors collected. -/
theorem readSets_of_renders {errorMap : Option ErrorMap} {outcomes : Outcomes} {terminal : ℕ} {ks : List ℕ}
    (hks : ∀ k ∈ ks, k ≠ terminal) (hrenders : ∀ f ∈ failuresAt outcomes ks, Renders errorMap f.errcode)
    (rest : List Response) (failed : List MemcachedError) (reads : ℕ) :
    ∃ more, ErrorsOf more (failuresAt outcomes ks) ∧
      readSets errorMap terminal (ks.map (setAnswer outcomes) ++ rest) failed reads =
        readSets errorMap terminal rest (failed ++ more) (reads + ks.length) := by
  induction ks generalizing failed reads with
  | nil => exact ⟨[], rfl, by simp⟩
  | cons k ks ih =>
      obtain ⟨hk, hks⟩ := List.forall_mem_cons.1 hks
      rw [List.map_cons, List.cons_append, readSets, handleSingleResponse, setAnswer]
      rcases hout : outcomes k with cas | f
      · have hnone : failuresAt outcomes (k :: ks) = failuresAt outcomes ks := by simp [failuresAt, hout]
        rw [hnone] at hrenders ⊢
        obtain ⟨more, hmore, hread⟩ := ih hks hrenders failed (reads + 1)
        refine ⟨more, hmore, ?_⟩
        simp only [ne_eq, not_true_eq_false, if_false, if_neg hk, hread]
        rw [List.length_cons, Nat.add_assoc, Nat.add_comm 1]
      · have hcons : failuresAt outcomes (k :: ks) = f :: failuresAt outcomes ks := by simp [failuresAt, hout]
        rw [hcons, List.forall_mem_cons] at hrenders
        obtain ⟨e, hraise, hstatus, hrv⟩ : ∃ e, raiseError errorMap f.errcode f.rv = .memcached e ∧
            e.status = f.errcode ∧ e.msg.rv = f.rv :=
          (raiseError_cases errorMap f.errcode f.rv).elim (fun h => h.2) fun h => absurd hrenders.1 h.1
        obtain ⟨more, hmore, hread⟩ := ih hks hrenders.2 (failed ++ [e]) (reads + 1)
        refine ⟨e :: more, ?_, ?_⟩
        · rw [ErrorsOf, List.map_cons, hcons, List.map_cons, hstatus, hrv]
          exact congrArg _ hmore
        · simp only [ne_eq, f.errcode_ne, not_false_eq_true, if_true, hraise, hread]
          rw [List.append_assoc, List.length_cons, Nat.add_assoc, Nat.add_comm 1]
          rfl

/-- An error that does not render ends the call. -/
theorem readSets_of_not_renders {errorMap : Option ErrorMap} {outcomes : Outcomes} {terminal : ℕ} {ks : List ℕ}
    (hks : ∀ k ∈ ks, k ≠ terminal) (hnot : ∃ f ∈ failuresAt outcomes ks, ¬ Renders errorMap f.errcode)
    (rest : List Response) (failed : List MemcachedError) (reads : ℕ) :
    ∃ e, (readSets errorMap terminal (ks.map (setAnswer outcomes) ++ rest) failed reads).result =
      .error (.raised e) := by
  induction ks generalizing failed reads with
  | nil =>
      obtain ⟨f, hf, -⟩ := hnot
      exact absurd hf List.not_mem_nil
  | cons k ks ih =>
      obtain ⟨hk, hks⟩ := List.forall_mem_cons.1 hks
      rw [List.map_cons, List.cons_append, readSets, handleSingleResponse, setAnswer]
      rcases hout : outcomes k with cas | f
      · have hnone : failuresAt outcomes (k :: ks) = failuresAt outcomes ks := by simp [failuresAt, hout]
        rw [hnone] at hnot
        simp only [ne_eq, not_true_eq_false, if_false, if_neg hk]
        exact ih hks hnot failed (reads + 1)
      · simp only [ne_eq, f.errcode_ne, not_false_eq_true, if_true]
        rcases raiseError_cases errorMap f.errcode f.rv with ⟨hrenders, e, hraise, -, -⟩ | ⟨-, hraise | hraise⟩
        · have hcons : failuresAt outcomes (k :: ks) = f :: failuresAt outcomes ks := by simp [failuresAt, hout]
          rw [hcons] at hnot
          simp only [hraise]
          refine ih hks ?_ (failed ++ [e]) (reads + 1)
          obtain ⟨g, hg, hgnot⟩ := hnot
          rcases List.mem_cons.1 hg with rfl | hg
          · exact absurd hrenders hgnot
          · exact ⟨g, hg, hgnot⟩
        · simp only [hraise]
          exact ⟨_, rfl⟩
        · simp only [hraise]
          exact ⟨_, rfl⟩

/-- The answers to the `CMD_NOOP`s of the vbuckets that are left. -/
theorem readVbs_noops (errorMap : Option ErrorMap) (terminal : ℕ) (vbs : List ℕ) (failed : List MemcachedError)
    (reads : ℕ) :
    readVbs errorMap terminal vbs ⟨.ok failed, reads, List.replicate vbs.length (noopAnswer terminal)⟩ =
      ⟨.ok failed, reads + vbs.length, []⟩ := by
  induction vbs generalizing reads with
  | nil => rfl
  | cons vb vbs ih =>
      have hread : readSets errorMap terminal
          (noopAnswer terminal :: List.replicate vbs.length (noopAnswer terminal)) failed reads =
          ⟨.ok failed, reads + 1, List.replicate vbs.length (noopAnswer terminal)⟩ := by
        simp [readSets, handleSingleResponse, noopAnswer]
      simp only [List.length_cons, List.replicate_succ, readVbs, hread, ih]
      rw [Nat.add_assoc, Nat.add_comm 1]

theorem readVbs_of_error (errorMap : Option ErrorMap) (terminal : ℕ) (vbs : List ℕ) {reading : Reading}
    {e : SetError} (h : reading.result = .error e) : (readVbs errorMap terminal vbs reading).result = .error e := by
  cases vbs with
  | nil => exact h
  | cons vb vbs => simp only [readVbs, h]

/-! ## The whole call -/

/-- Every request of the call can be made. -/
def Sendable (client : SetClient) (exp flags : ℕ) (items : List (Text × Payload)) (vbucket : ℤ)
    (scope : Option Text) (collection : Collection) : Prop :=
  ∃ extra, pack setPktFmt [flags, exp] = some extra ∧ items.length + 10 < 2 ^ 32 ∧
    ∀ p ∈ items.zipIdx, ItemSendable client.toClient vbucket extra (collectionName client scope collection).1
      (collectionName client scope collection).2 p

/-- The number of vbuckets of the items. -/
def distinctVbuckets (client : Client) (vbucket : ℤ) (items : List (Text × Payload)) : ℕ :=
  (items.map fun item => vbucketOf client vbucket item.1).dedup.length

/-- The call reads a response for every item and for every vbucket, leaves none unread, and returns an error for
    each item that failed, in the order of the items. -/
def SetsInSync (outcomes : Outcomes) (client : SetClient) (exp flags : ℕ) (items : List (Text × Payload))
    (vbucket : ℤ) (scope : Option Text) (collection : Collection) : Prop :=
  ∃ failed, setMulti (respondTo outcomes) client exp flags items vbucket scope collection =
      ⟨.ok failed, items.length + distinctVbuckets client.toClient vbucket items, []⟩ ∧
    ErrorsOf failed (failuresAt outcomes (List.range items.length))

theorem respondTo_setCommand (outcomes : Outcomes) (k : ℕ) (item : Text × Payload) (extra : List UInt8)
    (scope : Option Text) (collection : Collection) :
    respondTo outcomes (setCommand k item extra scope collection) = setAnswer outcomes k := by
  have hcmd : (setCommand k item extra scope collection).cmd ≠ cmdNoop := Nat.ne_of_lt (by decide : cmdSet < cmdNoop)
  rw [respondTo, if_neg hcmd, setAnswer]
  rfl

/-- The reading of a call whose requests were all made, and it is the only way to end without an error. -/
theorem setMulti_of_sendable (outcomes : Outcomes) {client : SetClient} {exp flags : ℕ}
    {items : List (Text × Payload)} {vbucket : ℤ} {scope : Option Text} {collection : Collection}
    (h : Sendable client exp flags items vbucket scope collection) :
    ∃ vbs : List ℕ, vbs.length = distinctVbuckets client.toClient vbucket items ∧ (items = [] ↔ vbs = []) ∧
      setMulti (respondTo outcomes) client exp flags items vbucket scope collection =
        readVbs client.errorMap (items.length + 10) vbs
          ⟨.ok [], 0, (List.range items.length).map (setAnswer outcomes) ++
            List.replicate vbs.length (noopAnswer (items.length + 10))⟩ := by
  obtain ⟨extra, hextra, hterminal, hitems⟩ := h
  obtain ⟨hiff, hspec⟩ := sendSets_spec client.toClient vbucket extra (collectionName client scope collection).1
    (collectionName client scope collection).2 items.zipIdx client.vbucketId [] []
  obtain ⟨st, hst⟩ := hiff.2 hitems
  obtain ⟨hvbs, hrequests⟩ := hspec st hst
  have hkeys : (items.zipIdx.map fun p => vbucketOf client.toClient vbucket p.1.1) =
      items.map fun item => vbucketOf client.toClient vbucket item.1 := by
    conv_rhs => rw [← List.zipIdx_map_fst 0 items, List.map_map]
    rfl
  have hsmall : ∀ v ∈ st.vbs, v < 2 ^ 16 := hvbs ▸ vbs_lt_of_sendable hitems
  obtain ⟨r, sent, hnoop⟩ := (sendNoops_spec (fun _ => none) (items.length + 10) hsmall st.client []).1.2
    (.inr hterminal)
  have hanswers : (st.requests ++ st.vbs.map fun _ => noopCommand (items.length + 10)).map (respondTo outcomes) =
      (List.range items.length).map (setAnswer outcomes) ++
        List.replicate st.vbs.length (noopAnswer (items.length + 10)) := by
    rw [hrequests, List.nil_append, List.map_append, List.map_map, List.map_map, ← List.map_const']
    refine congrArg₂ _ ?_ rfl
    rw [List.range_eq_range', ← List.zipIdx_map_snd 0 items, List.map_map]
    exact List.map_congr_left fun p _ => respondTo_setCommand outcomes p.2 p.1 extra _ _
  refine ⟨st.vbs, ?_, ?_, ?_⟩
  · rw [hvbs, hkeys, length_foldl_addVb, distinctVbuckets]
  · rw [← List.length_eq_zero_iff, ← List.length_eq_zero_iff (l := st.vbs), hvbs, hkeys, length_foldl_addVb,
      List.length_eq_zero_iff, List.length_eq_zero_iff, List.dedup_eq_nil, List.map_eq_nil_iff]
  · have hst' : sendSets vbucket extra (collectionName client scope collection).1
        (collectionName client scope collection).2 items.zipIdx ⟨client.toClient, [], []⟩ = .ok st := hst
    simp only [setMulti, hextra, hst', hnoop, hanswers]

theorem sendable_of_ok {outcomes : Outcomes} {client : SetClient} {exp flags : ℕ}
    {items : List (Text × Payload)} {vbucket : ℤ} {scope : Option Text} {collection : Collection}
    {failed : List MemcachedError}
    (h : (setMulti (respondTo outcomes) client exp flags items vbucket scope collection).result = .ok failed) :
    Sendable client exp flags items vbucket scope collection := by
  simp only [setMulti] at h
  rcases hextra : pack setPktFmt [flags, exp] with _ | extra
  · rw [hextra] at h
    cases h
  rw [hextra] at h
  obtain ⟨hiff, hspec⟩ := sendSets_spec client.toClient vbucket extra (collectionName client scope collection).1
    (collectionName client scope collection).2 items.zipIdx client.vbucketId [] []
  rcases hst : sendSets vbucket extra (collectionName client scope collection).1
      (collectionName client scope collection).2 items.zipIdx ⟨client.toClient, [], []⟩ with e | st
  · simp only [hst] at h
    cases h
  obtain ⟨hvbs, -⟩ := hspec st hst
  have hitems := hiff.1 ⟨st, hst⟩
  have hsmall : ∀ v ∈ st.vbs, v < 2 ^ 16 := hvbs ▸ vbs_lt_of_sendable hitems
  rcases hnoop : sendNoops (items.length + 10) st.vbs st.client [] with ⟨e | r, sent⟩
  · simp only [hst, hnoop] at h
    cases h
  refine ⟨extra, hextra, ?_, hitems⟩
  rcases (sendNoops_spec (fun _ => none) (items.length + 10) hsmall st.client []).1.1 ⟨r, sent, hnoop⟩ with hnil | hlt
  · have hempty : items = [] := by
      rw [hvbs] at hnil
      by_contra hne
      obtain ⟨item, rest, rfl⟩ := List.exists_cons_of_ne_nil hne
      have hmem : vbucketOf client.toClient vbucket item.1 ∈
          ((item :: rest).zipIdx.map fun p => vbucketOf client.toClient vbucket p.1.1).foldl addVb [] := by
        rw [mem_foldl_addVb, List.zipIdx_cons, List.map_cons]
        exact .inr List.mem_cons_self
      rw [hnil] at hmem
      exact absurd hmem List.not_mem_nil
    rw [hempty]
    decide
  · exact hlt

/-- The numbers of the items are not the opaque of the `CMD_NOOP`s. -/
theorem ne_terminal (items : List (Text × Payload)) : ∀ k ∈ List.range items.length, k ≠ items.length + 10 := by
  intro k hk
  rw [List.mem_range] at hk
  omega

section InSync

variable {outcomes : Outcomes} {client : SetClient} {exp flags : ℕ} {items : List (Text × Payload)} {vbucket : ℤ}
  {scope : Option Text} {collection : Collection}

/-- When the call returns, every error could be put into words. -/
theorem renders_of_ok {failed : List MemcachedError}
    (h : (setMulti (respondTo outcomes) client exp flags items vbucket scope collection).result = .ok failed) :
    ∀ f ∈ failuresAt outcomes (List.range items.length), Renders client.errorMap f.errcode := by
  by_contra hnot
  push Not at hnot
  obtain ⟨vbs, hlen, hnil, hread⟩ := setMulti_of_sendable outcomes (sendable_of_ok h)
  have hne : vbs ≠ [] := by
    intro hvbs
    obtain ⟨f, hf, -⟩ := hnot
    rw [hnil.2 hvbs] at hf
    exact absurd hf List.not_mem_nil
  obtain ⟨vb, others, rfl⟩ := List.exists_cons_of_ne_nil hne
  obtain ⟨e, he⟩ := readSets_of_not_renders (ne_terminal items) hnot
    (List.replicate (vb :: others).length (noopAnswer (items.length + 10))) [] 0
  have herror := readVbs_of_error client.errorMap (items.length + 10) others he
  rw [hread, readVbs, herror] at h
  cases h

/-- When every request can be made and every error put into words, the call reads all the answers. -/
theorem inSync_of_renders (hsendable : Sendable client exp flags items vbucket scope collection)
    (hrenders : ∀ f ∈ failuresAt outcomes (List.range items.length), Renders client.errorMap f.errcode) :
    SetsInSync outcomes client exp flags items vbucket scope collection := by
  obtain ⟨vbs, hlen, hnil, hread⟩ := setMulti_of_sendable outcomes hsendable
  obtain ⟨more, hmore, hitems⟩ := readSets_of_renders (ne_terminal items) hrenders
    (List.replicate vbs.length (noopAnswer (items.length + 10))) [] 0
  refine ⟨more, ?_, hmore⟩
  rw [hread, ← hlen]
  rcases vbs with _ | ⟨vb, others⟩
  · obtain rfl := hnil.2 rfl
    obtain rfl : more = [] := List.map_eq_nil_iff.1 hmore
    rfl
  · -- the loop of the first vbucket reads the answers to the items, too
    have hnoops := readVbs_noops client.errorMap (items.length + 10) (vb :: others) more items.length
    rw [readVbs] at hnoops ⊢
    simp only at hnoops ⊢
    rw [hitems, List.nil_append, List.length_range, Nat.zero_add]
    exact hnoops

end InSync

/-- The second of three items fails, and the call reads four responses. -/
example : SetsInSync (fun k => if k = 1 then .inr ⟨0x82, [1], by decide⟩ else .inl 3)
    { plainClient with collectionsOn := false, errorMap := none } 0 0
    [([97], .text [120]), ([98], .bytes [0]), ([99], .text [])] 5 none .none :=
  ⟨[⟨0x82, .raw [1]⟩], rfl, rfl⟩

/-- A client whose error map has an entry for the code 1 alone. -/
def mappedClient : SetClient :=
  { plainClient with
    collectionsOn := false
    errorMap := some ((∅ : ErrorMap).set 1 (((∅ : ErrorEntry).set nameField [75]).set descField [107])) }

/-- Every item fails with the code `0x82`. -/
def allFail : Outcomes := fun _ => .inr ⟨0x82, [], by decide⟩

end TestInfra.Wire
