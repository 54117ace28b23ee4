import TestInfra.Lib.Crc32
import TestInfra.Lib.Fuel
import TestInfra.Wire.Request
import Mathlib.Data.Nat.Bitwise
import Mathlib.Data.List.Nodup

set_option autoImplicit false

/-! # Pipelined reads

`MemcachedClient.getMulti` sends a `CMD_GET` for every key, with the position of the key as opaque, and a
`CMD_NOOP` for every vbucket, and only then reads the responses. A response with an error raises out of the
reading loop.

The server reads the stream of requests packet by packet and answers in order. `getMulti_inSync_iff` says when
the call returns the keys that exist and leaves no response unread: only if every key exists. -/

namespace TestInfra.Wire

open Utf8 Struct

/-! ## The server -/

def cmdGet : ℕ := 0

def cmdNoop : ℕ := 10

/-- An item of the server. -/
structure Item where
  flags : ℕ
  cas : ℕ
  value : List UInt8
  flags_lt : flags < 2 ^ 32

/-- What the server holds under a key. -/
abbrev Server := List UInt8 → Option Item

/-- A response, as `_recvMsg` returns it; `data` is the extras and the value. -/
structure Response where
  cmd : ℕ
  errcode : ℕ
  opaqueId : ℕ
  cas : ℕ
  data : List UInt8
deriving DecidableEq, Repr

/-- `ERR_NOT_FOUND`, `0x1`, and the answer to an unknown command. -/
def errNotFound : ℕ := 0x1

def errUnknownCmd : ℕ := 0x81

/-- The answer to a request. -/
def answer (server : Server) (packet : Packet) : Response :=
  if packet.cmd = cmdGet then
    match server packet.key with
    | some item => ⟨cmdGet, 0, packet.opaqueId, item.cas, beBytes 4 item.flags ++ item.value⟩
    | none => ⟨cmdGet, errNotFound, packet.opaqueId, 0, "Not found".toUTF8.toList⟩
  else if packet.cmd = cmdNoop then ⟨cmdNoop, 0, packet.opaqueId, 0, []⟩
  else ⟨packet.cmd, errUnknownCmd, packet.opaqueId, 0, []⟩

/-- The answers to at most so many requests of a stream. -/
def serveMost (server : Server) : ℕ → List UInt8 → List Response
  | 0, _ => []
  | n + 1, stream =>
      match readPacket stream with
      | none => []
      | some (packet, rest) => answer server packet :: serveMost server n rest

/-- The answers to the requests of a stream, in order. Every request takes a byte. -/
def serve (server : Server) (stream : List UInt8) : List Response := serveMost server stream.length stream

/-! ## The client -/

/-- `_set_vbucket`; the key is text, and the number of vbuckets is positive. -/
def setVbucket (client : Client) (key : Text) (vbucket : ℤ) : Except SendError Client :=
  if vbucket = 0 ∨ vbucket < 0 then
    match Utf8.encode key with
    | some bytes =>
        .ok { client with
          vbucketId := (((Crc32.crc32 bytes).toNat >>> 16) &&& 0x7fff) &&& (client.vbucketCount - 1) }
    | none => .error .unicodeEncodeError
  else .ok { client with vbucketId := vbucket.toNat }

/-- `CMD_GET` of a key. -/
def getCommand (k : ℕ) (key : Text) : Command :=
  { cmd := cmdGet, key := .text key, val := .text [], opaqueId := k }

/-- `CMD_NOOP`. -/
def noopCommand (terminal : ℕ) : Command :=
  { cmd := cmdNoop, key := .text [], val := .text [], opaqueId := terminal }

/-- `vbs.add(vb)`; the order in which a set is walked through does not matter here. -/
def addVb (vbs : List ℕ) (vb : ℕ) : List ℕ := if vb ∈ vbs then vbs else vbs ++ [vb]

/-- The loop over the keys: the vbuckets and the bytes sent so far. -/
def sendKeys (vbucket : ℤ) : List (ℕ × Text) → Client → List ℕ → List UInt8 →
    Except SendError (Client × List ℕ) × List UInt8
  | [], client, vbs, sent => (.ok (client, vbs), sent)
  | (k, key) :: rest, client, vbs, sent =>
      match setVbucket client key vbucket with
      | .error e => (.error e, sent)
      | .ok client =>
          match sendCmd client (getCommand k key) with
          | .error e => (.error e, sent)
          | .ok bytes => sendKeys vbucket rest client (addVb vbs client.vbucketId) (sent ++ bytes)

/-- The loop over the vbuckets that sends. -/
def sendNoops (terminal : ℕ) : List ℕ → Client → List UInt8 → Except SendError Client × List UInt8
  | [], client, sent => (.ok client, sent)
  | vb :: rest, client, sent =>
      match sendCmd { client with vbucketId := vb } (noopCommand terminal) with
      | .error e => (.error e, sent)
      | .ok bytes => sendNoops terminal rest { client with vbucketId := vb } (sent ++ bytes)

/-- What reading can raise; `timeout` when no response comes. -/
inductive GetError where
  | send (e : SendError)
  | memcached (errcode : ℕ)
  | timeout
  | keyError
  | structError
deriving DecidableEq, Repr

/-- `__parseGet`: the flags, the cas and the value. -/
def parseGet (r : Response) : Option (ℕ × ℕ × List UInt8) :=
  if r.data.length < 4 then none else some (beValue (r.data.take 4), r.cas, r.data.drop 4)

abbrev Found := Dict Text (ℕ × ℕ × List UInt8)

/-- `while not done`: the responses up to one with the terminal opaque. The second part is what is unread. -/
def readUntil (keys : List Text) (terminal : ℕ) : List Response → Found → Except GetError Found × List Response
  | [], _ => (.error .timeout, [])
  | r :: rest, rv =>
      if r.errcode ≠ 0 then (.error (.memcached r.errcode), rest)
      else if r.opaqueId ≠ terminal then
        match keys[r.opaqueId]? with
        | none => (.error .keyError, rest)
        | some key =>
            match parseGet r with
            | none => (.error .structError, rest)
            | some v => readUntil keys terminal rest (rv.set key v)
      else (.ok rv, rest)

/-- The loop over the vbuckets that reads. -/
def readAll (keys : List Text) (terminal : ℕ) : List ℕ → List Response → Found →
    Except GetError Found × List Response
  | [], responses, rv => (.ok rv, responses)
  | _ :: vbs, responses, rv =>
      match readUntil keys terminal responses rv with
      | (.error e, rest) => (.error e, rest)
      | (.ok rv, rest) => readAll keys terminal vbs rest rv

/-- `dict(enumerate(keys))`. -/
def enumerate (keys : List Text) : List (ℕ × Text) := keys.zipIdx.map Prod.swap

/-- `getMulti` without a collection: what it returns or raises, and the responses it leaves unread. -/
def getMulti (server : Server) (client : Client) (keys : List Text) (vbucket : ℤ) :
    Except GetError Found × List Response :=
  let terminal := keys.length + 10
  match sendKeys vbucket (enumerate keys) client [] [] with
  | (.error e, sent) => (.error (.send e), serve server sent)
  | (.ok (client, vbs), sent) =>
      match sendNoops terminal vbs client sent with
      | (.error e, sent) => (.error (.send e), serve server sent)
      | (.ok _, sent) => readAll keys terminal vbs (serve server sent) ∅

/-! ## A stream of requests -/

theorem length_readPacket {stream rest : List UInt8} {packet : Packet}
    (h : readPacket stream = some (packet, rest)) : rest.length < stream.length := by
  rw [readPacket] at h
  split at h
  · cases h
  · next hlen =>
      dsimp only at h
      split at h
      · split at h
        · cases h
        · cases h
          have hsum : reqPktFmt.sum = 24 := rfl
          rw [hsum] at hlen ⊢
          simp only [List.length_drop]
          omega
      · cases h

theorem serveMost_eq (server : Server) {n : ℕ} {stream : List UInt8} (hn : stream.length ≤ n) :
    serveMost server n stream = serve server stream := by
  refine Fuel.eq_length ?_ ?_ hn
  · intro n
    rcases n with _ | n
    · rfl
    · rfl
  · intro n m stream hrest
    rw [serveMost, serveMost]
    rcases hread : readPacket stream with _ | ⟨packet, rest⟩
    · rfl
    · dsimp only
      rw [hrest rest (length_readPacket hread)]

/-- The first request of the stream is answered first. -/
theorem serve_of_read (server : Server) {stream rest : List UInt8} {packet : Packet}
    (h : readPacket stream = some (packet, rest)) :
    serve server stream = answer server packet :: serve server rest := by
  have hrest := length_readPacket h
  rw [← serveMost_eq server (Nat.le_succ stream.length), serveMost, h]
  simp only [serveMost_eq server (Nat.le_of_lt hrest)]

/-- The bytes of requests that the server reads one by one, and the answers to them. -/
inductive Answered (server : Server) : List UInt8 → List Response → Prop where
  | nil : Answered server [] []
  | cons {bytes rest : List UInt8} {packet : Packet} {responses : List Response}
      (h : ∀ more, readPacket (bytes ++ more) = some (packet, more)) (hrest : Answered server rest responses) :
      Answered server (bytes ++ rest) (answer server packet :: responses)

theorem Answered.serve_eq {server : Server} {stream : List UInt8} {responses : List Response}
    (h : Answered server stream responses) : serve server stream = responses := by
  induction h with
  | nil => rfl
  | cons hread _ ih => rw [serve_of_read server (hread _), ih]

theorem Answered.append {server : Server} {stream stream' : List UInt8} {responses responses' : List Response}
    (h : Answered server stream responses) (h' : Answered server stream' responses') :
    Answered server (stream ++ stream') (responses ++ responses') := by
  induction h with
  | nil => exact h'
  | cons hread _ ih =>
      rw [List.append_assoc, List.cons_append]
      exact .cons hread ih

/-- One more request behind the others. -/
theorem Answered.snoc {server : Server} {stream bytes : List UInt8} {responses : List Response} {packet : Packet}
    (h : Answered server stream responses) (hread : ∀ more, readPacket (bytes ++ more) = some (packet, more)) :
    Answered server (stream ++ bytes) (responses ++ [answer server packet]) := by
  have hone : Answered server (bytes ++ []) [answer server packet] := .cons hread .nil
  rw [List.append_nil] at hone
  exact h.append hone

/-! ## Sending -/

/-- The bytes of a key. -/
def keyBytes (key : Text) : List UInt8 := (Utf8.encode key).getD []

/-- A command of plain parts, without a collection and with the usual length of the extras, is sent exactly when
    it is in range, and then read as it was meant. -/
theorem sendCmd_of_plain (client : Client) (command : Command) (hcollection : command.collection.truthy = false)
    (hlength : command.extraHeaderLength = none) (hplain : (command.message client).Plain command.key) :
    ((∃ bytes, sendCmd client command = .ok bytes) ↔ (command.message client).InRange command.key) ∧
      ∀ bytes, sendCmd client command = .ok bytes → ∃ packet,
        (command.message client).Meant command.key packet ∧
          ∀ more, readPacket (bytes ++ more) = some (packet, more) := by
  have hsend : sendCmd client command = sendParts (command.message client) command.key :=
    sendMsg_of_falsy client hcollection
  have hrange : ∀ bytes, sendCmd client command = .ok bytes → (command.message client).InRange command.key := by
    intro bytes h
    rw [hsend, sendParts_eq_ok_iff] at h
    obtain ⟨msg, -, -, -, -, hmsg, -⟩ := h
    exact (pack_header_isSome_iff _ _).1 (Option.isSome_iff_exists.2 ⟨msg, hmsg⟩)
  refine ⟨⟨fun ⟨bytes, h⟩ => hrange bytes h, ?_⟩, ?_⟩
  · intro h
    obtain ⟨bytes, -, hsent, -⟩ := readPacket_of_plain hlength hplain h
    exact ⟨bytes, hsend.trans hsent⟩
  · intro bytes h
    obtain ⟨stream, packet, hsent, hmeant, hread⟩ := readPacket_of_plain hlength hplain (hrange bytes h)
    rw [hsend, hsent] at h
    cases h
    exact ⟨packet, hmeant, hread⟩

/-- The answer to the request for a key. -/
def getAnswer (server : Server) (p : ℕ × Text) : Response :=
  match server (keyBytes p.2) with
  | some item => ⟨cmdGet, 0, p.1, item.cas, beBytes 4 item.flags ++ item.value⟩
  | none => ⟨cmdGet, errNotFound, p.1, 0, "Not found".toUTF8.toList⟩

/-- The answer to `CMD_NOOP`. -/
def noopAnswer (terminal : ℕ) : Response := ⟨cmdNoop, 0, terminal, 0, []⟩

theorem sendCmd_get (server : Server) (client : Client) (k : ℕ) {key : Text} (hkey : Ascii key) :
    ((∃ bytes, sendCmd client (getCommand k key) = .ok bytes) ↔
        key.length < 2 ^ 16 ∧ client.vbucketId < 2 ^ 16 ∧ k < 2 ^ 32) ∧
      ∀ bytes, sendCmd client (getCommand k key) = .ok bytes → ∃ packet,
        answer server packet = getAnswer server (k, key) ∧
          ∀ more, readPacket (bytes ++ more) = some (packet, more) := by
  have hempty : Ascii [] := fun c hc => nomatch hc
  obtain ⟨hok, hread⟩ := sendCmd_of_plain client (getCommand k key) rfl rfl ⟨hkey, hempty, hempty, hempty⟩
  refine ⟨hok.trans ?_, ?_⟩
  · simp only [Message.InRange, Command.message, getCommand, Payload.len_text, reqMagicByte, cmdGet,
      List.length_nil, Option.getD_none]
    omega
  · intro bytes h
    obtain ⟨packet, ⟨-, hcmd, -, -, hid, -, -, hk, -⟩, hmore⟩ := hread bytes h
    refine ⟨packet, ?_, hmore⟩
    have hbytes : packet.key = keyBytes key := by
      rw [keyBytes]
      have hk : Utf8.encode key = some packet.key := hk
      rw [hk, Option.getD_some]
    have hid : packet.opaqueId = k := hid
    have hcmd : packet.cmd = cmdGet := hcmd
    rw [answer, if_pos hcmd, hbytes, hid, getAnswer]

theorem sendCmd_noop (server : Server) (client : Client) (terminal : ℕ) :
    ((∃ bytes, sendCmd client (noopCommand terminal) = .ok bytes) ↔
        client.vbucketId < 2 ^ 16 ∧ terminal < 2 ^ 32) ∧
      ∀ bytes, sendCmd client (noopCommand terminal) = .ok bytes → ∃ packet,
        answer server packet = noopAnswer terminal ∧
          ∀ more, readPacket (bytes ++ more) = some (packet, more) := by
  have hempty : Ascii [] := fun c hc => nomatch hc
  obtain ⟨hok, hread⟩ := sendCmd_of_plain client (noopCommand terminal) rfl rfl
    ⟨hempty, hempty, hempty, hempty⟩
  refine ⟨hok.trans ?_, ?_⟩
  · simp only [Message.InRange, Command.message, noopCommand, Payload.len_text, reqMagicByte, cmdNoop,
      List.length_nil, Option.getD_none]
    omega
  · intro bytes h
    obtain ⟨packet, ⟨-, hcmd, -, -, hid, -⟩, hmore⟩ := hread bytes h
    refine ⟨packet, ?_, hmore⟩
    have hid : packet.opaqueId = terminal := hid
    have hcmd : packet.cmd = cmdNoop := hcmd
    rw [answer, hcmd, if_neg (by decide), if_pos rfl, hid]
    rfl

/-- A vbucket that is computed fits its field; one that is given fits if it is small enough. -/
theorem setVbucket_of_ascii (client : Client) {key : Text} (hkey : Ascii key) (vbucket : ℤ) :
    ∃ client', setVbucket client key vbucket = .ok client' ∧ (client'.vbucketId < 2 ^ 16 ↔ vbucket < 2 ^ 16) := by
  rw [setVbucket]
  split
  · next hneg =>
      rw [encode_of_ascii hkey]
      refine ⟨_, rfl, ?_⟩
      have hfits : ∀ n m : ℕ, (n &&& 0x7fff) &&& m < 2 ^ 16 := by
        intro n m
        have hand : (n &&& 0x7fff) &&& m ≤ n &&& 0x7fff := Nat.and_le_left
        have hmask : n &&& 0x7fff ≤ 0x7fff := Nat.and_le_right
        omega
      refine ⟨?_, fun _ => hfits _ _⟩
      intro _
      omega
  · next hpos =>
      refine ⟨_, rfl, ?_⟩
      dsimp only
      omega

theorem mem_addVb {vbs : List ℕ} {vb v : ℕ} : v ∈ addVb vbs vb ↔ v ∈ vbs ∨ v = vb := by
  rw [addVb]
  split
  · next h =>
      refine ⟨.inl, ?_⟩
      rintro (hv | rfl)
      · exact hv
      · exact h
  · rw [List.mem_append, List.mem_singleton]

/-- The requests for the keys can all be packed. -/
def KeysFit (vbucket : ℤ) (pairs : List (ℕ × Text)) : Prop :=
  ∀ p ∈ pairs, vbucket < 2 ^ 16 ∧ p.2.length < 2 ^ 16 ∧ p.1 < 2 ^ 32

theorem keysFit_cons_iff {vbucket : ℤ} {vb : ℕ} (hfits : vb < 2 ^ 16 ↔ vbucket < 2 ^ 16) (k : ℕ) (key : Text)
    (rest : List (ℕ × Text)) :
    KeysFit vbucket ((k, key) :: rest) ↔
      (key.length < 2 ^ 16 ∧ vb < 2 ^ 16 ∧ k < 2 ^ 32) ∧ KeysFit vbucket rest := by
  rw [KeysFit, List.forall_mem_cons, hfits]
  exact and_congr_left' and_left_comm

section Equations

variable {vbucket : ℤ} {k terminal vb : ℕ} {key : Text} {client client' : Client} {e : SendError}
  {bytes : List UInt8} {rest : List (ℕ × Text)} {vbs : List ℕ} {sent : List UInt8}

theorem sendKeys_of_sent (hvb : setVbucket client key vbucket = .ok client')
    (hsend : sendCmd client' (getCommand k key) = .ok bytes) :
    sendKeys vbucket ((k, key) :: rest) client vbs sent
      = sendKeys vbucket rest client' (addVb vbs client'.vbucketId) (sent ++ bytes) := by
  simp only [sendKeys, hvb, hsend]

theorem sendKeys_of_error (hvb : setVbucket client key vbucket = .ok client')
    (hsend : sendCmd client' (getCommand k key) = .error e) :
    sendKeys vbucket ((k, key) :: rest) client vbs sent = (.error e, sent) := by
  simp only [sendKeys, hvb, hsend]

theorem sendNoops_of_sent (hsend : sendCmd { client with vbucketId := vb } (noopCommand terminal) = .ok bytes) :
    sendNoops terminal (vb :: vbs) client sent
      = sendNoops terminal vbs { client with vbucketId := vb } (sent ++ bytes) := by
  simp only [sendNoops, hsend]

theorem sendNoops_of_error (hsend : sendCmd { client with vbucketId := vb } (noopCommand terminal) = .error e) :
    sendNoops terminal (vb :: vbs) client sent = (.error e, sent) := by
  simp only [sendNoops, hsend]

end Equations

/-- What the loop over the keys leaves when it ends: vbuckets that fit their field, at least one if there was
    anything to send, and requests that the server answers in turn. -/
structure KeysSent (server : Server) (pairs : List (ℕ × Text)) (vbs vbs' : List ℕ) (sent sent' : List UInt8) :
    Prop where
  vbs_lt : ∀ v ∈ vbs', v ∈ vbs ∨ v < 2 ^ 16
  vbs_ne : pairs ≠ [] ∨ vbs ≠ [] → vbs' ≠ []
  answered : ∀ responses, Answered server sent responses →
    Answered server sent' (responses ++ pairs.map (getAnswer server))

theorem KeysSent.nil (server : Server) (vbs : List ℕ) (sent : List UInt8) : KeysSent server [] vbs vbs sent sent := by
  refine ⟨fun v hv => .inl hv, fun h => h.resolve_left fun hne => hne rfl, ?_⟩
  intro responses h
  rw [List.map_nil, List.append_nil]
  exact h

/-- One request more, in front of the others. -/
theorem KeysSent.cons {server : Server} {p : ℕ × Text} {rest : List (ℕ × Text)} {vb : ℕ} {vbs vbs' : List ℕ}
    {sent sent' bytes : List UInt8} {packet : Packet} (hvb : vb < 2 ^ 16)
    (hanswer : answer server packet = getAnswer server p)
    (hmore : ∀ more, readPacket (bytes ++ more) = some (packet, more))
    (h : KeysSent server rest (addVb vbs vb) vbs' (sent ++ bytes) sent') :
    KeysSent server (p :: rest) vbs vbs' sent sent' := by
  refine ⟨?_, ?_, ?_⟩
  · intro v hv
    rcases h.vbs_lt v hv with hv | hv
    · rcases mem_addVb.1 hv with hv | rfl
      · exact .inl hv
      · exact .inr hvb
    · exact .inr hv
  · intro _
    exact h.vbs_ne (.inr (List.ne_nil_of_mem (mem_addVb.2 (.inr rfl))))
  · intro responses hresponses
    have hsnoc := hresponses.snoc hmore
    rw [hanswer] at hsnoc
    have hall := h.answered _ hsnoc
    rw [List.append_assoc] at hall
    exact hall

/-- The loop over the keys: it sends them all exactly when they fit, and then the server answers each in turn. -/
theorem sendKeys_spec (server : Server) (vbucket : ℤ) {pairs : List (ℕ × Text)}
    (hascii : ∀ p ∈ pairs, Ascii p.2) (client : Client) (vbs : List ℕ) (sent : List UInt8) :
    ((∃ r sent', sendKeys vbucket pairs client vbs sent = (.ok r, sent')) ↔ KeysFit vbucket pairs) ∧
      ∀ client' vbs' sent', sendKeys vbucket pairs client vbs sent = (.ok (client', vbs'), sent') →
        KeysSent server pairs vbs vbs' sent sent' := by
  induction pairs generalizing client vbs sent with
  | nil =>
      refine ⟨⟨fun _ p hp => absurd hp List.not_mem_nil, fun _ => ⟨_, _, rfl⟩⟩, ?_⟩
      intro client' vbs' sent' h
      cases h
      exact .nil server vbs sent
  | cons p rest ih =>
      obtain ⟨k, key⟩ := p
      have hkey : Ascii key := hascii (k, key) List.mem_cons_self
      obtain ⟨client₁, hvb, hfits⟩ := setVbucket_of_ascii client hkey vbucket
      obtain ⟨hok, hread⟩ := sendCmd_get server client₁ k hkey
      rw [keysFit_cons_iff hfits, ← hok]
      rcases hsend : sendCmd client₁ (getCommand k key) with e | bytes
      · rw [sendKeys_of_error hvb hsend]
        refine ⟨⟨?_, ?_⟩, ?_⟩
        · rintro ⟨r, sent', h⟩
          cases h
        · rintro ⟨⟨bytes, hbytes⟩, -⟩
          cases hbytes
        · intro client' vbs' sent' h
          cases h
      · rw [sendKeys_of_sent hvb hsend]
        obtain ⟨packet, hanswer, hmore⟩ := hread bytes hsend
        obtain ⟨hiff, hspec⟩ := ih (fun q hq => hascii q (List.mem_cons_of_mem _ hq))
          client₁ (addVb vbs client₁.vbucketId) (sent ++ bytes)
        have hvbfits : client₁.vbucketId < 2 ^ 16 := (hok.1 ⟨bytes, hsend⟩).2.1
        refine ⟨hiff.trans ⟨fun h => ⟨⟨bytes, rfl⟩, h⟩, fun h => h.2⟩, ?_⟩
        intro client' vbs' sent' h
        exact (hspec client' vbs' sent' h).cons hvbfits hanswer hmore

/-- The loop over the vbuckets. -/
theorem sendNoops_spec (server : Server) (terminal : ℕ) {vbs : List ℕ} (hvbs : ∀ v ∈ vbs, v < 2 ^ 16)
    (client : Client) (sent : List UInt8) :
    ((∃ r sent', sendNoops terminal vbs client sent = (.ok r, sent')) ↔ vbs = [] ∨ terminal < 2 ^ 32) ∧
      ∀ client' sent', sendNoops terminal vbs client sent = (.ok client', sent') →
        ∀ responses, Answered server sent responses →
          Answered server sent' (responses ++ List.replicate vbs.length (noopAnswer terminal)) := by
  induction vbs generalizing client sent with
  | nil =>
      refine ⟨⟨fun _ => .inl rfl, fun _ => ⟨_, _, rfl⟩⟩, ?_⟩
      intro client' sent' h responses hresponses
      cases h
      rw [List.length_nil, List.replicate_zero, List.append_nil]
      exact hresponses
  | cons vb rest ih =>
      have hvb : vb < 2 ^ 16 := hvbs vb List.mem_cons_self
      obtain ⟨hok, hread⟩ := sendCmd_noop server { client with vbucketId := vb } terminal
      rcases hsend : sendCmd { client with vbucketId := vb } (noopCommand terminal) with e | bytes
      · rw [sendNoops_of_error hsend]
        refine ⟨⟨?_, ?_⟩, ?_⟩
        · rintro ⟨r, sent', h⟩
          cases h
        · rintro (h | h)
          · cases h
          · obtain ⟨bytes, hbytes⟩ := hok.2 ⟨hvb, h⟩
            rw [hsend] at hbytes
            cases hbytes
        · intro client' sent' h
          cases h
      · have hterminal : terminal < 2 ^ 32 := (hok.1 ⟨bytes, hsend⟩).2
        obtain ⟨packet, hanswer, hmore⟩ := hread bytes hsend
        obtain ⟨hiff, hspec⟩ := ih (fun v hv => hvbs v (List.mem_cons_of_mem _ hv))
          { client with vbucketId := vb } (sent ++ bytes)
        rw [sendNoops_of_sent hsend]
        refine ⟨⟨fun _ => .inr hterminal, fun _ => hiff.2 (.inr hterminal)⟩, ?_⟩
        intro client' sent' h responses hresponses
        have hsnoc := hresponses.snoc hmore
        rw [hanswer] at hsnoc
        have hall := hspec client' sent' h _ hsnoc
        rw [List.append_assoc] at hall
        exact hall

/-! ## Reading -/

/-- What `getMulti` returns for a key. -/
def itemOf (item : Item) : ℕ × ℕ × List UInt8 := (item.flags, item.cas, item.value)

theorem parseGet_getAnswer {server : Server} {p : ℕ × Text} {item : Item} (h : server (keyBytes p.2) = some item) :
    parseGet (getAnswer server p) = some (itemOf item) := by
  have hlen : (beBytes 4 item.flags).length = 4 := length_beBytes 4 item.flags
  simp only [getAnswer, h, parseGet, itemOf]
  rw [if_neg (by rw [List.length_append, hlen]; omega), List.take_left' hlen, List.drop_left' hlen,
    beValue_beBytes item.flags_lt]

/-- Every pair is a position and the key there, and no position is the terminal opaque. -/
def Numbered (keys : List Text) (terminal : ℕ) (pairs : List (ℕ × Text)) : Prop :=
  ∀ p ∈ pairs, keys[p.1]? = some p.2 ∧ p.1 ≠ terminal

/-- The keys of the pairs that exist. -/
def foundPairs (server : Server) (pairs : List (ℕ × Text)) : List (Text × (ℕ × ℕ × List UInt8)) :=
  pairs.filterMap fun p => (server (keyBytes p.2)).map fun item => (p.2, itemOf item)

/-- Answers to keys that all exist are stored, one after the other. -/
theorem readUntil_of_found {server : Server} {keys : List Text} {terminal : ℕ} {pairs : List (ℕ × Text)}
    (hnum : Numbered keys terminal pairs) (hfound : ∀ p ∈ pairs, (server (keyBytes p.2)).isSome)
    (rest : List Response) (rv : Found) :
    readUntil keys terminal (pairs.map (getAnswer server) ++ rest) rv
      = readUntil keys terminal rest
          ((foundPairs server pairs).foldl (fun rv e => rv.set e.1 e.2) rv) := by
  induction pairs generalizing rv with
  | nil => rfl
  | cons p pairs ih =>
      obtain ⟨item, hitem⟩ := Option.isSome_iff_exists.1 (hfound p List.mem_cons_self)
      obtain ⟨hkey, hne⟩ := hnum p List.mem_cons_self
      have hparse := parseGet_getAnswer hitem
      have herrcode : (getAnswer server p).errcode = 0 := by simp only [getAnswer, hitem]
      have hid : (getAnswer server p).opaqueId = p.1 := by simp only [getAnswer, hitem]
      have hhead : foundPairs server (p :: pairs) = (p.2, itemOf item) :: foundPairs server pairs := by
        simp [foundPairs, hitem]
      rw [List.map_cons, List.cons_append, readUntil, if_neg (by rw [herrcode]; simp), hid, if_pos hne, hkey]
      simp only [hparse]
      rw [ih (fun q hq => hnum q (List.mem_cons_of_mem _ hq)) (fun q hq => hfound q (List.mem_cons_of_mem _ hq)),
        hhead, List.foldl_cons]

/-- The answer to a key that does not exist ends the call. -/
theorem readUntil_of_missing {server : Server} {keys : List Text} {terminal : ℕ} {pairs : List (ℕ × Text)}
    (hnum : Numbered keys terminal pairs) (hmissing : ∃ p ∈ pairs, server (keyBytes p.2) = none)
    (rest : List Response) (rv : Found) :
    ∃ unread, readUntil keys terminal (pairs.map (getAnswer server) ++ rest) rv
      = (.error (.memcached errNotFound), unread) := by
  induction pairs generalizing rv with
  | nil =>
      obtain ⟨p, hp, -⟩ := hmissing
      cases hp
  | cons p pairs ih =>
      rw [List.map_cons, List.cons_append, readUntil]
      cases hitem : server (keyBytes p.2) with
      | none =>
          refine ⟨pairs.map (getAnswer server) ++ rest, ?_⟩
          simp only [getAnswer, hitem]
          rfl
      | some item =>
          obtain ⟨hkey, hne⟩ := hnum p List.mem_cons_self
          have herrcode : (getAnswer server p).errcode = 0 := by simp only [getAnswer, hitem]
          have hid : (getAnswer server p).opaqueId = p.1 := by simp only [getAnswer, hitem]
          rw [if_neg (by rw [herrcode]; simp), hid, if_pos hne, hkey]
          simp only [parseGet_getAnswer hitem]
          refine ih (fun q hq => hnum q (List.mem_cons_of_mem _ hq)) ?_ _
          obtain ⟨q, hq, hnone⟩ := hmissing
          rcases List.mem_cons.1 hq with rfl | hq
          · rw [hitem] at hnone
            cases hnone
          · exact ⟨q, hq, hnone⟩

/-- One `CMD_NOOP` for each vbucket that is left. -/
theorem readAll_noops (keys : List Text) (terminal : ℕ) (vbs : List ℕ) (rv : Found) :
    readAll keys terminal vbs (List.replicate vbs.length (noopAnswer terminal)) rv = (.ok rv, []) := by
  induction vbs with
  | nil => rfl
  | cons vb vbs ih =>
      rw [List.length_cons, List.replicate_succ, readAll, readUntil, if_neg (by simp [noopAnswer]),
        if_neg (by simp [noopAnswer])]
      exact ih

/-- Keys that all exist, and a `CMD_NOOP` for each vbucket. -/
theorem readAll_of_found {server : Server} {keys : List Text} {terminal : ℕ} {pairs : List (ℕ × Text)}
    (hnum : Numbered keys terminal pairs) (hfound : ∀ p ∈ pairs, (server (keyBytes p.2)).isSome) {vbs : List ℕ}
    (hvbs : vbs ≠ []) (rv : Found) :
    readAll keys terminal vbs
        (pairs.map (getAnswer server) ++ List.replicate vbs.length (noopAnswer terminal)) rv
      = (.ok ((foundPairs server pairs).foldl (fun rv e => rv.set e.1 e.2) rv), []) := by
  obtain ⟨vb, others, rfl⟩ := List.exists_cons_of_ne_nil hvbs
  rw [readAll, readUntil_of_found hnum hfound, ← readAll_noops keys terminal (vb :: others), readAll]

/-! ## The whole call -/

theorem mem_enumerate {keys : List Text} {p : ℕ × Text} (h : p ∈ enumerate keys) :
    keys[p.1]? = some p.2 ∧ p.1 < keys.length := by
  obtain ⟨q, hq, rfl⟩ := List.mem_map.1 h
  have hget : keys[q.2]? = some q.1 := List.mem_zipIdx_iff_getElem?.1 hq
  exact ⟨hget, (List.getElem?_eq_some_iff.1 hget).1⟩

theorem map_snd_enumerate (keys : List Text) : (enumerate keys).map Prod.snd = keys := by
  rw [enumerate, List.map_map]
  exact List.zipIdx_map_fst 0 keys

theorem forall_enumerate {keys : List Text} {P : Text → Prop} :
    (∀ p ∈ enumerate keys, P p.2) ↔ ∀ key ∈ keys, P key := by
  conv_rhs => rw [← map_snd_enumerate keys]
  exact List.forall_mem_map.symm

/-- The keys that exist on the server, with what it holds under them. -/
def foundItems (server : Server) (keys : List Text) : List (Text × (ℕ × ℕ × List UInt8)) :=
  keys.filterMap fun key => (server (keyBytes key)).map fun item => (key, itemOf item)

theorem foundPairs_enumerate (server : Server) (keys : List Text) :
    foundPairs server (enumerate keys) = foundItems server keys := by
  conv_rhs => rw [foundItems, ← map_snd_enumerate keys, List.filterMap_map]
  rfl

theorem nodup_foundItems (server : Server) {keys : List Text} (h : keys.Nodup) :
    ((foundItems server keys).map Prod.fst).Nodup := by
  have hsub : ((foundItems server keys).map Prod.fst).Sublist keys := by
    rw [foundItems]
    clear h
    induction keys with
    | nil => exact .slnil
    | cons key keys ih =>
        rw [List.filterMap_cons]
        cases server (keyBytes key) with
        | none => exact ih.cons key
        | some item => exact ih.cons_cons key
  exact h.sublist hsub

/-- The call returns the keys that exist with their values and leaves no response unread. -/
def InSync (server : Server) (client : Client) (keys : List Text) (vbucket : ℤ) : Prop :=
  ∃ rv, getMulti server client keys vbucket = (.ok rv, []) ∧ rv.items = foundItems server keys

/-- Every request can be packed, and every key exists. -/
def AllExist (server : Server) (keys : List Text) (vbucket : ℤ) : Prop :=
  vbucket < 2 ^ 16 ∧ keys.length + 10 < 2 ^ 32 ∧
    ∀ key ∈ keys, key.length < 2 ^ 16 ∧ (server (keyBytes key)).isSome

/-- The responses the reading loop finds, once everything was sent. -/
theorem serve_getMulti (server : Server) {keys : List Text} (hascii : ∀ key ∈ keys, Ascii key) {client client' : Client}
    {vbucket : ℤ} {vbs : List ℕ} {sent sent' : List UInt8} {r : Client}
    (hkeys : sendKeys vbucket (enumerate keys) client [] [] = (.ok (client', vbs), sent))
    (hnoops : sendNoops (keys.length + 10) vbs client' sent = (.ok r, sent')) :
    serve server sent' = (enumerate keys).map (getAnswer server) ++
      List.replicate vbs.length (noopAnswer (keys.length + 10)) := by
  obtain ⟨-, hspec⟩ := sendKeys_spec server vbucket (forall_enumerate.2 hascii) client [] []
  obtain ⟨hfits, -, hans⟩ := hspec client' vbs sent hkeys
  have hvbs : ∀ v ∈ vbs, v < 2 ^ 16 := fun v hv => (hfits v hv).resolve_left fun h => nomatch h
  obtain ⟨-, hnoopSpec⟩ := sendNoops_spec server (keys.length + 10) hvbs client' sent
  exact (hnoopSpec r sent' hnoops _ (hans [] .nil)).serve_eq

theorem enumerate_ne_nil {keys : List Text} (h : keys ≠ []) : enumerate keys ≠ [] := by
  intro hnil
  have hkeys := map_snd_enumerate keys
  rw [hnil] at hkeys
  exact h hkeys.symm

theorem numbered_enumerate (keys : List Text) : Numbered keys (keys.length + 10) (enumerate keys) := by
  intro p hp
  obtain ⟨hget, hlt⟩ := mem_enumerate hp
  exact ⟨hget, by omega⟩

/-- A call that returns has sent every request and found every key. -/
theorem allExist_of_ok {server : Server} {client : Client} {keys : List Text} {vbucket : ℤ} {rv : Found}
    {unread : List Response} (hascii : ∀ key ∈ keys, Ascii key) (hne : keys ≠ [])
    (hget : getMulti server client keys vbucket = (.ok rv, unread)) : AllExist server keys vbucket := by
  obtain ⟨hkeysOk, hkeysSpec⟩ := sendKeys_spec server vbucket (forall_enumerate.2 hascii) client [] []
  have hpairsne := enumerate_ne_nil hne
  rcases hsend : sendKeys vbucket (enumerate keys) client [] [] with ⟨e | ⟨client', vbs⟩, sent⟩
  · simp only [getMulti, hsend] at hget
    cases hget
  obtain ⟨hfits, hvbsne, -⟩ := hkeysSpec client' vbs sent hsend
  have hvbs : ∀ v ∈ vbs, v < 2 ^ 16 := fun v hv => (hfits v hv).resolve_left fun h => nomatch h
  obtain ⟨vb, others, rfl⟩ := List.exists_cons_of_ne_nil (hvbsne (.inl hpairsne))
  rcases hnoop : sendNoops (keys.length + 10) (vb :: others) client' sent with ⟨e | r, sent'⟩
  · simp only [getMulti, hsend, hnoop] at hget
    cases hget
  have hterminal : keys.length + 10 < 2 ^ 32 := by
    have hnoopOk := (sendNoops_spec server (keys.length + 10) hvbs client' sent).1
    exact (hnoopOk.1 ⟨r, sent', hnoop⟩).resolve_left (List.cons_ne_nil _ _)
  have hkeysFit : KeysFit vbucket (enumerate keys) := hkeysOk.1 ⟨_, _, hsend⟩
  simp only [getMulti, hsend, hnoop, serve_getMulti server hascii hsend hnoop] at hget
  -- a key that is missing would have raised
  have hall : ∀ p ∈ enumerate keys, (server (keyBytes p.2)).isSome := by
    by_contra hmissing
    push Not at hmissing
    obtain ⟨p, hp, hnone⟩ := hmissing
    obtain ⟨unread, hraise⟩ := readUntil_of_missing (numbered_enumerate keys) ⟨p, hp, by simpa using hnone⟩
      (List.replicate (vb :: others).length (noopAnswer (keys.length + 10))) ∅
    rw [readAll, hraise] at hget
    cases hget
  obtain ⟨p, hp⟩ := List.exists_mem_of_ne_nil _ hpairsne
  exact ⟨(hkeysFit p hp).1, hterminal, forall_enumerate.1 fun q hq => ⟨(hkeysFit q hq).2.1, hall q hq⟩⟩

/-- With every key there, the call returns them all and reads every response. -/
theorem inSync_of_allExist {server : Server} (client : Client) {keys : List Text} {vbucket : ℤ}
    (hnod : keys.Nodup) (hascii : ∀ key ∈ keys, Ascii key) (hne : keys ≠ [])
    (h : AllExist server keys vbucket) : InSync server client keys vbucket := by
  obtain ⟨hvb, hterminal, hall⟩ := h
  obtain ⟨hkeysOk, hkeysSpec⟩ := sendKeys_spec server vbucket (forall_enumerate.2 hascii) client [] []
  have hpairsAll := forall_enumerate.2 hall
  have hkeysFit : KeysFit vbucket (enumerate keys) := by
    intro p hp
    exact ⟨hvb, (hpairsAll p hp).1, by have := (mem_enumerate hp).2; omega⟩
  obtain ⟨⟨client', vbs⟩, sent, hsend⟩ := hkeysOk.2 hkeysFit
  obtain ⟨hfits, hvbsne, -⟩ := hkeysSpec client' vbs sent hsend
  have hvbs : ∀ v ∈ vbs, v < 2 ^ 16 := fun v hv => (hfits v hv).resolve_left fun h => nomatch h
  obtain ⟨r, sent', hnoop⟩ := (sendNoops_spec server (keys.length + 10) hvbs client' sent).1.2 (.inr hterminal)
  have hread := readAll_of_found (numbered_enumerate keys) (fun p hp => (hpairsAll p hp).2)
    (hvbsne (.inl (enumerate_ne_nil hne))) ∅
  rw [foundPairs_enumerate] at hread
  refine ⟨(foundItems server keys).foldl (fun rv e => rv.set e.1 e.2) ∅, ?_, ?_⟩
  · simp only [getMulti, hsend, hnoop, serve_getMulti server hascii hsend hnoop]
    exact hread
  · exact Dict.items_foldl_set (nodup_foundItems server hnod) fun k _ => by simp

/-- **Pipelined reads stay in sync exactly when nothing is missing**: for distinct ASCII keys, `getMulti` returns
    the keys that exist with their values and leaves no response of the call unread if and only if there are no
    keys, or every request can be packed and every key exists on the server. -/
theorem getMulti_inSync_iff (server : Server) (client : Client) (keys : List Text) (vbucket : ℤ)
    (hnod : keys.Nodup) (hascii : ∀ key ∈ keys, Ascii key) :
    InSync server client keys vbucket ↔ keys = [] ∨ AllExist server keys vbucket := by
  by_cases hne : keys = []
  · subst hne
    exact ⟨fun _ => .inl rfl, fun _ => ⟨∅, rfl, rfl⟩⟩
  · refine ⟨?_, fun h => inSync_of_allExist client hnod hascii hne (h.resolve_left hne)⟩
    rintro ⟨rv, hget, -⟩
    exact .inr (allExist_of_ok hascii hne hget)

/-- A server that holds the key `a` and no other. -/
def onlyA : Server := fun key => if key = [97] then some ⟨0, 5, [1], by decide⟩ else none

/-- A server that holds the keys `a` and `b`. -/
def aAndB : Server := fun key => if key = [97] ∨ key = [98] then some ⟨0, 5, [1], by decide⟩ else none

/-- Two keys of different vbuckets. -/
theorem getMulti_inSync_ab :
    (setVbucket plainClient [97] (-1)).toOption.map Client.vbucketId ≠
        (setVbucket plainClient [98] (-1)).toOption.map Client.vbucketId ∧
      InSync aAndB plainClient [[97], [98]] (-1) := by
  refine ⟨by decide +kernel, ?_⟩
  refine (getMulti_inSync_iff aAndB plainClient [[97], [98]] (-1) (by decide) (by decide +kernel)).2 (.inr ?_)
  refine ⟨by decide, by decide, ?_⟩
  decide +kernel

/-- One of two keys is missing: `MemcachedError` is raised, and the responses behind it stay unread. -/
theorem getMulti_out_of_sync : ¬ InSync onlyA plainClient [[98], [97]] (-1) := by
  rintro ⟨rv, hget, -⟩
  have hall := (allExist_of_ok (by decide +kernel) (by decide) hget).2.2
  exact absurd (hall [98] (by decide)).2 (by decide +kernel)

end TestInfra.Wire
