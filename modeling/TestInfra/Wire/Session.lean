import TestInfra.Wire.Receive
import TestInfra.Wire.SetMulti

set_option autoImplicit false

/-! # A connection over many commands

`MemcachedClient._doCmd` sends a request and reads one response. Over it stand both ends of the connection: the
client writes bytes, the server reads packets off them and writes its responses as bytes, and `recv` returns
these in pieces of any size.

Seen from above a connection is a queue of responses (`queueCall`): a call puts the response to its request at
the end and takes the one at the front. The bytes refine this (`doCmds_refines`). So a connection with nothing
unread gives every call the response to its own request, as if the server were called directly (`rpc`), and one
with something unread stays behind by as many responses for good. -/

namespace TestInfra.Wire

open Sockets Struct

/-! ## The server's end -/

/-- What the server answers to a request, with a body that fits a packet. -/
structure Answer where
  errcode : ℕ
  cas : ℕ
  keylen : ℕ
  extralen : ℕ
  dtype : ℕ
  body : List UInt8
  errcode_lt : errcode < 2 ^ 16
  cas_lt : cas < 2 ^ 64
  keylen_lt : keylen < 2 ^ 16
  extralen_lt : extralen < 2 ^ 8
  dtype_lt : dtype < 2 ^ 8
  body_lt : body.length < 2 ^ 32

/-- The fields of the header of a response. -/
def Answer.header (a : Answer) (cmd opaqueId : ℕ) : List ℕ :=
  [resMagic, cmd % 256, a.keylen, a.extralen, a.dtype, a.errcode, a.body.length, opaqueId % 2 ^ 32, a.cas]

/-- The bytes of the response to a request: the command and the opaque of the request are sent back. -/
def Answer.bytes (a : Answer) (cmd opaqueId : ℕ) : List UInt8 :=
  (pack resPktFmt (a.header cmd opaqueId)).getD [] ++ a.body

/-- What the server does to its state for a request, and what it answers. -/
abbrev Handler (σ : Type*) := σ → Packet → Answer × σ

variable {σ : Type*}

/-- The server reads at most so many packets, as long as a whole one is there: its state, the bytes it has not
    read, and the responses it writes. -/
def serveInbox (handle : Handler σ) : ℕ → σ → List UInt8 → σ × List UInt8 × List UInt8
  | 0, s, inbox => (s, inbox, [])
  | n + 1, s, inbox =>
      match readPacket inbox with
      | none => (s, inbox, [])
      | some (packet, rest) =>
          let (a, s) := handle s packet
          let (s, inbox, written) := serveInbox handle n s rest
          (s, inbox, a.bytes packet.cmd packet.opaqueId ++ written)

/-! ## The client's end -/

/-- What `_doCmd` can raise. -/
inductive CmdError where
  | send (e : SendError)
  | recv (e : RecvError)
  /-- `expected opaque .., got ..`. -/
  | assertionError
  | raised (e : Raised)
deriving DecidableEq, Repr

/-- `_handleSingleResponse(myopaque)` of a message that was read. -/
def handleReply (errorMap : Option ErrorMap) ( myopaque : ℕ) (r : Reply) : Except CmdError (ℕ × ℕ × List UInt8) :=
  if r.opaqueId ≠ myopaque then .error .assertionError
  else
    match handleSingleResponse errorMap ⟨r.cmd, r.errcode, r.opaqueId, r.cas, r.rv⟩ with
    | .error e => .error (.raised e)
    | .ok result => .ok result

/-- Both ends: the server's state, the bytes it has received and not read, and the receiving end of the client. -/
structure Connection (σ : Type*) where
  server : σ
  inbox : List UInt8
  socket : Socket

/-- A command with the client as it is then: `_set_vbucket` may change it from call to call. -/
structure Request where
  client : Client
  command : Command

/-- `_doCmd`, the drawn opaque being part of the command. -/
def doCmd (handle : Handler σ) (errorMap : Option ErrorMap) (request : Request) (c : Connection σ) :
    Except CmdError (ℕ × ℕ × List UInt8) × Connection σ :=
  match sendCmd request.client request.command with
  | .error e => (.error (.send e), c)
  | .ok bytes =>
      let received := c.inbox ++ bytes
      let (server, inbox, written) := serveInbox handle received.length c.server received
      match recvMsg { c.socket with stream := c.socket.stream ++ written } with
      | (.error e, socket) => (.error (.recv e), ⟨server, inbox, socket⟩)
      | (.ok r, socket) => (handleReply errorMap request.command.opaqueId r, ⟨server, inbox, socket⟩)

/-- One command after the other, whatever each of them raises. -/
def doCmds (handle : Handler σ) (errorMap : Option ErrorMap) :
    List Request → Connection σ → List (Except CmdError (ℕ × ℕ × List UInt8)) × Connection σ
  | [], c => ([], c)
  | request :: rest, c =>
      let (result, c) := doCmd handle errorMap request c
      let (results, c) := doCmds handle errorMap rest c
      (result :: results, c)

/-! ## Above the bytes -/

/-- A part as it is sent. -/
def Payload.sent (p : Payload) : List UInt8 := p.encode.getD []

/-- The key with the collection in front, or what finding the collection raises. -/
def Request.key (request : Request) : Except SendError Payload :=
  if request.command.collection.truthy then
    encodeCollectionId request.client request.command.key request.command.scope request.command.collection
  else .ok request.command.key

/-- The packet that a request means, or what sending it raises. -/
def Request.packet (request : Request) : Except SendError Packet := do
  let m := request.command.message request.client
  let key ← request.key
  let _ ← sendParts m key
  pure ⟨m.magic, m.cmd, m.dtype, m.vbucketId, m.opaqueId, m.cas, m.extraHeader.sent, key.sent,
    m.val.sent ++ m.extendedMetaData.sent⟩

/-- A response as a message. -/
def Answer.reply (a : Answer) (packet : Packet) : Reply :=
  ⟨packet.cmd, a.errcode, packet.opaqueId, a.cas, a.keylen, a.extralen, a.dtype, a.body⟩

/-- A call on a queue of responses: its own is put at the end, and the first one is taken. -/
def queueCall (handle : Handler σ) (errorMap : Option ErrorMap) (request : Request) (s : σ) (unread : List Reply) :
    Except CmdError (ℕ × ℕ × List UInt8) × σ × List Reply :=
  match request.packet with
  | .error e => (.error (.send e), s, unread)
  | .ok packet =>
      let (a, s) := handle s packet
      match unread with
      | [] => (handleReply errorMap request.command.opaqueId (a.reply packet), s, [])
      | r :: rest => (handleReply errorMap request.command.opaqueId r, s, rest ++ [a.reply packet])

def queueCalls (handle : Handler σ) (errorMap : Option ErrorMap) :
    List Request → σ → List Reply → List (Except CmdError (ℕ × ℕ × List UInt8)) × σ × List Reply
  | [], s, unread => ([], s, unread)
  | request :: rest, s, unread =>
      let (result, s, unread) := queueCall handle errorMap request s unread
      let (results, s, unread) := queueCalls handle errorMap rest s unread
      (result :: results, s, unread)

/-- The server called directly. -/
def rpc (handle : Handler σ) (errorMap : Option ErrorMap) (request : Request) (s : σ) :
    Except CmdError (ℕ × ℕ × List UInt8) × σ :=
  match request.packet with
  | .error e => (.error (.send e), s)
  | .ok packet =>
      let (a, s) := handle s packet
      match handleSingleResponse errorMap ⟨packet.cmd, a.errcode, packet.opaqueId, a.cas, a.body⟩ with
      | .error e => (.error (.raised e), s)
      | .ok result => (.ok result, s)

def rpcs (handle : Handler σ) (errorMap : Option ErrorMap) :
    List Request → σ → List (Except CmdError (ℕ × ℕ × List UInt8)) × σ
  | [], s => ([], s)
  | request :: rest, s =>
      let (result, s) := rpc handle errorMap request s
      let (results, s) := rpcs handle errorMap rest s
      (result :: results, s)

/-! ## A request arrives as it was meant -/

/-- The parts of the request are plain, the key with the collection in front of it. -/
structure Request.Plain (request : Request) : Prop where
  length : request.command.extraHeaderLength = none
  parts : ∀ key, request.key = .ok key → (request.command.message request.client).Plain key

theorem sendCmd_eq (request : Request) :
    sendCmd request.client request.command
      = request.key >>= sendParts (request.command.message request.client) := by
  unfold sendCmd sendMsg Request.key Command.message
  cases request.command.collection.truthy <;> rfl

theorem packet_of_error {request : Request} {e : SendError}
    (h : sendCmd request.client request.command = .error e) : request.packet = .error e := by
  rw [sendCmd_eq] at h
  unfold Request.packet
  cases hkey : request.key with
  | error e' =>
      rw [hkey] at h
      cases h
      rfl
  | ok key =>
      rw [hkey] at h
      change sendParts (request.command.message request.client) key = .error e at h
      simp only [Bind.bind, Except.bind, h]

/-- What was sent is the packet the request means, with anything behind it. -/
theorem packet_of_sent {request : Request} (hplain : request.Plain) {bytes : List UInt8}
    (h : sendCmd request.client request.command = .ok bytes) :
    ∃ packet, request.packet = .ok packet ∧ packet.cmd < 256 ∧ packet.opaqueId < 2 ^ 32 ∧
      packet.opaqueId = request.command.opaqueId ∧ ∀ rest, readPacket (bytes ++ rest) = some (packet, rest) := by
  rw [sendCmd_eq] at h
  cases hkey : request.key with
  | error e =>
      rw [hkey] at h
      cases h
  | ok key =>
      rw [hkey] at h
      change sendParts (request.command.message request.client) key = .ok bytes at h
      obtain ⟨msg, k, e, v, x, hmsg, -⟩ := (sendParts_eq_ok_iff _ key bytes).1 h
      have hrange := (pack_header_isSome_iff _ key).1 (Option.isSome_iff_exists.2 ⟨msg, hmsg⟩)
      obtain ⟨stream, packet, hsent, hmeant, hread⟩ :=
        readPacket_of_plain hplain.length (hplain.parts key hkey) hrange
      obtain rfl := Except.ok.inj (h.symm.trans hsent)
      obtain ⟨hmagic, hcmd, hdtype, hvb, hid, hcas, hextra, hk, val, meta', hval, hmeta, hvalue⟩ := hmeant
      refine ⟨packet, ?_, ?_, ?_, hid, hread⟩
      · simp only [Request.packet, hkey, Bind.bind, Except.bind, h, Pure.pure, Except.pure, Payload.sent, hextra,
          hk, hval, hmeta, Option.getD_some, ← hmagic, ← hcmd, ← hdtype, ← hvb, ← hid, ← hcas, ← hvalue]
      · exact hcmd ▸ hrange.2.1
      · exact hid ▸ hrange.2.2.2.2.2.2.2.1

/-! ## A response arrives as it was written -/

/-- The response as a packet of the stream. -/
theorem exists_framed (a : Answer) {packet : Packet} (hcmd : packet.cmd < 256) (hid : packet.opaqueId < 2 ^ 32) :
    ∃ p : Framed, p.bytes = a.bytes packet.cmd packet.opaqueId ∧ p.reply = a.reply packet := by
  obtain ⟨header, hheader⟩ : ∃ header, pack resPktFmt (a.header packet.cmd packet.opaqueId) = some header := by
    rw [← Option.isSome_iff_exists, pack_isSome_iff]
    have hbody := a.body_lt
    have herrcode := a.errcode_lt
    have hcas := a.cas_lt
    have hkeylen := a.keylen_lt
    have hextralen := a.extralen_lt
    have hdtype := a.dtype_lt
    simp only [resPktFmt, Answer.header, List.forall₂_cons, List.forall₂_nil_left_iff, and_true]
    refine ⟨by decide, by omega, by omega, by omega, by omega, by omega, by omega, by omega, by omega⟩
  have hfields := (unpack_resPktFmt header).symm.trans (unpack_pack hheader)
  simp only [Answer.header, List.cons.injEq, and_true] at hfields
  obtain ⟨hmagic, hc, hkeylen, hextralen, hdtype, herrcode, hlength, ho, hcas⟩ := hfields
  refine ⟨⟨header, a.body, length_pack hheader, Or.inl hmagic, hlength.symm⟩, ?_, ?_⟩
  · rw [Framed.bytes, Answer.bytes, hheader, Option.getD_some]
  · rw [Nat.mod_eq_of_lt hcmd] at hc
    rw [Nat.mod_eq_of_lt hid] at ho
    simp only [Framed.reply, Answer.reply, hc, hkeylen, hextralen, hdtype, herrcode, ho, hcas]

/-- A packet that is there in whole is answered, and nothing else is. -/
theorem serveInbox_one (handle : Handler σ) {bytes : List UInt8} {packet : Packet}
    (hread : ∀ rest, readPacket (bytes ++ rest) = some (packet, rest)) (s : σ) :
    serveInbox handle bytes.length s bytes =
      ((handle s packet).2, [], (handle s packet).1.bytes packet.cmd packet.opaqueId) := by
  have hone := hread []
  rw [List.append_nil] at hone
  have hnil : ∀ n t, serveInbox handle n t [] = (t, [], []) := by
    intro n t
    cases n <;> rfl
  cases hlength : bytes.length with
  | zero =>
      rw [List.eq_nil_of_length_eq_zero hlength] at hone
      cases hone
  | succ n => simp only [serveInbox, hone, hnil, List.append_nil]

/-! ## The bytes refine the queue -/

/-- The connection between two calls: the server has read everything, and the stream is made of the responses
    that are unread. -/
structure Connection.Holds (c : Connection σ) (s : σ) (unread : List Reply) : Prop where
  server : c.server = s
  inbox : c.inbox = []
  stream : ∃ packets : List Framed, c.socket.stream = packets.flatMap Framed.bytes ∧
    packets.map Framed.reply = unread

/-- **One call**: on bytes, in whatever pieces they come, it does what it does on the queue. -/
theorem doCmd_refines (handle : Handler σ) (errorMap : Option ErrorMap) {request : Request}
    (hplain : request.Plain) {c : Connection σ} {s : σ} {unread : List Reply} (h : c.Holds s unread) :
    (doCmd handle errorMap request c).1 = (queueCall handle errorMap request s unread).1 ∧
      (doCmd handle errorMap request c).2.Holds (queueCall handle errorMap request s unread).2.1
        (queueCall handle errorMap request s unread).2.2 := by
  unfold doCmd queueCall
  cases hsend : sendCmd request.client request.command with
  | error e =>
      simp only [packet_of_error hsend]
      exact ⟨trivial, h⟩
  | ok bytes =>
      obtain ⟨packet, hpacket, hcmd, hid, -, hread⟩ := packet_of_sent hplain hsend
      obtain ⟨packets, hstream, hreplies⟩ := h.stream
      obtain ⟨own, hown, hreply⟩ := exists_framed (handle s packet).1 hcmd hid
      simp only [hpacket, h.inbox, List.nil_append, serveInbox_one handle hread, h.server]
      cases packets with
      | nil =>
          obtain rfl : unread = [] := hreplies.symm
          have hbytes : c.socket.stream ++ (handle s packet).1.bytes packet.cmd packet.opaqueId = own.bytes ++ [] := by
            rw [hstream, List.flatMap_nil, List.nil_append, hown, List.append_nil]
          obtain ⟨socket, hrecv, hrest⟩ := recvMsg_of_bytes own
            (s := { c.socket with stream := c.socket.stream ++ (handle s packet).1.bytes packet.cmd packet.opaqueId })
            hbytes
          simp only [hrecv, hreply]
          exact ⟨trivial, rfl, rfl, [], hrest, rfl⟩
      | cons first later =>
          obtain rfl : unread = first.reply :: later.map Framed.reply := hreplies.symm
          have hbytes : c.socket.stream ++ (handle s packet).1.bytes packet.cmd packet.opaqueId
              = first.bytes ++ (later ++ [own]).flatMap Framed.bytes := by
            rw [hstream, List.flatMap_cons, List.flatMap_append, List.flatMap_singleton, hown, List.append_assoc]
          obtain ⟨socket, hrecv, hrest⟩ := recvMsg_of_bytes first
            (s := { c.socket with stream := c.socket.stream ++ (handle s packet).1.bytes packet.cmd packet.opaqueId })
            hbytes
          simp only [hrecv]
          refine ⟨trivial, rfl, rfl, later ++ [own], hrest, ?_⟩
          rw [List.map_append, List.map_singleton, hreply]

/-- **Many calls** on bytes do what they do on the queue. -/
theorem doCmds_refines (handle : Handler σ) (errorMap : Option ErrorMap) {requests : List Request}
    (hplain : ∀ request ∈ requests, request.Plain) {c : Connection σ} {s : σ} {unread : List Reply}
    (h : c.Holds s unread) :
    (doCmds handle errorMap requests c).1 = (queueCalls handle errorMap requests s unread).1 ∧
      (doCmds handle errorMap requests c).2.Holds (queueCalls handle errorMap requests s unread).2.1
        (queueCalls handle errorMap requests s unread).2.2 := by
  induction requests generalizing c s unread with
  | nil => exact ⟨rfl, h⟩
  | cons request rest ih =>
      rw [List.forall_mem_cons] at hplain
      obtain ⟨hfirst, hnext⟩ := doCmd_refines handle errorMap hplain.1 h
      obtain ⟨hothers, hend⟩ := ih hplain.2 hnext
      exact ⟨congrArg₂ List.cons hfirst hothers, hend⟩

/-! ## In sync, and out of it -/

/-- Of its own response a call takes everything but the opaque. -/
theorem handleReply_own (errorMap : Option ErrorMap) (a : Answer) (packet : Packet) :
    handleReply errorMap packet.opaqueId (a.reply packet) =
      match handleSingleResponse errorMap ⟨packet.cmd, a.errcode, packet.opaqueId, a.cas, a.body⟩ with
      | .error e => .error (.raised e)
      | .ok result => .ok result := by
  rw [handleReply, Answer.reply, if_neg (not_not.2 rfl)]

theorem packet_opaqueId {request : Request} {packet : Packet} (h : request.packet = .ok packet) :
    packet.opaqueId = request.command.opaqueId := by
  unfold Request.packet at h
  cases hkey : request.key with
  | error e =>
      rw [hkey] at h
      cases h
  | ok key =>
      cases hsend : sendParts (request.command.message request.client) key with
      | error e =>
          simp only [hkey, Bind.bind, Except.bind, hsend] at h
          cases h
      | ok bytes =>
          simp only [hkey, Bind.bind, Except.bind, hsend, Pure.pure, Except.pure, Except.ok.injEq] at h
          rw [← h]
          rfl

theorem queueCall_nil (handle : Handler σ) (errorMap : Option ErrorMap) (request : Request) (s : σ) :
    queueCall handle errorMap request s [] =
      ((rpc handle errorMap request s).1, (rpc handle errorMap request s).2, []) := by
  unfold queueCall rpc
  cases hpacket : request.packet with
  | error e => rfl
  | ok packet =>
      simp only [← packet_opaqueId hpacket, handleReply_own]
      rcases handle s packet with ⟨a, s'⟩
      cases handleSingleResponse errorMap ⟨packet.cmd, a.errcode, packet.opaqueId, a.cas, a.body⟩ <;> rfl

theorem queueCalls_nil (handle : Handler σ) (errorMap : Option ErrorMap) (requests : List Request) (s : σ) :
    queueCalls handle errorMap requests s [] =
      ((rpcs handle errorMap requests s).1, (rpcs handle errorMap requests s).2, []) := by
  induction requests generalizing s with
  | nil => rfl
  | cons request rest ih =>
      simp only [queueCalls, queueCall_nil, ih]
      rfl

/-- **A session is as good as direct calls**: with nothing unread at its start, whatever the commands (of plain
    parts) and whatever the server makes of them, every call raises or returns what the response to its own
    request says, never an `AssertionError`, and at the end again nothing is unread. -/
theorem doCmds_eq_rpcs (handle : Handler σ) (errorMap : Option ErrorMap) {requests : List Request}
    (hplain : ∀ request ∈ requests, request.Plain) {c : Connection σ} (hinbox : c.inbox = [])
    (hstream : c.socket.stream = []) :
    (doCmds handle errorMap requests c).1 = (rpcs handle errorMap requests c.server).1 ∧
      (doCmds handle errorMap requests c).2.server = (rpcs handle errorMap requests c.server).2 ∧
      (doCmds handle errorMap requests c).2.inbox = [] ∧ (doCmds handle errorMap requests c).2.socket.stream = [] := by
  obtain ⟨hresults, hend⟩ := doCmds_refines handle errorMap hplain
    (⟨rfl, hinbox, [], hstream, rfl⟩ : c.Holds c.server [])
  rw [queueCalls_nil] at hresults hend
  obtain ⟨packets, hleft, hnone⟩ := hend.stream
  rw [List.map_eq_nil_iff] at hnone
  exact ⟨hresults, hend.server, hend.inbox, by rw [hleft, hnone, List.flatMap_nil]⟩

/-- A server that knows nothing at the first request and has the value `v` from then on. -/
def lateServer : Handler ℕ := fun s _ =>
  (⟨if s = 0 then errNotFound else 0, 5, 0, 0, 0, [118], by split <;> decide, by decide, by decide, by decide,
    by decide, by decide⟩, s + 1)

/-- `CMD_GET` of the key `ab`. -/
def getWith (opaqueId : ℕ) : Request := ⟨plainClient, { asciiGet with opaqueId := opaqueId }⟩

theorem getWith_plain (opaqueId : ℕ) : (getWith opaqueId).Plain where
  length := rfl
  parts key hkey := by
    obtain rfl : Payload.text [97, 98] = key := Except.ok.inj hkey
    have hnone : (Payload.text []).Plain := by decide
    exact ⟨by decide, hnone, hnone, hnone⟩

/-- Two reads over a connection whose pieces have three bytes: the first one raises, the second returns. -/
theorem doCmds_eq_rpcs_two :
    (doCmds lateServer none [getWith 7, getWith 8] ⟨0, [], ⟨[], fun _ => 3, 0⟩⟩).1 =
        [.error (.raised (.memcached ⟨1, .raw [118]⟩)), .ok (8, 5, [118])] ∧
      (doCmds lateServer none [getWith 7, getWith 8] ⟨0, [], ⟨[], fun _ => 3, 0⟩⟩).2.socket.stream = [] := by
  have hplain : ∀ request ∈ [getWith 7, getWith 8], request.Plain := by
    simp only [List.mem_cons, List.not_mem_nil, or_false]
    rintro request (rfl | rfl) <;> exact getWith_plain _
  obtain ⟨hresults, -, -, hstream⟩ :=
    doCmds_eq_rpcs lateServer none hplain (c := ⟨0, [], ⟨[], fun _ => 3, 0⟩⟩) rfl rfl
  exact ⟨hresults.trans (by rfl), hstream⟩

/-- The responses to the requests of a session, in order. -/
def responses (handle : Handler σ) : List Request → σ → List Reply
  | [], _ => []
  | request :: rest, s =>
      match request.packet with
      | .error _ => responses handle rest s
      | .ok packet =>
          let (a, s) := handle s packet
          a.reply packet :: responses handle rest s

/-- A session that starts behind: the calls take the responses as they come. -/
theorem queueCalls_behind (handle : Handler σ) (errorMap : Option ErrorMap) {requests : List Request}
    (hsent : ∀ request ∈ requests, ∃ packet, request.packet = .ok packet) (s : σ) (unread : List Reply) :
    (queueCalls handle errorMap requests s unread).1 =
        List.zipWith (fun (request : Request) r => handleReply errorMap request.command.opaqueId r) requests
          (unread ++ responses handle requests s) ∧
      (queueCalls handle errorMap requests s unread).2.2 =
        (unread ++ responses handle requests s).drop requests.length := by
  induction requests generalizing s unread with
  | nil => exact ⟨rfl, by rw [responses, List.append_nil]; rfl⟩
  | cons request rest ih =>
      rw [List.forall_mem_cons] at hsent
      obtain ⟨packet, hpacket⟩ := hsent.1
      simp only [queueCalls, queueCall, hpacket, responses]
      cases unread with
      | nil =>
          obtain ⟨hresults, hleft⟩ := ih hsent.2 (handle s packet).2 []
          simp only [hresults, hleft, List.nil_append, List.zipWith_cons_cons, List.length_cons, List.drop_succ_cons]
          exact ⟨trivial, trivial⟩
      | cons first later =>
          obtain ⟨hresults, hleft⟩ :=
            ih hsent.2 (handle s packet).2 (later ++ [(handle s packet).1.reply packet])
          simp only [hresults, hleft, List.append_assoc, List.nil_append, List.cons_append,
            List.zipWith_cons_cons, List.length_cons, List.drop_succ_cons]
          exact ⟨trivial, trivial⟩

theorem length_responses (handle : Handler σ) {requests : List Request}
    (hsent : ∀ request ∈ requests, ∃ packet, request.packet = .ok packet) (s : σ) :
    (responses handle requests s).length = requests.length := by
  induction requests generalizing s with
  | nil => rfl
  | cons request rest ih =>
      rw [List.forall_mem_cons] at hsent
      obtain ⟨packet, hpacket⟩ := hsent.1
      simp only [responses, hpacket, List.length_cons, ih hsent.2]

/-- **A connection that is behind stays behind**: with so many responses unread, each call is given the response
    that came as many requests before its own, raises `AssertionError` unless the opaques happen to be the same,
    and after any number of calls as many responses are unread as at the start. -/
theorem doCmds_stays_behind (handle : Handler σ) (errorMap : Option ErrorMap) {requests : List Request}
    (hplain : ∀ request ∈ requests, request.Plain) (hsent : ∀ request ∈ requests, ∃ packet, request.packet = .ok packet)
    {c : Connection σ} (hinbox : c.inbox = []) {packets : List Framed}
    (hstream : c.socket.stream = packets.flatMap Framed.bytes) :
    (doCmds handle errorMap requests c).1 =
        List.zipWith (fun (request : Request) r => handleReply errorMap request.command.opaqueId r) requests
          (packets.map Framed.reply ++ responses handle requests c.server) ∧
      ∃ left : List Framed, left.length = packets.length ∧
        (doCmds handle errorMap requests c).2.socket.stream = left.flatMap Framed.bytes := by
  obtain ⟨hresults, hend⟩ := doCmds_refines handle errorMap hplain
    (⟨rfl, hinbox, packets, hstream, rfl⟩ : c.Holds c.server (packets.map Framed.reply))
  obtain ⟨hzip, hunread⟩ := queueCalls_behind handle errorMap hsent c.server (packets.map Framed.reply)
  obtain ⟨left, hleft, hreplies⟩ := hend.stream
  refine ⟨hresults.trans hzip, left, ?_, hleft⟩
  have hlength := congrArg List.length (hreplies.trans hunread)
  rw [List.length_map, List.length_drop, List.length_append, List.length_map, length_responses handle hsent] at hlength
  omega

/-- A response to an earlier request is unread: the read raises, and its own response stays behind. -/
theorem doCmds_stays_behind_one :
    (doCmds lateServer none [getWith 8] ⟨0, [], ⟨sampleReply.bytes, fun _ => 3, 0⟩⟩).1 = [.error .assertionError] ∧
      ∃ left : List Framed, left.length = 1 ∧
        (doCmds lateServer none [getWith 8] ⟨0, [], ⟨sampleReply.bytes, fun _ => 3, 0⟩⟩).2.socket.stream
          = left.flatMap Framed.bytes := by
  have hsent : ∀ request ∈ [getWith 8], ∃ packet, request.packet = .ok packet := by
    simp only [List.mem_singleton]
    rintro request rfl
    exact ⟨_, rfl⟩
  have hplain : ∀ request ∈ [getWith 8], request.Plain := by
    simp only [List.mem_singleton]
    rintro request rfl
    exact getWith_plain 8
  obtain ⟨hresults, hleft⟩ := @doCmds_stays_behind ℕ lateServer none [getWith 8] hplain hsent
    ⟨0, [], ⟨sampleReply.bytes, fun _ => 3, 0⟩⟩ rfl [sampleReply] rfl
  exact ⟨hresults.trans (by rfl), hleft⟩

end TestInfra.Wire
