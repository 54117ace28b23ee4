import TestInfra.Lib.Raises
import TestInfra.Wire.Session

set_option autoImplicit false

/-! # A session with `stats`

`MemcachedClient.stats` sends one request and reads responses until one comes that has no key. It does not look at
the opaques of these. On a connection with nothing unread it is given the responses to its own request and leaves
none of them, between whatever other commands (`doCalls_eq_asks`). On one that is behind it takes the first
response without a key for the end of its own: it returns what it has by then and leaves all of its own responses
unread (`stats_of_behind`). -/

namespace TestInfra.Wire

open Sockets Struct

variable {σ : Type*}

/-! ## Both ends -/

/-- What a server does to its state for a request, and the responses it writes, in order. -/
abbrev Service (σ : Type*) := σ → Packet → List Answer × σ

/-- `serveInbox` of a server with any number of responses. -/
def serveStream (serve : Service σ) : ℕ → σ → List UInt8 → σ × List UInt8 × List UInt8
  | 0, s, inbox => (s, inbox, [])
  | n + 1, s, inbox =>
      match readPacket inbox with
      | none => (s, inbox, [])
      | some (packet, rest) =>
          let (answers, s) := serve s packet
          let (s, inbox, written) := serveStream serve n s rest
          (s, inbox, answers.flatMap (fun a => a.bytes packet.cmd packet.opaqueId) ++ written)

/-- The request is written, and the server does what it can. -/
def send (serve : Service σ) (request : Request) (c : Connection σ) : Except SendError (Connection σ) :=
  match sendCmd request.client request.command with
  | .error e => .error e
  | .ok bytes =>
      let received := c.inbox ++ bytes
      let (server, inbox, written) := serveStream serve received.length c.server received
      .ok ⟨server, inbox, { c.socket with stream := c.socket.stream ++ written }⟩

/-- `CMD_STAT`. -/
def cmdStat : ℕ := 0x10

/-- What `stats` can raise. -/
inductive StatsError where
  | cmd (e : CmdError)
  | unicodeDecodeError
deriving DecidableEq, Repr

/-- What `stats` makes of a response: a stat, or `none` for the end. -/
def handleStat (errorMap : Option ErrorMap) (r : Reply) : Except StatsError (Option (Text × Text)) :=
  match handleSingleResponse errorMap ⟨r.cmd, r.errcode, r.opaqueId, r.cas, r.rv⟩ with
  | .error e => .error (.cmd (.raised e))
  | .ok _ =>
      if r.keylen ≠ 0 then
        match Utf8.decode (r.rv.drop r.keylen), Utf8.decode (r.rv.take r.keylen) with
        | some value, some key => .ok (some (key, value))
        | _, _ => .error .unicodeDecodeError
      else .ok none

/-- `while not done`. A turn that goes on has read a header, so the bytes of the stream are more than enough turns. -/
def statsLoop (errorMap : Option ErrorMap) :
    ℕ → Dict Text Text → Socket → Except StatsError (Dict Text Text) × Socket
  | 0, _, s => (.error (.cmd (.recv .eofError)), s)
  | fuel + 1, rv, s =>
      match recvMsg s with
      | (.error e, s) => (.error (.cmd (.recv e)), s)
      | (.ok r, s) =>
          match handleStat errorMap r with
          | .error e => (.error e, s)
          | .ok none => (.ok rv, s)
          | .ok (some (key, value)) => statsLoop errorMap fuel (rv.set key value) s

/-- A call of a session: a command that goes through `_doCmd`, or `stats(sub)` with the opaque it draws. -/
inductive Call where
  | command (request : Request)
  | stats (client : Client) (sub : Text) (opaqueId : ℕ)

/-- The request of a call. -/
def Call.request : Call → Request
  | .command request => request
  | .stats client sub opaqueId => ⟨client, { cmd := cmdStat, key := .text sub, val := .text [], opaqueId := opaqueId }⟩

/-- What a call returns or raises. -/
inductive Result where
  | command (result : Except CmdError (ℕ × ℕ × List UInt8))
  | stats (result : Except StatsError (Dict Text Text))

/-- The request could not be sent. -/
def Call.notSent (e : SendError) : Call → Result
  | .command _ => .command (.error (.send e))
  | .stats _ _ _ => .stats (.error (.cmd (.send e)))

/-- What a call reads. -/
def Call.receive (errorMap : Option ErrorMap) (s : Socket) : Call → Result × Socket
  | .command request =>
      match recvMsg s with
      | (.error e, s) => (.command (.error (.recv e)), s)
      | (.ok r, s) => (.command (handleReply errorMap request.command.opaqueId r), s)
  | .stats _ _ _ =>
      let (result, s) := statsLoop errorMap (s.stream.length + 1) ∅ s
      (.stats result, s)

/-- `_doCmd` or `stats`. -/
def doCall (serve : Service σ) (errorMap : Option ErrorMap) (call : Call) (c : Connection σ) :
    Result × Connection σ :=
  match send serve call.request c with
  | .error e => (call.notSent e, c)
  | .ok c =>
      let (result, socket) := call.receive errorMap c.socket
      (result, { c with socket := socket })

/-- One call after the other, whatever each of them raises. -/
def doCalls (serve : Service σ) (errorMap : Option ErrorMap) :
    List Call → Connection σ → List Result × Connection σ
  | [], c => ([], c)
  | call :: rest, c =>
      let (result, c) := doCall serve errorMap call c
      let (results, c) := doCalls serve errorMap rest c
      (result :: results, c)

/-! ## Above the bytes -/

/-- `stats` on a queue of responses. -/
def takeStats (errorMap : Option ErrorMap) :
    List Reply → Dict Text Text → Except StatsError (Dict Text Text) × List Reply
  | [], _ => (.error (.cmd (.recv .eofError)), [])
  | r :: rest, rv =>
      match handleStat errorMap r with
      | .error e => (.error e, rest)
      | .ok none => (.ok rv, rest)
      | .ok (some (key, value)) => takeStats errorMap rest (rv.set key value)

/-- What a call takes from a queue of responses. -/
def Call.take (errorMap : Option ErrorMap) (unread : List Reply) : Call → Result × List Reply
  | .command request =>
      match unread with
      | [] => (.command (.error (.recv .eofError)), [])
      | r :: rest => (.command (handleReply errorMap request.command.opaqueId r), rest)
  | .stats _ _ _ =>
      let (result, unread) := takeStats errorMap unread ∅
      (.stats result, unread)

/-- A call on a queue of responses: its own are put at the end, and it takes what it takes from the front. -/
def onQueue (serve : Service σ) (errorMap : Option ErrorMap) (call : Call) (s : σ) (unread : List Reply) :
    Result × σ × List Reply :=
  match call.request.packet with
  | .error e => (call.notSent e, s, unread)
  | .ok packet =>
      let (answers, s) := serve s packet
      let (result, unread) := call.take errorMap (unread ++ answers.map fun a => a.reply packet)
      (result, s, unread)

/-- The server called directly: the call is given the responses to its request and no others. -/
def ask (serve : Service σ) (errorMap : Option ErrorMap) (call : Call) (s : σ) : Result × σ :=
  match call.request.packet with
  | .error e => (call.notSent e, s)
  | .ok packet =>
      let (answers, s) := serve s packet
      ((call.take errorMap (answers.map fun a => a.reply packet)).1, s)

def asks (serve : Service σ) (errorMap : Option ErrorMap) : List Call → σ → List Result × σ
  | [], s => ([], s)
  | call :: rest, s =>
      let (result, s) := ask serve errorMap call s
      let (results, s) := asks serve errorMap rest s
      (result :: results, s)

/-! ## The bytes refine the queue -/

/-- On a connection with nothing to read. -/
theorem recvMsg_of_nil {s : Socket} (h : s.stream = []) :
    ∃ s', recvMsg s = (.error .eofError, s') ∧ s'.stream = [] := by
  obtain ⟨hdata, hrest⟩ := recv_of_nil minRecvPacket h
  refine ⟨(recv minRecvPacket s).2, ?_, hrest⟩
  have hloop : headerLoop minRecvPacket [] s = (.error .eofError, (recv minRecvPacket s).2) := by
    rw [headerLoop.eq_def]
    simp only [minRecvPacket] at hdata
    simp [minRecvPacket, hdata]
  simp only [recvMsg, hloop]

/-- With a turn for each response, and one more, the loop does on the stream what `stats` does on the queue. -/
theorem statsLoop_refines (errorMap : Option ErrorMap) (packets : List Framed) {fuel : ℕ}
    (hfuel : packets.length < fuel) (rv : Dict Text Text) {s : Socket}
    (hstream : s.stream = packets.flatMap Framed.bytes) :
    (statsLoop errorMap fuel rv s).1 = (takeStats errorMap (packets.map Framed.reply) rv).1 ∧
      ∃ left : List Framed, (statsLoop errorMap fuel rv s).2.stream = left.flatMap Framed.bytes ∧
        left.map Framed.reply = (takeStats errorMap (packets.map Framed.reply) rv).2 := by
  induction packets generalizing fuel rv s with
  | nil =>
      obtain ⟨fuel, rfl⟩ : ∃ k, fuel = k + 1 := ⟨fuel - 1, by omega⟩
      obtain ⟨s', hrecv, hrest⟩ := recvMsg_of_nil hstream
      simp only [statsLoop, hrecv, List.map_nil, takeStats]
      exact ⟨trivial, [], hrest, rfl⟩
  | cons p packets ih =>
      obtain ⟨fuel, rfl⟩ : ∃ k, fuel = k + 1 := ⟨fuel - 1, by omega⟩
      obtain ⟨s', hrecv, hrest⟩ := recvMsg_of_bytes p hstream
      simp only [statsLoop, hrecv, List.map_cons, takeStats]
      cases handleStat errorMap p.reply with
      | error e => exact ⟨rfl, packets, hrest, rfl⟩
      | ok stat =>
          cases stat with
          | none => exact ⟨rfl, packets, hrest, rfl⟩
          | some stat =>
              rw [List.length_cons] at hfuel
              exact ih (by omega) _ hrest

theorem length_le_length_flatMap_bytes (packets : List Framed) :
    packets.length ≤ (packets.flatMap Framed.bytes).length := by
  induction packets with
  | nil => simp
  | cons p packets ih =>
      rw [List.flatMap_cons, List.length_append, List.length_cons, p.length_bytes, minRecvPacket]
      omega

/-- What a call reads from a stream of responses. -/
theorem Call.receive_refines (errorMap : Option ErrorMap) (call : Call) (packets : List Framed) {s : Socket}
    (hstream : s.stream = packets.flatMap Framed.bytes) :
    (call.receive errorMap s).1 = (call.take errorMap (packets.map Framed.reply)).1 ∧
      ∃ left : List Framed, (call.receive errorMap s).2.stream = left.flatMap Framed.bytes ∧
        left.map Framed.reply = (call.take errorMap (packets.map Framed.reply)).2 := by
  cases call with
  | command request =>
      cases packets with
      | nil =>
          obtain ⟨s', hrecv, hrest⟩ := recvMsg_of_nil hstream
          simp only [Call.receive, hrecv, Call.take, List.map_nil]
          exact ⟨trivial, [], hrest, rfl⟩
      | cons p packets =>
          obtain ⟨s', hrecv, hrest⟩ := recvMsg_of_bytes p hstream
          simp only [Call.receive, hrecv, Call.take, List.map_cons]
          exact ⟨trivial, packets, hrest, rfl⟩
  | stats client sub opaqueId =>
      have hfuel : packets.length < s.stream.length + 1 := by
        rw [hstream]
        exact Nat.lt_succ_of_le (length_le_length_flatMap_bytes packets)
      obtain ⟨hresult, hleft⟩ := statsLoop_refines errorMap packets hfuel ∅ hstream
      exact ⟨congrArg Result.stats hresult, hleft⟩

/-- The responses of a server as packets of the stream. -/
theorem exists_framed_list (answers : List Answer) {packet : Packet} (hcmd : packet.cmd < 256)
    (hid : packet.opaqueId < 2 ^ 32) :
    ∃ packets : List Framed,
      packets.flatMap Framed.bytes = answers.flatMap (fun a => a.bytes packet.cmd packet.opaqueId) ∧
        packets.map Framed.reply = answers.map fun a => a.reply packet := by
  induction answers with
  | nil => exact ⟨[], rfl, rfl⟩
  | cons a answers ih =>
      obtain ⟨p, hbytes, hreply⟩ := exists_framed a hcmd hid
      obtain ⟨packets, hrest, hreplies⟩ := ih
      exact ⟨p :: packets, by simp [hbytes, hrest], by simp [hreply, hreplies]⟩

/-- A packet that is there in whole is answered, and nothing else is. -/
theorem serveStream_one (serve : Service σ) {bytes : List UInt8} {packet : Packet}
    (hread : ∀ rest, readPacket (bytes ++ rest) = some (packet, rest)) (s : σ) :
    serveStream serve bytes.length s bytes =
      ((serve s packet).2, [], (serve s packet).1.flatMap fun a => a.bytes packet.cmd packet.opaqueId) := by
  have hone := hread []
  rw [List.append_nil] at hone
  have hnil : ∀ n t, serveStream serve n t [] = (t, [], []) := by
    intro n t
    cases n <;> rfl
  cases hlength : bytes.length with
  | zero =>
      rw [List.eq_nil_of_length_eq_zero hlength] at hone
      cases hone
  | succ n => simp only [serveStream, hone, hnil, List.append_nil]

/-- **One call**: on bytes, in whatever pieces they come, it does what it does on the queue. -/
theorem doCall_refines (serve : Service σ) (errorMap : Option ErrorMap) {call : Call} (hplain : call.request.Plain)
    {c : Connection σ} {s : σ} {unread : List Reply} (h : c.Holds s unread) :
    (doCall serve errorMap call c).1 = (onQueue serve errorMap call s unread).1 ∧
      (doCall serve errorMap call c).2.Holds (onQueue serve errorMap call s unread).2.1
        (onQueue serve errorMap call s unread).2.2 := by
  unfold doCall onQueue send
  cases hsend : sendCmd call.request.client call.request.command with
  | error e =>
      simp only [packet_of_error hsend]
      exact ⟨trivial, h⟩
  | ok bytes =>
      obtain ⟨packet, hpacket, hcmd, hid, -, hread⟩ := packet_of_sent hplain hsend
      obtain ⟨packets, hstream, rfl⟩ := h.stream
      obtain ⟨own, hown, hreplies⟩ := exists_framed_list (serve s packet).1 hcmd hid
      simp only [hpacket, h.inbox, List.nil_append, serveStream_one serve hread, h.server]
      have hbytes : c.socket.stream ++ ((serve s packet).1.flatMap fun a => a.bytes packet.cmd packet.opaqueId)
          = (packets ++ own).flatMap Framed.bytes := by rw [hstream, List.flatMap_append, hown]
      obtain ⟨hresult, left, hleft, hunread⟩ := Call.receive_refines errorMap call (packets ++ own)
        (s := { c.socket with stream := c.socket.stream ++
          ((serve s packet).1.flatMap fun a => a.bytes packet.cmd packet.opaqueId) }) hbytes
      rw [List.map_append, hreplies] at hresult hunread
      exact ⟨hresult, rfl, rfl, left, hleft, hunread⟩

/-- **Many calls** on bytes do what they do on the queue, if there each leaves nothing. -/
theorem doCalls_refines (serve : Service σ) (errorMap : Option ErrorMap) {calls : List Call}
    (hplain : ∀ call ∈ calls, call.request.Plain)
    (hsync : ∀ call ∈ calls, ∀ s, onQueue serve errorMap call s [] =
      ((ask serve errorMap call s).1, (ask serve errorMap call s).2, []))
    {c : Connection σ} {s : σ} (h : c.Holds s []) :
    (doCalls serve errorMap calls c).1 = (asks serve errorMap calls s).1 ∧
      (doCalls serve errorMap calls c).2.Holds (asks serve errorMap calls s).2 [] := by
  induction calls generalizing c s with
  | nil => exact ⟨rfl, h⟩
  | cons call rest ih =>
      rw [List.forall_mem_cons] at hplain hsync
      obtain ⟨hfirst, hnext⟩ := doCall_refines serve errorMap hplain.1 h
      rw [hsync.1] at hfirst hnext
      obtain ⟨hothers, hend⟩ := ih hplain.2 hsync.2 hnext
      exact ⟨congrArg₂ List.cons hfirst hothers, hend⟩

/-! ## In sync, and out of it -/

/-- A response that `stats` takes for a stat: no error, and a text for a key and a value. -/
def Answer.IsStat (a : Answer) : Prop :=
  a.errcode = 0 ∧ a.keylen ≠ 0 ∧ (Utf8.decode (a.body.take a.keylen)).isSome ∧
    (Utf8.decode (a.body.drop a.keylen)).isSome

/-- A response at which `stats` ends: an error, or one without a key. -/
def Answer.EndsStats (a : Answer) : Prop := a.errcode ≠ 0 ∨ a.keylen = 0

/-- What the protocol says about the responses: one to a command, and to `CMD_STAT` any number of stats and an end. -/
structure Orderly (serve : Service σ) : Prop where
  command : ∀ s packet, packet.cmd ≠ cmdStat → ∃ a, (serve s packet).1 = [a]
  stats : ∀ s packet, packet.cmd = cmdStat → ∃ items last, (serve s packet).1 = items ++ [last] ∧
    (∀ a ∈ items, a.IsStat) ∧ last.EndsStats

/-- The key and the value of a stat. -/
def Answer.stat (a : Answer) : Text × Text :=
  ((Utf8.decode (a.body.take a.keylen)).getD [], (Utf8.decode (a.body.drop a.keylen)).getD [])

theorem handleStat_of_isStat (errorMap : Option ErrorMap) {a : Answer} (h : a.IsStat) (packet : Packet) :
    handleStat errorMap (a.reply packet) = .ok (some a.stat) := by
  obtain ⟨herrcode, hkeylen, hkey, hvalue⟩ := h
  obtain ⟨key, hkey⟩ := Option.isSome_iff_exists.1 hkey
  obtain ⟨value, hvalue⟩ := Option.isSome_iff_exists.1 hvalue
  simp [handleStat, handleSingleResponse, Answer.reply, Answer.stat, herrcode, hkeylen, hkey, hvalue]

/-- `stats` of its own responses: all of them are taken. -/
theorem takeStats_of_items (errorMap : Option ErrorMap) {items : List Answer} (hitems : ∀ a ∈ items, a.IsStat)
    {last : Answer} (hlast : last.EndsStats) (packet : Packet) (rv : Dict Text Text) :
    (takeStats errorMap ((items ++ [last]).map fun a => a.reply packet) rv).2 = [] := by
  induction items generalizing rv with
  | nil =>
      rcases hlast with herrcode | hkeylen
      · simp [takeStats, handleStat, handleSingleResponse, Answer.reply, herrcode]
      · by_cases herrcode : last.errcode = 0
        · simp [takeStats, handleStat, handleSingleResponse, Answer.reply, herrcode, hkeylen]
        · simp [takeStats, handleStat, handleSingleResponse, Answer.reply, herrcode]
  | cons a items ih =>
      rw [List.forall_mem_cons] at hitems
      simp only [List.cons_append, List.map_cons, takeStats, handleStat_of_isStat errorMap hitems.1 packet]
      exact ih hitems.2 _

theorem packet_cmd {request : Request} {packet : Packet} (h : request.packet = .ok packet) :
    packet.cmd = request.command.cmd := by
  unfold Request.packet at h
  obtain ⟨key, hkey, h⟩ := Raises.bind_eq_ok_iff.1 h
  obtain ⟨bytes, hbytes, h⟩ := Raises.bind_eq_ok_iff.1 h
  obtain rfl := Except.ok.inj h
  rfl

/-- With nothing unread a call takes all the responses to its own request. -/
theorem onQueue_nil {serve : Service σ} (hserve : Orderly serve) (errorMap : Option ErrorMap) {call : Call}
    (hcmd : ∀ request, call = .command request → request.command.cmd ≠ cmdStat) (s : σ) :
    onQueue serve errorMap call s [] = ((ask serve errorMap call s).1, (ask serve errorMap call s).2, []) := by
  unfold onQueue ask
  cases hpacket : call.request.packet with
  | error e => rfl
  | ok packet =>
      have hsame := packet_cmd hpacket
      cases call with
      | command request =>
          obtain ⟨a, ha⟩ := hserve.command s packet (hsame ▸ hcmd request rfl)
          simp [ha, Call.take]
      | stats client sub opaqueId =>
          obtain ⟨items, last, hanswers, hitems, hlast⟩ := hserve.stats s packet hsame
          have hleft := takeStats_of_items errorMap hitems hlast packet ∅
          simp only [List.nil_append, Call.take, hanswers, hleft]

/-- **Stats in a session**: with nothing unread at the start, and a server that keeps to the protocol, whatever the
    commands and the stats that are asked for, in any order, every call raises or returns what the responses to its
    own request say, and at the end again nothing is unread. -/
theorem doCalls_eq_asks {serve : Service σ} (hserve : Orderly serve) (errorMap : Option ErrorMap) {calls : List Call}
    (hplain : ∀ call ∈ calls, call.request.Plain)
    (hcmd : ∀ request, .command request ∈ calls → request.command.cmd ≠ cmdStat) {c : Connection σ}
    (hinbox : c.inbox = []) (hstream : c.socket.stream = []) :
    (doCalls serve errorMap calls c).1 = (asks serve errorMap calls c.server).1 ∧
      (doCalls serve errorMap calls c).2.server = (asks serve errorMap calls c.server).2 ∧
      (doCalls serve errorMap calls c).2.inbox = [] ∧ (doCalls serve errorMap calls c).2.socket.stream = [] := by
  have hsync : ∀ call ∈ calls, ∀ s, onQueue serve errorMap call s [] =
      ((ask serve errorMap call s).1, (ask serve errorMap call s).2, []) := by
    intro call hcall s
    refine onQueue_nil hserve errorMap (fun request hrequest => ?_) s
    exact hcmd request (hrequest ▸ hcall)
  obtain ⟨hresults, hend⟩ := doCalls_refines serve errorMap hplain hsync
    (⟨rfl, hinbox, [], hstream, rfl⟩ : c.Holds c.server [])
  obtain ⟨packets, hleft, hnone⟩ := hend.stream
  rw [List.map_eq_nil_iff] at hnone
  exact ⟨hresults, hend.server, hend.inbox, by rw [hleft, hnone, List.flatMap_nil]⟩

/-- A response that is no error, with a key of so many bytes in front of the value. -/
def okAnswer (body : List UInt8) (keylen : ℕ)
    (hlt : (0 < 2 ^ 16 ∧ 5 < 2 ^ 64 ∧ 0 < 2 ^ 8) ∧ body.length < 2 ^ 32 ∧ keylen < 2 ^ 16) : Answer where
  errcode := 0
  cas := 5
  keylen := keylen
  extralen := 0
  dtype := 0
  body := body
  errcode_lt := hlt.1.1
  cas_lt := hlt.1.2.1
  keylen_lt := hlt.2.2
  extralen_lt := hlt.1.2.2
  dtype_lt := hlt.1.2.2
  body_lt := hlt.2.1

/-- The stat `a` of the value `1`. -/
def statA : Answer := okAnswer [97, 49] 1 (by decide)

/-- The response that ends the stats. -/
def statEnd : Answer := okAnswer [] 0 (by decide)

/-- A server with one stat, and the value `v` of every key. -/
def statServer : Service ℕ := fun s packet =>
  if packet.cmd = cmdStat then ([statA, statEnd], s) else ([okAnswer [118] 0 (by decide)], s + 1)

theorem statServer_orderly : Orderly statServer where
  command s packet h := ⟨_, by rw [statServer, if_neg h]⟩
  stats s packet h := by
    refine ⟨[statA], statEnd, ?_, ?_, .inr rfl⟩
    · simp [statServer, h]
    · simp only [List.mem_singleton, forall_eq]
      refine ⟨rfl, by decide, by decide, by decide⟩

/-- `stats()` between two reads. -/
def mixedCalls : List Call := [.command (getWith 7), .stats plainClient [] 9, .command (getWith 8)]

theorem stats_plain (opaqueId : ℕ) : (Call.stats plainClient [] opaqueId).request.Plain where
  length := rfl
  parts key hkey := by
    obtain rfl : Payload.text [] = key := Except.ok.inj hkey
    have hnone : (Payload.text []).Plain := by decide
    exact ⟨hnone, hnone, hnone, hnone⟩

/-- Each of the three calls is given what is its own. -/
theorem doCalls_eq_asks_mixed :
    (doCalls statServer none mixedCalls ⟨0, [], ⟨[], fun _ => 3, 0⟩⟩).1
        = [.command (.ok (7, 5, [118])), .stats (.ok ((∅ : Dict Text Text).set [97] [49])),
          .command (.ok (8, 5, [118]))] ∧
      (doCalls statServer none mixedCalls ⟨0, [], ⟨[], fun _ => 3, 0⟩⟩).2.socket.stream = [] := by
  have hplain : ∀ call ∈ mixedCalls, call.request.Plain := by
    simp only [mixedCalls, List.mem_cons, List.not_mem_nil, or_false]
    rintro call (rfl | rfl | rfl)
    · exact getWith_plain 7
    · exact stats_plain 9
    · exact getWith_plain 8
  have hcmd : ∀ request, .command request ∈ mixedCalls → request.command.cmd ≠ cmdStat := by
    simp only [mixedCalls, List.mem_cons, List.not_mem_nil, or_false, Call.command.injEq, reduceCtorEq, false_or]
    rintro request (rfl | rfl) <;> decide
  obtain ⟨hresults, -, -, hstream⟩ :=
    doCalls_eq_asks statServer_orderly none hplain hcmd (c := ⟨0, [], ⟨[], fun _ => 3, 0⟩⟩) rfl rfl
  exact ⟨hresults.trans (by rfl), hstream⟩

/-- **Stats of a connection that is behind**: when the first response that is unread is no error and has no key, as
    that to a `CMD_GET`, `stats` takes it for the end. It returns no stats and raises nothing, and the responses to its
    own request are unread behind the others, however many they are. -/
theorem stats_of_behind (serve : Service σ) (errorMap : Option ErrorMap) {client : Client} {sub : Text}
    {opaqueId : ℕ} (hplain : (Call.stats client sub opaqueId).request.Plain) {packet : Packet}
    (hpacket : (Call.stats client sub opaqueId).request.packet = .ok packet) {c : Connection σ}
    (hinbox : c.inbox = []) {first : Framed} {later : List Framed}
    (hstream : c.socket.stream = (first :: later).flatMap Framed.bytes) (herrcode : first.reply.errcode = 0)
    (hkeylen : first.reply.keylen = 0) :
    (doCall serve errorMap (.stats client sub opaqueId) c).1 = .stats (.ok ∅) ∧
      ∃ left : List Framed,
        (doCall serve errorMap (.stats client sub opaqueId) c).2.socket.stream = left.flatMap Framed.bytes ∧
        left.map Framed.reply
          = later.map Framed.reply ++ (serve c.server packet).1.map fun a => a.reply packet := by
  obtain ⟨hresult, hend⟩ := doCall_refines serve errorMap hplain
    (⟨rfl, hinbox, first :: later, hstream, rfl⟩ : c.Holds c.server ((first :: later).map Framed.reply))
  have hqueue : onQueue serve errorMap (.stats client sub opaqueId) c.server ((first :: later).map Framed.reply)
      = (.stats (.ok ∅), (serve c.server packet).2,
        later.map Framed.reply ++ (serve c.server packet).1.map fun a => a.reply packet) := by
    simp [onQueue, hpacket, Call.take, takeStats, handleStat, handleSingleResponse, herrcode, hkeylen]
  rw [hqueue] at hresult hend
  exact ⟨hresult, hend.stream⟩

/-- The value of an earlier read is unread: `stats()` returns nothing, and the stat and the end behind it stay. -/
theorem stats_of_behind_one :
    (doCall statServer none (.stats plainClient [] 9) ⟨0, [], ⟨sampleReply.bytes, fun _ => 3, 0⟩⟩).1 = .stats (.ok ∅) ∧
      ∃ left : List Framed,
        (doCall statServer none (.stats plainClient [] 9) ⟨0, [], ⟨sampleReply.bytes, fun _ => 3, 0⟩⟩).2.socket.stream
          = left.flatMap Framed.bytes ∧ left.length = 2 := by
  obtain ⟨packet, hpacket⟩ : ∃ packet, (Call.stats plainClient [] 9).request.packet = .ok packet := ⟨_, rfl⟩
  obtain ⟨hresult, left, hleft, hreplies⟩ := @stats_of_behind ℕ statServer none plainClient [] 9 (stats_plain 9) packet
    hpacket ⟨0, [], ⟨sampleReply.bytes, fun _ => 3, 0⟩⟩ rfl sampleReply [] (List.append_nil _).symm rfl rfl
  refine ⟨hresult, left, hleft, ?_⟩
  have hlength := congrArg List.length hreplies
  have hstat : packet.cmd = cmdStat := packet_cmd hpacket
  simpa [statServer, hstat] using hlength

end TestInfra.Wire
