import TestInfra.Lib.Socket
import TestInfra.Lib.Struct

set_option autoImplicit false

/-! # Receiving packets

`MemcachedClient._recvMsg` reads one packet from the socket: a header of 24 bytes in a first loop, then as many
bytes as the header counts in a second one. Both loops are `readFull` of the socket library, so the sizes of the
pieces that `recv` returns make no difference (`recvMsg_reassembles`).

A header with one of the magics of the alternative framing has ten fields and is unpacked into nine. -/

namespace TestInfra.Wire

open Sockets Struct

/-! ## `_recvMsg` -/

/-- `RES_PKT_FMT`, `>BBHBBHIIQ`. -/
def resPktFmt : List ℕ := [1, 1, 2, 1, 1, 2, 4, 4, 8]

/-- `ALT_RES_PKT_FMT`, `>BBBBBBHIIQ`. -/
def altResPktFmt : List ℕ := [1, 1, 1, 1, 1, 1, 2, 4, 4, 8]

/-- `MIN_RECV_PACKET`. -/
def minRecvPacket : ℕ := 24

/-- The magics `_recvMsg` accepts: of a response, of a request, and of the alternative framing. -/
def resMagic : ℕ := 0x81

def reqMagic : ℕ := 0x80

def altResMagic : ℕ := 0x18

def altReqMagic : ℕ := 0x08

inductive RecvError
  | eofError
  /-- An unknown magic. -/
  | assertionError
  /-- `too many values to unpack`. -/
  | valueError
deriving DecidableEq, Repr

/-- What `_recvMsg` returns. -/
structure Reply where
  cmd : ℕ
  errcode : ℕ
  opaqueId : ℕ
  cas : ℕ
  keylen : ℕ
  extralen : ℕ
  dtype : ℕ
  rv : List UInt8
deriving DecidableEq, Repr

/-- `while len(response) < MIN_RECV_PACKET`. A turn gets at least one byte, so `MIN_RECV_PACKET` turns are
    enough. -/
def headerLoop : ℕ → List UInt8 → Socket → Except RecvError (List UInt8) × Socket
  | 0, response, s => (.ok response, s)
  | fuel + 1, response, s =>
      if response.length < minRecvPacket then
        let (data, s) := recv (minRecvPacket - response.length) s
        if data = [] then (.error .eofError, s) else headerLoop fuel (response ++ data) s
      else (.ok response, s)

/-- `while remaining > 0`; `remaining` turns are enough. -/
def bodyLoop : ℕ → ℕ → List UInt8 → Socket → Except RecvError (List UInt8) × Socket
  | 0, _, rv, s => (.ok rv, s)
  | fuel + 1, remaining, rv, s =>
      if remaining > 0 then
        let (data, s) := recv remaining s
        if data = [] then (.error .eofError, s) else bodyLoop fuel (remaining - data.length) (rv ++ data) s
      else (.ok rv, s)

/-- `_recvMsg`. -/
def recvMsg (s : Socket) : Except RecvError Reply × Socket :=
  match headerLoop minRecvPacket [] s with
  | (.error e, s) => (.error e, s)
  | (.ok response, s) =>
      let magic := beValue (response.take 1)
      if magic ≠ resMagic ∧ magic ≠ reqMagic ∧ magic ≠ altResMagic ∧ magic ≠ altReqMagic then
        (.error .assertionError, s)
      else
        let fmt := if magic = altResMagic ∨ magic = altReqMagic then altResPktFmt else resPktFmt
        match unpack fmt response with
        | [_, cmd, keylen, extralen, dtype, errcode, remaining, opaqueId, cas] =>
            match bodyLoop remaining remaining [] s with
            | (.error e, s) => (.error e, s)
            | (.ok rv, s) => (.ok ⟨cmd, errcode, opaqueId, cas, keylen, extralen, dtype, rv⟩, s)
        -- the ten fields of the alternative framing
        | _ => (.error .valueError, s)

/-- So many calls of `_recvMsg`, one after the other. -/
def recvMsgs : ℕ → Socket → List (Except RecvError Reply) × Socket
  | 0, s => ([], s)
  | n + 1, s =>
      let (reply, s) := recvMsg s
      let (replies, s) := recvMsgs n s
      (reply :: replies, s)

/-! ## The loops are full reads -/

/-- The outcome of a full read, as the loops raise it. -/
def orEof : Option (List UInt8) × Socket → Except RecvError (List UInt8) × Socket
  | (some got, s) => (.ok got, s)
  | (none, s) => (.error .eofError, s)

theorem bodyLoop_eq (fuel remaining : ℕ) (rv : List UInt8) (s : Socket) :
    bodyLoop fuel remaining rv s = orEof (readFull fuel remaining rv s) := by
  induction fuel generalizing remaining rv s with
  | zero => rfl
  | succ fuel ih =>
      simp only [bodyLoop, readFull, gt_iff_lt]
      split
      · split
        · rfl
        · exact ih _ _ _
      · rfl

theorem headerLoop_eq (fuel : ℕ) (response : List UInt8) (s : Socket) :
    headerLoop fuel response s = orEof (readFull fuel (minRecvPacket - response.length) response s) := by
  induction fuel generalizing response s with
  | zero => rfl
  | succ fuel ih =>
      simp only [headerLoop, readFull, Nat.sub_pos_iff_lt]
      split
      · split
        · rfl
        · rw [ih, List.length_append, Nat.sub_add_eq]
      · rfl

theorem orEof_of_some {result : Option (List UInt8) × Socket} {got stream : List UInt8}
    (h : result.1 = some got ∧ result.2.stream = stream) :
    ∃ s, orEof result = (.ok got, s) ∧ s.stream = stream := by
  obtain ⟨outcome, s⟩ := result
  obtain ⟨rfl, hstream⟩ := h
  exact ⟨s, rfl, hstream⟩

theorem orEof_of_none {result : Option (List UInt8) × Socket} (h : result.1 = none) :
    ∃ s, orEof result = (.error .eofError, s) := by
  obtain ⟨outcome, s⟩ := result
  obtain rfl := h
  exact ⟨s, rfl⟩

/-! ## Packets of a stream -/

/-- The field of a header at an offset. -/
def field (header : List UInt8) (offset width : ℕ) : ℕ := beValue ((header.drop offset).take width)

/-- A packet of the usual framing: a whole header with the magic of a response or of a request, and as many bytes
    as it counts. -/
structure Framed where
  header : List UInt8
  body : List UInt8
  length_header : header.length = minRecvPacket
  magic : field header 0 1 = resMagic ∨ field header 0 1 = reqMagic
  length_body : body.length = field header 8 4

namespace Framed

/-- The bytes of the packet. -/
def bytes (p : Framed) : List UInt8 := p.header ++ p.body

/-- The fields of the header, and the body. -/
def reply (p : Framed) : Reply :=
  { cmd := field p.header 1 1, errcode := field p.header 6 2, opaqueId := field p.header 12 4
    cas := field p.header 16 8, keylen := field p.header 2 2, extralen := field p.header 4 1
    dtype := field p.header 5 1, rv := p.body }

theorem length_bytes (p : Framed) : p.bytes.length = minRecvPacket + p.body.length := by
  rw [bytes, List.length_append, p.length_header]

end Framed

theorem unpack_resPktFmt (header : List UInt8) :
    unpack resPktFmt header = [field header 0 1, field header 1 1, field header 2 2, field header 4 1,
      field header 5 1, field header 6 2, field header 8 4, field header 12 4, field header 16 8] := by
  simp only [resPktFmt, unpack, field, List.drop_drop, List.drop_zero]

theorem bodyLoop_of_le {remaining : ℕ} {s : Socket} (h : remaining ≤ s.stream.length) :
    ∃ s', bodyLoop remaining remaining [] s = (.ok (s.stream.take remaining), s') ∧
      s'.stream = s.stream.drop remaining := by
  rw [bodyLoop_eq]
  exact orEof_of_some ((readFull_eq (Nat.le_refl remaining) [] s).1 h)

theorem bodyLoop_of_lt {remaining : ℕ} {s : Socket} (h : s.stream.length < remaining) :
    ∃ s', bodyLoop remaining remaining [] s = (.error .eofError, s') := by
  rw [bodyLoop_eq]
  exact orEof_of_none ((readFull_eq (Nat.le_refl remaining) [] s).2 h)

/-- A header of a packet, however it arrives: what is left to do is to read the body. -/
theorem recvMsg_of_header (p : Framed) {rest : List UInt8} {s : Socket} (h : s.stream = p.header ++ rest) :
    ∃ s', s'.stream = rest ∧ recvMsg s =
      match bodyLoop p.body.length p.body.length [] s' with
      | (.error e, s) => (.error e, s)
      | (.ok rv, s) => (.ok { p.reply with rv := rv }, s) := by
  have hlong : minRecvPacket ≤ s.stream.length := by
    rw [h, List.length_append, p.length_header]
    exact Nat.le_add_right _ _
  obtain ⟨s', hheader, hrest⟩ := orEof_of_some ((readFull_eq (Nat.le_refl minRecvPacket) [] s).1 hlong)
  rw [List.nil_append, h, List.take_left' p.length_header] at hheader
  rw [h, List.drop_left' p.length_header] at hrest
  have hloop : headerLoop minRecvPacket [] s = (.ok p.header, s') := (headerLoop_eq minRecvPacket [] s).trans hheader
  have hknown : field p.header 0 1 ≠ altResMagic ∧ field p.header 0 1 ≠ altReqMagic := by
    rcases p.magic with hmagic | hmagic <;> rw [hmagic] <;> decide
  have haccept : ¬ (field p.header 0 1 ≠ resMagic ∧ field p.header 0 1 ≠ reqMagic ∧
      field p.header 0 1 ≠ altResMagic ∧ field p.header 0 1 ≠ altReqMagic) := fun hno =>
    p.magic.elim hno.1 hno.2.1
  have hmagic : beValue (p.header.take 1) = field p.header 0 1 := rfl
  refine ⟨s', hrest, ?_⟩
  simp only [recvMsg, hloop, hmagic, if_neg haccept, if_neg (not_or.2 hknown), unpack_resPktFmt, ← p.length_body]
  rfl

/-- One packet, and what comes behind it. -/
theorem recvMsg_of_bytes (p : Framed) {rest : List UInt8} {s : Socket} (h : s.stream = p.bytes ++ rest) :
    ∃ s', recvMsg s = (.ok p.reply, s') ∧ s'.stream = rest := by
  rw [Framed.bytes, List.append_assoc] at h
  obtain ⟨s₁, hs₁, hrecv⟩ := recvMsg_of_header p h
  have hlong : p.body.length ≤ s₁.stream.length := by
    rw [hs₁, List.length_append]
    exact Nat.le_add_right _ _
  obtain ⟨s₂, hbody, hrest⟩ := bodyLoop_of_le hlong
  rw [hs₁, List.take_left' rfl] at hbody
  rw [hs₁, List.drop_left' rfl] at hrest
  rw [hbody] at hrecv
  exact ⟨s₂, hrecv, hrest⟩

/-- A stream that ends inside a packet. -/
theorem recvMsg_of_prefix (p : Framed) {s : Socket} (h : s.stream <+: p.bytes) (hne : s.stream ≠ p.bytes) :
    (recvMsg s).1 = .error .eofError := by
  obtain ⟨missing, hmissing⟩ := h
  have hlen := congrArg List.length hmissing
  rw [List.length_append, p.length_bytes] at hlen
  have hpos : 0 < missing.length := by
    refine List.length_pos_of_ne_nil ?_
    rintro rfl
    exact hne ((List.append_nil _).symm.trans hmissing)
  -- the stream ends in the header, or in the body behind it
  by_cases hshort : s.stream.length < minRecvPacket
  · obtain ⟨s', hheader⟩ := orEof_of_none ((readFull_eq (Nat.le_refl minRecvPacket) [] s).2 hshort)
    have hloop : headerLoop minRecvPacket [] s = (.error .eofError, s') :=
      (headerLoop_eq minRecvPacket [] s).trans hheader
    simp only [recvMsg, hloop]
  · obtain ⟨rest, hrest⟩ : ∃ rest, s.stream = p.header ++ rest := by
      have hheader : p.header <+: s.stream ++ missing := by
        rw [hmissing]
        exact List.prefix_append p.header p.body
      obtain ⟨rest, hrest⟩ := List.prefix_of_prefix_length_le hheader (List.prefix_append s.stream missing)
        (p.length_header.symm ▸ Nat.not_lt.1 hshort)
      exact ⟨rest, hrest.symm⟩
    obtain ⟨s₁, hs₁, hrecv⟩ := recvMsg_of_header p hrest
    have hless : s₁.stream.length < p.body.length := by
      rw [hs₁]
      rw [hrest, List.length_append, p.length_header] at hlen
      omega
    obtain ⟨s₂, hbody⟩ := bodyLoop_of_lt hless
    rw [hrecv, hbody]

theorem recvMsgs_of_bytes (packets : List Framed) {rest : List UInt8} {s : Socket}
    (h : s.stream = packets.flatMap Framed.bytes ++ rest) :
    ∃ s', recvMsgs packets.length s = (packets.map fun p => .ok p.reply, s') ∧ s'.stream = rest := by
  induction packets generalizing s with
  | nil => exact ⟨s, rfl, h⟩
  | cons p packets ih =>
      rw [List.flatMap_cons, List.append_assoc] at h
      obtain ⟨s₁, hfirst, hs₁⟩ := recvMsg_of_bytes p h
      obtain ⟨s₂, hothers, hs₂⟩ := ih hs₁
      refine ⟨s₂, ?_, hs₂⟩
      rw [List.length_cons, recvMsgs]
      simp only [hfirst, hothers, List.map_cons]

/-- **Packets are put together again**: whatever pieces `recv` returns, a stream that begins with a packet gives
    its fields and its body and is left right behind it, so that a sequence of packets is read packet by packet,
    and a stream that ends inside a packet raises `EOFError`. -/
theorem recvMsg_reassembles (s : Socket) :
    (∀ (p : Framed) (rest : List UInt8), s.stream = p.bytes ++ rest →
      ∃ s', recvMsg s = (.ok p.reply, s') ∧ s'.stream = rest) ∧
    (∀ (packets : List Framed) (rest : List UInt8), s.stream = packets.flatMap Framed.bytes ++ rest →
      ∃ s', recvMsgs packets.length s = (packets.map fun p => .ok p.reply, s') ∧ s'.stream = rest) ∧
    (∀ p : Framed, s.stream <+: p.bytes → s.stream ≠ p.bytes → (recvMsg s).1 = .error .eofError) :=
  ⟨fun p _ h => recvMsg_of_bytes p h, fun packets _ h => recvMsgs_of_bytes packets h,
    fun p h hne => recvMsg_of_prefix p h hne⟩

/-- A response to `CMD_GET` of opaque 7 with the body `ab`. -/
def sampleReply : Framed where
  header := [0x81, 0, 0, 0, 0, 0, 0, 0, 0, 0, 0, 2, 0, 0, 0, 7, 0, 0, 0, 0, 0, 0, 0, 5]
  body := [97, 98]
  length_header := by decide
  magic := by decide
  length_body := by decide

theorem recvMsg_reassembles_sample :
    (∃ s', recvMsg ⟨sampleReply.bytes ++ [0x81], fun _ => 5, 0⟩ = (.ok ⟨0, 0, 7, 5, 0, 0, 0, [97, 98]⟩, s') ∧
      s'.stream = [0x81]) ∧
    (∃ s', recvMsgs 2 ⟨sampleReply.bytes ++ sampleReply.bytes, fun _ => 1, 0⟩ =
      ([.ok sampleReply.reply, .ok sampleReply.reply], s') ∧ s'.stream = []) ∧
    (recvMsg ⟨[0x81, 0], fun _ => 1, 0⟩).1 = .error .eofError := by
  refine ⟨?_, ?_, ?_⟩
  · exact (recvMsg_reassembles ⟨sampleReply.bytes ++ [0x81], fun _ => 5, 0⟩).1 sampleReply [0x81] rfl
  · exact (recvMsg_reassembles ⟨sampleReply.bytes ++ sampleReply.bytes, fun _ => 1, 0⟩).2.1
      [sampleReply, sampleReply] [] rfl
  · exact (recvMsg_reassembles ⟨[0x81, 0], fun _ => 1, 0⟩).2.2 sampleReply (by decide) (by decide)

end TestInfra.Wire
