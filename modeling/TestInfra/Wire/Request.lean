import TestInfra.Lib.Dict
import TestInfra.Lib.Struct
import TestInfra.Lib.Utf8

set_option autoImplicit false

/-! # Request packets

`MemcachedClient._sendMsg` (`lib/mc_bin_client.py`) writes a request of the binary protocol: a header of 24
bytes with the lengths of the parts, then the extras, the key, the value and the meta data. A part is given as
`str` or as `bytes`; its length is taken with `len` **before** it is encoded.

`sendCmd_parses_iff` says when the other side reads the packet as it was meant: for ASCII texts and bytes, and
for an opaque that fits its field. -/

namespace TestInfra.Wire

open Utf8 Struct

abbrev Text := List CodePoint

/-! ## Parts -/

/-- A `str` or `bytes` argument. -/
inductive Payload where
  | text (s : Text)
  | bytes (b : List UInt8)
deriving DecidableEq, Repr

namespace Payload

/-- `len(part)`: code points of a text, bytes otherwise. -/
def len : Payload → ℕ
  | text s => s.length
  | bytes b => b.length

/-- `part.encode()`, and bytes as they are. -/
def encode : Payload → Option (List UInt8)
  | text s => Utf8.encode s
  | bytes b => some b

/-- Bytes, or an ASCII text. -/
def Plain : Payload → Prop
  | text s => Ascii s
  | bytes _ => True

instance (p : Payload) : Decidable p.Plain :=
  match p with
  | text s => inferInstanceAs (Decidable (Ascii s))
  | bytes _ => inferInstanceAs (Decidable True)

/-- The number of bytes the part takes. -/
def size (p : Payload) : ℕ := (p.encode.getD []).length

@[simp] theorem len_text (s : Text) : (text s).len = s.length := rfl

theorem len_le_length {p : Payload} {b : List UInt8} (h : p.encode = some b) :
    p.len ≤ b.length ∧ (b.length = p.len ↔ p.Plain) := by
  rcases p with s | b'
  · exact length_encode h
  · cases h
    exact ⟨Nat.le_refl _, fun _ => trivial, fun _ => rfl⟩

/-- A plain part is sent in as many bytes as `len` counts. -/
theorem Plain.encode {p : Payload} (h : p.Plain) :
    ∃ b, p.encode = some b ∧ b.length = p.len ∧ p.size = p.len := by
  obtain ⟨b, hb⟩ : ∃ b, p.encode = some b := by
    rcases p with s | b
    · exact ⟨_, encode_of_ascii h⟩
    · exact ⟨b, rfl⟩
  have hlen := (len_le_length hb).2.2 h
  refine ⟨b, hb, hlen, ?_⟩
  rw [size, hb, Option.getD_some, hlen]

end Payload

/-! ## Sending -/

/-- What sending can raise. -/
inductive SendError where
  | structError
  | unicodeEncodeError
  | unicodeDecodeError
  /-- Collections are not enabled. -/
  | runtimeError
  | keyError
  | typeError
  | attributeError
deriving DecidableEq, Repr

/-- The `collection` argument. -/
inductive Collection where
  | none
  | name (s : Text)
  | id (cid : ℕ)
deriving DecidableEq, Repr

/-- `if collection:`. -/
def Collection.truthy : Collection → Bool
  | none => false
  | name s => s ≠ []
  | id cid => cid ≠ 0

/-- The fields of the client that sending reads. -/
structure Client where
  vbucketId : ℕ
  vbucketCount : ℕ
  collectionsSupported : Bool
  collectionMap : Dict Text (Dict Text ℕ)

/-- The arguments of `_sendCmd`, with its defaults. -/
structure Command where
  cmd : ℕ
  key : Payload
  val : Payload
  opaqueId : ℕ
  extraHeader : Payload := .text []
  cas : ℕ := 0
  scope : Option Text := none
  collection : Collection := .none
  extendedMetaData : Payload := .text []
  extraHeaderLength : Option ℕ := none

/-- The arguments of `_sendMsg`; `fmt` is always `REQ_PKT_FMT`. -/
structure Message extends Command where
  dtype : ℕ
  vbucketId : ℕ
  magic : ℕ

/-- `REQ_PKT_FMT`, `>BBHBBHIIQ`. -/
def reqPktFmt : List ℕ := [1, 1, 2, 1, 1, 2, 4, 4, 8]

/-- `REQ_MAGIC_BYTE`. -/
def reqMagicByte : ℕ := 0x80

/-- The loop of `_encodeCollectionId` over the number; every turn but the last one sets the continue bit and
    appends a byte. The number is fuel enough. -/
def encodeLoop : ℕ → ℕ → List UInt8 → List UInt8
  | 0, _, output => output
  | fuel + 1, collection, output =>
      if collection > 0 then
        let byte := collection &&& 0xFF
        let collection := collection >>> 7
        if collection > 0 then
          encodeLoop fuel collection (output.dropLast ++ [UInt8.ofNat (byte ||| 0x80), 0])
        else encodeLoop fuel collection (output.dropLast ++ [UInt8.ofNat byte])
      else output

/-- `output.tobytes()`. -/
def collectionBytes (cid : ℕ) : List UInt8 := encodeLoop cid cid [0]

/-- `self.collection_map[scope][collection]` for a name, the number itself otherwise. -/
def collectionId (client : Client) (scope : Option Text) : Collection → Except SendError ℕ
  | .none => .error .typeError
  | .id cid => .ok cid
  | .name s =>
      match scope.bind client.collectionMap.get? with
      | some names =>
          match names.get? s with
          | some cid => .ok cid
          | none => .error .keyError
      | none => .error .keyError

/-- `_encodeCollectionId`: the bytes, decoded, in front of the key. -/
def encodeCollectionId (client : Client) (key : Payload) (scope : Option Text) (collection : Collection) :
    Except SendError Payload := do
  if !client.collectionsSupported then throw .runtimeError
  let cid ← collectionId client scope collection
  match Utf8.decode (collectionBytes cid), key with
  | none, _ => throw .unicodeDecodeError
  | some _, .bytes _ => throw .typeError
  | some front, .text s => pure (.text (front ++ s))

/-- The fields of the header. -/
def Message.header (m : Message) (key : Payload) : List ℕ :=
  [m.magic, m.cmd, key.len, m.extraHeaderLength.getD m.extraHeader.len, m.dtype, m.vbucketId,
    key.len + m.extraHeader.len + m.val.len + m.extendedMetaData.len, m.opaqueId, m.cas]

/-- A part encoded, or the `UnicodeEncodeError`. -/
def encoded (p : Payload) : Except SendError (List UInt8) :=
  match p.encode with
  | some b => .ok b
  | none => .error .unicodeEncodeError

/-- `_sendMsg` behind the prefix of the key: what is handed to the socket. -/
def sendParts (m : Message) (key : Payload) : Except SendError (List UInt8) := do
  let msg ← match pack reqPktFmt (m.header key) with
    | some msg => pure msg
    | none => throw .structError
  let key ← encoded key
  let extraHeader ← encoded m.extraHeader
  let val ← encoded m.val
  let extendedMetaData ← encoded m.extendedMetaData
  pure (msg ++ extraHeader ++ key ++ val ++ extendedMetaData)

/-- `_sendMsg`. -/
def sendMsg (client : Client) (m : Message) : Except SendError (List UInt8) := do
  let key ← if m.collection.truthy then encodeCollectionId client m.key m.scope m.collection else pure m.key
  sendParts m key

/-- The message of `_sendCmd`. -/
def Command.message (client : Client) (command : Command) : Message :=
  ⟨command, 0, client.vbucketId, reqMagicByte⟩

/-- `_sendCmd`. -/
def sendCmd (client : Client) (command : Command) : Except SendError (List UInt8) :=
  sendMsg client (command.message client)

/-! ## Reading a packet -/

/-- A packet as the other side reads it. -/
structure Packet where
  magic : ℕ
  cmd : ℕ
  dtype : ℕ
  vbucketId : ℕ
  opaqueId : ℕ
  cas : ℕ
  extras : List UInt8
  key : List UInt8
  /-- The value and, behind it, the meta data. -/
  value : List UInt8
deriving DecidableEq, Repr

/-- The first packet of a stream and what follows it; `none` until the whole packet is there, or when its
    lengths contradict each other. -/
def readPacket (stream : List UInt8) : Option (Packet × List UInt8) :=
  if stream.length < reqPktFmt.sum then none
  else
    let body := stream.drop reqPktFmt.sum
    match unpack reqPktFmt (stream.take reqPktFmt.sum) with
    | [magic, cmd, keylen, extralen, dtype, vbucketId, bodylen, opaqueId, cas] =>
        if body.length < bodylen ∨ bodylen < extralen + keylen then none
        else
          some (⟨magic, cmd, dtype, vbucketId, opaqueId, cas, body.take extralen,
            (body.drop extralen).take keylen, (body.take bodylen).drop (extralen + keylen)⟩, body.drop bodylen)
    | _ => none

/-! ## What was sent is read -/

/-- The packet that the message means. -/
def Message.Meant (m : Message) (key : Payload) (packet : Packet) : Prop :=
  packet.magic = m.magic ∧ packet.cmd = m.cmd ∧ packet.dtype = m.dtype ∧ packet.vbucketId = m.vbucketId ∧
    packet.opaqueId = m.opaqueId ∧ packet.cas = m.cas ∧ m.extraHeader.encode = some packet.extras ∧
    key.encode = some packet.key ∧
    ∃ val extendedMetaData, m.val.encode = some val ∧ m.extendedMetaData.encode = some extendedMetaData ∧
      packet.value = val ++ extendedMetaData

/-- What was sent is a single packet, the one the message means. -/
def ParsesBack (m : Message) (key : Payload) (sent : Except SendError (List UInt8)) : Prop :=
  ∃ stream packet, sent = .ok stream ∧ readPacket stream = some (packet, []) ∧ m.Meant key packet

/-- The bytes that are sent: the packed header and the encoded parts. -/
theorem sendParts_eq_ok_iff (m : Message) (key : Payload) (stream : List UInt8) :
    sendParts m key = .ok stream ↔
      ∃ msg k e v x, pack reqPktFmt (m.header key) = some msg ∧ key.encode = some k ∧
        m.extraHeader.encode = some e ∧ m.val.encode = some v ∧ m.extendedMetaData.encode = some x ∧
        stream = msg ++ e ++ k ++ v ++ x := by
  rw [sendParts]
  constructor
  · intro h
    cases hmsg : pack reqPktFmt (m.header key) with
    | none => simp [hmsg, Bind.bind, Except.bind, throw, throwThe, MonadExceptOf.throw] at h
    | some msg =>
        cases hk : key.encode <;> cases he : m.extraHeader.encode <;> cases hv : m.val.encode <;>
          cases hx : m.extendedMetaData.encode <;>
          simp [hmsg, encoded, hk, he, hv, hx, Bind.bind, Except.bind, pure, Except.pure] at h ⊢
        exact h.symm
  · rintro ⟨msg, k, e, v, x, hmsg, hk, he, hv, hx, rfl⟩
    simp [hmsg, encoded, hk, he, hv, hx, Bind.bind, Except.bind, pure, Except.pure]

/-- How a packed header and what follows it are read. -/
theorem readPacket_append {m : Message} {key : Payload} {msg body : List UInt8}
    (h : pack reqPktFmt (m.header key) = some msg) :
    readPacket (msg ++ body) =
      let extralen := m.extraHeaderLength.getD m.extraHeader.len
      let bodylen := key.len + m.extraHeader.len + m.val.len + m.extendedMetaData.len
      if body.length < bodylen ∨ bodylen < extralen + key.len then none
      else
        some (⟨m.magic, m.cmd, m.dtype, m.vbucketId, m.opaqueId, m.cas, body.take extralen,
          (body.drop extralen).take key.len, (body.take bodylen).drop (extralen + key.len)⟩,
          body.drop bodylen) := by
  have hlen : msg.length = reqPktFmt.sum := length_pack h
  have htake : (msg ++ body).take reqPktFmt.sum = msg := List.take_left' hlen
  have hdrop : (msg ++ body).drop reqPktFmt.sum = body := List.drop_left' hlen
  have hfull : ¬ (msg ++ body).length < reqPktFmt.sum := by
    rw [List.length_append, hlen]
    omega
  rw [readPacket, if_neg hfull, htake, hdrop, unpack_pack h]
  rfl

/-- The header can be packed when every field is in range. -/
def Message.InRange (m : Message) (key : Payload) : Prop :=
  m.magic < 256 ∧ m.cmd < 256 ∧ key.len < 256 ^ 2 ∧ m.extraHeaderLength.getD m.extraHeader.len < 256 ∧
    m.dtype < 256 ∧ m.vbucketId < 256 ^ 2 ∧
    key.len + m.extraHeader.len + m.val.len + m.extendedMetaData.len < 256 ^ 4 ∧
    m.opaqueId < 256 ^ 4 ∧ m.cas < 256 ^ 8

theorem pack_header_isSome_iff (m : Message) (key : Payload) :
    (pack reqPktFmt (m.header key)).isSome ↔ m.InRange key := by
  rw [pack_isSome_iff]
  simp [reqPktFmt, Message.header, Message.InRange]

/-- The encoded parts and the other fields fit the header. The opaque is left out. -/
structure Message.Fits (m : Message) (key : Payload) : Prop where
  magic : m.magic < 256
  cmd : m.cmd < 256
  dtype : m.dtype < 256
  vbucketId : m.vbucketId < 2 ^ 16
  cas : m.cas < 2 ^ 64
  key_fits : key.size < 2 ^ 16
  extraHeader_fits : m.extraHeader.size < 2 ^ 8
  body_fits : key.size + m.extraHeader.size + m.val.size + m.extendedMetaData.size < 2 ^ 32

/-- All parts are plain. -/
structure Message.Plain (m : Message) (key : Payload) : Prop where
  key : key.Plain
  extraHeader : m.extraHeader.Plain
  val : m.val.Plain
  extendedMetaData : m.extendedMetaData.Plain

/-- A packet of plain parts, with anything behind it. -/
theorem readPacket_of_plain {m : Message} {key : Payload} (hlength : m.extraHeaderLength = none)
    (hplain : m.Plain key) (hrange : m.InRange key) :
    ∃ stream packet, sendParts m key = .ok stream ∧ m.Meant key packet ∧
      ∀ rest, readPacket (stream ++ rest) = some (packet, rest) := by
  obtain ⟨msg, hmsg⟩ := Option.isSome_iff_exists.1 ((pack_header_isSome_iff m key).2 hrange)
  obtain ⟨k, hk, hkl, -⟩ := hplain.key.encode
  obtain ⟨e, he, hel, -⟩ := hplain.extraHeader.encode
  obtain ⟨v, hv, hvl, -⟩ := hplain.val.encode
  obtain ⟨x, hx, hxl, -⟩ := hplain.extendedMetaData.encode
  refine ⟨_, ⟨m.magic, m.cmd, m.dtype, m.vbucketId, m.opaqueId, m.cas, e, k, v ++ x⟩,
    (sendParts_eq_ok_iff m key _).2 ⟨msg, k, e, v, x, hmsg, hk, he, hv, hx, rfl⟩,
    ⟨rfl, rfl, rfl, rfl, rfl, rfl, he, hk, v, x, hv, hx, rfl⟩, ?_⟩
  intro rest
  have hassoc : msg ++ e ++ k ++ v ++ x ++ rest = msg ++ (e ++ (k ++ ((v ++ x) ++ rest))) := by
    simp only [List.append_assoc]
  have hbody : key.len + m.extraHeader.len + m.val.len + m.extendedMetaData.len
      = (e ++ (k ++ (v ++ x))).length := by
    simp only [List.length_append]
    omega
  have hextras : (e ++ (k ++ ((v ++ x) ++ rest))).take m.extraHeader.len = e := List.take_left' hel
  have hkey : ((e ++ (k ++ ((v ++ x) ++ rest))).drop m.extraHeader.len).take key.len = k := by
    rw [List.drop_left' hel, List.take_left' hkl]
  have hwhole : e ++ (k ++ ((v ++ x) ++ rest)) = (e ++ (k ++ (v ++ x))) ++ rest := by
    simp only [List.append_assoc]
  have hparts : (e ++ (k ++ (v ++ x))).drop (m.extraHeader.len + key.len) = v ++ x := by
    rw [← List.append_assoc, List.drop_left' (by rw [List.length_append, hel, hkl])]
  rw [hassoc, readPacket_append hmsg, hlength]
  simp only [Option.getD_none]
  rw [if_neg, hextras, hkey, hwhole, hbody, List.take_left' rfl, List.drop_left' rfl, hparts]
  rw [hwhole, hbody]
  simp only [List.length_append]
  omega

/-- A message parses back exactly when its parts are plain and its opaque fits. -/
theorem parsesBack_iff {m : Message} {key : Payload} (hlength : m.extraHeaderLength = none)
    (hfits : m.Fits key) : ParsesBack m key (sendParts m key) ↔ m.opaqueId < 2 ^ 32 ∧ m.Plain key := by
  constructor
  · rintro ⟨stream, packet, hsent, hread, -⟩
    obtain ⟨msg, k, e, v, x, hmsg, hk, he, hv, hx, rfl⟩ := (sendParts_eq_ok_iff m key stream).1 hsent
    have hrange := (pack_header_isSome_iff m key).1 (Option.isSome_iff_exists.2 ⟨msg, hmsg⟩)
    have hassoc : msg ++ e ++ k ++ v ++ x = msg ++ (e ++ (k ++ (v ++ x))) := by
      simp only [List.append_assoc]
    rw [hassoc, readPacket_append hmsg] at hread
    dsimp only at hread
    split at hread
    · cases hread
    · next hlens =>
        have hnothing := congrArg Prod.snd (Option.some.inj hread)
        rw [List.drop_eq_nil_iff] at hnothing
        simp only [List.length_append] at hlens hnothing
        -- nothing is left over, so no part is longer than it was counted
        obtain ⟨hkl, hkp⟩ := Payload.len_le_length hk
        obtain ⟨hel, hep⟩ := Payload.len_le_length he
        obtain ⟨hvl, hvp⟩ := Payload.len_le_length hv
        obtain ⟨hxl, hxp⟩ := Payload.len_le_length hx
        refine ⟨hrange.2.2.2.2.2.2.2.1, hkp.1 ?_, hep.1 ?_, hvp.1 ?_, hxp.1 ?_⟩ <;> omega
  · rintro ⟨hid, hplain⟩
    obtain ⟨-, -, -, hk⟩ := hplain.key.encode
    obtain ⟨-, -, -, he⟩ := hplain.extraHeader.encode
    obtain ⟨-, -, -, hv⟩ := hplain.val.encode
    obtain ⟨-, -, -, hx⟩ := hplain.extendedMetaData.encode
    have hkey := hfits.key_fits
    have hextra := hfits.extraHeader_fits
    have hbody := hfits.body_fits
    rw [hk] at hkey
    rw [he] at hextra
    rw [hk, he, hv, hx] at hbody
    have hrange : m.InRange key :=
      ⟨hfits.magic, hfits.cmd, hkey, by rw [hlength]; exact hextra, hfits.dtype, hfits.vbucketId, hbody,
        hid, hfits.cas⟩
    obtain ⟨stream, packet, hsent, hmeant, hread⟩ := readPacket_of_plain hlength hplain hrange
    refine ⟨stream, packet, hsent, ?_, hmeant⟩
    have := hread []
    rwa [List.append_nil] at this

theorem sendMsg_of_falsy (client : Client) {m : Message} (h : m.collection.truthy = false) :
    sendMsg client m = sendParts m m.key := by
  rw [sendMsg, h]
  rfl

/-- **A request is read as it was meant exactly when it is plain**: with parts that fit the header, the bytes
    that `_sendCmd` hands to the socket are one packet with the encoded extras, key, value and meta data if and
    only if every part given as text is ASCII and the opaque fits its field. `_doCmd` draws the opaque from
    `0..2**32`, both ends included. -/
theorem sendCmd_parses_iff (client : Client) (command : Command) (hcollection : command.collection = .none)
    (hlength : command.extraHeaderLength = none) (hfits : (command.message client).Fits command.key) :
    ParsesBack (command.message client) command.key (sendCmd client command) ↔
      command.opaqueId < 2 ^ 32 ∧ (command.message client).Plain command.key := by
  have hfalsy : (command.message client).collection.truthy = false := by
    rw [Command.message, hcollection]
    rfl
  rw [sendCmd, sendMsg_of_falsy client hfalsy]
  exact parsesBack_iff hlength hfits

/-- A client without collections. -/
def plainClient : Client := ⟨0, 1024, false, ∅⟩

/-- `CMD_GET` of the key `ab`. -/
def asciiGet : Command := { cmd := 0, key := .text [97, 98], val := .text [], opaqueId := 7 }

theorem sendCmd_parses_asciiGet :
    ParsesBack (asciiGet.message plainClient) asciiGet.key (sendCmd plainClient asciiGet) := by
  have hfits : (asciiGet.message plainClient).Fits asciiGet.key := by
    refine ⟨?_, ?_, ?_, ?_, ?_, ?_, ?_, ?_⟩ <;> decide +kernel
  refine (sendCmd_parses_iff plainClient asciiGet rfl rfl hfits).2 ⟨by decide, ?_⟩
  refine ⟨?_, ?_, ?_, ?_⟩ <;> decide +kernel

/-- The key `é` is counted as one byte and sent in two, and the opaque `2**32` cannot be packed. -/
theorem sendCmd_misframed :
    ¬ ParsesBack (Command.message plainClient { asciiGet with key := .text [0xE9] }) (.text [0xE9])
        (sendCmd plainClient { asciiGet with key := .text [0xE9] }) ∧
      ¬ ParsesBack (Command.message plainClient { asciiGet with opaqueId := 2 ^ 32 }) asciiGet.key
        (sendCmd plainClient { asciiGet with opaqueId := 2 ^ 32 }) := by
  refine ⟨?_, ?_⟩
  · rw [sendCmd, sendMsg_of_falsy _ rfl]
    intro h
    have hplain := ((parsesBack_iff rfl (by refine ⟨?_, ?_, ?_, ?_, ?_, ?_, ?_, ?_⟩ <;> decide +kernel)).1 h).2
    exact absurd hplain.key (by decide +kernel)
  · rw [sendCmd, sendMsg_of_falsy _ rfl]
    intro h
    have hid := ((parsesBack_iff rfl (by refine ⟨?_, ?_, ?_, ?_, ?_, ?_, ?_, ?_⟩ <;> decide +kernel)).1 h).1
    exact absurd hid (by decide)

end TestInfra.Wire
