import TestInfra.Wire.Request
import Mathlib.Data.Nat.Bitwise

set_option autoImplicit false

/-! # Collection ids on the wire

With a collection, the key of a request starts with the id of the collection as an unsigned LEB128 number.
`_encodeCollectionId` builds the bytes of the number (`collectionBytes_eq`: it builds them right), turns them
into text, because the key is text, and `_sendMsg` counts and encodes the text again.

`keyField_iff` says when the key arrives: for ids of one byte only. The bytes of a longer number are no text,
or a text with fewer characters than there are bytes. -/

namespace TestInfra.Wire

open Utf8 Struct

/-! ## LEB128 -/

/-- The unsigned LEB128 encoding: seven bits a byte, the lowest first, the top bit set on all but the last. -/
def leb128 (n : ℕ) : List UInt8 :=
  if n < 128 then [UInt8.ofNat n] else UInt8.ofNat (n % 128 + 128) :: leb128 (n / 128)
termination_by n
decreasing_by omega

/-- The loop of `decodeCollectionID` over the bytes from `pos` on; `last` is the value of `end`. -/
def decodeLoop : List UInt8 → ℕ → ℕ → ℕ → ℕ → ℕ × ℕ
  | [], _, _, cid, last => (cid, last)
  | b :: rest, pos, shift, cid, _ =>
      let cid := cid ||| ((b.toNat &&& 0x7f) <<< shift)
      if b.toNat &&& 0x80 = 0 then (cid, pos) else decodeLoop rest (pos + 1) (shift + 7) cid pos

/-- `decodeCollectionID`; `none` when it raises. -/
def decodeCollectionID (key : List UInt8) : Option (ℕ × List UInt8) :=
  match key with
  | [] => none
  | first :: rest =>
      let cid := first.toNat &&& 0x7f
      if first.toNat &&& 0x80 = 0x80 then
        let (cid, last) := decodeLoop rest 1 7 cid 1
        if last + 1 = key.length then none else some (cid, key.drop (last + 1))
      else some (cid, key.drop 1)

theorem or_continue_bit (n : ℕ) : (n &&& 0xFF) ||| 0x80 = n % 128 + 128 := by
  have hbyte : ∀ m : Fin 256, (m.val ||| 0x80) = m.val % 128 + 128 := by decide +kernel
  have hand : n &&& 0xFF = n % 256 := Nat.and_two_pow_sub_one_eq_mod n 8
  have hmod : n % 256 % 128 = n % 128 := Nat.mod_mod_of_dvd n (by decide)
  rw [hand, hbyte ⟨n % 256, Nat.mod_lt n (by decide)⟩, hmod]

/-- The last byte of the output is the place of the next one. -/
theorem encodeLoop_eq {fuel n : ℕ} (h : n ≤ fuel) (output : List UInt8) :
    encodeLoop fuel n (output ++ [0]) = output ++ leb128 n := by
  induction fuel generalizing n output with
  | zero =>
      obtain rfl := Nat.le_zero.1 h
      rw [leb128]
      rfl
  | succ fuel ih =>
      have hshift : n >>> 7 = n / 128 := Nat.shiftRight_eq_div_pow n 7
      simp only [encodeLoop, List.dropLast_concat, hshift, or_continue_bit]
      by_cases hn : n > 0
      · by_cases hmore : n / 128 > 0
        · have hbig : ¬ n < 128 := by omega
          have happend : output ++ [UInt8.ofNat (n % 128 + 128), 0]
              = (output ++ [UInt8.ofNat (n % 128 + 128)]) ++ [0] := by simp
          have hleb : leb128 n = UInt8.ofNat (n % 128 + 128) :: leb128 (n / 128) := by
            rw [leb128, if_neg hbig]
          rw [if_pos hn, if_pos hmore, happend, ih (by omega), hleb, List.append_assoc]
          rfl
        · have hsmall : n < 128 := by omega
          have hbyte : n &&& 0xFF = n := by
            rw [Nat.and_two_pow_sub_one_eq_mod n 8]
            omega
          have hdone : ∀ out, encodeLoop fuel (n / 128) out = out := by
            intro out
            have hzero : n / 128 = 0 := by omega
            rw [hzero]
            cases fuel <;> rfl
          rw [if_pos hn, if_neg hmore, hdone, hbyte, leb128, if_pos hsmall]
      · obtain rfl : n = 0 := by omega
        rw [if_neg hn, leb128]
        rfl

/-- The bytes are the LEB128 encoding of the id. -/
theorem collectionBytes_eq (cid : ℕ) : collectionBytes cid = leb128 cid :=
  encodeLoop_eq (Nat.le_refl cid) []

theorem leb128_of_lt {cid : ℕ} (h : cid < 128) : leb128 cid = [UInt8.ofNat cid] := by
  rw [leb128, if_pos h]

/-- An id of several bytes does not start with an ASCII character. -/
theorem exists_leb128_of_le {cid : ℕ} (h : 128 ≤ cid) :
    ∃ first rest, leb128 cid = first :: rest ∧ 0x80 ≤ first.toNat := by
  refine ⟨_, _, by rw [leb128, if_neg (Nat.not_lt.2 h)], ?_⟩
  rw [UInt8.toNat_ofNat']
  omega

theorem length_leb128_pos (cid : ℕ) : 1 ≤ (leb128 cid).length := by
  rw [leb128]
  split
  · exact Nat.le_refl 1
  · exact Nat.succ_le_succ (Nat.zero_le _)

/-! ## The key of a packet -/

/-- The key of the packet, where the header says it is. -/
def keyField (stream : List UInt8) : List UInt8 :=
  match unpack reqPktFmt (stream.take reqPktFmt.sum) with
  | [_, _, keylen, extralen, _, _, _, _, _] => ((stream.drop reqPktFmt.sum).drop extralen).take keylen
  | _ => []

theorem keyField_append {m : Message} {key : Payload} {msg body : List UInt8}
    (h : pack reqPktFmt (m.header key) = some msg) :
    keyField (msg ++ body) = (body.drop (m.extraHeaderLength.getD m.extraHeader.len)).take key.len := by
  have hlen : msg.length = reqPktFmt.sum := length_pack h
  rw [keyField, List.take_left' hlen, List.drop_left' hlen, unpack_pack h]
  rfl

/-- The key field is the id and the key, and is decoded into them. -/
def KeyArrives (cid : ℕ) (key : Text) (sent : Except SendError (List UInt8)) : Prop :=
  ∃ stream bytes, sent = .ok stream ∧ Utf8.encode key = some bytes ∧
    keyField stream = leb128 cid ++ bytes ∧ decodeCollectionID (keyField stream) = some (cid, bytes)

theorem sendMsg_of_truthy (client : Client) {m : Message} (h : m.collection.truthy = true) :
    sendMsg client m = (encodeCollectionId client m.key m.scope m.collection).bind (sendParts m) := by
  rw [sendMsg, h]
  rfl

theorem encodeCollectionId_eq_ok_iff {client : Client} {scope : Option Text} {collection : Collection} {cid : ℕ}
    (hclient : client.collectionsSupported = true) (hcid : collectionId client scope collection = .ok cid)
    (s : Text) (key : Payload) :
    encodeCollectionId client (.text s) scope collection = .ok key ↔
      ∃ front, Utf8.decode (leb128 cid) = some front ∧ key = .text (front ++ s) := by
  rw [encodeCollectionId, hclient, hcid, ← collectionBytes_eq]
  cases hdecode : Utf8.decode (collectionBytes cid) with
  | none => simp [Bind.bind, Except.bind, hdecode, throw, throwThe, MonadExceptOf.throw]
  | some front =>
      simp only [Bind.bind, Except.bind, hdecode, pure, Except.pure, Bool.not_true, Bool.false_eq_true, if_false,
        Except.ok.injEq, Option.some.injEq, exists_eq_left']
      exact eq_comm

/-- The other arguments fit the header and can be encoded, and the extras are sent as they are counted. -/
structure Message.OthersFit (m : Message) : Prop where
  extraHeaderLength : m.extraHeaderLength = none
  magic : m.magic < 256
  cmd : m.cmd < 256
  dtype : m.dtype < 256
  vbucketId : m.vbucketId < 2 ^ 16
  opaqueId : m.opaqueId < 2 ^ 32
  cas : m.cas < 2 ^ 64
  extraHeader_fits : m.extraHeader.len < 2 ^ 8
  extraHeader : m.extraHeader.Plain
  val : m.val.encode.isSome
  extendedMetaData : m.extendedMetaData.encode.isSome

/-- With an id of one byte in front, the key still fits. -/
def Message.RoomForId (m : Message) (key : Text) : Prop :=
  key.length + 1 < 2 ^ 16 ∧
    key.length + 1 + m.extraHeader.len + m.val.len + m.extendedMetaData.len < 2 ^ 32

/-- A key field is never longer than its text was counted. -/
theorem length_keyField_le {m : Message} {key : Payload} {stream : List UInt8}
    (h : sendParts m key = .ok stream) : (keyField stream).length ≤ key.len ∧ m.InRange key := by
  obtain ⟨msg, k, e, v, x, hmsg, -, -, -, -, rfl⟩ := (sendParts_eq_ok_iff m key stream).1 h
  refine ⟨?_, (pack_header_isSome_iff m key).1 (Option.isSome_iff_exists.2 ⟨msg, hmsg⟩)⟩
  rw [List.append_assoc, List.append_assoc, List.append_assoc, keyField_append hmsg]
  exact List.length_take_le _ _

/-- A plain key arrives. -/
theorem keyField_of_plain {m : Message} (hothers : m.OthersFit) {key : Text} (hkey : Ascii key)
    (hrange : m.InRange (.text key)) :
    ∃ stream, sendParts m (.text key) = .ok stream ∧
      keyField stream = key.map fun c => UInt8.ofNat c.val := by
  obtain ⟨msg, hmsg⟩ := Option.isSome_iff_exists.1 ((pack_header_isSome_iff m _).2 hrange)
  obtain ⟨e, he, hel, -⟩ := hothers.extraHeader.encode
  obtain ⟨v, hv⟩ := Option.isSome_iff_exists.1 hothers.val
  obtain ⟨x, hx⟩ := Option.isSome_iff_exists.1 hothers.extendedMetaData
  refine ⟨_, (sendParts_eq_ok_iff m _ _).2 ⟨msg, _, e, v, x, hmsg, encode_of_ascii hkey, he, hv, hx, rfl⟩, ?_⟩
  rw [List.append_assoc, List.append_assoc, List.append_assoc, keyField_append hmsg, hothers.extraHeaderLength,
    Option.getD_none, List.drop_left' hel, List.take_left' (by rw [List.length_map]; rfl)]

/-- An id of one byte is read back. -/
theorem decodeCollectionID_of_lt {cid : ℕ} (h : cid < 128) (bytes : List UInt8) :
    decodeCollectionID (UInt8.ofNat cid :: bytes) = some (cid, bytes) := by
  have hbyte : (UInt8.ofNat cid).toNat = cid := by
    rw [UInt8.toNat_ofNat']
    omega
  have hbits : ∀ n : Fin 128, n.val &&& 0x80 ≠ 0x80 ∧ n.val &&& 0x7f = n.val := by decide +kernel
  obtain ⟨hcontinue, hcid⟩ := hbits ⟨cid, h⟩
  simp only [decodeCollectionID, hbyte, if_neg hcontinue, hcid]
  rfl

/-- A key that arrives with its id was asked for with one, of a single byte, and is ASCII. -/
theorem fits_of_keyArrives (client : Client) (m : Message) (cid : ℕ) (key : Text)
    (hclient : client.collectionsSupported = true) (hkey : m.key = .text key)
    (hcid : collectionId client m.scope m.collection = .ok cid)
    (h : KeyArrives cid key (sendMsg client m)) :
    m.collection.truthy = true ∧ cid < 128 ∧ Ascii key ∧ m.RoomForId key := by
  obtain ⟨stream, bytes, hsent, hencode, hfield, -⟩ := h
  obtain ⟨hle, hascii⟩ := length_encode hencode
  have hlength := congrArg List.length hfield
  rw [List.length_append] at hlength
  rcases htruthy : m.collection.truthy with _ | _
  · -- without its id the key is too short
    rw [sendMsg_of_falsy client htruthy, hkey] at hsent
    have hshort : (keyField stream).length ≤ key.length := (length_keyField_le hsent).1
    have hpos := length_leb128_pos cid
    omega
  · rw [sendMsg_of_truthy client htruthy, hkey] at hsent
    cases hcoded : encodeCollectionId client (.text key) m.scope m.collection with
    | error e => rw [hcoded] at hsent; cases hsent
    | ok whole =>
        rw [hcoded] at hsent
        obtain ⟨front, hfront, rfl⟩ := (encodeCollectionId_eq_ok_iff hclient hcid key whole).1 hcoded
        obtain ⟨hshort, hrange⟩ := length_keyField_le hsent
        obtain ⟨hfrontle, hfrontlt⟩ := length_decode hfront
        simp only [Payload.len_text, List.length_append] at hshort
        have hsmall : cid < 128 := by
          by_contra hbig
          obtain ⟨first, rest, hleb, hhigh⟩ := exists_leb128_of_le (Nat.not_lt.1 hbig)
          have := hfrontlt first (by rw [hleb]; rfl) hhigh
          omega
        have hone : front.length = 1 := by
          rw [leb128_of_lt hsmall, List.length_singleton] at hlength hfrontle
          omega
        obtain ⟨-, -, hkeylen, -, -, -, hbody, -, -⟩ := hrange
        simp only [Payload.len_text, List.length_append, hone] at hkeylen hbody
        refine ⟨rfl, hsmall, hascii.1 ?_, ?_, ?_⟩
        · rw [leb128_of_lt hsmall, List.length_singleton] at hlength
          omega
        · omega
        · omega

/-- Such a key arrives. -/
theorem keyArrives_of_fits (client : Client) (m : Message) (cid : ℕ) (key : Text)
    (hclient : client.collectionsSupported = true) (hkey : m.key = .text key)
    (hcid : collectionId client m.scope m.collection = .ok cid) (hothers : m.OthersFit)
    (htruthy : m.collection.truthy = true) (hsmall : cid < 128) (hascii : Ascii key) (hroom : m.RoomForId key) :
    KeyArrives cid key (sendMsg client m) := by
  let c : CodePoint := ⟨cid, by omega⟩
  have hdecode : Utf8.decode (leb128 cid) = some [c] := by
    rw [leb128_of_lt hsmall]
    exact decode_singleton (c := c) hsmall
  have hcoded := (encodeCollectionId_eq_ok_iff hclient hcid key _).2 ⟨_, hdecode, rfl⟩
  have hwhole : Ascii (c :: key) := List.forall_mem_cons.2 ⟨hsmall, hascii⟩
  have hrange : m.InRange (.text (c :: key)) := by
    obtain ⟨hkeylen, hbody⟩ := hroom
    refine ⟨hothers.magic, hothers.cmd, hkeylen, ?_, hothers.dtype, hothers.vbucketId, hbody, hothers.opaqueId,
      hothers.cas⟩
    rw [hothers.extraHeaderLength]
    exact hothers.extraHeader_fits
  obtain ⟨stream, hsent, hfield⟩ := keyField_of_plain hothers hwhole hrange
  have hleb : keyField stream = leb128 cid ++ key.map fun c => UInt8.ofNat c.val := by
    rw [hfield, leb128_of_lt hsmall]
    rfl
  refine ⟨stream, _, ?_, encode_of_ascii hascii, hleb, ?_⟩
  · rw [sendMsg_of_truthy client htruthy, hkey, hcoded]
    exact hsent
  · rw [hleb, leb128_of_lt hsmall]
    exact decodeCollectionID_of_lt hsmall _

/-- **A collection id arrives exactly when it has one byte**: with collections enabled and the other arguments
    fitting the header, the key field is the LEB128 number followed by the key in UTF-8, and is decoded into
    them, if and only if the collection is given by a name or by an id other than `0`, the id is below 128,
    the key is ASCII and there is room for both. -/
theorem keyField_iff (client : Client) (m : Message) (cid : ℕ) (key : Text)
    (hclient : client.collectionsSupported = true) (hkey : m.key = .text key)
    (hcid : collectionId client m.scope m.collection = .ok cid) (hothers : m.OthersFit) :
    KeyArrives cid key (sendMsg client m) ↔
      m.collection.truthy = true ∧ cid < 128 ∧ Ascii key ∧ m.RoomForId key := by
  constructor
  · exact fits_of_keyArrives client m cid key hclient hkey hcid
  · rintro ⟨htruthy, hsmall, hascii, hroom⟩
    exact keyArrives_of_fits client m cid key hclient hkey hcid hothers htruthy hsmall hascii hroom

/-- A client with collections. -/
def collectionsClient : Client := ⟨0, 1024, true, ∅⟩

/-- `CMD_GET` of the key `k` in a collection given by its id. -/
def getIn (cid : ℕ) : Message :=
  { cmd := 0, key := .text [107], val := .text [], opaqueId := 7, collection := .id cid, dtype := 0, vbucketId := 0
    magic := reqMagicByte }

theorem keyField_collection_eight : KeyArrives 8 [107] (sendMsg collectionsClient (getIn 8)) := by
  have hothers : (getIn 8).OthersFit := by
    refine ⟨rfl, ?_, ?_, ?_, ?_, ?_, ?_, ?_, ?_, ?_, ?_⟩ <;> decide +kernel
  have hroom : (getIn 8).RoomForId [107] := by
    refine ⟨?_, ?_⟩ <;> decide +kernel
  exact (keyField_iff collectionsClient (getIn 8) 8 [107] rfl rfl rfl hothers).2
    ⟨rfl, by decide, by decide +kernel, hroom⟩

/-- The bytes `c8 01` of the id 200 are no text: nothing is sent. -/
theorem keyField_lost : ¬ KeyArrives 200 [107] (sendMsg collectionsClient (getIn 200)) := by
  have hraised : sendMsg collectionsClient (getIn 200) = .error .unicodeDecodeError := by rfl
  rintro ⟨stream, bytes, hsent, -⟩
  rw [hraised] at hsent
  cases hsent

end TestInfra.Wire
