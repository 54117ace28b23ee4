import TestInfra.Wire.CollectionId
import Mathlib.Tactic.Ring

set_option autoImplicit false

/-! # Keys with a collection id, decoded

`varint` says what a key that starts with a LEB128 number is: seven bits a byte up to the first byte below
`0x80`, the stop byte. `decodeLoop_of_varint` compares the loop of `decodeCollectionID` with it: the bits put
in place with shifts are the number, and `end` is the place of the stop byte.

`decodeCollectionID` looks at that place alone to tell whether there was a stop byte. A stop byte that is the
last byte looks like none, and a single byte without one looks like a number (`decodeCollectionID_exact_iff`).
In the keys of the client something follows the number (`decodeCollectionID_collectionBytes`). -/

namespace TestInfra.Wire

/-! ## LEB128 numbers, read -/

/-- The number at the start of `key` and what follows its stop byte; `none` without a stop byte. -/
def varint : List UInt8 → Option (ℕ × List UInt8)
  | [] => none
  | b :: rest =>
      if b.toNat < 128 then some (b.toNat, rest)
      else (varint rest).map fun (n, after) => (b.toNat % 128 + 128 * n, after)

theorem varint_of_lt {b : UInt8} (h : b.toNat < 128) (rest : List UInt8) :
    varint (b :: rest) = some (b.toNat, rest) := by
  rw [varint, if_pos h]

theorem varint_of_le {b : UInt8} (h : 128 ≤ b.toNat) (rest : List UInt8) :
    varint (b :: rest) = (varint rest).map fun p => (b.toNat % 128 + 128 * p.1, p.2) := by
  rw [varint, if_neg (Nat.not_lt.2 h)]

theorem varint_of_le_eq_some_iff {b : UInt8} (h : 128 ≤ b.toNat) {rest after : List UInt8} {n : ℕ} :
    varint (b :: rest) = some (n, after) ↔ ∃ m, varint rest = some (m, after) ∧ n = b.toNat % 128 + 128 * m := by
  rw [varint_of_le h, Option.map_eq_some_iff]
  constructor
  · rintro ⟨⟨m, tail⟩, hrest, hpair⟩
    rw [Prod.mk.injEq] at hpair
    exact ⟨m, hpair.2 ▸ hrest, hpair.1.symm⟩
  · rintro ⟨m, hrest, rfl⟩
    exact ⟨(m, after), hrest, rfl⟩

theorem varint_eq_none_iff (key : List UInt8) : varint key = none ↔ ∀ b ∈ key, 128 ≤ b.toNat := by
  induction key with
  | nil => simp [varint]
  | cons b rest ih =>
      by_cases hb : b.toNat < 128
      · simp [varint_of_lt hb, hb]
      · simp [varint_of_le (Nat.not_lt.1 hb), ih, Nat.not_lt.1 hb]

/-- What follows the stop byte is the end of the key, and is shorter. -/
theorem varint_suffix {key after : List UInt8} {n : ℕ} (h : varint key = some (n, after)) :
    after.length < key.length ∧ key.drop (key.length - after.length) = after := by
  induction key generalizing n after with
  | nil => exact absurd h (by simp [varint])
  | cons b rest ih =>
      by_cases hb : b.toNat < 128
      · rw [varint_of_lt hb, Option.some.injEq, Prod.mk.injEq] at h
        obtain ⟨-, rfl⟩ := h
        simp
      · obtain ⟨m, htail, -⟩ := (varint_of_le_eq_some_iff (Nat.not_lt.1 hb)).1 h
        obtain ⟨hlt, hdrop⟩ := ih htail
        refine ⟨Nat.lt_succ_of_lt hlt, ?_⟩
        rw [List.length_cons, Nat.succ_sub (Nat.le_of_lt hlt), List.drop_succ_cons]
        exact hdrop

theorem varint_leb128 (n : ℕ) (rest : List UInt8) : varint (leb128 n ++ rest) = some (n, rest) := by
  induction n using Nat.strongRecOn with
  | ind n ih =>
      rw [leb128]
      split
      · next hsmall =>
          have hbyte : (UInt8.ofNat n).toNat = n := by
            rw [UInt8.toNat_ofNat']
            omega
          rw [List.singleton_append, varint_of_lt (by omega), hbyte]
      · next hbig =>
          have hbyte : (UInt8.ofNat (n % 128 + 128)).toNat = n % 128 + 128 := by
            rw [UInt8.toNat_ofNat']
            omega
          have hnumber : (n % 128 + 128) % 128 + 128 * (n / 128) = n := by omega
          rw [List.cons_append, varint_of_le (by omega), ih (n / 128) (by omega), Option.map_some, hbyte, hnumber]

/-! ## The loop of `decodeCollectionID` -/

theorem byte_bits (b : UInt8) :
    b.toNat &&& 0x7f = b.toNat % 128 ∧ (b.toNat &&& 0x80 = 0 ↔ b.toNat < 128) ∧
      (b.toNat &&& 0x80 = 0x80 ↔ 128 ≤ b.toNat) := by
  have hbits : ∀ m : Fin 256, m.val &&& 0x7f = m.val % 128 ∧ (m.val &&& 0x80 = 0 ↔ m.val < 128) ∧
      (m.val &&& 0x80 = 0x80 ↔ 128 ≤ m.val) := by decide +kernel
  exact hbits ⟨b.toNat, b.toNat_lt⟩

/-- Putting seven bits in place over the ones read so far adds them. -/
theorem or_shiftLeft_byte {cid shift : ℕ} (h : cid < 2 ^ shift) (n : ℕ) :
    cid ||| ((n % 128) <<< shift) = cid + n % 128 * 2 ^ shift ∧ cid + n % 128 * 2 ^ shift < 2 ^ (shift + 7) := by
  have hadd : n % 128 * 2 ^ shift + cid = n % 128 * 2 ^ shift ||| cid := by
    rw [Nat.mul_comm]
    exact Nat.two_pow_add_eq_or_of_lt h _
  refine ⟨?_, ?_⟩
  · rw [Nat.shiftLeft_eq, Nat.or_comm, ← hadd, Nat.add_comm]
  · have hbits : n % 128 ≤ 127 := by omega
    calc cid + n % 128 * 2 ^ shift < 2 ^ shift + 127 * 2 ^ shift :=
          Nat.add_lt_add_of_lt_of_le h (Nat.mul_le_mul_right _ hbits)
      _ = 2 ^ (shift + 7) := by rw [Nat.pow_add]; omega

/-- With a stop byte, the loop adds the number and leaves the place of the stop byte. -/
theorem decodeLoop_of_varint {rest after : List UInt8} {n : ℕ} (h : varint rest = some (n, after))
    (pos : ℕ) {shift cid : ℕ} (hcid : cid < 2 ^ shift) (last : ℕ) :
    decodeLoop rest pos shift cid last = (cid + n * 2 ^ shift, pos + (rest.length - 1 - after.length)) := by
  induction rest generalizing n pos shift cid last with
  | nil => exact absurd h (by simp [varint])
  | cons b tail ih =>
      obtain ⟨hlow, hstop, -⟩ := byte_bits b
      obtain ⟨hor, hlt⟩ := or_shiftLeft_byte hcid b.toNat
      simp only [decodeLoop, hlow, hor, hstop]
      by_cases hb : b.toNat < 128
      · rw [varint_of_lt hb, Option.some.injEq, Prod.mk.injEq] at h
        obtain ⟨rfl, rfl⟩ := h
        rw [if_pos hb, Nat.mod_eq_of_lt hb]
        simp
      · obtain ⟨m, htail, rfl⟩ := (varint_of_le_eq_some_iff (Nat.not_lt.1 hb)).1 h
        have hshorter := (varint_suffix htail).1
        -- the byte is continued: the rest of the number stands one byte and seven bits further
        rw [if_neg hb, ih htail (pos + 1) hlt pos]
        refine Prod.ext ?_ ?_
        · show cid + b.toNat % 128 * 2 ^ shift + m * 2 ^ (shift + 7) = cid + (b.toNat % 128 + 128 * m) * 2 ^ shift
          rw [Nat.pow_add]
          ring
        · show pos + 1 + (tail.length - 1 - after.length) = pos + ((b :: tail).length - 1 - after.length)
          rw [List.length_cons]
          omega

/-- Without a stop byte, the loop leaves the place of the last byte; over no bytes it leaves `end` alone. -/
theorem decodeLoop_of_none {rest : List UInt8} (h : varint rest = none) (pos shift cid last : ℕ) :
    (decodeLoop rest pos shift cid last).2 = if rest = [] then last else pos + (rest.length - 1) := by
  induction rest generalizing pos shift cid last with
  | nil => rfl
  | cons b tail ih =>
      have hb : ¬ b.toNat < 128 := Nat.not_lt.2 ((varint_eq_none_iff _).1 h b List.mem_cons_self)
      have htail : varint tail = none :=
        (varint_eq_none_iff _).2 fun c hc => (varint_eq_none_iff _).1 h c (List.mem_cons_of_mem b hc)
      simp only [decodeLoop, (byte_bits b).2.1, if_neg hb, if_neg (List.cons_ne_nil b tail)]
      rw [ih htail]
      split
      · next hnil => simp [hnil]
      · next hne =>
          have hpos := List.length_pos_of_ne_nil hne
          rw [List.length_cons]
          omega

/-! ## `decodeCollectionID` -/

/-- What `decodeCollectionID` raises: reading `data[0]` of no bytes, and its own `ValueError`. -/
inductive DecodeError
  | indexError
  | noStopByte
  deriving DecidableEq, Repr

/-- `decodeCollectionID`, with what it raises. -/
def decodeCollectionIDOrRaise (key : List UInt8) : Except DecodeError (ℕ × List UInt8) :=
  match key with
  | [] => .error .indexError
  | first :: rest =>
      let cid := first.toNat &&& 0x7f
      if first.toNat &&& 0x80 = 0x80 then
        let (cid, last) := decodeLoop rest 1 7 cid 1
        if last + 1 = key.length then .error .noStopByte else .ok (cid, key.drop (last + 1))
      else .ok (cid, key.drop 1)

theorem decodeCollectionID_eq_toOption (key : List UInt8) :
    decodeCollectionID key = (decodeCollectionIDOrRaise key).toOption := by
  cases key with
  | nil => rfl
  | cons first rest =>
      simp only [decodeCollectionID, decodeCollectionIDOrRaise]
      split
      · split <;> rfl
      · rfl

theorem decodeCollectionIDOrRaise_of_lt {b : UInt8} (h : b.toNat < 128) (rest : List UInt8) :
    decodeCollectionIDOrRaise (b :: rest) = .ok (b.toNat, rest) := by
  obtain ⟨hlow, -, hcont⟩ := byte_bits b
  simp only [decodeCollectionIDOrRaise, hlow, hcont, if_neg (Nat.not_le.2 h), Nat.mod_eq_of_lt h, List.drop_one,
    List.tail_cons]

/-- With a stop byte behind the first one, what follows it decides. -/
theorem decodeCollectionIDOrRaise_of_varint {b : UInt8} (hb : 128 ≤ b.toNat) {rest after : List UInt8} {n : ℕ}
    (h : varint rest = some (n, after)) :
    decodeCollectionIDOrRaise (b :: rest) =
      if after = [] then .error .noStopByte else .ok (b.toNat % 128 + 128 * n, after) := by
  obtain ⟨hlow, -, hcont⟩ := byte_bits b
  obtain ⟨hshorter, hdrop⟩ := varint_suffix h
  have hcid : b.toNat % 128 < 2 ^ 7 := Nat.mod_lt _ (by decide)
  have hend : 1 + (rest.length - 1 - after.length) = rest.length - after.length := by omega
  have hnil : rest.length - after.length + 1 = (b :: rest).length ↔ after = [] := by
    rw [List.length_cons, ← List.length_eq_zero_iff]
    omega
  have hnumber : b.toNat % 128 + n * 2 ^ 7 = b.toNat % 128 + 128 * n := by omega
  simp only [decodeCollectionIDOrRaise, hlow, hcont, if_pos hb, decodeLoop_of_varint h 1 hcid, hend, hnil, hnumber,
    List.drop_succ_cons, hdrop]

/-- Without a stop byte, a single byte is taken for a number. -/
theorem decodeCollectionIDOrRaise_of_none {b : UInt8} (hb : 128 ≤ b.toNat) {rest : List UInt8}
    (h : varint rest = none) :
    decodeCollectionIDOrRaise (b :: rest) =
      if rest = [] then .ok (b.toNat % 128, []) else .error .noStopByte := by
  obtain ⟨hlow, -, hcont⟩ := byte_bits b
  have hend := decodeLoop_of_none h 1 7 (b.toNat % 128) 1
  by_cases hrest : rest = []
  · subst hrest
    simp [decodeCollectionIDOrRaise, hlow, hcont, hb, decodeLoop]
  · have hpos := List.length_pos_of_ne_nil hrest
    have hlast : (decodeLoop rest 1 7 (b.toNat % 128) 1).2 + 1 = (b :: rest).length := by
      rw [hend, if_neg hrest, List.length_cons]
      omega
    simp only [decodeCollectionIDOrRaise, hlow, hcont, if_pos hb, hlast, if_neg hrest, if_true]

/-- **A collection id is read back**: the bytes the loop of `_encodeCollectionId` builds, with a key behind
    them, are decoded into the id and the key. -/
theorem decodeCollectionID_collectionBytes (cid : ℕ) (key : List UInt8) (hkey : key ≠ []) :
    decodeCollectionIDOrRaise (collectionBytes cid ++ key) = .ok (cid, key) ∧
      decodeCollectionID (collectionBytes cid ++ key) = some (cid, key) := by
  have hok : decodeCollectionIDOrRaise (collectionBytes cid ++ key) = .ok (cid, key) := by
    have hread := varint_leb128 cid key
    rw [collectionBytes_eq]
    cases hbytes : leb128 cid ++ key with
    | nil => rw [hbytes] at hread; exact absurd hread (by simp [varint])
    | cons first rest =>
        rw [hbytes] at hread
        by_cases hfirst : first.toNat < 128
        · rw [varint_of_lt hfirst, Option.some.injEq, Prod.mk.injEq] at hread
          rw [decodeCollectionIDOrRaise_of_lt hfirst, hread.1, hread.2]
        · have hcont := Nat.not_lt.1 hfirst
          obtain ⟨n, hrest, rfl⟩ := (varint_of_le_eq_some_iff hcont).1 hread
          rw [decodeCollectionIDOrRaise_of_varint hcont hrest, if_neg hkey]
  refine ⟨hok, ?_⟩
  rw [decodeCollectionID_eq_toOption, hok]
  rfl

theorem decodeCollectionID_collectionBytes_big :
    [107] ≠ ([] : List UInt8) ∧ decodeCollectionID (collectionBytes (2 ^ 70) ++ [107]) = some (2 ^ 70, [107]) :=
  ⟨List.cons_ne_nil _ _, (decodeCollectionID_collectionBytes (2 ^ 70) [107] (List.cons_ne_nil _ _)).2⟩

/-- `ValueError` when there is no stop byte and only then, and otherwise the leading number and the rest. -/
def DecodesExactly (key : List UInt8) : Prop :=
  (decodeCollectionIDOrRaise key = .error .noStopByte ↔ ∀ b ∈ key, 128 ≤ b.toNat) ∧
    ∀ n after, varint key = some (n, after) → decodeCollectionIDOrRaise key = .ok (n, after)

/-- Where `end` tells whether there was a stop byte: at a first byte that is one, at a stop byte with bytes behind
    it, and at two bytes or more without one. -/
def StopByteShows (key : List UInt8) : Prop :=
  (∃ b, key.head? = some b ∧ b.toNat < 128) ∨ (∃ b ∈ key.dropLast, b.toNat < 128) ∨
    (2 ≤ key.length ∧ ∀ b ∈ key, 128 ≤ b.toNat)

/-- The number behind a byte that continues ends with the key exactly when no byte before the last stops it. -/
theorem exists_stop_dropLast_iff {rest after : List UInt8} {n : ℕ} (h : varint rest = some (n, after)) :
    (∃ b ∈ rest.dropLast, b.toNat < 128) ↔ after ≠ [] := by
  induction rest generalizing n with
  | nil => exact absurd h (by simp [varint])
  | cons b tail ih =>
      by_cases hb : b.toNat < 128
      · rw [varint_of_lt hb, Option.some.injEq, Prod.mk.injEq] at h
        obtain ⟨-, rfl⟩ := h
        cases tail with
        | nil => simp
        | cons c tail => simp [hb]
      · obtain ⟨m, htail, -⟩ := (varint_of_le_eq_some_iff (Nat.not_lt.1 hb)).1 h
        have hne : tail ≠ [] := by
          rintro rfl
          exact absurd htail (by simp [varint])
        rw [← ih htail, List.dropLast_cons_of_ne_nil hne, List.exists_mem_cons_iff]
        simp [hb]

/-- **The decoder is exact where the stop byte shows**: `decodeCollectionID` raises `ValueError` exactly on the
    keys without a stop byte and reads the leading number of the others, if and only if the key is not empty,
    no single byte that continues, and no number that ends with the key after two bytes or more. -/
theorem decodeCollectionID_exact_iff (key : List UInt8) : DecodesExactly key ↔ StopByteShows key := by
  cases key with
  | nil => simp [DecodesExactly, StopByteShows, decodeCollectionIDOrRaise]
  | cons b rest =>
      by_cases hb : b.toNat < 128
      · simp [DecodesExactly, StopByteShows, decodeCollectionIDOrRaise_of_lt hb, varint_of_lt hb, hb, Nat.not_le.2 hb]
      · have hcont := Nat.not_lt.1 hb
        cases hrest : varint rest with
        | none =>
            have hall : ∀ c ∈ b :: rest, 128 ≤ c.toNat :=
              List.forall_mem_cons.2 ⟨hcont, (varint_eq_none_iff rest).1 hrest⟩
            have hraised := decodeCollectionIDOrRaise_of_none hcont hrest
            by_cases hnil : rest = []
            · subst hnil
              rw [if_pos rfl] at hraised
              simp [DecodesExactly, StopByteShows, hraised, hb, hcont]
            · have hlen : 2 ≤ (b :: rest).length := Nat.succ_le_succ (List.length_pos_of_ne_nil hnil)
              rw [if_neg hnil] at hraised
              rw [DecodesExactly, StopByteShows, hraised, varint_of_le hcont, hrest]
              refine ⟨fun _ => Or.inr (Or.inr ⟨hlen, hall⟩), fun _ => ⟨⟨fun _ => hall, fun _ => rfl⟩, ?_⟩⟩
              exact fun n after h => absurd h (by simp)
        | some p =>
            obtain ⟨n, after⟩ := p
            have hstop := exists_stop_dropLast_iff hrest
            have hne : rest ≠ [] := by
              rintro rfl
              exact absurd hrest (by simp [varint])
            have hsome : ¬ ∀ c ∈ rest, 128 ≤ c.toNat := fun hall =>
              absurd ((varint_eq_none_iff rest).2 hall) (by simp [hrest])
            rw [DecodesExactly, StopByteShows, decodeCollectionIDOrRaise_of_varint hcont hrest,
              List.dropLast_cons_of_ne_nil hne, List.exists_mem_cons_iff, hstop, List.forall_mem_cons]
            by_cases hafter : after = []
            · simp [hafter, hb, hsome]
            · simp [hafter, hsome, varint_of_le hcont, hrest]

/-- A number whose stop byte is the last byte is refused. -/
theorem decodeCollectionID_exact_lost : ¬ DecodesExactly [0x80, 0x01] := by
  have hraised : decodeCollectionIDOrRaise [0x80, 0x01] = .error .noStopByte := by decide
  exact fun h => absurd (h.1.1 hraised 0x01 (by decide)) (by decide)

end TestInfra.Wire
