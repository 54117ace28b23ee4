import TestInfra.Tasks.Values
import TestInfra.Wire.GetMulti
import Mathlib.Data.Int.Bitwise

set_option autoImplicit false

/-! # The hash of a key

The reference store hashes with the table of `lib/crc32.py`, the client with `zlib.crc32`
(`MemcachedClient._set_vbucket`). `crc32_hash` takes the complement of a number without a width and cuts bits out
of it afterwards. The table is the one of the checksum (`crc32tab_eq`), and the two agree on ASCII texts. -/

namespace TestInfra.Wire

open Utf8

/-! ## `crc32_hash` on numbers of any size -/

/-- The loop of `crc32_hash`. -/
def hashRound (crc codePoint : ℕ) : ℕ := (crc >>> 8) ^^^ (crc32tab.getD ((crc ^^^ codePoint) &&& 0xff) 0#32).toNat

/-- `crc32_hash` of a text. The complement is negative. -/
def hashOf (codePoints : List ℕ) : ℤ :=
  Int.land ((~~~ ((codePoints.foldl hashRound (2 ^ 32 - 1) : ℕ) : ℤ)) >>> 16) 0x7fff

/-- The low byte of the index does not depend on the width. -/
theorem hashRound_toNat (crc : BitVec 32) (codePoint : ℕ) :
    hashRound crc.toNat codePoint = (crc32Round crc codePoint).toNat := by
  have hindex : ((crc ^^^ BitVec.ofNat 32 codePoint) &&& 0xff#32).toNat = (crc.toNat ^^^ codePoint) &&& 0xff := by
    have hmask : ∀ n : ℕ, n &&& 0xff = n % 2 ^ 8 := fun n => Nat.and_two_pow_sub_one_eq_mod n 8
    rw [BitVec.toNat_and, BitVec.toNat_xor, BitVec.toNat_ofNat, BitVec.toNat_ofNat, hmask, hmask, Nat.xor_mod_two_pow,
      Nat.xor_mod_two_pow, Nat.mod_mod_of_dvd codePoint (by decide)]
  rw [hashRound, crc32Round, hindex, BitVec.toNat_xor, BitVec.toNat_ushiftRight]

theorem foldl_hashRound_toNat (codePoints : List ℕ) (crc : BitVec 32) :
    codePoints.foldl hashRound crc.toNat = (codePoints.foldl crc32Round crc).toNat := by
  induction codePoints generalizing crc with
  | nil => rfl
  | cons c rest ih => rw [List.foldl_cons, List.foldl_cons, hashRound_toNat, ih]

/-- The bits cut out of the complement. -/
theorem land_complement (crc : BitVec 32) :
    Int.land ((~~~ (crc.toNat : ℤ)) >>> 16) 0x7fff = ((~~~ crc).extractLsb 30 16).toNat := by
  have hland : Int.land ((~~~ (crc.toNat : ℤ)) >>> 16) 0x7fff = ((Nat.ldiff 0x7fff (crc.toNat >>> 16) : ℕ) : ℤ) := rfl
  rw [hland, Nat.cast_inj]
  apply Nat.eq_of_testBit_eq
  intro i
  have hmask : (0x7fff : ℕ).testBit i = decide (i < 15) := Nat.testBit_two_pow_sub_one 15 i
  have hwidth : (30 - 16 + 1 : ℕ) = 15 := rfl
  rw [Nat.testBit_ldiff, hmask, Nat.testBit_shiftRight, BitVec.testBit_toNat, BitVec.testBit_toNat,
    BitVec.getLsbD_extractLsb, BitVec.getLsbD_not]
  by_cases hi : i < 15
  · have hlt : 16 + i < 32 := by omega
    simp [hi, hlt]
  · simp [hi]

theorem extractLsb_eq (x : BitVec 32) : ((x >>> 16) &&& 0x7fff#32).toNat = (x.extractLsb 30 16).toNat := by
  have hmask : (x.toNat >>> 16) &&& (2 ^ 15 - 1) = (x.toNat >>> 16) % 2 ^ 15 := Nat.and_two_pow_sub_one_eq_mod _ 15
  rw [BitVec.toNat_and, BitVec.toNat_ushiftRight, BitVec.extractLsb_toNat]
  exact hmask

/-- The hash of the reference store. -/
theorem crc32Hash_eq (value : PyValue) :
    crc32Hash value = value.codePoints.map fun codePoints => (hashOf codePoints).toNat := by
  rw [crc32Hash]
  rcases value.codePoints with e | codePoints
  · rfl
  · have hfold : codePoints.foldl hashRound (2 ^ 32 - 1) = (codePoints.foldl crc32Round 0xffffffff#32).toNat :=
      foldl_hashRound_toNat codePoints 0xffffffff#32
    have hhash : (hashOf codePoints).toNat
        = (((~~~ (codePoints.foldl crc32Round 0xffffffff#32)) >>> 16) &&& 0x7fff#32).toNat := by
      rw [hashOf, hfold, land_complement, extractLsb_eq, Int.toNat_natCast]
    exact congrArg Except.ok hhash.symm

/-! ## The table -/

theorem crc32tab_eq (i : Fin 256) : crc32tab.getD i 0#32 = Crc32.bits 8 (BitVec.ofNat 32 i) := by
  revert i
  decide +kernel

/-- A round is a byte of the checksum. -/
theorem crc32Round_eq (crc : BitVec 32) {codePoint : ℕ} (h : codePoint < 256) :
    crc32Round crc codePoint = Crc32.byteStep crc (UInt8.ofNat codePoint) := by
  have hbyte : (UInt8.ofNat codePoint).toBitVec.setWidth 32 = BitVec.ofNat 32 codePoint := by
    apply BitVec.eq_of_toNat_eq
    rw [BitVec.toNat_setWidth, BitVec.toNat_ofNat]
    exact congrArg (· % 2 ^ 32) (Utf8.toNat_ofNat_of_lt h)
  have hindex : ((crc ^^^ BitVec.ofNat 32 codePoint) &&& 0xff#32).toNat < 256 := by
    rw [BitVec.toNat_and]
    exact Nat.lt_succ_of_le Nat.and_le_right
  have htab := crc32tab_eq ⟨_, hindex⟩
  rw [BitVec.ofNat_toNat, BitVec.setWidth_eq] at htab
  rw [Crc32.byteStep_eq, hbyte, crc32Round, ← htab]

/-- The loop of `crc32_hash` over an ASCII text computes its checksum, up to the complement. -/
theorem foldl_crc32Round_eq {key : Text} (h : Ascii key) (crc : BitVec 32) :
    (key.map Fin.val).foldl crc32Round crc = (key.map fun c => UInt8.ofNat c.val).foldl Crc32.byteStep crc := by
  induction key generalizing crc with
  | nil => rfl
  | cons c rest ih =>
      rw [Ascii, List.forall_mem_cons] at h
      rw [List.map_cons, List.map_cons, List.foldl_cons, List.foldl_cons, crc32Round_eq crc (by omega), ih h.2]

theorem hashOf_ascii {key : Text} (h : Ascii key) :
    hashOf (key.map Fin.val) = ((Crc32.crc32 (key.map fun c => UInt8.ofNat c.val)).extractLsb 30 16).toNat := by
  have hstart : ~~~ 0#32 = 0xffffffff#32 := rfl
  have hfold := foldl_hashRound_toNat (key.map Fin.val) 0xffffffff#32
  rw [foldl_crc32Round_eq h] at hfold
  rw [Crc32.crc32, hstart, ← land_complement, ← hfold]
  rfl

/-- **The two hashes of a key agree**: for an ASCII key `crc32_hash` is bits 16 to 30 of the checksum of its bytes,
    and, cut to the number of vbuckets, the vbucket that the client computes. -/
theorem crc32_hash_eq_vbucket (key : Text) (h : Ascii key) :
    hashOf (key.map Fin.val) = ((Crc32.crc32 (key.map fun c => UInt8.ofNat c.val)).extractLsb 30 16).toNat ∧
      ∀ (client : Client) (k : ℕ), k ≤ 15 → client.vbucketCount = 2 ^ k → ∀ vbucket ≤ 0,
        ∃ client', setVbucket client key vbucket = .ok client' ∧
          (client'.vbucketId : ℤ) = Int.land (hashOf (key.map Fin.val)) (client.vbucketCount - 1) := by
  refine ⟨hashOf_ascii h, ?_⟩
  intro client k _ hcount vbucket hvbucket
  have hneg : vbucket = 0 ∨ vbucket < 0 := by omega
  refine ⟨_, by rw [setVbucket, if_pos hneg, encode_of_ascii h], ?_⟩
  have hpred : (client.vbucketCount : ℤ) - 1 = ((client.vbucketCount - 1 : ℕ) : ℤ) := by
    rw [hcount, Nat.cast_sub Nat.one_le_two_pow, Nat.cast_one]
  have hmask : ∀ n : ℕ, n &&& 0x7fff = n % 2 ^ 15 := fun n => Nat.and_two_pow_sub_one_eq_mod n 15
  rw [hashOf_ascii h, hpred, BitVec.extractLsb_toNat]
  dsimp only
  rw [hmask]
  rfl

theorem crc32_hash_eq_vbucket_a :
    hashOf [97] = ((Crc32.crc32 [97]).extractLsb 30 16).toNat ∧
      ∀ (client : Client) (k : ℕ), k ≤ 15 → client.vbucketCount = 2 ^ k → ∀ vbucket ≤ 0,
        ∃ client', setVbucket client [97] vbucket = .ok client' ∧
          (client'.vbucketId : ℤ) = Int.land (hashOf [97]) (client.vbucketCount - 1) :=
  crc32_hash_eq_vbucket [97] (by decide)

end TestInfra.Wire
