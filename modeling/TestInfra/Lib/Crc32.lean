import Mathlib.Data.List.Basic

set_option autoImplicit false

/-! # The reflected CRC-32, bit by bit

The checksum of `zlib.crc32`: polynomial `0xEDB88320`, initial and final complement, least
significant bit first.

A step of the register is linear in exclusive or, so that the eight steps of a byte can be looked up in a table of
the low bytes (`byteStep_eq`). -/

namespace Crc32

def polynomial : BitVec 32 := 0xEDB88320#32

/-- Shift one bit out of the register. -/
def bitStep (crc : BitVec 32) : BitVec 32 :=
  if crc.getLsbD 0 then (crc >>> 1) ^^^ polynomial else crc >>> 1

def bits : Nat → BitVec 32 → BitVec 32
  | 0, crc => crc
  | n + 1, crc => bits n (bitStep crc)

def byteStep (crc : BitVec 32) (b : UInt8) : BitVec 32 :=
  bits 8 (crc ^^^ b.toBitVec.setWidth 32)

/-- `zlib.crc32`. -/
def crc32 (bytes : List UInt8) : BitVec 32 :=
  ~~~ (bytes.foldl byteStep (~~~ 0#32))

/-- The check value of the polynomial's catalogue entry. -/
example : crc32 "123456789".toUTF8.toList = 0xCBF43926#32 := by decide +kernel

/-! ## A byte at a time -/

theorem bitStep_xor (x y : BitVec 32) : bitStep (x ^^^ y) = bitStep x ^^^ bitStep y := by
  rw [bitStep, bitStep, bitStep, BitVec.getLsbD_xor, BitVec.ushiftRight_xor_distrib]
  rcases x.getLsbD 0 with _ | _ <;> rcases y.getLsbD 0 with _ | _
  · rfl
  · exact BitVec.xor_assoc ..
  · show x >>> 1 ^^^ y >>> 1 ^^^ polynomial = x >>> 1 ^^^ polynomial ^^^ y >>> 1
    rw [BitVec.xor_assoc, BitVec.xor_assoc, BitVec.xor_comm polynomial]
  · -- the polynomial cancels
    show x >>> 1 ^^^ y >>> 1 = x >>> 1 ^^^ polynomial ^^^ (y >>> 1 ^^^ polynomial)
    rw [BitVec.xor_comm (y >>> 1) polynomial, BitVec.xor_assoc, ← BitVec.xor_assoc polynomial, BitVec.xor_self,
      BitVec.zero_xor]

theorem bits_xor (n : ℕ) (x y : BitVec 32) : bits n (x ^^^ y) = bits n x ^^^ bits n y := by
  induction n generalizing x y with
  | zero => rfl
  | succ n ih => rw [bits, bits, bits, bitStep_xor, ih]

/-- While clear bits are shifted out, nothing is added. -/
theorem bits_of_low_clear {n : ℕ} {x : BitVec 32} (h : ∀ i < n, x.getLsbD i = false) : bits n x = x >>> n := by
  induction n generalizing x with
  | zero => rw [bits, BitVec.ushiftRight_zero]
  | succ n ih =>
      have hstep : bitStep x = x >>> 1 := by
        rw [bitStep, h 0 (Nat.succ_pos n)]
        rfl
      have hrest : ∀ i < n, (x >>> 1).getLsbD i = false := by
        intro i hi
        rw [BitVec.getLsbD_ushiftRight]
        exact h (1 + i) (by omega)
      rw [bits, hstep, ih hrest, ← BitVec.shiftRight_add, Nat.add_comm]

theorem getLsbD_mask (i : ℕ) : (0xff#32).getLsbD i = decide (i < 8) := by
  have hmask : 0xff#32 = (BitVec.allOnes 8).setWidth 32 := by decide
  rw [hmask, BitVec.getLsbD_setWidth, BitVec.getLsbD_allOnes]
  by_cases hi : i < 8
  · simp [hi]
    omega
  · simp [hi]

/-- Eight steps: those of the low byte, and the others move down. -/
theorem bits_eight (x : BitVec 32) : bits 8 x = (x >>> 8) ^^^ bits 8 (x &&& 0xff#32) := by
  have hsplit : x = (x &&& ~~~ 0xff#32) ^^^ (x &&& 0xff#32) := by
    apply BitVec.eq_of_getElem_eq
    intro i hi
    rw [BitVec.getElem_xor, BitVec.getElem_and, BitVec.getElem_and, BitVec.getElem_not]
    cases x[i] <;> cases (0xff#32)[i] <;> rfl
  have hclear : ∀ i < 8, (x &&& ~~~ 0xff#32).getLsbD i = false := by
    intro i hi
    rw [BitVec.getLsbD_and, BitVec.getLsbD_not, getLsbD_mask, decide_eq_true hi]
    simp
  have hhigh : (x &&& ~~~ 0xff#32) >>> 8 = x >>> 8 := by
    apply BitVec.eq_of_getLsbD_eq
    intro i hi
    rw [BitVec.getLsbD_ushiftRight, BitVec.getLsbD_ushiftRight, BitVec.getLsbD_and, BitVec.getLsbD_not, getLsbD_mask]
    by_cases hlt : 8 + i < 32
    · simp [hlt]
    · simp [BitVec.getLsbD_of_ge x (8 + i) (Nat.not_lt.1 hlt)]
  calc bits 8 x = bits 8 ((x &&& ~~~ 0xff#32) ^^^ (x &&& 0xff#32)) := by rw [← hsplit]
    _ = (x >>> 8) ^^^ bits 8 (x &&& 0xff#32) := by rw [bits_xor, bits_of_low_clear hclear, hhigh]

/-- **A byte by the table** of `bits 8`. -/
theorem byteStep_eq (crc : BitVec 32) (b : UInt8) :
    byteStep crc b = (crc >>> 8) ^^^ bits 8 ((crc ^^^ b.toBitVec.setWidth 32) &&& 0xff#32) := by
  have hshift : (b.toBitVec.setWidth 32) >>> 8 = 0#32 := by
    apply BitVec.eq_of_toNat_eq
    rw [BitVec.toNat_ushiftRight, BitVec.toNat_setWidth, Nat.shiftRight_eq_div_pow]
    have hlt := b.toBitVec.isLt
    simp only [BitVec.toNat_ofNat]
    omega
  rw [byteStep, bits_eight, BitVec.ushiftRight_xor_distrib, hshift, BitVec.xor_zero]

end Crc32
