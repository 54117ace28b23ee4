import Mathlib.Algebra.Ring.Nat
import Mathlib.Data.List.Basic

set_option autoImplicit false

/-! # Packed records of unsigned big-endian fields

`struct.pack` and `struct.unpack` for formats that start with `>` and have only unsigned fields (`B`, `H`, `I`,
`Q`). A format is the list of the widths of its fields, in bytes. -/

namespace Struct

/-- The `width` bytes of a number, the highest first. -/
def beBytes : ℕ → ℕ → List UInt8
  | 0, _ => []
  | width + 1, n => beBytes width (n / 256) ++ [UInt8.ofNat n]

/-- The number that bytes stand for. -/
def beValue (bytes : List UInt8) : ℕ := bytes.foldl (fun n b => 256 * n + b.toNat) 0

@[simp] theorem length_beBytes (width n : ℕ) : (beBytes width n).length = width := by
  induction width generalizing n with
  | zero => rfl
  | succ width ih => rw [beBytes, List.length_append, ih, List.length_singleton]

theorem beValue_append_singleton (bytes : List UInt8) (b : UInt8) :
    beValue (bytes ++ [b]) = 256 * beValue bytes + b.toNat := by
  rw [beValue, List.foldl_append]
  rfl

theorem beValue_beBytes {width n : ℕ} (h : n < 256 ^ width) : beValue (beBytes width n) = n := by
  induction width generalizing n with
  | zero =>
      rw [Nat.pow_zero, Nat.lt_one_iff] at h
      subst h
      rfl
  | succ width ih =>
      have hdiv : n / 256 < 256 ^ width := Nat.div_lt_of_lt_mul (by rwa [Nat.mul_comm, ← Nat.pow_succ])
      rw [beBytes, beValue_append_singleton, ih hdiv, UInt8.toNat_ofNat']
      exact Nat.div_add_mod n 256

/-- `struct.pack`; `none` is the `struct.error` for a value out of range. -/
def pack : List ℕ → List ℕ → Option (List UInt8)
  | [], [] => some []
  | width :: widths, v :: values =>
      if v < 256 ^ width then (pack widths values).map (beBytes width v ++ ·) else none
  | _, _ => none

/-- `struct.unpack` of bytes of the right length. -/
def unpack : List ℕ → List UInt8 → List ℕ
  | [], _ => []
  | width :: widths, bytes => beValue (bytes.take width) :: unpack widths (bytes.drop width)

theorem length_pack {widths values : List ℕ} {bytes : List UInt8} (h : pack widths values = some bytes) :
    bytes.length = widths.sum := by
  induction widths generalizing values bytes with
  | nil =>
      rcases values with _ | ⟨v, values⟩
      · cases h
        rfl
      · cases h
  | cons width widths ih =>
      rcases values with _ | ⟨v, values⟩
      · cases h
      · rw [pack] at h
        split at h
        · obtain ⟨rest, hrest, rfl⟩ := Option.map_eq_some_iff.1 h
          rw [List.length_append, length_beBytes, ih hrest, List.sum_cons]
        · cases h

/-- What was packed is unpacked. -/
theorem unpack_pack {widths values : List ℕ} {bytes : List UInt8} (h : pack widths values = some bytes) :
    unpack widths bytes = values := by
  induction widths generalizing values bytes with
  | nil =>
      rcases values with _ | ⟨v, values⟩
      · rfl
      · cases h
  | cons width widths ih =>
      rcases values with _ | ⟨v, values⟩
      · cases h
      · rw [pack] at h
        split at h
        · next hv =>
            obtain ⟨rest, hrest, rfl⟩ := Option.map_eq_some_iff.1 h
            have htake : (beBytes width v ++ rest).take width = beBytes width v :=
              List.take_left' (length_beBytes width v)
            have hdrop : (beBytes width v ++ rest).drop width = rest :=
              List.drop_left' (length_beBytes width v)
            rw [unpack, htake, hdrop, beValue_beBytes hv, ih hrest]
        · cases h

/-- Values are packed exactly when there is one for each field and each is in range. -/
theorem pack_isSome_iff (widths values : List ℕ) :
    (pack widths values).isSome ↔ List.Forall₂ (fun width v => v < 256 ^ width) widths values := by
  induction widths generalizing values with
  | nil =>
      rcases values with _ | ⟨v, values⟩
      · simp [pack]
      · refine ⟨fun h => ?_, fun h => ?_⟩ <;> cases h
  | cons width widths ih =>
      rcases values with _ | ⟨v, values⟩
      · refine ⟨fun h => ?_, fun h => ?_⟩ <;> cases h
      · rw [pack, List.forall₂_cons, ← ih]
        split
        · next hv => simp [hv]
        · next hv => simp [hv]

end Struct
