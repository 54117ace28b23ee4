import Mathlib.Data.List.Basic

set_option autoImplicit false

/-! # Reading from a stream socket

`recv(n)` returns some of the bytes that are there, at least one and at most `n`, and none at the end of the
stream. A reader that wants so many bytes calls it until it has them. `readFull_eq` says that the sizes of the
pieces make no difference: the bytes are those a single read would take, or the stream was too short. -/

namespace Sockets

/-- The receiving end of a connection: the bytes to come, and how many of them each call of `recv` finds, which may
    be any number. -/
structure Socket where
  stream : List UInt8
  sizes : ℕ → ℕ
  calls : ℕ

/-- `recv(n)`. -/
def recv (n : ℕ) (s : Socket) : List UInt8 × Socket :=
  let size := min n (max 1 (s.sizes s.calls))
  (s.stream.take size, { s with stream := s.stream.drop size, calls := s.calls + 1 })

theorem recv_of_nil (n : ℕ) {s : Socket} (h : s.stream = []) : (recv n s).1 = [] ∧ (recv n s).2.stream = [] := by
  simp [recv, h]

/-- A call gets at least one byte, and no more than it asks for. -/
theorem recv_of_ne_nil {n : ℕ} (hn : 0 < n) {s : Socket} (h : s.stream ≠ []) :
    ∃ k, 0 < k ∧ k ≤ n ∧ k ≤ s.stream.length ∧ (recv n s).1 = s.stream.take k ∧
      (recv n s).2.stream = s.stream.drop k := by
  have hlen := List.length_pos_of_ne_nil h
  refine ⟨min (min n (max 1 (s.sizes s.calls))) s.stream.length, by omega, by omega, by omega, ?_, ?_⟩
  · exact List.take_eq_take_min
  · exact List.drop_eq_drop_min

/-- Calls of `recv` until `n` more bytes are there; `none` when the stream ends before. -/
def readFull : ℕ → ℕ → List UInt8 → Socket → Option (List UInt8) × Socket
  | 0, _, got, s => (some got, s)
  | fuel + 1, n, got, s =>
      if 0 < n then
        let (data, s) := recv n s
        if data = [] then (none, s) else readFull fuel (n - data.length) (got ++ data) s
      else (some got, s)

/-- **The pieces make no difference**: with enough bytes to come, a reader gets exactly those it wants and leaves
    the others; with fewer it reaches the end of the stream. -/
theorem readFull_eq {fuel n : ℕ} (hfuel : n ≤ fuel) (got : List UInt8) (s : Socket) :
    (n ≤ s.stream.length →
      (readFull fuel n got s).1 = some (got ++ s.stream.take n) ∧
        (readFull fuel n got s).2.stream = s.stream.drop n) ∧
    (s.stream.length < n → (readFull fuel n got s).1 = none) := by
  induction fuel generalizing n got s with
  | zero =>
      obtain rfl := Nat.le_zero.1 hfuel
      simp [readFull]
  | succ fuel ih =>
      rw [readFull]
      by_cases hn : 0 < n
      · rw [if_pos hn]
        by_cases hstream : s.stream = []
        · have hnil := (recv_of_nil n hstream).1
          simp only [hnil, if_true, hstream, List.length_nil]
          exact ⟨fun h => absurd h (Nat.not_le.2 hn), fun _ => trivial⟩
        · obtain ⟨k, hk, hkn, hklen, hdata, hrest⟩ := recv_of_ne_nil hn hstream
          have hlen : (s.stream.take k).length = k := List.length_take_of_le hklen
          have hne : s.stream.take k ≠ [] := by
            rw [← List.length_pos_iff, hlen]
            exact hk
          simp only [hdata, if_neg hne, hlen]
          obtain ⟨hread, hshort⟩ := ih (n := n - k) (by omega) (got ++ s.stream.take k) (recv n s).2
          rw [hrest, List.length_drop] at hread hshort
          refine ⟨?_, fun h => hshort (by omega)⟩
          intro h
          obtain ⟨hgot, hleft⟩ := hread (by omega)
          have hwhole : k + (n - k) = n := by omega
          rw [List.append_assoc, ← List.take_add, hwhole] at hgot
          rw [List.drop_drop, hwhole] at hleft
          exact ⟨hgot, hleft⟩
      · obtain rfl : n = 0 := by omega
        simp

end Sockets
