import Mathlib.Algebra.Ring.Nat
import Mathlib.Data.List.Basic
import Mathlib.Tactic.Common

set_option autoImplicit false

/-! # UTF-8

`str.encode()` and `bytes.decode()` with the codec `utf-8` and strict errors. A Python text is a list of code
points, the surrogates among them, which have no encoding. What matters about lengths is that a code point
takes one byte exactly when it is ASCII. -/

namespace Utf8

abbrev CodePoint := Fin 0x110000

instance codePoints_neZero : NeZero (0x110000 : ℕ) := ⟨by decide⟩

/-- The bytes of a code point; `none` for a surrogate. -/
def encodeOne (c : CodePoint) : Option (List UInt8) :=
  let n := c.val
  if n < 0x80 then some [.ofNat n]
  else if n < 0x800 then some [.ofNat (0xC0 + n / 0x40), .ofNat (0x80 + n % 0x40)]
  else if 0xD800 ≤ n ∧ n < 0xE000 then none
  else if n < 0x10000 then
    some [.ofNat (0xE0 + n / 0x1000), .ofNat (0x80 + n / 0x40 % 0x40), .ofNat (0x80 + n % 0x40)]
  else
    some [.ofNat (0xF0 + n / 0x40000), .ofNat (0x80 + n / 0x1000 % 0x40), .ofNat (0x80 + n / 0x40 % 0x40),
      .ofNat (0x80 + n % 0x40)]

/-- `text.encode()`; `none` is the `UnicodeEncodeError`. -/
def encode : List CodePoint → Option (List UInt8)
  | [] => some []
  | c :: text => do
      let bytes ← encodeOne c
      let rest ← encode text
      pure (bytes ++ rest)

def isTail (b : UInt8) : Bool := 0x80 ≤ b.toNat && b.toNat < 0xC0

/-- The code point of a number that is not below `low`, if it is one and no surrogate. -/
def codePoint (low n : ℕ) : Option CodePoint :=
  if h : n < 0x110000 then
    if low ≤ n ∧ ¬ (0xD800 ≤ n ∧ n < 0xE000) then some ⟨n, h⟩ else none
  else none

/-- The first code point and the bytes behind it. -/
def decodeOne : List UInt8 → Option (CodePoint × List UInt8)
  | [] => none
  | a :: rest =>
      if a.toNat < 0x80 then (codePoint 0 a.toNat).map (·, rest)
      else if a.toNat < 0xC0 then none
      else if a.toNat < 0xE0 then
        match rest with
        | b :: rest =>
            if isTail b then (codePoint 0x80 ((a.toNat - 0xC0) * 0x40 + (b.toNat - 0x80))).map (·, rest)
            else none
        | _ => none
      else if a.toNat < 0xF0 then
        match rest with
        | b :: c :: rest =>
            if isTail b && isTail c then
              (codePoint 0x800
                ((a.toNat - 0xE0) * 0x1000 + (b.toNat - 0x80) * 0x40 + (c.toNat - 0x80))).map (·, rest)
            else none
        | _ => none
      else
        match rest with
        | b :: c :: d :: rest =>
            if isTail b && isTail c && isTail d then
              (codePoint 0x10000 ((a.toNat - 0xF0) * 0x40000 + (b.toNat - 0x80) * 0x1000 +
                (c.toNat - 0x80) * 0x40 + (d.toNat - 0x80))).map (·, rest)
            else none
        | _ => none

/-- The code points of bytes that hold at most so many of them. -/
def decodeMost : ℕ → List UInt8 → Option (List CodePoint)
  | _, [] => some []
  | 0, _ :: _ => none
  | n + 1, a :: rest => do
      let (c, rest) ← decodeOne (a :: rest)
      let text ← decodeMost n rest
      pure (c :: text)

/-- `bytes.decode()`; `none` is the `UnicodeDecodeError`. -/
def decode (bytes : List UInt8) : Option (List CodePoint) := decodeMost bytes.length bytes

/-! ## Lengths -/

/-- The text is ASCII. -/
def Ascii (text : List CodePoint) : Prop := ∀ c ∈ text, c.val < 0x80

instance (text : List CodePoint) : Decidable (Ascii text) :=
  List.decidableBAll (fun c : CodePoint => c.val < 0x80) text

/-- A code point takes one byte if it is ASCII, and more if it is not. -/
theorem length_encodeOne {c : CodePoint} {bytes : List UInt8} (h : encodeOne c = some bytes) :
    1 ≤ bytes.length ∧ (bytes.length = 1 ↔ c.val < 0x80) := by
  simp only [encodeOne] at h
  split at h
  · next hc =>
      cases h
      simp [hc]
  · next hc =>
      split at h
      · cases h
        simpa using hc
      · split at h
        · cases h
        · split at h <;>
          · cases h
            simpa using hc

/-- An encoded text is at least as long as the text, and as long exactly when it is ASCII. -/
theorem length_encode {text : List CodePoint} {bytes : List UInt8} (h : encode text = some bytes) :
    text.length ≤ bytes.length ∧ (bytes.length = text.length ↔ Ascii text) := by
  induction text generalizing bytes with
  | nil =>
      cases h
      exact ⟨Nat.le_refl _, fun _ _ hc => (nomatch hc), fun _ => rfl⟩
  | cons c text ih =>
      obtain ⟨first, hfirst, h⟩ := Option.bind_eq_some_iff.1 h
      obtain ⟨rest, hrest, h⟩ := Option.bind_eq_some_iff.1 h
      cases h
      obtain ⟨hone, hascii⟩ := length_encodeOne hfirst
      obtain ⟨hle, hall⟩ := ih hrest
      have hcons : Ascii (c :: text) ↔ c.val < 0x80 ∧ Ascii text := List.forall_mem_cons
      rw [hcons, ← hascii, ← hall, List.length_append, List.length_cons]
      refine ⟨by omega, by omega, by omega⟩

/-- An ASCII text can be encoded. -/
theorem encode_of_ascii {text : List CodePoint} (h : Ascii text) :
    encode text = some (text.map fun c => UInt8.ofNat c.val) := by
  induction text with
  | nil => rfl
  | cons c text ih =>
      have hc : encodeOne c = some [UInt8.ofNat c.val] := by
        simp [encodeOne, h c List.mem_cons_self]
      rw [encode, hc, ih fun d hd => h d (List.mem_cons_of_mem _ hd)]
      rfl

/-- A code point leaves behind it what its form says. -/
theorem rest_of_map {point : Option CodePoint} {tail rest : List UInt8} {c : CodePoint}
    (h : point.map (·, tail) = some (c, rest)) : rest = tail := by
  obtain ⟨c', -, h⟩ := Option.map_eq_some_iff.1 h
  exact (congrArg Prod.snd h).symm

theorem length_decodeOne {a : UInt8} {bytes rest : List UInt8} {c : CodePoint}
    (h : decodeOne (a :: bytes) = some (c, rest)) :
    rest.length ≤ bytes.length ∧ (0x80 ≤ a.toNat → rest.length < bytes.length) := by
  simp only [decodeOne] at h
  split at h
  · next ha =>
      rw [rest_of_map h]
      exact ⟨Nat.le_refl _, fun hge => absurd ha (Nat.not_lt.2 hge)⟩
  -- the longer forms drop the bytes behind the first one
  have hlonger : rest.length < bytes.length := by
    split at h
    · exact absurd h (by simp)
    split at h
    · split at h
      · split at h
        · rw [rest_of_map h, List.length_cons]
          omega
        · exact absurd h (by simp)
      · exact absurd h (by simp)
    split at h
    · split at h
      · split at h
        · rw [rest_of_map h, List.length_cons, List.length_cons]
          omega
        · exact absurd h (by simp)
      · exact absurd h (by simp)
    · split at h
      · split at h
        · rw [rest_of_map h, List.length_cons, List.length_cons, List.length_cons]
          omega
        · exact absurd h (by simp)
      · exact absurd h (by simp)
  exact ⟨Nat.le_of_lt hlonger, fun _ => hlonger⟩

/-- There are no more code points than bytes, and fewer when the first byte is no ASCII character. -/
theorem length_decode {bytes : List UInt8} {text : List CodePoint} (h : decode bytes = some text) :
    text.length ≤ bytes.length ∧ (∀ a ∈ bytes.head?, 0x80 ≤ a.toNat → text.length < bytes.length) := by
  have hmost : ∀ (n : ℕ) (bytes : List UInt8) (text : List CodePoint), decodeMost n bytes = some text →
      text.length ≤ bytes.length ∧ (∀ a ∈ bytes.head?, 0x80 ≤ a.toNat → text.length < bytes.length) := by
    intro n
    induction n with
    | zero =>
        intro bytes text h
        rcases bytes with _ | ⟨a, bytes⟩
        · cases h
          exact ⟨Nat.le_refl _, fun _ ha => (nomatch ha)⟩
        · cases h
    | succ n ih =>
        intro bytes text h
        rcases bytes with _ | ⟨a, bytes⟩
        · cases h
          exact ⟨Nat.le_refl _, fun _ ha => (nomatch ha)⟩
        · obtain ⟨⟨c, rest⟩, hone, h⟩ := Option.bind_eq_some_iff.1 h
          obtain ⟨text', hrest, h⟩ := Option.bind_eq_some_iff.1 h
          cases h
          obtain ⟨hle, hlt⟩ := length_decodeOne hone
          have hrec := (ih rest text' hrest).1
          simp only [List.length_cons]
          refine ⟨by omega, ?_⟩
          intro a' ha' hge
          cases ha'
          have := hlt hge
          omega
  exact hmost bytes.length bytes text h

/-- A single ASCII character. -/
theorem decode_singleton {c : CodePoint} (h : c.val < 0x80) : decode [UInt8.ofNat c.val] = some [c] := by
  have hbyte : (UInt8.ofNat c.val).toNat = c.val := by
    rw [UInt8.toNat_ofNat']
    omega
  have hpoint : codePoint 0 c.val = some c := by
    rw [codePoint, dif_pos c.isLt, if_pos (by omega)]
  simp [decode, decodeMost, decodeOne, hbyte, h, hpoint]

/-! ## Decoding what has been encoded -/

theorem codePoint_val {low : ℕ} {c : CodePoint} (hlow : low ≤ c.val)
    (hsurrogate : ¬ (0xD800 ≤ c.val ∧ c.val < 0xE000)) : codePoint low c.val = some c := by
  rw [codePoint, dif_pos c.isLt, if_pos ⟨hlow, hsurrogate⟩]

theorem toNat_ofNat_of_lt {n : ℕ} (h : n < 256) : (UInt8.ofNat n).toNat = n := by
  rw [UInt8.toNat_ofNat']
  exact Nat.mod_eq_of_lt h

/-- The bytes behind the first one, each with six bits. -/
theorem toNat_tail (n : ℕ) : (UInt8.ofNat (0x80 + n % 0x40)).toNat = 0x80 + n % 0x40 :=
  toNat_ofNat_of_lt (by omega)

theorem isTail_tail (n : ℕ) : isTail (.ofNat (0x80 + n % 0x40)) = true := by
  rw [isTail, toNat_tail]
  simp
  omega

/-- What has been encoded is decoded again, whatever follows. -/
theorem decodeOne_encodeOne {c : CodePoint} {bytes : List UInt8} (h : encodeOne c = some bytes) (rest : List UInt8) :
    decodeOne (bytes ++ rest) = some (c, rest) := by
  have hc := c.isLt
  simp only [encodeOne] at h
  split at h
  · next hone =>
      obtain rfl := Option.some.inj h
      have hfirst := toNat_ofNat_of_lt (n := c.val) (by omega)
      simp only [List.singleton_append, decodeOne, hfirst, hone, if_true]
      rw [codePoint_val (Nat.zero_le _) (by omega)]
      rfl
  split at h
  · next hone htwo =>
      obtain rfl := Option.some.inj h
      have hfirst := toNat_ofNat_of_lt (n := 0xC0 + c.val / 0x40) (by omega)
      have hval : (0xC0 + c.val / 0x40 - 0xC0) * 0x40 + (0x80 + c.val % 0x40 - 0x80) = c.val := by omega
      simp only [List.cons_append, List.nil_append, decodeOne, hfirst, toNat_tail, isTail_tail, if_true]
      rw [if_neg (by omega), if_neg (by omega), if_pos (by omega), hval, codePoint_val (by omega) (by omega)]
      rfl
  split at h
  · cases h
  split at h
  · next hone htwo hsurrogate hthree =>
      obtain rfl := Option.some.inj h
      have hfirst := toNat_ofNat_of_lt (n := 0xE0 + c.val / 0x1000) (by omega)
      have hval : (0xE0 + c.val / 0x1000 - 0xE0) * 0x1000 + (0x80 + c.val / 0x40 % 0x40 - 0x80) * 0x40 +
          (0x80 + c.val % 0x40 - 0x80) = c.val := by omega
      simp only [List.cons_append, List.nil_append, decodeOne, hfirst, toNat_tail, isTail_tail, Bool.and_self, if_true]
      rw [if_neg (by omega), if_neg (by omega), if_neg (by omega), if_pos (by omega), hval,
        codePoint_val (by omega) (by omega)]
      rfl
  · next hone htwo hsurrogate hthree =>
      obtain rfl := Option.some.inj h
      have hfirst := toNat_ofNat_of_lt (n := 0xF0 + c.val / 0x40000) (by omega)
      have hval : (0xF0 + c.val / 0x40000 - 0xF0) * 0x40000 + (0x80 + c.val / 0x1000 % 0x40 - 0x80) * 0x1000 +
          (0x80 + c.val / 0x40 % 0x40 - 0x80) * 0x40 + (0x80 + c.val % 0x40 - 0x80) = c.val := by omega
      simp only [List.cons_append, List.nil_append, decodeOne, hfirst, toNat_tail, isTail_tail, Bool.and_self, if_true]
      rw [if_neg (by omega), if_neg (by omega), if_neg (by omega), if_neg (by omega), hval,
        codePoint_val (by omega) (by omega)]
      rfl

end Utf8
