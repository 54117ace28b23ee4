import TestInfra.Lib.Find
import TestInfra.Lib.PyText
import Mathlib.Data.Int.Notation

set_option autoImplicit false

/-! # A `char` field

`find_char_field` (`lib/couchbase_helper/query_helper.py`) looks for a `char` in the fields of a table that is not the
end of a `varchar`. It goes through the occurrences of `char` and those of `rchar` at the same time.

The occurrences of `rchar` that it collects do not overlap. In `rcharchar` they could: the second `char` begins where
the first `rchar` ends, behind a letter `r` that has been used up. -/

open PyText Find

namespace QueryHelper

/-- `find_all`. -/
def findAll (aStr sub : Text) : List ℕ := Find.findAll sub aStr (aStr.length + 1) 0

/-- The loop of `find_char_field` over the two lists. -/
def charField : List ℕ → List ℕ → ℤ
  | [], _ => -1
  | c :: _, [] => c
  | c :: chars, r :: rchars => if c ≠ r + 1 then c else charField chars rchars

/-- `find_char_field`. -/
def findCharField (aStr : Text) : ℤ := charField (findAll aStr "char".toList) (findAll aStr "rchar".toList)

/-- A `char` that is not behind the letter `r`. -/
def IsChar (aStr : Text) (p : ℕ) : Prop :=
  OccursAt "char".toList aStr p ∧ ∀ q, q + 1 = p → aStr[q]? ≠ some 'r'

/-- Where the loop stops: at such a `char`, or at one right behind an `rchar`. -/
def StopsAt (aStr : Text) (p : ℕ) : Prop :=
  IsChar aStr p ∨ ∃ q, p = q + 5 ∧ OccursAt "rcharchar".toList aStr q

variable {aStr : Text} {p q start : ℕ}

theorem rchar_iff : OccursAt "rchar".toList aStr p ↔ aStr[p]? = some 'r' ∧ OccursAt "char".toList aStr (p + 1) :=
  occursAt_cons_iff

theorem char_iff : OccursAt "char".toList aStr p ↔
    aStr[p]? = some 'c' ∧ aStr[p + 1]? = some 'h' ∧ aStr[p + 2]? = some 'a' ∧ aStr[p + 3]? = some 'r' := by
  rw [show "char".toList = ['c', 'h', 'a', 'r'] from rfl, occursAt_cons_iff, occursAt_cons_iff, occursAt_cons_iff,
    occursAt_cons_iff]
  exact and_congr_right' (and_congr_right' (and_congr_right' (and_iff_left (List.nil_prefix ..))))

theorem rcharchar_iff : OccursAt "rcharchar".toList aStr p ↔
    OccursAt "rchar".toList aStr p ∧ OccursAt "char".toList aStr (p + 5) := by
  rw [rchar_iff, and_assoc, show "rcharchar".toList = 'r' :: 'c' :: 'h' :: 'a' :: 'r' :: "char".toList from rfl,
    occursAt_cons_iff, occursAt_cons_iff, occursAt_cons_iff, occursAt_cons_iff, occursAt_cons_iff]
  simp only [char_iff, and_assoc, Nat.add_assoc, Nat.reduceAdd]

/-- Two occurrences of `char` do not overlap. -/
theorem char_le_of_lt (hp : OccursAt "char".toList aStr p) (hq : OccursAt "char".toList aStr q) (h : p < q) :
    p + 4 ≤ q := by
  by_contra hlt
  obtain ⟨-, h1, h2, h3⟩ := char_iff.1 hp
  have hc := (char_iff.1 hq).1
  obtain rfl | rfl | rfl : q = p + 1 ∨ q = p + 2 ∨ q = p + 3 := by omega
  · exact absurd (h1.symm.trans hc) (by decide)
  · exact absurd (h2.symm.trans hc) (by decide)
  · exact absurd (h3.symm.trans hc) (by decide)

/-! ## The loop -/

/-- The loop has come to this position: it has not stopped before, and an `rchar` ends there. -/
structure Passed (aStr : Text) (start : ℕ) : Prop where
  before : ∀ q < start, ¬ StopsAt aStr q
  behind : start ≠ 0 → ∃ q, start = q + 5 ∧ OccursAt "rchar".toList aStr q

theorem StopsAt.char (h : StopsAt aStr p) : OccursAt "char".toList aStr p := by
  rcases h with hchar | ⟨q, rfl, hq⟩
  · exact hchar.1
  · exact (rcharchar_iff.1 hq).2

/-- The loop stops at the next `char` unless the next `rchar` ends with it. -/
theorem Passed.stopsAt_iff (h : Passed aStr start) (hstart : start ≤ p) (hp : OccursAt "char".toList aStr p)
    (hfirst : ∀ q, start ≤ q → q < p → ¬ OccursAt "char".toList aStr q) :
    StopsAt aStr p ↔ ∀ q, q + 1 = p → start ≤ q → ¬ OccursAt "rchar".toList aStr q := by
  constructor
  · rintro (hchar | ⟨q, rfl, hq⟩) r hr hle hrchar
    · exact hchar.2 r hr (rchar_iff.1 hrchar).1
    · -- the `char` in the first `rchar` is not before the start, and not behind it
      obtain ⟨hq, -⟩ := rcharchar_iff.1 hq
      have hin := (rchar_iff.1 hq).2
      by_cases hlt : q + 1 < start
      · obtain ⟨s, hs, hbehind⟩ := h.behind (by omega)
        have hlast := (rchar_iff.1 hbehind).2
        rcases lt_trichotomy (s + 1) (q + 1) with hless | heq | hgreater
        · have hgap := char_le_of_lt hlast hin hless
          omega
        · omega
        · have hgap := char_le_of_lt hin hlast hgreater
          omega
      · exact hfirst (q + 1) (by omega) (by omega) hin
  · intro hnone
    by_cases hfree : ∀ q, q + 1 = p → aStr[q]? ≠ some 'r'
    · exact .inl ⟨hp, hfree⟩
    · push Not at hfree
      obtain ⟨q, rfl, hr⟩ := hfree
      have hrchar := rchar_iff.2 ⟨hr, hp⟩
      -- the letter `r` is before the start, as the last one of an `rchar`
      have hlt : q < start := not_le.1 fun hle => hnone q rfl hle hrchar
      obtain ⟨s, hs, hbehind⟩ := h.behind (by omega)
      obtain rfl : q = s + 4 := by omega
      exact .inr ⟨s, rfl, rcharchar_iff.2 ⟨hbehind, hp⟩⟩

theorem charField_isFirst {fuel : ℕ} (h : Passed aStr start) (hfuel : aStr.length < fuel + start) :
    IsFirst (StopsAt aStr)
      (charField (Find.findAll "char".toList aStr fuel start) (Find.findAll "rchar".toList aStr fuel start)) := by
  have hchar : "char".toList ≠ [] := by decide
  have hrchar : "rchar".toList ≠ [] := by decide
  induction fuel generalizing start with
  | zero =>
      refine .inr ⟨rfl, fun q hq => ?_⟩
      have hlt := hq.char.lt_length hchar
      exact h.before q (by omega) hq
  | succ fuel ih =>
      rw [Find.findAll, Find.findAll]
      rcases hc : find "char".toList aStr start with _ | c
      · rw [find_eq_none_iff hchar] at hc
        refine .inr ⟨rfl, fun q hq => ?_⟩
        exact hc q (not_lt.1 fun hlt => h.before q hlt hq) hq.char
      obtain ⟨hle, hoccurs, hfirst⟩ := (find_eq_some_iff hchar).1 hc
      have hbefore : ∀ q < c, ¬ StopsAt aStr q := fun q hlt hq =>
        hfirst q (not_lt.1 fun hless => h.before q hless hq) hlt hq.char
      have hstops := h.stopsAt_iff hle hoccurs hfirst
      rcases hr : find "rchar".toList aStr start with _ | r
      · rw [find_eq_none_iff hrchar] at hr
        exact .inl ⟨c, rfl, hstops.2 fun q _ => hr q, hbefore⟩
      obtain ⟨hler, hoccursr, hfirstr⟩ := (find_eq_some_iff hrchar).1 hr
      have hin := (rchar_iff.1 hoccursr).2
      simp only [charField]
      by_cases hne : c ≠ r + 1
      · rw [if_pos hne]
        refine .inl ⟨c, rfl, hstops.2 fun q hq hleq hq' => ?_, hbefore⟩
        -- the first `rchar` would hold a `char` before the first one
        rcases lt_trichotomy q r with hlt | rfl | hgt
        · exact hfirstr q hleq hlt hq'
        · exact hne hq.symm
        · exact hfirst (r + 1) (by omega) (by omega) hin
      · obtain rfl : c = r + 1 := not_not.1 hne
        rw [if_neg hne]
        have hpassed : Passed aStr (r + 5) := by
          refine ⟨fun q hq hq' => ?_, fun _ => ⟨r, rfl, hoccursr⟩⟩
          rcases lt_trichotomy q (r + 1) with hlt | rfl | hgt
          · exact hbefore q hlt hq'
          · exact hstops.1 hq' r rfl hler hoccursr
          · have hgap := char_le_of_lt hoccurs hq'.char hgt
            omega
        exact ih hpassed (by omega)

/-- **The first `char`**: the position is that of the first `char` that is not behind an `r`, and `-1` when there is
    none, if there is such a `char` before each `rcharchar`, and only then. -/
theorem findCharField_isFirst_iff (aStr : Text) :
    IsFirst (IsChar aStr) (findCharField aStr)
      ↔ ∀ p, OccursAt "rcharchar".toList aStr p → ∃ q < p, IsChar aStr q := by
  have hpassed : Passed aStr 0 := ⟨fun q hq => absurd hq (Nat.not_lt_zero q), fun h => absurd rfl h⟩
  have hstops : IsFirst (StopsAt aStr) (findCharField aStr) :=
    charField_isFirst hpassed (Nat.lt_succ_self aStr.length)
  rw [hstops.iff_of_imp fun p hp => .inl hp]
  constructor
  · intro h p hp
    obtain ⟨hrchar, hsecond⟩ := rcharchar_iff.1 hp
    obtain ⟨hr, hfirst⟩ := rchar_iff.1 hrchar
    obtain ⟨q, hq, hchar⟩ := h (p + 5) (.inr ⟨p, rfl, hp⟩)
    refine ⟨q, ?_, hchar⟩
    -- both letters `r` are there
    rcases lt_trichotomy q (p + 1) with hlt | rfl | hgt
    · rcases Nat.lt_succ_iff_lt_or_eq.1 hlt with hlt | rfl
      · exact hlt
      · exact absurd (hr.symm.trans (char_iff.1 hchar.1).1) (by decide)
    · exact absurd hr (hchar.2 p rfl)
    · have hgap := char_le_of_lt hfirst hchar.1 hgt
      obtain rfl : q = p + 5 := by omega
      exact absurd (char_iff.1 hfirst).2.2.2 (hchar.2 (p + 4) rfl)
  · rintro h p (hchar | ⟨q, rfl, hq⟩)
    · exact ⟨p, le_rfl, hchar⟩
    · obtain ⟨r, hr, hchar⟩ := h q hq
      exact ⟨r, by omega, hchar⟩

/-- The second `char` of `rcharchar` is taken for a field. -/
theorem findCharField_rcharchar : ¬ ∀ aStr, IsFirst (IsChar aStr) (findCharField aStr) := by
  intro h
  have hresult : findCharField "varcharchar".toList = 7 := by decide
  rcases h "varcharchar".toList with ⟨p, hp, hchar, -⟩ | ⟨hnone, -⟩
  · rw [hresult] at hp
    obtain rfl : p = 7 := by omega
    exact hchar.2 6 rfl (by decide)
  · rw [hresult] at hnone
    omega

end QueryHelper
