import TestInfra.Lib.Json
import TestInfra.Lib.PyInt
import Mathlib.Algebra.Order.BigOperators.Group.List

set_option autoImplicit false

/-! # JSON texts

`json.loads`: white space, words, numbers, strings with their escapes, arrays and objects, of which the last value
under a key counts. Nothing may follow the value.

A value that needs no escaping is written without white space by `dumps`, and is read back (`loads_dumps`). Of any
text, what it is read as is no longer than the text, when the characters of numbers are not counted
(`weight_le_of_loads`): a text that lacks something of a value is not read as it. -/

namespace JsonText

open PyText Json

/-! ## Reading -/

/-- What `json.loads` makes of numbers and words. -/
structure Scalars (α : Type) where
  null : α
  bool : Bool → α
  int : ℤ → α
  float : Text → α

def isWs (c : Char) : Bool := c = ' ' || c = '\t' || c = '\n' || c = '\r'

def skipWs (text : Text) : Text := text.dropWhile isWs

/-- The number of four hexadecimal digits. -/
def hex4 (a b c d : Char) : Option ℕ := do
  let digit : Char → Option ℕ := fun c =>
    if '0' ≤ c ∧ c ≤ '9' then some (c.toNat - 0x30)
    else if 'a' ≤ c ∧ c ≤ 'f' then some (c.toNat - 0x61 + 10)
    else if 'A' ≤ c ∧ c ≤ 'F' then some (c.toNat - 0x41 + 10)
    else none
  return 0x1000 * (← digit a) + 0x100 * (← digit b) + 0x10 * (← digit c) + (← digit d)

/-- The characters of the short escapes. -/
def shortEscapes : List (Char × Char) :=
  [('"', '"'), ('\\', '\\'), ('/', '/'), ('b', '\x08'), ('f', '\x0c'), ('n', '\n'), ('r', '\r'), ('t', '\t')]

/-- The number of `\uXXXX`, and what follows. -/
def scanUnicode : Text → Option (ℕ × Text)
  | a :: b :: c :: d :: rest => (hex4 a b c d).map (·, rest)
  | _ => none

/-- The second half of a surrogate pair. -/
def scanLow : Text → Option (ℕ × Text)
  | s :: u :: rest =>
      if s = '\\' ∧ u = 'u' then
        (scanUnicode rest).bind fun low => if 0xDC00 ≤ low.1 ∧ low.1 < 0xE000 then some low else none
      else none
  | _ => none

/-- What stands behind a backslash. A surrogate without its pair is no character here. -/
def unescape : Text → Option (Char × Text)
  | [] => none
  | c :: rest =>
      if c = 'u' then
        (scanUnicode rest).bind fun (n, rest) =>
          if 0xD800 ≤ n ∧ n < 0xDC00 then
            (scanLow rest).map fun (low, rest) =>
              (Char.ofNat (0x10000 + 0x400 * (n - 0xD800) + (low - 0xDC00)), rest)
          else if 0xDC00 ≤ n ∧ n < 0xE000 then none
          else some (Char.ofNat n, rest)
      else (shortEscapes.find? (·.1 = c)).map fun escape => (escape.2, rest)

/-- The string behind a quote, of at most so many characters and escapes. -/
def scanMost : ℕ → Text → Option (Text × Text)
  | 0, _ => none
  | _, [] => none
  | n + 1, c :: rest =>
      if c = '"' then some ([], rest)
      else if c = '\\' then
        (unescape rest).bind fun (d, rest) => (scanMost n rest).map fun (text, rest) => (d :: text, rest)
      else if c.toNat < 0x20 then none
      else (scanMost n rest).map fun (text, rest) => (c :: text, rest)

/-- The string behind a quote, and what follows. -/
def scanString (text : Text) : Option (Text × Text) := scanMost text.length text

/-- The digits at the start, and what follows. -/
def scanDigits (text : Text) : Text × Text := (text.takeWhile Char.isDigit, text.dropWhile Char.isDigit)

/-- The integer part of a number: `0`, or digits that do not start with it. -/
def scanIntPart : Text → Option (Text × Text)
  | '0' :: rest => some (['0'], rest)
  | text => if (scanDigits text).1 = [] then none else some (scanDigits text)

/-- The fraction of a number, if there is one. -/
def scanFraction : Text → Text × Text
  | [] => ([], [])
  | c :: rest =>
      if c = '.' ∧ (scanDigits rest).1 ≠ [] then (c :: (scanDigits rest).1, (scanDigits rest).2) else ([], c :: rest)

/-- The exponent of a number, if there is one. -/
def scanExponent : Text → Text × Text
  | [] => ([], [])
  | c :: rest =>
      let sign := rest.takeWhile fun d => d = '+' || d = '-'
      let digits := scanDigits (rest.drop sign.length)
      if (c = 'e' ∨ c = 'E') ∧ sign.length ≤ 1 ∧ digits.1 ≠ [] then (c :: sign ++ digits.1, digits.2)
      else ([], c :: rest)

variable {α : Type} (sc : Scalars α)

def scanNumber (text : Text) : Option (α × Text) :=
  let sign := if text.head? = some '-' then ['-'] else []
  (scanIntPart (text.drop sign.length)).map fun (digits, rest) =>
    let (fraction, rest) := scanFraction rest
    let (exponent, rest) := scanExponent rest
    if fraction = [] ∧ exponent = [] then
      let n := Nat.ofDigitChars 10 digits 0
      (sc.int (if sign = [] then n else -n), rest)
    else (sc.float (sign ++ digits ++ fraction ++ exponent), rest)

def words : List (Text × α) :=
  [("null".toList, sc.null), ("true".toList, sc.bool true), ("false".toList, sc.bool false),
    ("NaN".toList, sc.float "NaN".toList), ("Infinity".toList, sc.float "Infinity".toList),
    ("-Infinity".toList, sc.float "-Infinity".toList)]

/-- A word or a number, and what follows. -/
def scanScalar (text : Text) : Option (α × Text) :=
  match (words sc).find? fun word => word.1.isPrefixOf text with
  | some word => some (word.2, text.drop word.1.length)
  | none => scanNumber sc text

section Items

variable {β : Type}

/-- Items with commas between them up to the closing bracket, of at most so many. -/
def scanItems (item : Text → Option (β × Text)) (close : Char) : ℕ → Text → Option (List β × Text)
  | 0, _ => none
  | n + 1, text =>
      (item text).bind fun (x, rest) =>
        match skipWs rest with
        | [] => none
        | c :: rest =>
            if c = close then some ([x], rest)
            else if c = ',' then (scanItems item close n (skipWs rest)).map fun (xs, rest) => (x :: xs, rest)
            else none

/-- What stands behind an opening bracket. -/
def scanBody (item : Text → Option (β × Text)) (close : Char) (text : Text) : Option (List β × Text) :=
  match skipWs text with
  | [] => none
  -- an item has a character at least, so there are no more of them than characters
  | c :: rest => if c = close then some ([], rest) else scanItems item close (rest.length + 1) (c :: rest)

end Items

/-- A key and its value. -/
def scanMember (value : Text → Option (Json α × Text)) : Text → Option ((Text × Json α) × Text)
  | [] => none
  | c :: rest =>
      if c = '"' then
        (scanString rest).bind fun (key, rest) =>
          match skipWs rest with
          | [] => none
          | c :: rest => if c = ':' then (value (skipWs rest)).map fun (v, rest) => ((key, v), rest) else none
      else none

/-- The dictionary of the pairs: the last value under a key counts. -/
def fromPairs (pairs : List (Text × Json α)) : Json α :=
  .dict (pairs.foldl (fun items p => Assoc.store p.1 p.2 items) [])

/-- A value nested at most so deep, and what follows. A text is not nested deeper than it is long. -/
def scanValue : ℕ → Text → Option (Json α × Text)
  | 0, _ => none
  | _, [] => none
  | n + 1, c :: rest =>
      if c = '"' then (scanString rest).map fun (text, rest) => (.str text, rest)
      else if c = '\x7b' then
        (scanBody (scanMember (scanValue n)) '\x7d' rest).map fun (pairs, rest) => (fromPairs pairs, rest)
      else if c = '[' then (scanBody (scanValue n) ']' rest).map fun (items, rest) => (.list items, rest)
      else (scanScalar sc (c :: rest)).map fun (a, rest) => (.scalar a, rest)

/-- `json.loads(text)`; `none` is the `JSONDecodeError`. -/
def loads (text : Text) : Option (Json α) :=
  -- a byte order mark is an error of its own
  if text.head? = some '\uFEFF' then none
  else
    (scanValue sc (skipWs text).length (skipWs text)).bind fun (v, rest) =>
      if skipWs rest = [] then some v else none

/-! ## What a text weighs -/

/-- The characters of numbers. -/
def isNumeric (c : Char) : Bool := c.isDigit || c = '+' || c = '-' || c = '.' || c = 'e' || c = 'E'

/-- The number of characters that are none of a number. -/
def weigh (text : Text) : ℕ := text.countP fun c => !isNumeric c

/-- A character that a string holds only by an escape. -/
def needsEscape (c : Char) : Bool := c = '"' || c = '\\' || c.toNat < 0x20

/-- What the characters of a string weigh at least, with their escapes. -/
def cost (text : Text) : ℕ := weigh text + text.countP needsEscape

/-- What items weigh in brackets and with commas between them. -/
def weighItems (weights : List ℕ) : ℕ := 2 + ((weights.map (· + 1)).sum - 1)

/-- What a value weighs at least, written as a text. -/
def weight {α : Type} : Json α → ℕ :=
  fold (fun _ => 0) (fun text => 2 + cost text) weighItems
    fun items => weighItems (items.map fun p => 3 + cost p.1 + p.2)

theorem weight_list (items : List (Json α)) : weight (.list items) = weighItems (items.map weight) := fold_list ..

theorem weight_dict (items : List (Text × Json α)) :
    weight (.dict items) = weighItems (items.map fun p => 3 + cost p.1 + weight p.2) := by
  rw [weight, fold_dict, List.map_map]
  rfl

theorem weight_mapScalars {β : Type} (f : α → β) (v : Json α) : weight (v.mapScalars f) = weight v := by
  induction v using induct with
  | scalar a => rfl
  | str text => rfl
  | list items ih =>
      rw [mapScalars_list, weight_list, weight_list, List.map_map]
      exact congrArg weighItems (List.map_congr_left ih)
  | dict items ih =>
      have hitems : ∀ p ∈ items, 3 + cost p.1 + weight (p.2.mapScalars f) = 3 + cost p.1 + weight p.2 :=
        fun p hp => by rw [ih p hp]
      rw [mapScalars_dict, weight_dict, weight_dict, List.map_map]
      exact congrArg weighItems (List.map_congr_left hitems)

theorem weigh_append (s t : Text) : weigh (s ++ t) = weigh s + weigh t := List.countP_append

theorem weigh_cons (c : Char) (text : Text) : weigh (c :: text) = weigh [c] + weigh text :=
  weigh_append [c] text

theorem weigh_le_of_suffix {s t : Text} (h : s <:+ t) : weigh s ≤ weigh t := h.sublist.countP_le

theorem cost_cons (c : Char) (text : Text) : cost (c :: text) = cost [c] + cost text := by
  have hescapes : ([c] ++ text).countP needsEscape = [c].countP needsEscape + text.countP needsEscape :=
    List.countP_append
  rw [List.singleton_append] at hescapes
  rw [cost, cost, cost, weigh_cons, hescapes]
  omega

theorem weigh_singleton_le (c : Char) : weigh [c] ≤ 1 := List.countP_le_length

theorem cost_singleton_le (c : Char) : cost [c] ≤ 2 := by
  have hweigh := weigh_singleton_le c
  have hescape : [c].countP needsEscape ≤ 1 := List.countP_le_length
  rw [cost]
  omega

theorem weigh_skipWs_le (text : Text) : weigh (skipWs text) ≤ weigh text :=
  weigh_le_of_suffix (List.dropWhile_suffix _)

/-! ## What is read is no heavier than the text -/

theorem scanUnicode_suffix {text rest : Text} {n : ℕ} (h : scanUnicode text = some (n, rest)) : rest <:+ text := by
  rcases text with _ | ⟨a, _ | ⟨b, _ | ⟨c, _ | ⟨d, text⟩⟩⟩⟩
  · cases h
  · cases h
  · cases h
  · cases h
  · obtain ⟨n', -, hrest⟩ := Option.map_eq_some_iff.1 h
    rw [← (Prod.mk.inj hrest).2]
    exact ⟨[a, b, c, d], rfl⟩

theorem scanLow_suffix {text rest : Text} {n : ℕ} (h : scanLow text = some (n, rest)) : rest <:+ text := by
  rcases text with _ | ⟨s, _ | ⟨u, text⟩⟩
  · cases h
  · cases h
  · rw [scanLow] at h
    split at h
    · obtain ⟨low, hlow, h⟩ := Option.bind_eq_some_iff.1 h
      split at h
      · cases h
        exact (scanUnicode_suffix hlow).trans ⟨[s, u], rfl⟩
      · cases h
    · cases h

/-- An escape weighs more than what it leaves. -/
theorem unescape_weigh {text rest : Text} {c : Char} (h : unescape text = some (c, rest)) :
    weigh rest + 1 ≤ weigh text := by
  rcases text with _ | ⟨e, text⟩
  · cases h
  rw [unescape] at h
  split at h
  · next he =>
      subst he
      have hsuffix : rest <:+ text := by
        obtain ⟨⟨n, tail⟩, hscan, h⟩ := Option.bind_eq_some_iff.1 h
        have htail := scanUnicode_suffix hscan
        dsimp only at h
        split at h
        · obtain ⟨⟨low, tail'⟩, hlow, h⟩ := Option.map_eq_some_iff.1 h
          obtain rfl : tail' = rest := congrArg Prod.snd h
          exact (scanLow_suffix hlow).trans htail
        · split at h
          · cases h
          · obtain rfl : tail = rest := congrArg Prod.snd (Option.some.inj h)
            exact htail
      have hle := weigh_le_of_suffix hsuffix
      have hu : weigh ['u'] = 1 := by decide
      rw [weigh_cons, hu]
      omega
  · obtain ⟨escape, hfind, h⟩ := Option.map_eq_some_iff.1 h
    cases h
    have hmem := List.mem_of_find?_eq_some hfind
    have hletter := List.find?_some hfind
    rw [decide_eq_true_eq] at hletter
    have hone : ∀ escape ∈ shortEscapes, weigh [escape.1] = 1 := by decide
    have he := hone escape hmem
    rw [hletter] at he
    rw [weigh_cons, he]
    omega

theorem scanMost_weigh {n : ℕ} {text s rest : Text} (h : scanMost n text = some (s, rest)) :
    cost s + 1 + weigh rest ≤ weigh text := by
  induction n generalizing text s with
  | zero => cases h
  | succ n ih =>
      rcases text with _ | ⟨c, text⟩
      · cases h
      rw [scanMost] at h
      split at h
      · next hc =>
          cases h
          have hquote : weigh ['"'] = 1 := by decide
          have hcost : cost [] = 0 := rfl
          rw [hc, weigh_cons, hquote, hcost]
      split at h
      · next hc =>
          obtain ⟨⟨d, tail⟩, hescape, h⟩ := Option.bind_eq_some_iff.1 h
          obtain ⟨⟨s', rest'⟩, hscan, h⟩ := Option.map_eq_some_iff.1 h
          cases h
          have hone := unescape_weigh hescape
          have hrest := ih hscan
          have hd := cost_singleton_le d
          have hslash : weigh ['\\'] = 1 := by decide
          rw [hc, weigh_cons, hslash, cost_cons]
          omega
      split at h
      · cases h
      · next hquote hslash hcontrol =>
          obtain ⟨⟨s', rest'⟩, hscan, h⟩ := Option.map_eq_some_iff.1 h
          cases h
          have hrest := ih hscan
          have hplain : needsEscape c = false := by simp [needsEscape, hquote, hslash, hcontrol]
          have hc : cost [c] = weigh [c] := by simp [cost, hplain]
          rw [weigh_cons, cost_cons, hc]
          omega

theorem scanString_weigh {text s rest : Text} (h : scanString text = some (s, rest)) :
    cost s + 1 + weigh rest ≤ weigh text := scanMost_weigh h

theorem scanIntPart_suffix {text digits rest : Text} (h : scanIntPart text = some (digits, rest)) : rest <:+ text := by
  rw [scanIntPart.eq_def] at h
  split at h
  · cases h
    exact List.suffix_cons _ _
  · split at h
    · cases h
    · cases h
      exact List.dropWhile_suffix _

theorem scanFraction_suffix (text : Text) : (scanFraction text).2 <:+ text := by
  rcases text with _ | ⟨c, rest⟩
  · exact List.suffix_rfl
  · rw [scanFraction]
    split
    · exact (List.dropWhile_suffix _).trans (List.suffix_cons c rest)
    · exact List.suffix_rfl

theorem scanExponent_suffix (text : Text) : (scanExponent text).2 <:+ text := by
  rcases text with _ | ⟨c, rest⟩
  · exact List.suffix_rfl
  · rw [scanExponent]
    split
    · exact ((List.dropWhile_suffix _).trans (List.drop_suffix _ _)).trans (List.suffix_cons c rest)
    · exact List.suffix_rfl

theorem scanScalar_suffix {text rest : Text} {a : α} (h : scanScalar sc text = some (a, rest)) : rest <:+ text := by
  rw [scanScalar] at h
  split at h
  · cases h
    exact List.drop_suffix _ _
  · obtain ⟨⟨digits, tail⟩, hint, h⟩ := Option.map_eq_some_iff.1 h
    have htail := (scanIntPart_suffix hint).trans (List.drop_suffix _ _)
    have hrest := ((scanExponent_suffix _).trans (scanFraction_suffix tail)).trans htail
    dsimp only at h
    split at h
    · cases h
      exact hrest
    · cases h
      exact hrest

section Items

variable {β : Type} {item : Text → Option (β × Text)} {close : Char} {itemWeight : β → ℕ}

/-- Each item is followed by a comma or the closing bracket. -/
theorem scanItems_weigh (hitem : ∀ text x rest, item text = some (x, rest) → itemWeight x + weigh rest ≤ weigh text)
    (hclose : weigh [close] = 1) {n : ℕ} {text rest : Text} {xs : List β}
    (h : scanItems item close n text = some (xs, rest)) :
    1 ≤ (xs.map fun x => itemWeight x + 1).sum ∧
      (xs.map fun x => itemWeight x + 1).sum + weigh rest ≤ weigh text := by
  induction n generalizing text xs with
  | zero => cases h
  | succ n ih =>
      obtain ⟨⟨x, after⟩, hx, h⟩ := Option.bind_eq_some_iff.1 h
      have hfirst := hitem text x after hx
      have hws := weigh_skipWs_le after
      dsimp only at h
      split at h
      · cases h
      next c tail hskip =>
        rw [hskip, weigh_cons] at hws
        split at h
        · next hc =>
            cases h
            rw [hc, hclose] at hws
            simp only [List.map_cons, List.map_nil, List.sum_cons, List.sum_nil]
            omega
        split at h
        · next hc =>
            obtain ⟨⟨xs', rest'⟩, hrest, h⟩ := Option.map_eq_some_iff.1 h
            cases h
            have hmore := ih hrest
            have hws' := weigh_skipWs_le tail
            have hcomma : weigh [','] = 1 := by decide
            rw [hc, hcomma] at hws
            simp only [List.map_cons, List.sum_cons] at hmore ⊢
            omega
        · cases h

theorem scanBody_weigh (hitem : ∀ text x rest, item text = some (x, rest) → itemWeight x + weigh rest ≤ weigh text)
    (hclose : weigh [close] = 1) {text rest : Text} {xs : List β} (h : scanBody item close text = some (xs, rest)) :
    weighItems (xs.map itemWeight) + weigh rest ≤ 1 + weigh text := by
  have hws := weigh_skipWs_le text
  rw [scanBody] at h
  split at h
  · cases h
  next c tail hskip =>
    rw [hskip] at hws
    split at h
    · next hc =>
        cases h
        rw [hc, weigh_cons, hclose] at hws
        show 2 + weigh rest ≤ _
        omega
    · obtain ⟨hpos, hsum⟩ := scanItems_weigh hitem hclose h
      rw [weighItems, List.map_map]
      show 2 + ((xs.map fun x => itemWeight x + 1).sum - 1) + weigh rest ≤ _
      omega

end Items

theorem scanMember_weigh {value : Text → Option (Json α × Text)}
    (hvalue : ∀ text v rest, value text = some (v, rest) → weight v + weigh rest ≤ weigh text) (text : Text)
    (p : Text × Json α) (rest : Text) (h : scanMember value text = some (p, rest)) :
    3 + cost p.1 + weight p.2 + weigh rest ≤ weigh text := by
  rcases text with _ | ⟨c, text⟩
  · cases h
  rw [scanMember] at h
  split at h
  · next hc =>
      obtain ⟨⟨key, after⟩, hkey, h⟩ := Option.bind_eq_some_iff.1 h
      have hstring := scanString_weigh hkey
      have hws := weigh_skipWs_le after
      dsimp only at h
      split at h
      · cases h
      next d tail hskip =>
        split at h
        · next hd =>
            obtain ⟨⟨v, rest'⟩, hv, h⟩ := Option.map_eq_some_iff.1 h
            cases h
            have hbound := hvalue _ _ _ hv
            have hws' := weigh_skipWs_le tail
            have hquote : weigh ['"'] = 1 := by decide
            have hcolon : weigh [':'] = 1 := by decide
            rw [hskip, hd, weigh_cons, hcolon] at hws
            rw [hc, weigh_cons, hquote]
            dsimp only
            omega
        · cases h
  · cases h

theorem weighItems_mono {weights weights' : List ℕ} (h : (weights.map (· + 1)).sum ≤ (weights'.map (· + 1)).sum) :
    weighItems weights ≤ weighItems weights' := Nat.add_le_add_left (Nat.sub_le_sub_right h 1) 2

/-- A pair whose key comes again weighs nothing. -/
theorem fromPairs_weight (pairs : List (Text × Json α)) :
    weight (fromPairs pairs) ≤ weighItems (pairs.map fun p => 3 + cost p.1 + weight p.2) := by
  have hsum := Assoc.sum_foldl_store_le (fun p => 3 + cost p.1 + weight p.2 + 1) pairs []
  rw [List.map_nil, List.sum_nil, Nat.zero_add] at hsum
  rw [fromPairs, weight_dict]
  refine weighItems_mono ?_
  rw [List.map_map, List.map_map]
  exact hsum

theorem scanValue_weigh {n : ℕ} {text rest : Text} {v : Json α} (h : scanValue sc n text = some (v, rest)) :
    weight v + weigh rest ≤ weigh text := by
  induction n generalizing text v rest with
  | zero => cases h
  | succ n ih =>
      rcases text with _ | ⟨c, text⟩
      · cases h
      rw [scanValue] at h
      have hbrackets : weigh ['"'] = 1 ∧ weigh ['\x7b'] = 1 ∧ weigh ['['] = 1 := by decide
      obtain ⟨hquote, hbrace, hbracket⟩ := hbrackets
      split at h
      · next hc =>
          obtain ⟨⟨s, rest'⟩, hs, h⟩ := Option.map_eq_some_iff.1 h
          cases h
          have hstring := scanString_weigh hs
          show 2 + cost s + weigh rest ≤ _
          rw [hc, weigh_cons, hquote]
          omega
      split at h
      · next hc =>
          obtain ⟨⟨pairs, rest'⟩, hbody, h⟩ := Option.map_eq_some_iff.1 h
          cases h
          have hvalue : ∀ text v rest, scanValue sc n text = some (v, rest) → weight v + weigh rest ≤ weigh text :=
            fun text v rest hv => ih hv
          have hitems := scanBody_weigh (scanMember_weigh hvalue) (by decide) hbody
          have hpairs := fromPairs_weight pairs
          rw [hc, weigh_cons, hbrace]
          omega
      split at h
      · next hc =>
          obtain ⟨⟨items, rest'⟩, hbody, h⟩ := Option.map_eq_some_iff.1 h
          cases h
          have hitems := scanBody_weigh (fun text v rest hv => ih hv) (by decide) hbody
          rw [hc, weigh_cons, hbracket, weight_list]
          omega
      · obtain ⟨⟨a, rest'⟩, ha, h⟩ := Option.map_eq_some_iff.1 h
        cases h
        show 0 + weigh rest ≤ _
        rw [Nat.zero_add]
        exact weigh_le_of_suffix (scanScalar_suffix sc ha)

/-- A text is read as no more than it weighs. -/
theorem weight_le_of_loads {text : Text} {v : Json α} (h : loads sc text = some v) : weight v ≤ weigh text := by
  rw [loads] at h
  split at h
  · cases h
  · obtain ⟨⟨w, rest⟩, hvalue, h⟩ := Option.bind_eq_some_iff.1 h
    have hweigh := scanValue_weigh sc hvalue
    have hws := weigh_skipWs_le text
    dsimp only at h
    split at h
    · cases h
      omega
    · cases h

omit sc in
theorem sum_weight_le_of_pyEqList [DecidableEq α] {xs ys : List (Json α)}
    (ih : ∀ x ∈ xs, ∀ y, pyEq x y = true → weight x ≤ weight y) (h : pyEqList xs ys = true) :
    ((xs.map weight).map (· + 1)).sum ≤ ((ys.map weight).map (· + 1)).sum := by
  induction xs generalizing ys with
  | nil => exact Nat.zero_le _
  | cons x xs ihxs =>
      rcases ys with _ | ⟨y, ys⟩
      · cases h
      rw [pyEqList, Bool.and_eq_true] at h
      rw [List.forall_mem_cons] at ih
      have hfirst := ih.1 y h.1
      have hrest := ihxs ih.2 h.2
      simp only [List.map_cons, List.sum_cons]
      omega

omit sc in
theorem sum_weight_le_of_pyEqItems [DecidableEq α] {xs ys : List (Text × Json α)} (hnodup : (xs.map Prod.fst).Nodup)
    (ih : ∀ p ∈ xs, ∀ y, pyEq p.2 y = true → weight p.2 ≤ weight y)
    (h : ∀ p ∈ xs, ∃ y, Assoc.find p.1 ys = some y ∧ pyEq p.2 y = true) :
    (xs.map fun p => 3 + cost p.1 + weight p.2 + 1).sum ≤ (ys.map fun p => 3 + cost p.1 + weight p.2 + 1).sum := by
  refine Assoc.sum_le_sum_of_find hnodup fun p hp => ?_
  obtain ⟨y, hy, heq⟩ := h p hp
  have hle := ih p hp y heq
  refine ⟨y, hy, ?_⟩
  dsimp only
  omega

omit sc in
/-- Equal values weigh the same; one direction is enough here. -/
theorem weight_le_of_pyEq [DecidableEq α] {v w : Json α} (hv : WellFormed v) (h : pyEq v w = true) :
    weight v ≤ weight w := by
  induction v using induct generalizing w with
  | scalar a => exact Nat.zero_le _
  | str text =>
      rcases w with b | t | ys | ys
      · cases h
      · rw [pyEq, decide_eq_true_eq] at h
        rw [h]
      · cases h
      · cases h
  | list xs ih =>
      rw [wellFormed_list_iff] at hv
      rcases w with b | t | ys | ys
      · cases h
      · cases h
      · rw [weight_list, weight_list]
        exact weighItems_mono (sum_weight_le_of_pyEqList (fun x hx y hy => ih x hx (hv x hx) hy) h)
      · cases h
  | dict xs ih =>
      obtain ⟨hnodup, hv⟩ := wellFormed_dict_iff.1 hv
      rcases w with b | t | ys | ys
      · cases h
      · cases h
      · cases h
      · rw [pyEq, Bool.and_eq_true, pyEqItems_iff] at h
        rw [weight_dict, weight_dict]
        refine weighItems_mono ?_
        rw [List.map_map, List.map_map]
        exact sum_weight_le_of_pyEqItems hnodup (fun p hp y hy => ih p hp (hv p hp) hy) h.2

/-! ## Writing -/

section Writing

/-- The text in quotes. -/
def quoted (text : Text) : Text := '"' :: text ++ ['"']

/-- The value without white space and without escapes. -/
def dumps : Json ℤ → Text :=
  fold intText quoted (fun items => '[' :: join ',' items ++ [']'])
    fun items => '\x7b' :: join ',' (items.map fun p => quoted p.1 ++ ':' :: p.2) ++ ['\x7d']

theorem dumps_list (items : List (Json ℤ)) : dumps (.list items) = '[' :: join ',' (items.map dumps) ++ [']'] :=
  fold_list ..

theorem dumps_dict (items : List (Text × Json ℤ)) :
    dumps (.dict items) = '\x7b' :: join ',' (items.map fun p => quoted p.1 ++ ':' :: dumps p.2) ++ ['\x7d'] := by
  rw [dumps, fold_dict, List.map_map]
  rfl

/-- The text needs no escape. -/
def Plain (text : Text) : Prop := ∀ c ∈ text, needsEscape c = false

/-- No key occurs twice in a dictionary, and no text needs an escape. -/
def Writable : Json ℤ → Prop :=
  fold (fun _ => True) Plain (fun items => ∀ h ∈ items, h)
    fun items => (items.map Prod.fst).Nodup ∧ ∀ p ∈ items, Plain p.1 ∧ p.2

theorem writable_list_iff {items : List (Json ℤ)} : Writable (.list items) ↔ ∀ x ∈ items, Writable x := by
  rw [Writable, fold_list, List.forall_mem_map]

theorem writable_dict_iff {items : List (Text × Json ℤ)} :
    Writable (.dict items) ↔ (items.map Prod.fst).Nodup ∧ ∀ p ∈ items, Plain p.1 ∧ Writable p.2 := by
  rw [Writable, fold_dict, List.forall_mem_map, List.map_map]
  exact Iff.rfl

/-- No number goes on in the text. -/
def Follows (rest : Text) : Prop := ∀ c ∈ rest.head?, isNumeric c = false

theorem skipWs_cons {c : Char} (h : isWs c = false) (text : Text) : skipWs (c :: text) = c :: text :=
  List.dropWhile_cons_of_neg (by rw [h]; exact Bool.false_ne_true)

/-! ### Strings -/

theorem scanMost_plain {text : Text} (h : Plain text) (rest : Text) {n : ℕ} (hn : text.length < n) :
    scanMost n (text ++ '"' :: rest) = some (text, rest) := by
  induction text generalizing n with
  | nil =>
      obtain ⟨n, rfl⟩ : ∃ m, n = m + 1 := ⟨n - 1, by omega⟩
      rfl
  | cons c text ih =>
      rw [List.length_cons] at hn
      obtain ⟨n, rfl⟩ : ∃ m, n = m + 1 := ⟨n - 1, by omega⟩
      rw [Plain, List.forall_mem_cons] at h
      obtain ⟨hc, h⟩ := h
      simp only [needsEscape, Bool.or_eq_false_iff, decide_eq_false_iff_not] at hc
      rw [List.cons_append, scanMost, if_neg hc.1.1, if_neg hc.1.2, if_neg hc.2, ih h (by omega)]
      rfl

theorem scanString_plain {text : Text} (h : Plain text) (rest : Text) :
    scanString (text ++ '"' :: rest) = some (text, rest) := by
  refine scanMost_plain h rest ?_
  rw [List.length_append, List.length_cons]
  omega

/-! ### Numbers -/

/-- A number that is not zero does not start with the digit. -/
theorem head_toDigits_ne_zero {n : ℕ} (h : 0 < n) : ∃ c rest, Nat.toDigits 10 n = c :: rest ∧ c ≠ '0' := by
  induction n using Nat.strong_induction_on with
  | _ n ih =>
      rw [Nat.toDigits_eq_if (by decide)]
      split
      · next hlt =>
          have hall : ∀ n < 10, 0 < n → n.digitChar ≠ '0' := by decide
          exact ⟨_, [], rfl, hall n hlt h⟩
      · next hge =>
          obtain ⟨c, rest, hrest, hc⟩ := ih (n / 10) (by omega) (by omega)
          exact ⟨c, rest ++ [(n % 10).digitChar], by rw [hrest]; rfl, hc⟩

theorem scanDigits_append {digits rest : Text} (h : ∀ c ∈ digits, c.isDigit = true)
    (hrest : ∀ c ∈ rest.head?, c.isDigit = false) : scanDigits (digits ++ rest) = (digits, rest) := by
  have hstop : rest.takeWhile Char.isDigit = [] ∧ rest.dropWhile Char.isDigit = rest := by
    rcases rest with _ | ⟨c, rest⟩
    · exact ⟨rfl, rfl⟩
    · have hc := hrest c rfl
      simp [hc]
  rw [scanDigits, List.takeWhile_append_of_pos h, List.dropWhile_append_of_pos h, hstop.1, hstop.2, List.append_nil]

theorem Follows.not_isDigit {rest : Text} (h : Follows rest) : ∀ c ∈ rest.head?, c.isDigit = false := by
  intro c hc
  have := h c hc
  simp only [isNumeric, Bool.or_eq_false_iff] at this
  exact this.1.1.1.1.1

theorem scanIntPart_toString (n : ℕ) {rest : Text} (hrest : Follows rest) :
    scanIntPart ((toString n).toList ++ rest) = some ((toString n).toList, rest) := by
  rcases Nat.eq_zero_or_pos n with rfl | hpos
  · rfl
  · obtain ⟨c, tail, hcons, hc⟩ := head_toDigits_ne_zero hpos
    have hscan : scanDigits ((toString n).toList ++ rest) = ((toString n).toList, rest) :=
      scanDigits_append isDigit_of_mem hrest.not_isDigit
    rw [toList_toString, hcons] at hscan ⊢
    rw [List.cons_append] at hscan ⊢
    rw [scanIntPart.eq_2 _ (by rintro rest' ⟨⟩; exact hc rfl), hscan]
    rfl

theorem scanFraction_of_follows {rest : Text} (h : Follows rest) : scanFraction rest = ([], rest) := by
  rcases rest with _ | ⟨c, rest⟩
  · rfl
  · have hc := h c rfl
    simp only [isNumeric, Bool.or_eq_false_iff, decide_eq_false_iff_not] at hc
    rw [scanFraction, if_neg fun h => hc.1.1.2 h.1]

theorem scanExponent_of_follows {rest : Text} (h : Follows rest) : scanExponent rest = ([], rest) := by
  rcases rest with _ | ⟨c, rest⟩
  · rfl
  · have hc := h c rfl
    simp only [isNumeric, Bool.or_eq_false_iff, decide_eq_false_iff_not] at hc
    rw [scanExponent, if_neg fun h => h.1.elim hc.1.2 hc.2]

/-- The words are told from numbers by their first two characters. -/
theorem words_letters : ∀ word ∈ words sc, ∃ c d rest, word.1 = c :: d :: rest ∧ c.isDigit = false ∧
    d.isDigit = false := by
  simp only [words, List.forall_mem_cons]
  exact ⟨⟨'n', 'u', _, rfl, by decide, by decide⟩, ⟨'t', 'r', _, rfl, by decide, by decide⟩,
    ⟨'f', 'a', _, rfl, by decide, by decide⟩, ⟨'N', 'a', _, rfl, by decide, by decide⟩,
    ⟨'I', 'n', _, rfl, by decide, by decide⟩, ⟨'-', 'I', _, rfl, by decide, by decide⟩,
    fun _ h => absurd h List.not_mem_nil⟩

/-- A written number starts with a digit, or with the sign and a digit. -/
theorem intText_cons (i : ℤ) : ∃ c rest, intText i = c :: rest ∧ (c.isDigit = true ∨
    c = '-' ∧ ∃ d rest', rest = d :: rest' ∧ d.isDigit = true) := by
  obtain ⟨d, rest, hcons, hd⟩ := toString_cons i.natAbs
  rw [intText]
  split
  · exact ⟨'-', _, rfl, .inr ⟨rfl, d, rest, hcons, hd⟩⟩
  · exact ⟨d, rest, hcons, .inl hd⟩

theorem scanScalar_intText (i : ℤ) {rest : Text} (hrest : Follows rest) :
    scanScalar sc (intText i ++ rest) = some (sc.int i, rest) := by
  -- no word starts as a number does
  have hnone : (words sc).find? (fun word => word.1.isPrefixOf (intText i ++ rest)) = none := by
    rw [List.find?_eq_none]
    intro word hword hpre
    obtain ⟨c, d, tail, hcons, hc, hd⟩ := words_letters sc word hword
    rw [hcons, List.isPrefixOf_iff_prefix] at hpre
    obtain ⟨e, text, htext, he | ⟨-, d', text', rfl, hd'⟩⟩ := intText_cons i
    · rw [htext, List.cons_append, List.cons_prefix_cons] at hpre
      rw [hpre.1, he] at hc
      cases hc
    · rw [htext, List.cons_append, List.cons_append, List.cons_prefix_cons, List.cons_prefix_cons] at hpre
      rw [hpre.2.1, hd'] at hd
      cases hd
  have hdigits := scanIntPart_toString i.natAbs hrest
  rw [scanScalar, hnone]
  show scanNumber sc (intText i ++ rest) = _
  rw [intText]
  split
  · next hneg =>
      have hvalue : -(i.natAbs : ℤ) = i := by omega
      rw [List.cons_append, scanNumber, List.head?_cons, if_pos rfl]
      simp only [List.length_singleton, List.drop_succ_cons, List.drop_zero, hdigits, Option.map_some,
        scanFraction_of_follows hrest, scanExponent_of_follows hrest, and_self, if_true, ofDigitChars_toString,
        List.cons_ne_nil, if_false, hvalue]
  · next hpos =>
      have hvalue : (i.natAbs : ℤ) = i := by omega
      have hsign : ((toString i.natAbs).toList ++ rest).head? ≠ some '-' := by
        obtain ⟨d, tail, hcons, hd⟩ := toString_cons i.natAbs
        rw [hcons, List.cons_append, List.head?_cons, ne_eq, Option.some.injEq]
        rintro rfl
        exact absurd hd (by decide)
      rw [scanNumber, if_neg hsign]
      simp only [List.length_nil, List.drop_zero, hdigits, Option.map_some, scanFraction_of_follows hrest,
        scanExponent_of_follows hrest, and_self, if_true, ofDigitChars_toString, hvalue]

/-! ### Arrays and objects -/

section Items

variable {β : Type} {item : Text → Option (β × Text)} {close : Char}

/-- The text is read as the item wherever no number goes on behind it, and it starts with neither white space nor
    a closing bracket. -/
structure ReadsAs (item : Text → Option (β × Text)) (close : Char) (text : Text) (x : β) : Prop where
  reads : ∀ rest, Follows rest → item (text ++ rest) = some (x, rest)
  start : ∃ c tail, text = c :: tail ∧ isWs c = false ∧ c ≠ close

theorem ReadsAs.skipWs {text : Text} {x : β} (h : ReadsAs item close text x) (rest : Text) :
    skipWs (text ++ rest) = text ++ rest := by
  obtain ⟨c, tail, rfl, hc, -⟩ := h.start
  exact skipWs_cons hc _

/-- A bracket that ends no number. -/
structure Closes (close : Char) : Prop where
  notWs : isWs close = false
  ne : close ≠ ','
  notNumeric : isNumeric close = false

theorem Closes.follows (h : Closes close) (rest : Text) : Follows (close :: rest) := by
  rintro c ⟨⟩
  exact h.notNumeric

theorem scanItems_join (hclose : Closes close) {items : List (Text × β)} (hne : items ≠ [])
    (hitems : ∀ p ∈ items, ReadsAs item close p.1 p.2) {n : ℕ} (hn : items.length ≤ n) (rest : Text) :
    scanItems item close n (join ',' (items.map Prod.fst) ++ close :: rest) = some (items.map Prod.snd, rest) := by
  induction items generalizing n with
  | nil => exact absurd rfl hne
  | cons p items ih =>
      rw [List.length_cons] at hn
      obtain ⟨n, rfl⟩ : ∃ m, n = m + 1 := ⟨n - 1, by omega⟩
      rw [List.forall_mem_cons] at hitems
      rcases items with _ | ⟨q, items⟩
      · have hread := hitems.1.reads _ (hclose.follows rest)
        rw [List.map_singleton, join_singleton, scanItems, hread, Option.bind_some]
        simp only [skipWs_cons hclose.notWs, if_true, List.map_singleton]
      · have hcomma : Follows (',' :: (join ',' ((q :: items).map Prod.fst) ++ close :: rest)) := by
          rintro c ⟨⟩
          decide
        have hread := hitems.1.reads _ hcomma
        have hrest := ih (List.cons_ne_nil q items) hitems.2 (Nat.le_of_succ_le_succ hn)
        have hws : JsonText.skipWs (join ',' ((q :: items).map Prod.fst) ++ close :: rest)
            = join ',' ((q :: items).map Prod.fst) ++ close :: rest := by
          have hq := hitems.2 q List.mem_cons_self
          rcases items with _ | ⟨r, items⟩
          · rw [List.map_singleton, join_singleton]
            exact hq.skipWs _
          · rw [List.map_cons, List.map_cons, join_cons_cons, List.append_assoc]
            exact hq.skipWs _
        rw [List.map_cons, List.map_cons (l := items), join_cons_cons, List.append_assoc, List.cons_append,
          ← List.map_cons, scanItems, hread, Option.bind_some]
        have hskip := skipWs_cons (c := ',') (by decide) (join ',' ((q :: items).map Prod.fst) ++ close :: rest)
        simp only [hskip, if_neg (Ne.symm hclose.ne), if_true, hws, hrest, Option.map_some]
        rfl

theorem length_le_length_join {words : List Text} (h : ∀ word ∈ words, word ≠ []) :
    words.length ≤ (join ',' words).length := by
  induction words with
  | nil => exact Nat.zero_le _
  | cons word words ih =>
      rw [List.forall_mem_cons] at h
      have hword := List.length_pos_of_ne_nil h.1
      rcases words with _ | ⟨next, words⟩
      · rw [join_singleton, List.length_singleton]
        exact hword
      · have hrest := ih h.2
        rw [join_cons_cons]
        simp only [List.length_append, List.length_cons] at hrest ⊢
        omega

theorem scanBody_join (hclose : Closes close) {items : List (Text × β)}
    (hitems : ∀ p ∈ items, ReadsAs item close p.1 p.2) (rest : Text) :
    scanBody item close (join ',' (items.map Prod.fst) ++ close :: rest) = some (items.map Prod.snd, rest) := by
  rcases items with _ | ⟨p, items⟩
  · show scanBody item close (close :: rest) = _
    simp only [scanBody, skipWs_cons hclose.notWs, if_true, List.map_nil]
  · obtain ⟨c, tail, htext, hc, hne⟩ := (hitems p List.mem_cons_self).start
    have hnonempty : ∀ word ∈ (p :: items).map Prod.fst, word ≠ [] := by
      rw [List.forall_mem_map]
      intro q hq
      obtain ⟨c, tail, htext, -⟩ := (hitems q hq).start
      rw [htext]
      exact List.cons_ne_nil c tail
    have hlength := length_le_length_join hnonempty
    obtain ⟨body, hbody⟩ : ∃ body, join ',' ((p :: items).map Prod.fst) ++ close :: rest = c :: body := by
      rcases items with _ | ⟨q, items⟩
      · exact ⟨_, by rw [List.map_singleton, join_singleton, htext]; rfl⟩
      · exact ⟨_, by rw [List.map_cons, List.map_cons, join_cons_cons, htext]; rfl⟩
    have hfuel : (p :: items).length ≤ body.length + 1 := by
      have hlengths := congrArg List.length hbody
      rw [List.length_append, List.length_cons, List.length_cons] at hlengths
      rw [List.length_map] at hlength
      omega
    have hscan := scanItems_join hclose (List.cons_ne_nil p items) hitems hfuel rest
    rw [hbody] at hscan ⊢
    simp only [scanBody, skipWs_cons hc, if_neg hne, hscan]

end Items

/-! ### Values -/

theorem length_le_of_mem_join {word : Text} {words : List Text} (h : word ∈ words) :
    word.length ≤ (join ',' words).length := by
  induction words with
  | nil => exact absurd h List.not_mem_nil
  | cons first words ih =>
      rcases words with _ | ⟨next, words⟩
      · rw [List.mem_singleton.1 h, join_singleton]
      · rw [join_cons_cons]
        simp only [List.length_append, List.length_cons]
        rcases List.mem_cons.1 h with rfl | h
        · omega
        · have := ih h
          omega

/-- A written value starts with a quote, a bracket, the sign or a digit. -/
theorem dumps_start (v : Json ℤ) :
    ∃ c tail, dumps v = c :: tail ∧ isWs c = false ∧ c ≠ ']' ∧ c ≠ '\uFEFF' := by
  rcases v with i | text | items | items
  · obtain ⟨c, tail, htext, hc | ⟨rfl, -⟩⟩ := intText_cons i
    · refine ⟨c, tail, htext, ?_, ?_, ?_⟩
      · have hne : c ≠ ' ' ∧ c ≠ '\t' ∧ c ≠ '\n' ∧ c ≠ '\r' := by
          refine ⟨?_, ?_, ?_, ?_⟩ <;> (rintro rfl; exact absurd hc (by decide))
        simp [isWs, hne]
      · rintro rfl
        exact absurd hc (by decide)
      · rintro rfl
        exact absurd hc (by decide)
    · exact ⟨'-', tail, htext, by decide, by decide, by decide⟩
  · exact ⟨'"', text ++ ['"'], rfl, by decide, by decide, by decide⟩
  · exact ⟨'[', _, dumps_list items, by decide, by decide, by decide⟩
  · exact ⟨'\x7b', _, dumps_dict items, by decide, by decide, by decide⟩

theorem closes_bracket : Closes ']' := ⟨by decide, by decide, by decide⟩

theorem closes_brace : Closes '\x7d' := ⟨by decide, by decide, by decide⟩

/-- A written key is read with its value. -/
theorem scanMember_quoted {value : Text → Option (Json α × Text)} {key text : Text} {v : Json α} (hkey : Plain key)
    (hvalue : ReadsAs value ']' text v) :
    ReadsAs (scanMember value) '\x7d' (quoted key ++ ':' :: text) (key, v) := by
  refine ⟨?_, '"', _, rfl, by decide, by decide⟩
  intro rest hrest
  have hstring := scanString_plain hkey (':' :: (text ++ rest))
  have hcolon : skipWs (':' :: (text ++ rest)) = ':' :: (text ++ rest) := skipWs_cons (by decide) _
  have htext : quoted key ++ ':' :: text ++ rest = '"' :: (key ++ '"' :: (':' :: (text ++ rest))) := by
    simp [quoted]
  rw [htext, scanMember, if_pos rfl, hstring, Option.bind_some]
  simp only [hcolon, if_true, hvalue.skipWs, hvalue.reads rest hrest, Option.map_some]

theorem fromPairs_of_nodup {pairs : List (Text × Json α)} (h : (pairs.map Prod.fst).Nodup) :
    fromPairs pairs = .dict pairs := congrArg Json.dict (Assoc.foldl_store_of_nodup (l := []) h)

theorem scanValue_scalar {c : Char} (hc : c.isDigit = true ∨ c = '-') (n : ℕ) (rest : Text) :
    scanValue sc (n + 1) (c :: rest) = (scanScalar sc (c :: rest)).map fun (a, rest) => (.scalar a, rest) := by
  have hne : c ≠ '"' ∧ c ≠ '\x7b' ∧ c ≠ '[' := by
    refine ⟨?_, ?_, ?_⟩ <;> (rintro rfl; exact absurd hc (by decide))
  rw [scanValue, if_neg hne.1, if_neg hne.2.1, if_neg hne.2.2]

theorem readsAs_of_scanValue {v : Json ℤ} {n : ℕ}
    (h : ∀ rest, Follows rest → scanValue sc n (dumps v ++ rest) = some (v.mapScalars sc.int, rest)) :
    ReadsAs (scanValue sc n) ']' (dumps v) (v.mapScalars sc.int) := by
  obtain ⟨c, tail, hcons, hc, hne, -⟩ := dumps_start v
  exact ⟨h, c, tail, hcons, hc, hne⟩

/-- A written array, when its values are read with the fuel that is left. -/
theorem scanValue_list {items : List (Json ℤ)} {n : ℕ}
    (h : ∀ x ∈ items, ReadsAs (scanValue sc n) ']' (dumps x) (x.mapScalars sc.int)) (rest : Text) :
    scanValue sc (n + 1) (dumps (.list items) ++ rest) = some ((Json.list items).mapScalars sc.int, rest) := by
  have htext : dumps (.list items) ++ rest = '[' :: (join ',' (items.map dumps) ++ ']' :: rest) := by
    rw [dumps_list]
    simp
  have hitems : ∀ p ∈ items.map fun x => (dumps x, x.mapScalars sc.int), ReadsAs (scanValue sc n) ']' p.1 p.2 :=
    List.forall_mem_map.2 h
  have hbody := scanBody_join closes_bracket hitems rest
  rw [List.map_map, List.map_map] at hbody
  rw [htext, scanValue, if_neg (by decide), if_neg (by decide), if_pos rfl]
  show (scanBody (scanValue sc n) ']' (join ',' (items.map (Prod.fst ∘ fun x => (dumps x, x.mapScalars sc.int)))
    ++ ']' :: rest)).map _ = _
  rw [hbody, mapScalars_list]
  rfl

/-- A written object, when its keys need no escape and its values are read with the fuel that is left. -/
theorem scanValue_dict {items : List (Text × Json ℤ)} (hnodup : (items.map Prod.fst).Nodup) {n : ℕ}
    (h : ∀ p ∈ items, Plain p.1 ∧ ReadsAs (scanValue sc n) ']' (dumps p.2) (p.2.mapScalars sc.int)) (rest : Text) :
    scanValue sc (n + 1) (dumps (.dict items) ++ rest) = some ((Json.dict items).mapScalars sc.int, rest) := by
  have htext : dumps (.dict items) ++ rest = '\x7b' ::
      (join ',' (items.map fun p => quoted p.1 ++ ':' :: dumps p.2) ++ '\x7d' :: rest) := by
    rw [dumps_dict]
    simp
  have hitems : ∀ q ∈ items.map fun p => (quoted p.1 ++ ':' :: dumps p.2, (p.1, p.2.mapScalars sc.int)),
      ReadsAs (scanMember (scanValue sc n)) '\x7d' q.1 q.2 :=
    List.forall_mem_map.2 fun p hp => scanMember_quoted (h p hp).1 (h p hp).2
  have hbody := scanBody_join closes_brace hitems rest
  have hpairs : ((items.map fun p => (p.1, p.2.mapScalars sc.int)).map Prod.fst).Nodup := by
    rw [List.map_map]
    exact hnodup
  rw [List.map_map, List.map_map] at hbody
  rw [htext, scanValue, if_neg (by decide), if_pos rfl]
  show (scanBody (scanMember (scanValue sc n)) '\x7d'
    (join ',' (items.map (Prod.fst ∘ fun p => (quoted p.1 ++ ':' :: dumps p.2, (p.1, p.2.mapScalars sc.int))))
      ++ '\x7d' :: rest)).map _ = _
  rw [hbody, mapScalars_dict, ← fromPairs_of_nodup hpairs]
  rfl

/-- Every value of an array is shorter than the array by two brackets. -/
theorem length_dumps_list {items : List (Json ℤ)} {x : Json ℤ} (hx : x ∈ items) :
    (dumps x).length + 2 ≤ (dumps (.list items)).length := by
  have hlength := length_le_of_mem_join (List.mem_map_of_mem (f := dumps) hx)
  rw [dumps_list]
  simp only [List.length_cons, List.length_append, List.length_nil]
  omega

theorem length_dumps_dict {items : List (Text × Json ℤ)} {p : Text × Json ℤ} (hp : p ∈ items) :
    (dumps p.2).length + 2 ≤ (dumps (.dict items)).length := by
  have hlength := length_le_of_mem_join
    (List.mem_map_of_mem (f := fun p : Text × Json ℤ => quoted p.1 ++ ':' :: dumps p.2) hp)
  rw [dumps_dict]
  simp only [List.length_cons, List.length_append, List.length_nil] at hlength ⊢
  omega

/-- A written value is read as the value, with as much fuel as it has characters. The induction is on the value;
    its items are shorter by the brackets. -/
theorem scanValue_dumps {v : Json ℤ} (h : Writable v) {n : ℕ} (hn : (dumps v).length ≤ n) {rest : Text}
    (hrest : Follows rest) : scanValue sc n (dumps v ++ rest) = some (v.mapScalars sc.int, rest) := by
  obtain ⟨n, rfl⟩ : ∃ m, n = m + 1 := by
    obtain ⟨c, tail, hcons, -⟩ := dumps_start v
    rw [hcons, List.length_cons] at hn
    exact ⟨n - 1, by omega⟩
  induction v using induct generalizing n rest with
  | scalar i =>
      have hscan := scanScalar_intText sc i hrest
      obtain ⟨c, tail, htext, hc⟩ := intText_cons i
      have hdigit : c.isDigit = true ∨ c = '-' := hc.imp_right And.left
      show scanValue sc (n + 1) (intText i ++ rest) = _
      rw [htext, List.cons_append] at hscan ⊢
      rw [scanValue_scalar sc hdigit, hscan]
      rfl
  | str text =>
      have htext : dumps (.str text) ++ rest = '"' :: (text ++ '"' :: rest) := by
        show quoted text ++ rest = _
        simp [quoted]
      rw [htext, scanValue, if_pos rfl, scanString_plain h]
      rfl
  | list items ih =>
      rw [writable_list_iff] at h
      refine scanValue_list sc (fun x hx => ?_) rest
      have hlength := length_dumps_list hx
      obtain ⟨m, rfl⟩ : ∃ m, n = m + 1 := ⟨n - 1, by omega⟩
      exact readsAs_of_scanValue sc fun rest hrest => ih x hx (h x hx) hrest m (by omega)
  | dict items ih =>
      obtain ⟨hnodup, h⟩ := writable_dict_iff.1 h
      refine scanValue_dict sc hnodup (fun p hp => ⟨(h p hp).1, ?_⟩) rest
      have hlength := length_dumps_dict hp
      obtain ⟨m, rfl⟩ : ∃ m, n = m + 1 := ⟨n - 1, by omega⟩
      exact readsAs_of_scanValue sc fun rest hrest => ih p hp (h p hp).2 hrest m (by omega)

/-- **What has been written is read back.** -/
theorem loads_dumps {v : Json ℤ} (h : Writable v) : loads sc (dumps v) = some (v.mapScalars sc.int) := by
  obtain ⟨c, tail, hcons, hc, -, hbom⟩ := dumps_start v
  have hnothing : Follows [] := fun _ h => (by cases h)
  have hread := scanValue_dumps sc h (Nat.le_refl _) hnothing
  have hskip : skipWs (dumps v) = dumps v := by
    rw [hcons]
    exact skipWs_cons hc tail
  have hhead : (dumps v).head? ≠ some '\uFEFF' := by
    rw [hcons, List.head?_cons, ne_eq, Option.some.injEq]
    exact hbom
  rw [List.append_nil] at hread
  rw [loads, if_neg hhead, hskip, hread]
  rfl

end Writing

end JsonText
