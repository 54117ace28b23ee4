import TestInfra.Lib.Words

set_option autoImplicit false

/-! # Parentheses

`IsBalanced`: each parenthesis that is closed was opened, and the other way round. `lexemes` is a text up to its
spacing: the words, where a parenthesis is a word of its own, so that two texts with the same lexemes differ in white
space that separates nothing. -/

namespace PyText

variable {text : Text} {n m : ℕ}

/-! ## Depth -/

/-- The open parentheses behind a character; `none` if one is closed that was not opened. -/
def level (n : ℕ) (c : Char) : Option ℕ :=
  if c = '(' then some (n + 1)
  else if c = ')' then if n = 0 then none else some (n - 1)
  else some n

/-- The open parentheses behind a text. -/
def depth (n : ℕ) (text : Text) : Option ℕ := text.foldlM level n

def IsBalanced (text : Text) : Prop := depth 0 text = some 0

instance (text : Text) : Decidable (IsBalanced text) := inferInstanceAs (Decidable (_ = _))

theorem depth_append (n : ℕ) (a b : Text) : depth n (a ++ b) = (depth n a).bind fun m => depth m b :=
  List.foldlM_append

theorem depth_cons (n : ℕ) (c : Char) (text : Text) : depth n (c :: text) = (level n c).bind fun m => depth m text :=
  List.foldlM_cons

theorem level_add {c : Char} (h : level n c = some m) (k : ℕ) : level (n + k) c = some (m + k) := by
  rw [level] at h ⊢
  split at h
  · next hopen =>
      obtain rfl := Option.some.inj h
      rw [if_pos hopen, Nat.add_right_comm]
  · next hopen =>
      rw [if_neg hopen]
      split at h
      · next hclose =>
          rw [if_pos hclose]
          split at h
          · cases h
          · obtain rfl := Option.some.inj h
            rw [if_neg (by omega)]
            exact congrArg some (by omega)
      · next hclose => rw [if_neg hclose, Option.some.inj h]

/-- More open parentheses before the text are more behind it. -/
theorem depth_add {text : Text} (h : depth n text = some m) (k : ℕ) : depth (n + k) text = some (m + k) := by
  induction text generalizing n with
  | nil => rw [Option.some.inj h]; rfl
  | cons c text ih =>
      rw [depth_cons] at h ⊢
      obtain ⟨l, hl, h⟩ := Option.bind_eq_some_iff.1 h
      rw [level_add hl, Option.bind_some, ih h]

theorem IsBalanced.depth_eq (h : IsBalanced text) (n : ℕ) : depth n text = some n := by
  have hadd := depth_add h n
  rwa [Nat.zero_add] at hadd

/-- Nothing is closed. -/
theorem depth_of_not_mem (h : ')' ∉ text) (n : ℕ) : depth n text = some (n + text.count '(') := by
  induction text generalizing n with
  | nil => rfl
  | cons c text ih =>
      rw [List.mem_cons, not_or] at h
      rw [depth_cons, level, List.count_cons]
      split
      · next hopen =>
          rw [Option.bind_some, ih h.2, hopen]
          exact congrArg some (by rw [beq_self_eq_true, if_pos rfl]; omega)
      · next hopen =>
          have hcount : (if c == '(' then 1 else 0) = 0 := if_neg (by simpa using hopen)
          rw [if_neg (Ne.symm h.1), Option.bind_some, ih h.2, hcount, Nat.add_zero]

/-- In a balanced text nothing is opened without being closed. -/
theorem IsBalanced.not_mem_open (h : IsBalanced text) (hclose : ')' ∉ text) : '(' ∉ text := by
  rw [IsBalanced, depth_of_not_mem hclose, Option.some.injEq, Nat.zero_add] at h
  exact List.count_eq_zero.1 h

/-- Before the first closing parenthesis one was opened. -/
theorem IsBalanced.mem_open {a b : Text} (h : IsBalanced (a ++ ')' :: b)) (ha : ')' ∉ a) : '(' ∈ a := by
  by_contra hopen
  rw [IsBalanced, depth_append, depth_of_not_mem ha, List.count_eq_zero.2 hopen] at h
  cases h

/-! ## Lexemes -/

def isParen (c : Char) : Bool := c = '(' || c = ')'

/-- The text with spaces around its parentheses. -/
def spread (text : Text) : Text := text.flatMap fun c => if isParen c then [' ', c, ' '] else [c]

/-- The words and parentheses. -/
def lexemes (text : Text) : List Text := words (spread text)

theorem spread_append (a b : Text) : spread (a ++ b) = spread a ++ spread b := List.flatMap_append

theorem not_isSpace_of_isParen {c : Char} (h : isParen c = true) : isSpace c = false := by
  rw [isParen, Bool.or_eq_true, decide_eq_true_iff, decide_eq_true_iff] at h
  rcases h with rfl | rfl <;> rfl

/-- A parenthesis is a lexeme. -/
theorem lexemes_append_paren {c : Char} (hc : isParen c = true) (a b : Text) :
    lexemes (a ++ c :: b) = lexemes a ++ [c] :: lexemes b := by
  have hspread : spread (a ++ c :: b) = spread a ++ ' ' :: ([c] ++ ' ' :: spread b) := by
    rw [spread_append]
    simp [spread, hc]
  have hword : words [c] = [[c]] := by
    rw [words, List.splitOnP_eq_singleton]
    · rfl
    · simpa using not_isSpace_of_isParen hc
  rw [lexemes, hspread, words_append_cons rfl, words_append_cons rfl, hword]
  rfl

/-- White space ends a lexeme. -/
theorem lexemes_append_space {c : Char} (hc : isSpace c = true) (a b : Text) :
    lexemes (a ++ c :: b) = lexemes a ++ lexemes b := by
  have hparen : isParen c = false := by
    by_contra h
    rw [not_isSpace_of_isParen (by simpa using h)] at hc
    cases hc
  have hspread : spread (a ++ c :: b) = spread a ++ c :: spread b := by
    rw [spread_append]
    simp [spread, hparen]
  rw [lexemes, hspread, words_append_cons hc]
  rfl

@[simp] theorem lexemes_nil : lexemes [] = [] := rfl

/-- The parentheses are in the lexemes. -/
theorem filter_flatten_lexemes (text : Text) : (lexemes text).flatten.filter isParen = text.filter isParen := by
  rw [lexemes, flatten_words, solid, List.filter_filter]
  induction text with
  | nil => rfl
  | cons c text ih =>
      have hspread : spread (c :: text) = (if isParen c then [' ', c, ' '] else [c]) ++ spread text := List.flatMap_cons
      rw [hspread, List.filter_append, ih]
      cases hc : isParen c with
      | false => simp [hc]
      | true =>
          have hspace : isParen ' ' = false := rfl
          simp [hc, hspace, not_isSpace_of_isParen hc]

theorem depth_filter (n : ℕ) (text : Text) : depth n (text.filter isParen) = depth n text := by
  induction text generalizing n with
  | nil => rfl
  | cons c text ih =>
      cases hc : isParen c with
      | true =>
          rw [List.filter_cons_of_pos hc, depth_cons, depth_cons]
          exact congrArg _ (funext ih)
      | false =>
          rw [isParen, Bool.or_eq_false_iff, decide_eq_false_iff_not, decide_eq_false_iff_not] at hc
          rw [List.filter_cons_of_neg (by simp [isParen, hc]), ih, depth_cons, level, if_neg hc.1, if_neg hc.2,
            Option.bind_some]

/-- Texts with the same lexemes are balanced alike. -/
theorem balanced_iff_of_lexemes_eq {a b : Text} (h : lexemes a = lexemes b) : IsBalanced a ↔ IsBalanced b := by
  have hparens : a.filter isParen = b.filter isParen := by
    rw [← filter_flatten_lexemes a, ← filter_flatten_lexemes b, h]
  rw [IsBalanced, IsBalanced, ← depth_filter 0 a, ← depth_filter 0 b, hparens]

/-! ## Spacing -/

/-- A character at which a lexeme ends. -/
def isHard (c : Char) : Bool := isParen c || isSpace c

theorem lexemes_append_cons {c : Char} (hc : isHard c = true) (a b : Text) :
    lexemes (a ++ c :: b) = lexemes a ++ lexemes [c] ++ lexemes b := by
  rw [isHard, Bool.or_eq_true] at hc
  rcases hc with hc | hc
  · have hself := lexemes_append_paren hc [] []
    rw [List.nil_append, lexemes_nil, List.nil_append] at hself
    rw [lexemes_append_paren hc, hself]
    simp
  · have hself := lexemes_append_space hc [] []
    rw [List.nil_append, lexemes_nil, List.append_nil] at hself
    rw [lexemes_append_space hc, hself, List.append_nil]

theorem lexemes_cons {c : Char} (hc : isHard c = true) (b : Text) : lexemes (c :: b) = lexemes [c] ++ lexemes b :=
  lexemes_append_cons hc [] b

/-- The texts have the same lexemes wherever they stand. -/
def SameLexemes (x y : Text) : Prop := ∀ a b, lexemes (a ++ x ++ b) = lexemes (a ++ y ++ b)

namespace SameLexemes

variable {x y u v : Text}

theorem refl (x : Text) : SameLexemes x x := fun _ _ => rfl

theorem trans {z : Text} (h : SameLexemes x y) (h' : SameLexemes y z) : SameLexemes x z :=
  fun a b => (h a b).trans (h' a b)

theorem append (h : SameLexemes x y) (h' : SameLexemes u v) : SameLexemes (x ++ u) (y ++ v) := by
  intro a b
  have hfirst := h a (u ++ b)
  have hsecond := h' (a ++ y) b
  simp only [List.append_assoc] at hfirst hsecond ⊢
  exact hfirst.trans hsecond

theorem cons (h : SameLexemes x y) (c : Char) : SameLexemes (c :: x) (c :: y) := (refl [c]).append h

theorem lexemes_eq (h : SameLexemes x y) : lexemes x = lexemes y := by
  have hself := h [] []
  rwa [List.nil_append, List.nil_append, List.append_nil, List.append_nil] at hself

/-- White space behind a character at which a lexeme ends. -/
theorem blank_right {c : Char} (hc : isHard c = true) {blank : Text} (h : ∀ d ∈ blank, isSpace d = true) :
    SameLexemes (c :: blank) [c] := by
  intro a b
  have hblank : lexemes (blank ++ b) = lexemes b := by
    induction blank with
    | nil => rfl
    | cons d blank ih =>
        rw [List.forall_mem_cons] at h
        have hspace := lexemes_append_space h.1 [] (blank ++ b)
        rw [List.nil_append, lexemes_nil, List.nil_append] at hspace
        rw [List.cons_append, hspace, ih h.2]
  rw [List.append_assoc, List.append_assoc, List.cons_append, List.singleton_append, lexemes_append_cons hc,
    lexemes_append_cons hc, hblank]

/-- White space before a character at which a lexeme ends. -/
theorem space_left {c d : Char} (hc : isHard c = true) (hd : isSpace d = true) : SameLexemes [d, c] [c] := by
  intro a b
  have hspace := lexemes_append_space hd a []
  have hsplit : a ++ [d, c] ++ b = a ++ [d] ++ c :: b := by simp
  rw [hsplit, lexemes_append_cons hc, hspace, List.append_assoc a, List.singleton_append, lexemes_append_cons hc]
  simp

theorem blank_left {c : Char} (hc : isHard c = true) {blank : Text} (h : ∀ d ∈ blank, isSpace d = true) :
    SameLexemes (blank ++ [c]) [c] := by
  induction blank with
  | nil => exact refl _
  | cons d blank ih =>
      rw [List.forall_mem_cons] at h
      exact ((ih h.2).cons d).trans (space_left hc h.1)

end SameLexemes

/-- A text between characters at which lexemes end. -/
theorem lexemes_between {c d : Char} (hc : isHard c = true) (hd : isHard d = true) (a x b : Text) :
    lexemes (a ++ (c :: (x ++ [d])) ++ b) = lexemes a ++ lexemes (c :: (x ++ [d])) ++ lexemes b := by
  have hend (y : Text) : lexemes (c :: (x ++ d :: y)) = lexemes (c :: (x ++ [d])) ++ lexemes y := by
    have hsplit := lexemes_append_cons hd (c :: x) y
    have hlast := lexemes_append_cons hd (c :: x) []
    rw [lexemes_nil, List.append_nil] at hlast
    rw [← List.cons_append, hsplit, ← hlast]
    rfl
  have hstart := lexemes_append_cons hc a (x ++ d :: b)
  have hwhole : a ++ (c :: (x ++ [d])) ++ b = a ++ c :: (x ++ d :: b) := by simp
  rw [hwhole, hstart, List.append_assoc, ← lexemes_cons hc, hend, List.append_assoc]

/-! ## Without the spacing -/

theorem solid_spread (text : Text) : solid (spread text) = solid text := by
  induction text with
  | nil => rfl
  | cons c text ih =>
      have hspread : spread (c :: text) = (if isParen c then [' ', c, ' '] else [c]) ++ spread text := List.flatMap_cons
      have htext : solid (c :: text) = solid [c] ++ solid text := solid_append [c] text
      rw [hspread, solid_append, ih, htext]
      have hspace : solid [' '] = [] := rfl
      refine congrArg (· ++ solid text) ?_
      split
      · have haround : solid [' ', c, ' '] = solid [' '] ++ solid ([c] ++ [' ']) := solid_append [' '] [c, ' ']
        rw [haround, solid_append, hspace, List.nil_append, List.append_nil]
      · rfl

theorem flatten_lexemes (text : Text) : (lexemes text).flatten = solid text := by
  rw [lexemes, flatten_words, solid_spread]

theorem ne_nil_of_mem_lexemes {word : Text} (h : word ∈ lexemes text) : word ≠ [] := by
  rw [lexemes, words, List.mem_filter] at h
  exact of_decide_eq_true h.2

/-- Texts of the same size can be compared one after the other. -/
theorem lexemes_append_inj {a a' : Text} {b b' : List Text} (hsize : (solid a).length = (solid a').length) :
    lexemes a ++ b = lexemes a' ++ b' ↔ lexemes a = lexemes a' ∧ b = b' := by
  refine ⟨fun h => ?_, fun ⟨ha, hb⟩ => by rw [ha, hb]⟩
  -- what one list has more than the other one is without a character
  have hmore {x y : Text} {more : List Text} (hxy : (solid x).length = (solid y).length)
      (heq : lexemes y = lexemes x ++ more) : more = [] := by
    have hflatten := congrArg List.flatten heq
    rw [List.flatten_append, flatten_lexemes, flatten_lexemes] at hflatten
    have hlength := congrArg List.length hflatten
    rw [List.length_append] at hlength
    have hnil : more.flatten = [] := List.eq_nil_of_length_eq_zero (by omega)
    rw [List.flatten_eq_nil_iff] at hnil
    refine List.eq_nil_iff_forall_not_mem.2 fun word hword => ?_
    exact ne_nil_of_mem_lexemes (heq ▸ List.mem_append_right _ hword) (hnil word hword)
  rcases List.append_eq_append_iff.1 h with ⟨more, ha, hb⟩ | ⟨more, ha, hb⟩
  · obtain rfl := hmore hsize ha
    rw [List.append_nil] at ha
    exact ⟨ha.symm, hb⟩
  · obtain rfl := hmore hsize.symm ha
    rw [List.append_nil] at ha
    exact ⟨ha, hb.symm⟩

end PyText
