import TestInfra.Tuq.OrderResults

set_option autoImplicit false

/-! # Queries with an order

A query with `ORDER BY`, its list of attributes, and behind it `LIMIT` and `OFFSET` or one of them or none. The code
cuts the parts out of the text; here is what it finds. The words at which it cuts do not run into each other, whatever
the spacing is. -/

open PyText SplitText

namespace Tuq

/-! ## The parts -/

/-- An attribute of the list, with its direction as it is written. -/
structure OrderItem where
  name : Text
  direction : Option Text

def OrderItem.words (item : OrderItem) : List Text := item.name :: item.direction.toList

/-- The number of a limit or an offset, with the white space around it. -/
structure Bound where
  n : ℕ
  before : Text
  after : Text
  blank : ∀ c ∈ before ++ after, isSpace c = true ∧ c ≠ '\n'

def Bound.text (bound : Bound) : Text := bound.before ++ (toString bound.n).toList ++ bound.after

/-- A query in one line, up to the end of its list. -/
structure OrderQuery where
  head : Text
  list : Text
  items : List OrderItem
  line : '\n' ∉ head ++ list
  head_free : Free "LIMIT".toList head ∧ Free "OFFSET".toList head
  list_free : Free "ORDER BY".toList list ∧ Free "LIMIT".toList list ∧ Free "OFFSET".toList list
  pieces : (list.splitOn ',').map words = items.map OrderItem.words

def limitText (limit : Option Bound) : Text := limit.elim [] fun bound => "LIMIT".toList ++ bound.text

def offsetText (offset : Option Bound) : Text := offset.elim [] fun bound => "OFFSET".toList ++ bound.text

def OrderQuery.text (query : OrderQuery) (limit offset : Option Bound) : Text :=
  query.head ++ "ORDER BY".toList ++ query.list ++ limitText limit ++ offsetText offset

/-! ## Numbers -/

namespace Bound

variable (bound : Bound)

theorem mem_text {c : Char} (h : c ∈ bound.text) : isSpace c = true ∧ c ≠ '\n' ∨ c.isDigit = true := by
  rw [text, List.mem_append, List.mem_append] at h
  rcases h with (h | h) | h
  · exact .inl (bound.blank c (List.mem_append_left _ h))
  · exact .inr (isDigit_of_mem c h)
  · exact .inl (bound.blank c (List.mem_append_right _ h))

/-- A character that is no space and no digit, or the end of a line. -/
theorem not_mem_text {c : Char} (h : c = '\n' ∨ isSpace c = false) (hdigit : c.isDigit = false) : c ∉ bound.text := by
  intro hmem
  rcases bound.mem_text hmem with ⟨hspace, hne⟩ | hc
  · rcases h with rfl | h
    · exact hne rfl
    · rw [hspace] at h
      cases h
  · rw [hdigit] at hc
    cases hc

theorem strip_text : strip bound.text = (toString bound.n).toList := by
  rw [text, strip_append_right fun c hc => (bound.blank c (List.mem_append_right _ hc)).1,
    strip_append_left fun c hc => (bound.blank c (List.mem_append_left _ hc)).1]
  exact (trimmed_toString bound.n).strip_eq

end Bound

theorem not_mem_limitText {c : Char} (h : c = '\n' ∨ isSpace c = false) (hdigit : c.isDigit = false)
    (hword : c ∉ "LIMIT".toList) (limit : Option Bound) : c ∉ limitText limit := by
  rcases limit with _ | bound
  · exact List.not_mem_nil
  · rw [limitText, Option.elim_some, List.mem_append, not_or]
    exact ⟨hword, bound.not_mem_text h hdigit⟩

theorem not_mem_offsetText {c : Char} (h : c = '\n' ∨ isSpace c = false) (hdigit : c.isDigit = false)
    (hword : c ∉ "OFFSET".toList) (offset : Option Bound) : c ∉ offsetText offset := by
  rcases offset with _ | bound
  · exact List.not_mem_nil
  · rw [offsetText, Option.elim_some, List.mem_append, not_or]
    exact ⟨hword, bound.not_mem_text h hdigit⟩

/-! ## Lines -/

theorem hasWord_of_part {word text : Text} (h : word <:+: text) : hasWord word text = true := decide_eq_true h

theorem hasWord_of_free {word text : Text} (h : Free word text) : hasWord word text = false := decide_eq_false h

theorem subLines_of_line (f : Text → Text) {text : Text} (h : '\n' ∉ text) : subLines f text = f text := by
  rw [subLines, List.splitOn_eq_singleton h, List.map_singleton, join_singleton]

theorem subBehind_of_line (word : Text) {text : Text} (h : '\n' ∉ text) : subBehind word text = beforeFirst word text :=
  subLines_of_line _ h

theorem subUpTo_of_line (word : Text) {text : Text} (h : '\n' ∉ text) : subUpTo word text = behindLast word text :=
  subLines_of_line _ h

namespace OrderQuery

variable (query : OrderQuery) (limit offset : Option Bound)

theorem line_text : '\n' ∉ query.text limit offset := by
  have hline := query.line
  have hlimit := not_mem_limitText (.inl rfl) rfl (by decide) limit
  have hoffset := not_mem_offsetText (.inl rfl) rfl (by decide) offset
  have hword : '\n' ∉ "ORDER BY".toList := by decide
  simp only [List.mem_append, not_or] at hline
  simp only [text, List.mem_append, not_or]
  exact ⟨⟨⟨⟨hline.1, hword⟩, hline.2⟩, hlimit⟩, hoffset⟩

/-! ## The list -/

theorem hasWord_orderBy : hasWord "ORDER BY".toList (query.text limit offset) = true :=
  hasWord_of_part ⟨query.head, query.list ++ limitText limit ++ offsetText offset, by simp [text, List.append_assoc]⟩

/-- What stands behind `ORDER BY`. -/
theorem subUpTo_orderBy :
    subUpTo "ORDER BY".toList (query.text limit offset) = query.list ++ (limitText limit ++ offsetText offset) := by
  have htail : 'Y' ∉ limitText limit ++ offsetText offset := by
    rw [List.mem_append, not_or]
    exact ⟨not_mem_limitText (.inr rfl) rfl (by decide) limit, not_mem_offsetText (.inr rfl) rfl (by decide) offset⟩
  have hfree : Free "ORDER BY".toList (query.list ++ (limitText limit ++ offsetText offset)) :=
    query.list_free.1.append_of_last (by decide) (by simpa using htail)
  rw [subUpTo_of_line _ (query.line_text limit offset), text, List.append_assoc, List.append_assoc]
  exact behindLast_append (by decide) (by decide) hfree query.head

theorem line_list : '\n' ∉ query.list := fun h => query.line (List.mem_append_right _ h)

theorem limit_free_tail : Free "LIMIT".toList (query.list ++ offsetText offset) := by
  rcases offset with _ | bound
  · rw [offsetText, Option.elim_none, List.append_nil]
    exact query.list_free.2.1
  · have htail : 'L' ∉ "FFSET".toList ++ bound.text := by
      rw [List.mem_append, not_or]
      exact ⟨by decide, bound.not_mem_text (.inr rfl) rfl⟩
    have hsplit : query.list ++ offsetText (some bound) = query.list ++ 'O' :: ("FFSET".toList ++ bound.text) := rfl
    rw [hsplit, free_append_cons_iff_of_not_mem (by decide)]
    exact ⟨query.list_free.2.1, Free.of_not_mem (by decide) htail⟩

/-- An offset behind the list is cut off, with the white space before it. -/
theorem strip_subBehind_offset :
    strip (subBehind "OFFSET".toList (strip (query.list ++ offsetText offset))) = strip query.list := by
  rcases offset with _ | bound
  · have hstrip : '\n' ∉ strip query.list := fun h => query.line_list ((strip_part query.list).subset h)
    have hfree : Free "OFFSET".toList (strip query.list) := query.list_free.2.2.of_part (strip_part query.list)
    rw [offsetText, Option.elim_none, List.append_nil, subBehind_of_line _ hstrip, beforeFirst_of_free hfree,
      strip_strip]
  · have hstart : lstrip isSpace (query.list ++ 'O' :: ("FFSET".toList ++ bound.text))
        = lstrip isSpace query.list ++ 'O' :: ("FFSET".toList ++ bound.text) := lstrip_append_cons rfl ..
    have hend : rstrip isSpace (lstrip isSpace query.list ++ "OFFSE".toList ++ 'T' :: bound.text)
        = lstrip isSpace query.list ++ "OFFSE".toList ++ 'T' :: rstrip isSpace bound.text := rstrip_append_cons rfl ..
    have hstrip : strip (query.list ++ offsetText (some bound))
        = lstrip isSpace query.list ++ "OFFSET".toList ++ rstrip isSpace bound.text := by
      rw [List.append_assoc] at hend
      exact (congrArg (rstrip isSpace) hstart).trans (hend.trans (by simp))
    have hline : '\n' ∉ strip (query.list ++ offsetText (some bound)) := by
      intro h
      rcases List.mem_append.1 ((strip_part _).subset h) with h | h
      · exact query.line_list h
      · exact not_mem_offsetText (.inl rfl) rfl (by decide) (some bound) h
    have hfree : Free "OFFSET".toList (lstrip isSpace query.list) :=
      query.list_free.2.2.of_part (List.dropWhile_suffix isSpace).isInfix
    rw [subBehind_of_line _ hline, hstrip, beforeFirst_append (by decide) (by decide) hfree, strip_lstrip]

/-- The code finds the list. -/
theorem allOrderClause_text : allOrderClause (query.text limit offset) = strip query.list := by
  rw [allOrderClause, subUpTo_orderBy]
  have hline : '\n' ∉ query.list ++ (limitText limit ++ offsetText offset) := by
    rw [List.mem_append, List.mem_append, not_or, not_or]
    exact ⟨query.line_list, not_mem_limitText (.inl rfl) rfl (by decide) limit,
      not_mem_offsetText (.inl rfl) rfl (by decide) offset⟩
  rw [subBehind_of_line _ hline]
  rcases limit with _ | bound
  · rw [limitText, Option.elim_none, List.nil_append, beforeFirst_of_free (query.limit_free_tail offset),
      strip_subBehind_offset]
  · have hsplit : query.list ++ (limitText (some bound) ++ offsetText offset)
        = query.list ++ "LIMIT".toList ++ (bound.text ++ offsetText offset) := by
      simp [limitText, List.append_assoc]
    have hlist := query.strip_subBehind_offset none
    rw [offsetText, Option.elim_none, List.append_nil] at hlist
    rw [hsplit, beforeFirst_append (by decide) (by decide) query.list_free.2.1, hlist]

/-! ## The limit and the offset -/

theorem limit_free : Free "LIMIT".toList (query.text none offset) := by
  have hsplit : query.text none offset = query.head ++ "ORDER BY".toList ++ (query.list ++ offsetText offset) := by
    simp [text, limitText, List.append_assoc]
  rw [hsplit, free_append_append_iff (by decide) (disjoint_of_all (by decide))]
  exact ⟨query.head_free.1, query.limit_free_tail offset⟩

theorem offset_free : Free "OFFSET".toList (query.text limit none) := by
  have htail : Free "OFFSET".toList (query.list ++ limitText limit) := by
    rcases limit with _ | bound
    · rw [limitText, Option.elim_none, List.append_nil]
      exact query.list_free.2.2
    · have htail : 'O' ∉ "IMIT".toList ++ bound.text := by
        rw [List.mem_append, not_or]
        exact ⟨by decide, bound.not_mem_text (.inr rfl) rfl⟩
      have hsplit : query.list ++ limitText (some bound) = query.list ++ 'L' :: ("IMIT".toList ++ bound.text) := rfl
      rw [hsplit, free_append_cons_iff_of_not_mem (by decide)]
      exact ⟨query.list_free.2.2, Free.of_not_mem (by decide) htail⟩
  have hhead : Free "OFFSET".toList (query.head ++ "O".toList) :=
    query.head_free.2.append_of_last (by decide) (by decide)
  have hsplit : query.text limit none = query.head ++ "O".toList ++ "RD".toList ++
      ("E".toList ++ "R BY".toList ++ (query.list ++ limitText limit)) := by
    simp [text, offsetText, List.append_assoc]
  rw [hsplit, free_append_append_iff (by decide) (disjoint_of_all (by decide)),
    free_append_append_iff (by decide) (disjoint_of_all (by decide))]
  exact ⟨hhead, by decide, htail⟩

theorem offset_text (bound : Bound) : hasWord "OFFSET".toList (query.text limit (some bound)) = true ∧
    strip (subUpTo "OFFSET".toList (query.text limit (some bound))) = (toString bound.n).toList := by
  have hsplit : query.text limit (some bound)
      = query.head ++ "ORDER BY".toList ++ query.list ++ limitText limit ++ "OFFSET".toList ++ bound.text := by
    simp [text, offsetText, List.append_assoc]
  have hfree : Free "OFFSET".toList bound.text :=
    Free.of_not_mem (by decide) (bound.not_mem_text (c := 'O') (.inr rfl) rfl)
  rw [subUpTo_of_line _ (query.line_text limit (some bound)), hsplit, behindLast_append (by decide) (by decide) hfree]
  exact ⟨hasWord_of_part ⟨_, _, rfl⟩, bound.strip_text⟩

theorem limit_text (bound : Bound) : hasWord "LIMIT".toList (query.text (some bound) offset) = true ∧
    strip (subBehind "OFFSET".toList (subUpTo "LIMIT".toList (query.text (some bound) offset)))
      = (toString bound.n).toList := by
  have hsplit : query.text (some bound) offset
      = query.head ++ "ORDER BY".toList ++ query.list ++ "LIMIT".toList ++ (bound.text ++ offsetText offset) := by
    simp [text, limitText, List.append_assoc]
  have hfree : Free "LIMIT".toList (bound.text ++ offsetText offset) := by
    refine Free.of_not_mem (c := 'L') (by decide) ?_
    rw [List.mem_append, not_or]
    exact ⟨bound.not_mem_text (.inr rfl) rfl, not_mem_offsetText (.inr rfl) rfl (by decide) offset⟩
  have hline : '\n' ∉ bound.text ++ offsetText offset := by
    rw [List.mem_append, not_or]
    exact ⟨bound.not_mem_text (.inl rfl) rfl, not_mem_offsetText (.inl rfl) rfl (by decide) offset⟩
  have hcut : beforeFirst "OFFSET".toList (bound.text ++ offsetText offset) = bound.text := by
    have hbound : Free "OFFSET".toList bound.text :=
      Free.of_not_mem (by decide) (bound.not_mem_text (c := 'O') (.inr rfl) rfl)
    rcases offset with _ | other
    · rw [offsetText, Option.elim_none, List.append_nil, beforeFirst_of_free hbound]
    · rw [offsetText, Option.elim_some, ← List.append_assoc, beforeFirst_append (by decide) (by decide) hbound]
  rw [subUpTo_of_line _ (query.line_text (some bound) offset), hsplit,
    behindLast_append (by decide) (by decide) hfree, subBehind_of_line _ hline, hcut]
  exact ⟨hasWord_of_part ⟨_, _, rfl⟩, bound.strip_text⟩

theorem sliced_toString {α : Type*} (slice : ℤ → List α → List α) (n : ℕ) (result : List α) :
    sliced slice (some (toString n).toList) result = some (slice n result) := by
  obtain ⟨d, rest, hcons, -⟩ := toString_cons n
  have hne : (toString n).toList ≠ [] := by
    rw [hcons]
    exact List.cons_ne_nil d rest
  rw [sliced, if_neg hne, readInt_toString, Option.map_some]

/-- `_limit_and_offset` finds the numbers. -/
theorem limitAndOffset_text {α : Type*} (result : List α) :
    limitAndOffset (query.text limit offset) result =
      let rest := result.drop (offset.elim 0 Bound.n)
      some (limit.elim rest fun bound => rest.take bound.n) := by
  have hoffset : sliced PyList.sliceFrom
      (if hasWord "OFFSET".toList (query.text limit offset) then
        some (strip (subUpTo "OFFSET".toList (query.text limit offset))) else none) result
      = some (result.drop (offset.elim 0 Bound.n)) := by
    rcases offset with _ | bound
    · rw [hasWord_of_free (query.offset_free limit)]
      rfl
    · obtain ⟨hmem, hstrip⟩ := query.offset_text limit bound
      rw [if_pos hmem, hstrip, sliced_toString, PyList.sliceFrom_natCast]
      rfl
  rw [limitAndOffset, hoffset, Option.bind_some]
  rcases limit with _ | bound
  · rw [hasWord_of_free (query.limit_free offset)]
    rfl
  · obtain ⟨hmem, hstrip⟩ := query.limit_text offset bound
    rw [if_pos hmem, hstrip, sliced_toString, PyList.sliceTo_natCast]
    rfl

end OrderQuery

end Tuq
