import TestInfra.Lib.SplitOn
import TestInfra.JenkinsLog.Parser

set_option autoImplicit false

/-! # Reading the log in chunks

`process_test_cases` processes the last line of a chunk, complete or not, and processes it **again** once it
is glued to the first line of the next chunk. The first time the glue is made of a character:
`remaining_lines` is a text then, and its `[-1]` is its last character.

`CutsHarmless` says when neither matters: the beginnings of lines that were cut off do nothing the whole
line does not do, and the first glue looks like the line it stands for. Then the chunks leave the same
`job_details` as the whole text fed line by line. -/

namespace TestInfra.JenkinsLog

open Raises Raises.Prog SplitOn

namespace Parser

/-! ## Results that go on alike -/

abbrev Result := Except PyError Unit × Parser

/-- Nothing is processed after this. -/
def Stopped (r : Result) : Prop := r.1.isOk = false ∨ r.2.daemonKilled = true

instance (r : Result) : Decidable (Stopped r) := inferInstanceAs (Decidable (_ ∨ _))

/-- Two results with the same `job_details`, now and after any further lines. -/
def Alike (r r' : Result) : Prop :=
  r = r' ∨ (Stopped r ∧ Stopped r' ∧ r.2.details = r'.2.details)

theorem Alike.details {r r' : Result} (h : Alike r r') : r.2.details = r'.2.details := by
  rcases h with rfl | ⟨-, -, h⟩
  · rfl
  · exact h

theorem Alike.trans {r r' r'' : Result} (h : Alike r r') (h' : Alike r' r'') : Alike r r'' := by
  rcases h with rfl | ⟨hs, hs', hd⟩
  · exact h'
  · rcases h' with rfl | ⟨-, hs'', hd'⟩
    · exact Or.inr ⟨hs, hs', hd⟩
    · exact Or.inr ⟨hs, hs'', hd.trans hd'⟩

/-- Go on with `k` unless the result is stopped. -/
def goOn (r : Result) (k : Prog Parser PyError) : Result :=
  match r with
  | (.error e, s) => (.error e, s)
  | (.ok (), s) => if s.daemonKilled then (.ok (), s) else k s

theorem unlessKilled_eq (p q : Prog Parser PyError) (s : Parser) :
    unlessKilled p q s = goOn (p s) q := by
  unfold unlessKilled Prog.seq goOn
  rcases p s with ⟨e | u, s'⟩ <;> rfl

theorem goOn_of_stopped {r : Result} (h : Stopped r) (k : Prog Parser PyError) : goOn r k = r := by
  obtain ⟨res, s⟩ := r
  rcases res with e | u
  · rfl
  · rcases h with h | h
    · cases h
    · exact if_pos h

theorem goOn_of_running {s : Parser} (h : s.daemonKilled = false) (k : Prog Parser PyError) :
    goOn (.ok (), s) k = k s := by
  simp [goOn, h]

theorem stopped_or_running (r : Result) : Stopped r ∨ ∃ s, r = (.ok (), s) ∧ s.daemonKilled = false := by
  obtain ⟨res, s⟩ := r
  rcases res with e | u
  · exact Or.inl (Or.inl rfl)
  · rcases hk : s.daemonKilled with _ | _
    · exact Or.inr ⟨s, rfl, hk⟩
    · exact Or.inl (Or.inr hk)

theorem not_stopped {s : Parser} (h : s.daemonKilled = false) : ¬ Stopped (.ok (), s) := by
  rintro (herr | hkilled)
  · cases herr
  · exact absurd (h.symm.trans hkilled) (by decide)

theorem goOn_assoc (r : Result) (p q : Prog Parser PyError) :
    goOn (goOn r p) q = goOn r fun s => goOn (p s) q := by
  rcases stopped_or_running r with h | ⟨s, rfl, h⟩
  · rw [goOn_of_stopped h, goOn_of_stopped h, goOn_of_stopped h]
  · rw [goOn_of_running h, goOn_of_running h]

theorem goOn_skip (r : Result) : goOn r skip = r := by
  rcases stopped_or_running r with h | ⟨s, rfl, h⟩
  · exact goOn_of_stopped h skip
  · exact goOn_of_running h skip

theorem Alike.goOn {r r' : Result} (h : Alike r r') (k : Prog Parser PyError) :
    Alike (goOn r k) (Parser.goOn r' k) := by
  rcases h with rfl | ⟨hs, hs', hd⟩
  · exact Or.inl rfl
  · rw [goOn_of_stopped hs, goOn_of_stopped hs']
    exact Or.inr ⟨hs, hs', hd⟩

/-- Results that go on with alike continuations. -/
theorem alike_goOn {r : Result} {k k' : Prog Parser PyError}
    (h : ∀ s, r = (.ok (), s) → s.daemonKilled = false → Alike (k s) (k' s)) :
    Alike (goOn r k) (goOn r k') := by
  rcases stopped_or_running r with hr | ⟨s, rfl, hs⟩
  · rw [goOn_of_stopped hr, goOn_of_stopped hr]
    exact Or.inl rfl
  · rw [goOn_of_running hs, goOn_of_running hs]
    exact h s rfl hs

theorem feed_cons (clock : Clock) (line : Line) (rest : List Line) (s : Parser) :
    feed clock (line :: rest) s = goOn (processTestLine clock line s) (feed clock rest) :=
  unlessKilled_eq _ _ _

theorem feed_singleton (clock : Clock) (line : Line) (s : Parser) :
    feed clock [line] s = processTestLine clock line s := by
  rw [feed_cons]
  exact goOn_skip _

theorem feed_append (clock : Clock) (ls ls' : List Line) {s : Parser} (h : s.daemonKilled = false) :
    feed clock (ls ++ ls') s = goOn (feed clock ls s) (feed clock ls') := by
  induction ls generalizing s with
  | nil => exact (goOn_of_running h _).symm
  | cons line rest ih =>
      rw [List.cons_append, feed_cons, feed_cons, goOn_assoc]
      rcases stopped_or_running (processTestLine clock line s) with hr | ⟨s', hs', hk⟩
      · rw [goOn_of_stopped hr, goOn_of_stopped hr]
      · rw [hs', goOn_of_running hk, goOn_of_running hk]
        exact ih hk

/-! ## Harmless cuts -/

/-- In state `s` the line is neither the end of a test, nor of the build, nor part of a failure report. -/
def Quiet (s : Parser) (line : Line) : Prop :=
  completesTest line = false ∧ abortsBuild line = false ∧
    (s.testCaseStarted = true →
      if s.testReportStage = 0 then line ≠ reportDelimiter
      else onlyDashes line = true ∧ line ≠ dashes)

instance (s : Parser) (line : Line) : Decidable (Quiet s line) :=
  inferInstanceAs (Decidable (_ ∧ _ ∧ _))

/-- The beginning `cut` of `line` may be processed before it: it is blank, ends the daemon (and so does
    the line), starts a test (and so does the line), has a timestamp that cannot be read (and so has the
    line), or is quiet; a timestamp in it is read again with the line and must not be the first one. -/
def HarmlessCut (clock : Clock) (s : Parser) (cut line : Line) : Prop :=
  isBlank cut = true ∨ endsDaemon cut = true ∨ startsTest cut = true ∨
    ((timestamp cut).any (fun text => (clock (datetimeStr text)).isNone) = true) ∨
    (Quiet s cut ∧ (timestamp cut = none ∨ (s.details.firstTimestamp ≠ none ∧ endsDaemon line = false)))

instance (clock : Clock) (s : Parser) (cut line : Line) : Decidable (HarmlessCut clock s cut line) :=
  inferInstanceAs (Decidable (_ ∨ _ ∨ _ ∨ _ ∨ _))

end Parser

/-! ## What the beginning of a line tells about the line -/

theorem isBlank_append {cut : Line} (rest : Line) (h : isBlank cut = false) :
    isBlank (cut ++ rest) = false := by
  rw [isBlank, List.all_append]
  exact Bool.and_eq_false_imp.2 fun hall => absurd hall (by rw [← isBlank, h]; decide)

theorem endsDaemon_append {cut : Line} (rest : Line) (h : endsDaemon cut = true) :
    endsDaemon (cut ++ rest) = true :=
  decide_eq_true ((of_decide_eq_true h).trans (List.prefix_append cut rest).isInfix)

theorem startsTest_append {cut : Line} (rest : Line) (h : startsTest cut = true) :
    startsTest (cut ++ rest) = true := by
  rw [startsTest, List.isPrefixOf_iff_prefix] at h ⊢
  exact h.trans (List.prefix_append cut rest)

theorem dropPat_append {ps : List Pat} {line left : Line} (rest : Line)
    (h : dropPat ps line = some left) : dropPat ps (line ++ rest) = some (left ++ rest) := by
  induction ps generalizing line with
  | nil =>
      cases h
      rfl
  | cons p ps ih =>
      cases line with
      | nil => cases h
      | cons c line =>
          simp only [dropPat, List.cons_append] at h ⊢
          split at h
          · next hc => rw [if_pos hc, ih h]
          · cases h

theorem dropMany_append {accepts : Char → Bool} {line left : Line} (rest : Line)
    (h : dropMany accepts line = some left) (hne : left ≠ []) :
    dropMany accepts (line ++ rest) = some (left ++ rest) := by
  cases line with
  | nil => cases h
  | cons c line =>
      simp only [dropMany, List.cons_append] at h ⊢
      split at h
      · next hc =>
          cases h
          rw [if_pos hc, List.dropWhile_append, if_neg (by simpa using hne)]
      · cases h

/-- What is left is at the end of the line. -/
theorem length_dropPat {ps : List Pat} {line left : Line} (h : dropPat ps line = some left) :
    left.length ≤ line.length := by
  induction ps generalizing line with
  | nil =>
      cases h
      exact Nat.le_refl _
  | cons p ps ih =>
      cases line with
      | nil => cases h
      | cons c line =>
          simp only [dropPat] at h
          split at h
          · exact Nat.le_succ_of_le (ih h)
          · cases h

theorem length_dropMany {accepts : Char → Bool} {line left : Line}
    (h : dropMany accepts line = some left) : left.length ≤ line.length := by
  cases line with
  | nil => cases h
  | cons c line =>
      simp only [dropMany] at h
      split at h
      · cases h
        exact Nat.le_succ_of_le ((List.dropWhile_suffix _).length_le)
      · cases h

theorem timestamp_append {cut text : Line} (rest : Line) (h : timestamp cut = some text) :
    timestamp (cut ++ rest) = some text := by
  simp only [timestamp, Option.bind_eq_bind, Option.bind_eq_some_iff, Option.pure_def] at h ⊢
  obtain ⟨a, ha, b, hb, c, hc, htext⟩ := h
  have hne : b ≠ [] := by
    rintro rfl
    cases hc
  have hlen : b.length ≤ cut.length := (length_dropMany hb).trans (length_dropPat ha)
  refine ⟨_, dropPat_append rest ha, _, dropMany_append rest hb hne, _, dropPat_append rest hc, ?_⟩
  rw [← htext, List.length_append, List.length_append, List.take_append_of_le_length (by omega)]
  congr 2
  omega

/-- A line that starts with a timestamp does not start a test. -/
theorem startsTest_of_timestamp {cut text : Line} (rest : Line) (h : timestamp cut = some text) :
    startsTest (cut ++ rest) = false := by
  obtain ⟨ps, hps⟩ : ∃ ps, datePat = .digit :: ps := ⟨_, rfl⟩
  have hstart : testStart = 'T' :: "est Input params:".toList := by decide
  simp only [timestamp, Option.bind_eq_bind, Option.bind_eq_some_iff, hps] at h
  obtain ⟨a, ha, -⟩ := h
  cases cut with
  | nil => cases ha
  | cons c cut =>
      have hdigit : c.isDigit = true := by
        by_contra hc
        have hreject : ¬ Pat.digit.accepts c = true := hc
        rw [dropPat, if_neg hreject] at ha
        cases ha
      have hne : c ≠ 'T' := by
        rintro rfl
        exact absurd hdigit (by decide)
      rw [startsTest, hstart, List.cons_append, List.isPrefixOf]
      simp [hne.symm]

namespace Parser

/-! ## A harmless cut makes no difference -/

theorem processContent_of_quiet {s : Parser} {line : Line} (h : Quiet s line) :
    processContent line s = (.ok (), s) := by
  obtain ⟨hc, ha, hstarted⟩ := h
  simp only [processContent, hc, ha, Bool.false_eq_true, if_false]
  rcases hs : s.testCaseStarted with _ | _
  · rfl
  · have hreport := hstarted hs
    by_cases hstage : s.testReportStage = 0
    · rw [if_pos hstage] at hreport
      simp [hstage, hreport]
    · rw [if_neg hstage] at hreport
      simp [hstage, Nat.pos_of_ne_zero hstage, processReportLine, hreport.1, hreport.2, Prog.seq, skip]

/-- `process_test_line` of a line that is not one of the first three kinds. -/
theorem processTestLine_of_other (clock : Clock) {line : Line} (s : Parser) (hb : isBlank line = false)
    (hd : endsDaemon line = false) (ht : startsTest line = false) :
    processTestLine clock line s = ((recordTimestamp clock line).seq (processContent line)) s := by
  simp [processTestLine, hb, hd, ht]

theorem recordTimestamp_of_unreadable {clock : Clock} {line text : Line} (htext : timestamp line = some text)
    (hclock : clock (datetimeStr text) = none) (s : Parser) :
    recordTimestamp clock line s = (.error .valueError, s) := by
  simp only [recordTimestamp, htext, hclock]

/-- A timestamp that cannot be read stops both the beginning of a line and the line. -/
theorem alike_of_unreadable {clock : Clock} {s : Parser} {cut text : Line} (rest : Line)
    (hb : isBlank cut = false) (hd : endsDaemon cut = false) (ht : startsTest cut = false)
    (htext : timestamp cut = some text) (hclock : clock (datetimeStr text) = none) :
    Alike (goOn (processTestLine clock cut s) (feed clock [cut ++ rest]))
      (processTestLine clock (cut ++ rest) s) := by
  have hb' := isBlank_append rest hb
  have ht' := startsTest_of_timestamp rest htext
  have htext' := timestamp_append rest htext
  rw [processTestLine_of_other clock s hb hd ht,
    seq_of_error (recordTimestamp_of_unreadable htext hclock s)]
  by_cases hd' : endsDaemon (cut ++ rest) = true
  · refine Or.inr ?_
    simp [goOn, processTestLine, hb', hd', Stopped, Except.isOk, Except.toBool]
  · rw [Bool.not_eq_true] at hd'
    rw [processTestLine_of_other clock s hb' hd' ht',
      seq_of_error (recordTimestamp_of_unreadable htext' hclock s)]
    exact Or.inl rfl

/-- A timestamp that is not the first one is recorded again with the whole line. -/
theorem recordTimestamp_append {clock : Clock} {s : Parser} {cut text : Line} (rest : Line) {t : Int}
    (htext : timestamp cut = some text) (hclock : clock (datetimeStr text) = some t)
    (hfirst : s.details.firstTimestamp ≠ none) :
    recordTimestamp clock cut s
        = (.ok (), { s with details := { s.details with lastTimestamp := some t } }) ∧
      recordTimestamp clock (cut ++ rest) s
        = recordTimestamp clock (cut ++ rest)
          { s with details := { s.details with lastTimestamp := some t } } := by
  unfold recordTimestamp
  rw [htext, timestamp_append rest htext]
  simp [hclock, hfirst]

/-- A quiet beginning of a line, with or without a timestamp. -/
theorem alike_of_quiet (clock : Clock) {s : Parser} {cut : Line} (rest : Line) (hs : s.daemonKilled = false)
    (hb : isBlank cut = false) (hd : endsDaemon cut = false) (ht : startsTest cut = false)
    (hquiet : Quiet s cut) (hstamp : timestamp cut = none ∨
      (s.details.firstTimestamp ≠ none ∧ endsDaemon (cut ++ rest) = false)) :
    Alike (goOn (processTestLine clock cut s) (feed clock [cut ++ rest]))
      (processTestLine clock (cut ++ rest) s) := by
  rw [processTestLine_of_other clock s hb hd ht]
  rcases htext : timestamp cut with _ | text
  · have hrec : recordTimestamp clock cut s = (.ok (), s) := by simp [recordTimestamp, htext]
    rw [seq_of_ok hrec, processContent_of_quiet hquiet, goOn_of_running hs, feed_singleton]
    exact Or.inl rfl
  · obtain ⟨hfirst, hd'⟩ := hstamp.resolve_left (by rw [htext]; exact nofun)
    rcases hclock : clock (datetimeStr text) with _ | t
    · rw [← processTestLine_of_other clock s hb hd ht]
      exact alike_of_unreadable rest hb hd ht htext hclock
    · obtain ⟨hcut, hline⟩ := recordTimestamp_append rest htext hclock hfirst
      have hquiet' : Quiet { s with details := { s.details with lastTimestamp := some t } } cut := hquiet
      have hb' := isBlank_append rest hb
      have ht' := startsTest_of_timestamp rest htext
      rw [seq_of_ok hcut, processContent_of_quiet hquiet', goOn_of_running (by exact hs),
        feed_singleton, processTestLine_of_other clock _ hb' hd' ht',
        processTestLine_of_other clock s hb' hd' ht']
      refine Or.inl ?_
      simp only [Prog.seq, hline]

/-- **A harmless cut**: processing the beginning of the line first makes no difference. -/
theorem alike_of_harmlessCut (clock : Clock) {s : Parser} {cut rest : Line} (hs : s.daemonKilled = false)
    (h : HarmlessCut clock s cut (cut ++ rest)) :
    Alike (feed clock [cut, cut ++ rest] s) (feed clock [cut ++ rest] s) := by
  rw [feed_cons]
  by_cases hb : isBlank cut = true
  · have hcut : processTestLine clock cut s = (.ok (), s) := if_pos hb
    rw [hcut, goOn_of_running hs]
    exact Or.inl rfl
  · rw [Bool.not_eq_true] at hb
    have hb' := isBlank_append rest hb
    rw [feed_singleton]
    by_cases hd : endsDaemon cut = true
    · -- both stop here
      have hcut : processTestLine clock cut s = (.ok (), { s with daemonKilled := true }) := by
        simp [processTestLine, hb, hd]
      have hline : processTestLine clock (cut ++ rest) s = (.ok (), { s with daemonKilled := true }) := by
        simp [processTestLine, hb', endsDaemon_append rest hd]
      rw [hcut, hline, goOn_of_stopped (Or.inr rfl)]
      exact Or.inl rfl
    · rw [Bool.not_eq_true] at hd
      by_cases ht : startsTest cut = true
      · have hcut : processTestLine clock cut s = (.ok (), { s with testCaseStarted := true }) := by
          simp [processTestLine, hb, hd, ht]
        have ht' := startsTest_append rest ht
        rw [hcut, goOn_of_running (by exact hs), feed_singleton]
        by_cases hd' : endsDaemon (cut ++ rest) = true
        · refine Or.inr ?_
          simp [processTestLine, hb', hd', Stopped]
        · refine Or.inl ?_
          simp [processTestLine, hb', hd', ht']
      · rw [Bool.not_eq_true] at ht
        rcases h with h | h | h | h | ⟨hquiet, hstamp⟩
        · exact absurd (hb.symm.trans h) (by decide)
        · exact absurd (hd.symm.trans h) (by decide)
        · exact absurd (ht.symm.trans h) (by decide)
        · obtain ⟨text, htext, hclock⟩ := (Option.any_eq_true _ _).1 h
          exact alike_of_unreadable rest hb hd ht htext (Option.isNone_iff_eq_none.1 hclock)
        · exact alike_of_quiet clock rest hs hb hd ht hquiet hstamp

/-! ## Lines that look alike -/

/-- All `process_test_line` reads off a line, but for the text it adds to a failure report. -/
def Look (line : Line) : (Bool × Bool × Bool) × Option Line × (Bool × Bool) × (Bool × Bool × Bool) :=
  ((isBlank line, endsDaemon line, startsTest line), timestamp line,
    (completesTest line, abortsBuild line),
    (decide (line = reportDelimiter), onlyDashes line, decide (line = dashes)))

/-- The glue may stand for the line: it looks the same, and no failure report takes it up. -/
def StandsFor (s : Parser) (glued line : Line) : Prop :=
  glued = line ∨ (Look glued = Look line ∧
    (s.testCaseStarted = true → s.testReportStage = 0 ∨ onlyDashes line = true))

instance (s : Parser) (glued line : Line) : Decidable (StandsFor s glued line) :=
  inferInstanceAs (Decidable (_ ∨ _))

theorem processContent_of_standsFor {s : Parser} {glued line : Line} (h : StandsFor s glued line) :
    processContent glued s = processContent line s := by
  rcases h with rfl | ⟨hlook, htext⟩
  · rfl
  · simp only [Look, Prod.mk.injEq, decide_eq_decide] at hlook
    obtain ⟨-, -, ⟨hc, ha⟩, hdelim, hdash, hdashes⟩ := hlook
    simp only [processContent, hc, ha, hdelim]
    split
    · rfl
    · split
      · rfl
      · split
        · next hs =>
            split
            · rfl
            · split
              · next hstage =>
                  rcases htext hs with h0 | honly
                  · omega
                  · simp only [processReportLine, hdash, honly, if_true, ne_eq, hdashes]
              · rfl
        · rfl

/-- The timestamps do not touch what a failure report depends on. -/
theorem StandsFor.recordTimestamp {s : Parser} {glued line : Line} (h : StandsFor s glued line)
    (clock : Clock) (text : Line) : StandsFor (recordTimestamp clock text s).2 glued line := by
  unfold Parser.recordTimestamp
  split
  · exact h
  · split
    · exact h
    · split <;> exact h

theorem processTestLine_of_standsFor (clock : Clock) {s : Parser} {glued line : Line}
    (h : StandsFor s glued line) : processTestLine clock glued s = processTestLine clock line s := by
  rcases h with rfl | ⟨hlook, htext⟩
  · rfl
  · have hstands : StandsFor s glued line := Or.inr ⟨hlook, htext⟩
    simp only [Look, Prod.mk.injEq] at hlook
    obtain ⟨⟨hb, hd, ht⟩, hstamp, -⟩ := hlook
    have hrec : recordTimestamp clock glued s = recordTimestamp clock line s := by
      simp only [recordTimestamp, hstamp]
    have hseq : ((recordTimestamp clock glued).seq (processContent glued)) s
        = ((recordTimestamp clock line).seq (processContent line)) s := by
      have hstands' := hstands.recordTimestamp clock line
      simp only [Prog.seq, hrec]
      rcases hres : recordTimestamp clock line s with ⟨e | u, s'⟩
      · rfl
      · rw [hres] at hstands'
        exact processContent_of_standsFor hstands'
    simp only [processTestLine, hb, hd, ht, hseq]

/-! ## The chunks -/

/-- Every cut is harmless: `pending` is the line cut off last and `s` the state before it. -/
def CutsHarmless (clock : Clock) : Line → List Line → Parser → Prop
  | _, [], _ => True
  | pending, chunk :: rest, s =>
      let lines := glue pending chunk
      let before := feed clock lines.dropLast s
      HarmlessCut clock s pending (lines.headD []) ∧
        (Stopped before ∨ CutsHarmless clock (lines.getLastD []) rest before.2)

instance decidableCutsHarmless (clock : Clock) :
    ∀ pending chunks s, Decidable (CutsHarmless clock pending chunks s)
  | _, [], _ => .isTrue trivial
  | pending, chunk :: rest, s =>
      have := decidableCutsHarmless clock ((glue pending chunk).getLastD []) rest
        (feed clock (glue pending chunk).dropLast s).2
      inferInstanceAs (Decidable (_ ∧ (_ ∨ CutsHarmless clock _ rest _)))

/-- The last character of the first text may stand for its last line: the line glued to it stands for the
    right one, and unless it is the right one the line ends with the chunk or in it. -/
def FirstGlue (clock : Clock) (text pending : Line) : List Line → Parser → Prop
  | [], _ => True
  | chunk :: rest, s =>
      let glued := (glue text.getLast?.toList chunk).headD []
      let line := (glue pending chunk).headD []
      Stopped (feed clock [pending] s) ∨
        (text ≠ [] ∧ StandsFor (feed clock [pending] s).2 glued line ∧
          (glued = line ∨ rest = [] ∨ 1 < (chunk.splitOn '\n').length))

instance (clock : Clock) (text pending : Line) (chunks : List Line) (s : Parser) :
    Decidable (FirstGlue clock text pending chunks s) :=
  match chunks with
  | [] => .isTrue trivial
  | _ :: _ => inferInstanceAs (Decidable (_ ∨ _ ∧ _ ∧ _))

/-- When cutting makes no difference: there is one text only, or the daemon was killed before and the first
    line is whole, or it was not, the first glue is right and every cut is harmless. -/
def ChunksHarmless (clock : Clock) (text : Line) (chunks : List Line) (s : Parser) : Prop :=
  let lines := text.splitOn '\n'
  let before := feed clock lines.dropLast s
  chunks = [] ∨ (s.daemonKilled = true ∧ 1 < lines.length) ∨
    (s.daemonKilled = false ∧ (Stopped before ∨
      (FirstGlue clock text (lines.getLastD []) chunks before.2 ∧
        CutsHarmless clock (lines.getLastD []) chunks before.2)))

instance (clock : Clock) (text : Line) (chunks : List Line) (s : Parser) :
    Decidable (ChunksHarmless clock text chunks s) :=
  inferInstanceAs (Decidable (_ ∨ _ ∨ _ ∧ (_ ∨ _ ∧ _)))

theorem glue_eq (last : Line) {chunk first : Line} {others : List Line}
    (h : chunk.splitOn '\n' = first :: others) : glue last chunk = (last ++ first) :: others := by
  rw [glue, h]
  rfl

theorem exists_first (chunk : Line) : ∃ first others, chunk.splitOn '\n' = first :: others :=
  List.exists_cons_of_ne_nil (List.splitOn_ne_nil _ _)

/-- The lines of a text and a further piece: the last line of the text goes on in the piece. -/
theorem splitOn_append {text more : Line} {init : List Line} {last : Line} (h : Pieces '\n' text init last) :
    (text ++ more).splitOn '\n' = init ++ (last ++ more).splitOn '\n' := by
  obtain ⟨first, others, hmore⟩ := exists_first more
  rw [h.append hmore, (pieces_of_whole h.last_whole).append hmore]
  rfl

theorem processChunks_cons (clock : Clock) (pending chunk : Line) (rest : List Line) (s : Parser) :
    processChunks clock (.lastLine pending) (chunk :: rest) s
      = goOn (feed clock (glue pending chunk) s)
        (processChunks clock (.lastLine ((glue pending chunk).getLastD [])) rest) :=
  unlessKilled_eq _ _ _

/-- **The chunks**, from the line cut off last on: with harmless cuts they are alike to the whole text. -/
theorem alike_processChunks (clock : Clock) (chunks : List Line) {pending : Line} {s : Parser}
    (hs : s.daemonKilled = false) (hwhole : pending.splitOn '\n' = [pending])
    (h : CutsHarmless clock pending chunks s) :
    Alike (goOn (feed clock [pending] s) (processChunks clock (.lastLine pending) chunks))
      (feed clock ((pending ++ chunks.flatten).splitOn '\n') s) := by
  induction chunks generalizing pending s with
  | nil =>
      rw [List.flatten_nil, List.append_nil, hwhole]
      exact Or.inl (goOn_skip _)
  | cons chunk rest ih =>
      obtain ⟨first, others, hchunk⟩ := exists_first chunk
      obtain ⟨init, last, hpieces⟩ := exists_pieces '\n' (pending ++ chunk)
      have hlines := (pieces_of_whole hwhole).append hchunk
      rw [List.nil_append] at hlines
      have hglue := glue_eq pending hchunk
      have hinit : glue pending chunk = init ++ [last] := by
        rw [hglue, ← hlines, hpieces.splitOn_eq]
      obtain ⟨hcut, hrest⟩ := h
      simp only [hinit, List.dropLast_concat, List.getLastD_concat] at hrest
      rw [hglue] at hcut
      -- the cut-off beginning of the first line may be left out
      have hfeed : Alike (goOn (feed clock [pending] s) (feed clock (glue pending chunk)))
          (feed clock (glue pending chunk) s) := by
        have halike := (alike_of_harmlessCut clock hs hcut).goOn (feed clock others)
        rw [← feed_append clock _ _ hs, ← feed_append clock _ _ hs] at halike
        rw [← feed_append clock _ _ hs, hglue]
        exact halike
      have hleft : goOn (feed clock [pending] s) (processChunks clock (.lastLine pending) (chunk :: rest))
          = goOn (goOn (feed clock [pending] s) (feed clock (glue pending chunk)))
            (processChunks clock (.lastLine last) rest) := by
        rw [goOn_assoc]
        congr 1
        funext s'
        rw [processChunks_cons, hinit, List.getLastD_concat]
      rw [hleft, List.flatten_cons, ← List.append_assoc, splitOn_append hpieces]
      refine (hfeed.goOn _).trans ?_
      rw [hinit, feed_append clock init _ hs, feed_append clock init _ hs, goOn_assoc]
      refine alike_goOn fun s' hs' hk => ?_
      rw [hs'] at hrest
      exact ih hk hpieces.last_whole (hrest.resolve_left (not_stopped hk))

/-- The first chunk: its glue may stand for the right one. -/
theorem processChunks_text (clock : Clock) {text pending : Line} (chunks : List Line) {s s' : Parser}
    (hpending : feed clock [pending] s = (.ok (), s')) (hk : s'.daemonKilled = false)
    (h : FirstGlue clock text pending chunks s) :
    processChunks clock (.text text) chunks s' = processChunks clock (.lastLine pending) chunks s' := by
  cases chunks with
  | nil => rfl
  | cons chunk rest =>
      obtain ⟨first, others, hchunk⟩ := exists_first chunk
      obtain ⟨hne, hstands, hlast⟩ := h.resolve_left (by rw [hpending]; exact not_stopped hk)
      obtain ⟨c, hc⟩ : ∃ c, text.getLast? = some c :=
        Option.isSome_iff_exists.1 (by simpa using hne)
      rw [hc, glue_eq _ hchunk, glue_eq _ hchunk, hpending] at hstands
      rw [hc, glue_eq _ hchunk, glue_eq _ hchunk, hchunk] at hlast
      have hline : processTestLine clock ([c] ++ first) s' = processTestLine clock (pending ++ first) s' :=
        processTestLine_of_standsFor clock hstands
      have hleft : processChunks clock (.text text) (chunk :: rest) s'
          = goOn (feed clock (([c] ++ first) :: others) s')
            (processChunks clock (.lastLine ((([c] ++ first) :: others).getLastD [])) rest) := by
        simp only [processChunks, Remaining.last, hc, glue_eq _ hchunk]
        exact unlessKilled_eq _ _ _
      rw [hleft, processChunks_cons, glue_eq _ hchunk, feed_cons, feed_cons, hline]
      congr 1
      rcases hlast with heq | rfl | hlen
      · have heq' : [c] ++ first = pending ++ first := heq
        rw [heq']
      · rfl
      · cases others with
        | nil => simp at hlen
        | cons other others => rfl

/-- Only the line that ends the daemon touches `daemon_killed`. -/
theorem keeps_killed_editBacktrace (f : Line → Line) :
    Keeps (fun s => s.daemonKilled = true) (editBacktrace f) := by
  intro s h
  simp only [editBacktrace]
  split <;> exact h

theorem keeps_killed_processReportLine (line : Line) :
    Keeps (fun s => s.daemonKilled = true) (processReportLine line) := by
  refine Keeps.seq ?_ fun s h => ?_
  · split
    · exact keeps_skip _
    · exact keeps_killed_editBacktrace _
  · split
    · exact h
    · split
      · exact h
      · split
        · exact keeps_killed_editBacktrace _ _ h
        · exact h

theorem keeps_killed_processContent (line : Line) :
    Keeps (fun s => s.daemonKilled = true) (processContent line) := by
  intro s h
  simp only [processContent]
  split
  · split <;> exact h
  · split
    · exact h
    · split
      · split
        · exact h
        · split
          · exact keeps_killed_processReportLine line s h
          · exact h
      · exact h

/-- A daemon that was killed stays so. -/
theorem stopped_of_killed (clock : Clock) (line : Line) {s : Parser} (h : s.daemonKilled = true) :
    Stopped (processTestLine clock line s) := by
  have hstamp : Keeps (fun s => s.daemonKilled = true) (recordTimestamp clock line) := by
    intro s h
    simp only [recordTimestamp]
    split
    · exact h
    · split
      · exact h
      · split <;> exact h
  refine Or.inr ?_
  simp only [processTestLine]
  split
  · exact h
  · split
    · rfl
    · split
      · exact h
      · exact hstamp.seq (keeps_killed_processContent line) s h

/-- **With harmless cuts the chunks leave the same `job_details` as the whole text line by line.** -/
theorem processTestCases_details (clock : Clock) (text : Line) (chunks : List Line) (s : Parser)
    (h : ChunksHarmless clock text chunks s) :
    (processTestCases clock text chunks s).2.details
      = (feed clock ((text ++ chunks.flatten).splitOn '\n') s).2.details := by
  obtain ⟨init, pending, hpieces⟩ := exists_pieces '\n' text
  have hlines := hpieces.splitOn_eq
  rw [processTestCases, unlessKilled_eq]
  rcases h with rfl | ⟨hs, hlong⟩ | ⟨hs, h⟩
  · rw [List.flatten_nil, List.append_nil]
    exact congrArg (fun r => r.2.details) (goOn_skip _)
  · -- the first line is the only one that is processed
    rw [hlines, List.length_append] at hlong
    obtain ⟨line, init, rfl⟩ := List.exists_cons_of_ne_nil (List.ne_nil_of_length_pos (by simpa using hlong))
    rw [splitOn_append hpieces, hlines, List.cons_append, List.cons_append, feed_cons, feed_cons]
    have hstop : Stopped (processTestLine clock line s) := stopped_of_killed clock line hs
    rw [goOn_of_stopped hstop, goOn_of_stopped hstop, goOn_of_stopped hstop]
  · simp only [hlines, List.dropLast_concat, List.getLastD_concat] at h
    refine Alike.details ?_
    rw [splitOn_append hpieces, hlines, feed_append clock init _ hs, feed_append clock init _ hs, goOn_assoc]
    refine alike_goOn fun s' hs' hk => ?_
    rw [hs'] at h
    obtain ⟨hfirst, hcuts⟩ := h.resolve_left (not_stopped hk)
    have hglue : goOn (feed clock [pending] s') (processChunks clock (.text text) chunks)
        = goOn (feed clock [pending] s') (processChunks clock (.lastLine pending) chunks) := by
      rcases stopped_or_running (feed clock [pending] s') with hr | ⟨s'', hs'', hk'⟩
      · rw [goOn_of_stopped hr, goOn_of_stopped hr]
      · rw [hs'', goOn_of_running hk', goOn_of_running hk']
        exact processChunks_text clock chunks hs'' hk' hfirst
    rw [hglue]
    exact alike_processChunks clock chunks hk hpieces.last_whole hcuts

/-! ## Two logs -/

/-- The parser at the start of a log. -/
def start : Parser := ⟨false, false, none, 0, ⟨[], none, none, none⟩⟩

/-- No text is a date. -/
def noDates : Clock := fun _ => none

/-- A log with the line `Ran 1 test in 1.5s`, cut before the dot. -/
def cutInNumber : List Line := ["b\nRan 1 test in 1".toList, ".5s\n".toList]

/-- The same log, cut at the end of the line. -/
def cutAfterLine : List Line := ["b\nRan 1 test in 1.5s".toList, "\n".toList]

/-- What is cut off is not such a line itself. -/
theorem processTestCases_details_cut_in_number :
    ChunksHarmless noDates "a".toList cutInNumber start ∧
      (processTestCases noDates "a".toList cutInNumber start).2.details
        = (feed noDates (("a".toList ++ cutInNumber.flatten).splitOn '\n') start).2.details := by
  have hharmless : ChunksHarmless noDates "a".toList cutInNumber start := by decide +kernel
  exact ⟨hharmless, processTestCases_details noDates _ cutInNumber start hharmless⟩

/-- The test is counted twice. -/
theorem cut_after_line_counts_twice :
    (processTestCases noDates "a".toList cutAfterLine start).2.details
      ≠ (feed noDates (("a".toList ++ cutAfterLine.flatten).splitOn '\n') start).2.details := by
  decide +kernel

end Parser

end TestInfra.JenkinsLog
