import Mathlib.Data.List.Basic

set_option autoImplicit false

/-! # Commands that may raise

`Prog σ ε` is a command over states `σ` that either returns or raises an `ε`. As in a language with
exceptions and mutable state, what a command did before it raised **stays done**. The rules below say
what a command keeps whichever way it ends (`Keeps`), and when a loop over a list runs through. -/

namespace Raises

variable {σ ε α β : Type*}

abbrev Prog (σ ε : Type*) := σ → Except ε Unit × σ

namespace Prog

def skip : Prog σ ε := fun s => (.ok (), s)

/-- First `p`, then `q` unless `p` raised. -/
def seq (p q : Prog σ ε) : Prog σ ε := fun s =>
  match p s with
  | (.ok (), s') => q s'
  | (.error e, s') => (.error e, s')

/-- `try: p except ..`; the handler has `none` for what it does not name. -/
def tryExcept (p : Prog σ ε) (handler : ε → Option (Prog σ ε)) : Prog σ ε := fun s =>
  match p s with
  | (.ok (), s') => (.ok (), s')
  | (.error e, s') =>
      match handler e with
      | some q => q s'
      | none => (.error e, s')

/-- `for x in xs: f x`. -/
def forEach (f : α → Prog σ ε) : List α → Prog σ ε
  | [] => skip
  | x :: rest => (f x).seq (forEach f rest)

@[simp] theorem forEach_nil (f : α → Prog σ ε) : forEach f [] = skip := rfl

theorem seq_of_ok {p q : Prog σ ε} {s s' : σ} (h : p s = (.ok (), s')) : p.seq q s = q s' := by
  simp only [seq, h]

theorem seq_of_error {p q : Prog σ ε} {s s' : σ} {e : ε} (h : p s = (.error e, s')) :
    p.seq q s = (.error e, s') := by
  simp only [seq, h]

theorem tryExcept_of_ok {p : Prog σ ε} {handler : ε → Option (Prog σ ε)} {s : σ}
    (h : (p s).1 = .ok ()) : p.tryExcept handler s = p s := by
  cases hp : p s with
  | mk res s' =>
      rw [hp] at h
      obtain rfl : res = .ok () := h
      simp only [tryExcept, hp]

theorem tryExcept_of_error {p : Prog σ ε} {handler : ε → Option (Prog σ ε)} {s s' : σ} {e : ε}
    (h : p s = (.error e, s')) :
    p.tryExcept handler s = match handler e with
      | some q => q s'
      | none => (.error e, s') := by
  simp only [tryExcept, h]

theorem seq_assoc (p q r : Prog σ ε) : (p.seq q).seq r = p.seq (q.seq r) := by
  funext s
  cases hp : p s with
  | mk res s' =>
      cases res with
      | ok u => rw [seq_of_ok hp]; simp only [seq, hp]
      | error e => rw [seq_of_error hp, seq_of_error (seq_of_error hp)]

theorem forEach_append (f : α → Prog σ ε) (xs ys : List α) :
    forEach f (xs ++ ys) = (forEach f xs).seq (forEach f ys) := by
  induction xs with
  | nil => rfl
  | cons x rest ih => rw [List.cons_append, forEach, ih, forEach, seq_assoc]

theorem forEach_map (f : β → Prog σ ε) (g : α → β) (xs : List α) :
    forEach f (xs.map g) = forEach (fun x => f (g x)) xs := by
  induction xs with
  | nil => rfl
  | cons x rest ih => rw [List.map_cons, forEach, ih, forEach]

/-- A loop inside a loop is one loop. -/
theorem forEach_forEach {γ : Type*} (f : γ → Prog σ ε) (c : α → β → γ) (g : α → List β)
    (xs : List α) :
    forEach (fun x => forEach (fun y => f (c x y)) (g x)) xs
      = forEach f (xs.flatMap fun x => (g x).map (c x)) := by
  induction xs with
  | nil => rfl
  | cons x rest ih => rw [forEach, ih, List.flatMap_cons, forEach_append, forEach_map]

/-! ## What a command keeps -/

/-- `I` survives the command, whether it returns or raises. -/
def Keeps (I : σ → Prop) (p : Prog σ ε) : Prop := ∀ s, I s → I (p s).2

theorem keeps_skip (I : σ → Prop) : Keeps I (skip : Prog σ ε) := fun _ h => h

theorem Keeps.seq {I : σ → Prop} {p q : Prog σ ε} (hp : Keeps I p) (hq : Keeps I q) :
    Keeps I (p.seq q) := by
  intro s hs
  have hs' := hp s hs
  simp only [Prog.seq]
  split
  · next s' heq => rw [heq] at hs'; exact hq s' hs'
  · next e s' heq => rw [heq] at hs'; exact hs'

theorem Keeps.tryExcept {I : σ → Prop} {p : Prog σ ε} {handler : ε → Option (Prog σ ε)}
    (hp : Keeps I p) (hh : ∀ e q, handler e = some q → Keeps I q) :
    Keeps I (p.tryExcept handler) := by
  intro s hs
  have hs' := hp s hs
  simp only [Prog.tryExcept]
  split
  · next s' heq => rw [heq] at hs'; exact hs'
  · next e s' heq =>
      rw [heq] at hs'
      split
      · next q hq => exact hh e q hq s' hs'
      · exact hs'

theorem Keeps.forEach {I : σ → Prop} {f : α → Prog σ ε} (hf : ∀ x, Keeps I (f x)) (xs : List α) :
    Keeps I (forEach f xs) := by
  induction xs with
  | nil => exact keeps_skip I
  | cons x rest ih => exact (hf x).seq ih

/-- A loop keeps what its body keeps for each of its elements. -/
theorem Keeps.forEach_mem {I : σ → Prop} {f : α → Prog σ ε} {xs : List α} (hf : ∀ x ∈ xs, Keeps I (f x)) :
    Keeps I (Prog.forEach f xs) := by
  induction xs with
  | nil => exact keeps_skip I
  | cons x rest ih =>
      exact (hf x List.mem_cons_self).seq (ih fun y hy => hf y (List.mem_cons_of_mem _ hy))

/-! ## Where a command ends when it does not raise -/

/-- If the command returns, it does so in a state with `Q`. -/
def Ends (Q : σ → Prop) (p : Prog σ ε) : Prop := ∀ s s', p s = (.ok (), s') → Q s'

theorem exists_of_seq_ok {p q : Prog σ ε} {s s'' : σ} (h : p.seq q s = (.ok (), s'')) :
    ∃ s', p s = (.ok (), s') ∧ q s' = (.ok (), s'') := by
  rcases hp : p s with ⟨_ | _, s'⟩
  · rw [seq_of_error hp] at h
    cases h
  · rw [seq_of_ok hp] at h
    exact ⟨s', rfl, h⟩

theorem Ends.seq {Q : σ → Prop} (p : Prog σ ε) {q : Prog σ ε} (hq : Ends Q q) : Ends Q (p.seq q) := by
  intro s s'' h
  obtain ⟨s', -, hend⟩ := exists_of_seq_ok h
  exact hq s' s'' hend

theorem Ends.seq_keeps {Q : σ → Prop} {p q : Prog σ ε} (hp : Ends Q p) (hq : Keeps Q q) :
    Ends Q (p.seq q) := by
  intro s s'' h
  obtain ⟨s', hfirst, hend⟩ := exists_of_seq_ok h
  have hlast := hq s' (hp s s' hfirst)
  rw [hend] at hlast
  exact hlast

/-! ## When a loop runs through -/

/-- **The rule for loops.** `I rest` holds whenever `rest` is still to do. If the body returns on the
    good elements and raises a bad exception on the others, then so does the loop: it returns when
    all elements are good, and raises a bad exception otherwise. -/
theorem forEach_dichotomy {f : α → Prog σ ε} {I : List α → σ → Prop} {P : α → Prop} {B : ε → Prop}
    (hgood : ∀ x rest s, I (x :: rest) s → P x → (f x s).1 = .ok () ∧ I rest (f x s).2)
    (hbad : ∀ x rest s, I (x :: rest) s → ¬ P x → ∃ e, (f x s).1 = .error e ∧ B e)
    (xs : List α) (s : σ) (hI : I xs s) :
    ((∀ x ∈ xs, P x) ∧ (forEach f xs s).1 = .ok () ∧ I [] (forEach f xs s).2) ∨
      ((¬ ∀ x ∈ xs, P x) ∧ ∃ e, (forEach f xs s).1 = .error e ∧ B e) := by
  induction xs generalizing s with
  | nil => exact Or.inl ⟨by simp, rfl, hI⟩
  | cons x rest ih =>
      by_cases hx : P x
      · obtain ⟨hok, hrest⟩ := hgood x rest s hI hx
        have heq : forEach f (x :: rest) s = forEach f rest (f x s).2 := seq_of_ok (Prod.ext hok rfl)
        rw [heq, List.forall_mem_cons]
        rcases ih (f x s).2 hrest with ⟨hall, hres⟩ | ⟨hall, hres⟩
        · exact Or.inl ⟨⟨hx, hall⟩, hres⟩
        · exact Or.inr ⟨fun h => hall h.2, hres⟩
      · obtain ⟨e, herr, hb⟩ := hbad x rest s hI hx
        have heq : forEach f (x :: rest) s = (.error e, (f x s).2) := seq_of_error (Prod.ext herr rfl)
        rw [heq, List.forall_mem_cons]
        exact Or.inr ⟨fun h => hx h.1, e, rfl, hb⟩

end Prog

/-! ## Results -/

/-- A sequence of two steps returns when both do. -/
theorem bind_eq_ok_iff {ε α β : Type} {x : Except ε α} {f : α → Except ε β} {b : β} :
    x >>= f = .ok b ↔ ∃ a, x = .ok a ∧ f a = .ok b := by
  constructor
  · intro h
    cases x with
    | error e => cases h
    | ok a => exact ⟨a, rfl, h⟩
  · rintro ⟨a, rfl, h⟩
    exact h

/-- A loop that reads each element first is the loop over what is read. -/
theorem foldlM_of_mapM {α β σ : Type*} {read : α → Option β} {f : σ → β → Option σ} {l : List α} {bs : List β}
    (h : l.mapM read = some bs) (s : σ) : l.foldlM (fun s a => (read a).bind (f s)) s = bs.foldlM f s := by
  induction l generalizing bs s with
  | nil =>
      rw [List.mapM_nil] at h
      cases h
      rfl
  | cons a l ih =>
      rw [List.mapM_cons] at h
      obtain ⟨b, hb, h⟩ := Option.bind_eq_some_iff.1 h
      obtain ⟨bs', hbs', h⟩ := Option.bind_eq_some_iff.1 h
      cases h
      rw [List.foldlM_cons, List.foldlM_cons, hb]
      exact congrArg _ (funext fun s => ih hbs' s)

/-- A comprehension whose steps all return. -/
theorem exists_mapM {α β : Type*} {f : α → Option β} {R : α → β → Prop} {l : List α}
    (h : ∀ a ∈ l, ∃ b, f a = some b ∧ R a b) : ∃ bs, l.mapM f = some bs ∧ List.Forall₂ R l bs := by
  induction l with
  | nil => exact ⟨[], rfl, List.Forall₂.nil⟩
  | cons a l ih =>
      rw [List.forall_mem_cons] at h
      obtain ⟨b, hb, hR⟩ := h.1
      obtain ⟨bs, hbs, hall⟩ := ih h.2
      refine ⟨b :: bs, ?_, List.Forall₂.cons hR hall⟩
      rw [List.mapM_cons, hb, hbs]
      rfl

/-- What is true of each element that is made holds of the list. -/
theorem map_eq_of_mapM {α β γ : Type*} {f : α → Option β} {l : List α} {bs : List β} (h : l.mapM f = some bs)
    {g : β → γ} {g' : α → γ} (hg : ∀ a ∈ l, ∀ b, f a = some b → g b = g' a) : bs.map g = l.map g' := by
  induction l generalizing bs with
  | nil =>
      rw [List.mapM_nil] at h
      cases h
      rfl
  | cons a l ih =>
      rw [List.mapM_cons] at h
      obtain ⟨b, hb, h⟩ := Option.bind_eq_some_iff.1 h
      obtain ⟨bs', hbs', h⟩ := Option.bind_eq_some_iff.1 h
      cases h
      rw [List.forall_mem_cons] at hg
      rw [List.map_cons, List.map_cons, hg.1 b hb, ih hbs' hg.2]

/-- Every element that is made comes from one of the list. -/
theorem exists_of_mem_mapM {α β : Type*} {f : α → Option β} {l : List α} {bs : List β} (h : l.mapM f = some bs)
    {b : β} (hb : b ∈ bs) : ∃ a ∈ l, f a = some b := by
  have hmap : bs.map some = l.map f := map_eq_of_mapM h fun _ _ _ ha => ha.symm
  have hmem : some b ∈ l.map f := hmap ▸ List.mem_map_of_mem hb
  exact List.mem_map.1 hmem

/-- **The rule for loops that may stop.** If a step on a good state goes through exactly for the elements with `P`, and
    then to a good state, so does the loop exactly when all elements have `P`. -/
theorem foldlM_isSome_iff {α β : Type*} {f : β → α → Option β} {I : β → Prop} {P : α → Prop} {l : List α}
    (hstep : ∀ b, I b → ∀ a ∈ l, (P a → ∃ b', f b a = some b' ∧ I b') ∧ (¬ P a → f b a = none)) {b : β} (h : I b) :
    ((∀ a ∈ l, P a) → ∃ b', l.foldlM f b = some b' ∧ I b') ∧ ((¬ ∀ a ∈ l, P a) → l.foldlM f b = none) := by
  induction l generalizing b with
  | nil => exact ⟨fun _ => ⟨b, rfl, h⟩, fun hnot => absurd (fun a ha => absurd ha List.not_mem_nil) hnot⟩
  | cons a l ih =>
      obtain ⟨hgood, hbad⟩ := hstep b h a List.mem_cons_self
      rw [List.foldlM_cons, List.forall_mem_cons]
      by_cases ha : P a
      · obtain ⟨b', hb', hI⟩ := hgood ha
        obtain ⟨hall, hsome⟩ := ih (fun b hb a ha => hstep b hb a (List.mem_cons_of_mem _ ha)) hI
        rw [hb']
        exact ⟨fun hP => hall hP.2, fun hnot => hsome fun hP => hnot ⟨ha, hP⟩⟩
      · rw [hbad ha]
        exact ⟨fun hP => absurd hP.1 ha, fun _ => rfl⟩

end Raises
