import ExprLang.Proofs.Reader.Routine
import Mathlib.Logic.Function.Iterate

/-!
The reader at work, one step at a time: a step looks at one token, moves the cursor by one, takes
a level or gives one back, calls a routine or returns to a caller. Looking at a token that is not
there, or giving back a level that is not taken, breaks it.

* `step`, `State`: the machine; `exists_cursor_le`: no step moves the cursor back;
* `Leads`: stretches of steps on places with a property; `Makes`: what a piece of work comes to
  whatever stands behind it, by stretches of steps, with a rule for each construct of `Work`;
* `Makes.returns`: a routine that is called by nobody returns, and then stands still.
-/

namespace ExprLang.Reader

open Work

/-- A reader on its way. -/
inductive State where
  /-- With what is left of the routine at hand, and of its callers, the last one first. -/
  | running (s : Place) (work : Work Expr) (callers : List (Except Fault Expr → Work Expr))
  | returned (s : Place) (answer : Except Fault Expr)
  /-- There was no token where one was looked at, or no level to give back. -/
  | broken

namespace State

/-- A routine that is called by nobody. -/
def start (r : Routine) (s : Place) : State := .running s r.work []

def place? : State → Option Place
  | .running s _ _ | .returned s _ => some s
  | .broken => none

/-- The reader is not broken, and its place is one of those. -/
def Holds (P : Place → Prop) (c : State) : Prop := ∃ s, c.place? = some s ∧ P s

end State

def step (ts : List Token) : State → State
  | .running s (.done e) [] => .returned s (.ok e)
  | .running s (.done e) (back :: callers) => .running s (back (.ok e)) callers
  | .running s (.fail f) [] => .returned s (.error f)
  | .running s (.fail f) (back :: callers) => .running s (back (.error f)) callers
  | .running s (.look access next) callers =>
    match access.token? ts s.cursor with
    | some t => .running s (next t) callers
    | none => .broken
  | .running s (.move next) callers => .running { s with cursor := s.cursor + 1 } next callers
  | .running s (.levels next) callers => .running s (next s.depth) callers
  | .running s (.take next) callers => .running { s with depth := s.depth + 1 } next callers
  | .running s (.giveBack next) callers =>
    match s.depth with
    | 0 => .broken
    | depth + 1 => .running { s with depth } next callers
  | .running s (.restore depth next) callers => .running { s with depth } next callers
  | .running s (.call r next) callers => .running s r.work (next :: callers)
  | .returned s answer => .returned s answer
  | .broken => .broken

variable {ts : List Token} {P : Place → Prop}

/-! ## The cursor -/

theorem exists_cursor_le_of_step {c : State} {s₂ : Place} (h : (step ts c).place? = some s₂) :
    ∃ s₁, c.place? = some s₁ ∧ s₁.cursor ≤ s₂.cursor := by
  cases c with
  | running s w callers =>
    refine ⟨s, rfl, ?_⟩
    cases w with
    | done | fail =>
      cases callers <;> (cases h; exact Nat.le_refl _)
    | look access next =>
      rw [step] at h
      split at h
      · cases h
        exact Nat.le_refl _
      · cases h
    | giveBack next =>
      rw [step] at h
      split at h
      · cases h
      · cases h
        exact Nat.le_refl _
    | move => cases h; exact Nat.le_succ _
    | levels | take | restore | call => cases h; exact Nat.le_refl _
  | returned s answer => exact ⟨s, rfl, by cases h; exact Nat.le_refl _⟩
  | broken => cases h

/-- No step moves the cursor back, and a reader that is broken stays so. -/
theorem exists_cursor_le {c : State} {s₂ : Place} (n : Nat)
    (h : ((step ts)^[n] c).place? = some s₂) :
    ∃ s₁, c.place? = some s₁ ∧ s₁.cursor ≤ s₂.cursor := by
  induction n generalizing s₂ with
  | zero => exact ⟨s₂, h, Nat.le_refl _⟩
  | succ n ih =>
    rw [Function.iterate_succ_apply'] at h
    obtain ⟨s₁, h₁, hle₁⟩ := exists_cursor_le_of_step h
    obtain ⟨s, hs, hle⟩ := ih h₁
    exact ⟨s, hs, Nat.le_trans hle hle₁⟩

/-! ## Stretches of steps -/

/-- The machine gets from one state to another, on places with a property. -/
def Leads (ts : List Token) (P : Place → Prop) (c c' : State) : Prop :=
  ∃ n, (step ts)^[n] c = c' ∧ ∀ i < n, ((step ts)^[i] c).Holds P

theorem Leads.refl (c : State) : Leads ts P c c :=
  ⟨0, rfl, fun _ hi => absurd hi (Nat.not_lt_zero _)⟩

theorem Leads.trans {c c' c'' : State} (h : Leads ts P c c') (h' : Leads ts P c' c'') :
    Leads ts P c c'' := by
  obtain ⟨n, hn, hP⟩ := h
  obtain ⟨m, hm, hP'⟩ := h'
  refine ⟨m + n, by rw [Function.iterate_add_apply, hn, hm], fun i hi => ?_⟩
  obtain hlt | hle := Nat.lt_or_ge i n
  · exact hP i hlt
  · obtain ⟨j, rfl⟩ := Nat.exists_eq_add_of_le' hle
    rw [Function.iterate_add_apply, hn]
    exact hP' j (by omega)

theorem Leads.head {c c' : State} (hP : c.Holds P) (h : Leads ts P (step ts c) c') :
    Leads ts P c c' := by
  refine Leads.trans ⟨1, rfl, fun i hi => ?_⟩ h
  obtain rfl : i = 0 := by omega
  exact hP

/-! ## What a piece of work comes to -/

theorem Work.bind_bind {α β γ : Type} (w : Work α) (f : α → Work β) (g : β → Work γ) :
    (w.bind f).bind g = w.bind fun a => (f a).bind g := by
  induction w with
  | done | fail => rfl
  | look _ _ ih | levels _ ih | call _ _ ih => simp only [Work.bind, ih]
  | move _ ih | take _ ih | giveBack _ ih | restore _ _ ih => rw [Work.bind, Work.bind, ih]; rfl

/-- Whatever stands behind it, the work gets the reader from one place to another, on places with
a property, and comes to an answer. -/
def Makes {α : Type} (ts : List Token) (P : Place → Prop) (s : Place) (w : Work α)
    (r : Except Fault α) (s' : Place) : Prop :=
  ∀ f callers,
    Leads ts P (.running s (w.bind f) callers) (.running s' ((ofAnswer r).bind f) callers)

namespace Makes

variable {α β : Type} {s s' s'' : Place} {r : Except Fault β}

theorem done (b : β) : Makes ts P s (.done b) (.ok b) s := fun _ _ => .refl _

theorem fail (f : Fault) : Makes ts P s (.fail f : Work β) (.error f) s := fun _ _ => .refl _

theorem ofAnswer (r : Except Fault β) : Makes ts P s (ofAnswer r) r s := fun _ _ => .refl _

/-- Nothing that is done to the end moves the cursor back. -/
theorem cursor_le {w : Work β} (h : Makes ts P s w r s') : s.cursor ≤ s'.cursor := by
  obtain ⟨n, hn, -⟩ := h (fun _ => .done .null) []
  have hplace : ((step ts)^[n] (.running s (w.bind fun _ => .done .null) [])).place? = some s' := by
    rw [hn]
    rfl
  obtain ⟨_, hs, hle⟩ := exists_cursor_le n hplace
  cases hs
  exact hle

theorem bind {w : Work α} {f : α → Work β} {a : α} (hw : Makes ts P s w (.ok a) s')
    (hf : Makes ts P s' (f a) r s'') : Makes ts P s (w >>= f) r s'' := by
  intro g callers
  rw [show (w >>= f).bind g = _ from Work.bind_bind w f g]
  exact (hw _ callers).trans (hf g callers)

theorem bind_error {w : Work α} {f : α → Work β} {fault : Fault}
    (hw : Makes ts P s w (.error fault) s') : Makes ts P s (w >>= f) (.error fault) s' := by
  intro g callers
  rw [show (w >>= f).bind g = _ from Work.bind_bind w f g]
  exact hw _ callers

theorem look {access : Access} {next : Token → Work β} {t : Token} (hs : P s)
    (ht : access.token? ts s.cursor = some t) (h : Makes ts P s (next t) r s') :
    Makes ts P s (.look access next) r s' := by
  intro g callers
  refine .head ⟨s, rfl, hs⟩ ?_
  rw [Work.bind, step, ht]
  exact h g callers

theorem move {next : Work β} (hs : P s)
    (h : Makes ts P { s with cursor := s.cursor + 1 } next r s') :
    Makes ts P s (.move next) r s' :=
  fun g callers => .head ⟨s, rfl, hs⟩ (h g callers)

theorem levels {next : Nat → Work β} (hs : P s) (h : Makes ts P s (next s.depth) r s') :
    Makes ts P s (.levels next) r s' :=
  fun g callers => .head ⟨s, rfl, hs⟩ (h g callers)

theorem take {next : Work β} (hs : P s)
    (h : Makes ts P { s with depth := s.depth + 1 } next r s') :
    Makes ts P s (.take next) r s' :=
  fun g callers => .head ⟨s, rfl, hs⟩ (h g callers)

theorem giveBack {next : Work β} {depth : Nat} (hs : P s) (hdepth : s.depth = depth + 1)
    (h : Makes ts P { s with depth } next r s') : Makes ts P s (.giveBack next) r s' := by
  intro g callers
  refine .head ⟨s, rfl, hs⟩ ?_
  rw [Work.bind, step, hdepth]
  exact h g callers

theorem restore {next : Work β} {depth : Nat} (hs : P s)
    (h : Makes ts P { s with depth } next r s') : Makes ts P s (.restore depth next) r s' :=
  fun g callers => .head ⟨s, rfl, hs⟩ (h g callers)

/-- The step back from a routine, to the caller that takes its answer. -/
theorem leads_back (hs : P s) (answer : Except Fault Expr)
    (back : Except Fault Expr → Work Expr) (callers : List (Except Fault Expr → Work Expr)) :
    Leads ts P (.running s ((Work.ofAnswer answer).bind .done) (back :: callers))
      (.running s (back answer) callers) := by
  refine .head ⟨s, rfl, hs⟩ ?_
  cases answer <;> exact .refl _

theorem call {routine : Routine} {next : Except Fault Expr → Work β} {answer : Except Fault Expr}
    (hs : P s) (hroutine : Makes ts P s routine.work answer s') (hs' : P s')
    (h : Makes ts P s' (next answer) r s'') : Makes ts P s (.call routine next) r s'' := by
  intro g callers
  have hinner := hroutine .done ((fun answer => (next answer).bind g) :: callers)
  rw [Work.bind_done] at hinner
  exact .head ⟨s, rfl, hs⟩ (hinner.trans ((leads_back hs' answer _ callers).trans (h g callers)))

/-- A routine that is called by nobody returns after finitely many steps, and then nothing
changes any more. -/
theorem returns {routine : Routine} {answer : Except Fault Expr}
    (h : Makes ts P s routine.work answer s') (hs' : P s') :
    ∃ n, (step ts)^[n] (.start routine s) = .returned s' answer ∧
      ∀ i, ((step ts)^[i] (.start routine s)).Holds P := by
  have hinner := h .done []
  rw [Work.bind_done] at hinner
  have hend : Leads ts P (.running s' ((Work.ofAnswer answer).bind .done) [])
      (.returned s' answer) := by
    refine .head ⟨s', rfl, hs'⟩ ?_
    cases answer <;> exact .refl _
  obtain ⟨n, hn, hP⟩ := hinner.trans hend
  refine ⟨n, hn, fun i => ?_⟩
  obtain hlt | hle := Nat.lt_or_ge i n
  · exact hP i hlt
  · obtain ⟨j, rfl⟩ := Nat.exists_eq_add_of_le' hle
    rw [Function.iterate_add_apply, State.start, hn, Function.iterate_fixed rfl]
    exact ⟨s', rfl, hs'⟩

end Makes

end ExprLang.Reader
