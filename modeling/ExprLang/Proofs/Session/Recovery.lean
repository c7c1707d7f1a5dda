import ExprLang.Proofs.Evaluation.Adequacy
import ExprLang.Proofs.Evaluation.Course
import ExprLang.Proofs.Evaluation.Output
import ExprLang.Proofs.Program.Stages
import ExprLang.Session

/-!
Sessions after failures. An action that fails, wherever its fault arose, leaves no trace but what
it did to the scopes and what it wrote: no call stays in progress. So one interpreter that performs
a series of actions does the same as a relay of interpreters, a fresh one for each action, that
hand on the scopes.

* `act?_eq_fresh`, `act?_idle`: what one action does, compared with a fresh interpreter;
* `actAll?_eq_relay`, `performAll?_eq_relay`: a whole series against the relay;
* `session_recovers`: the property of all sessions.
-/

namespace ExprLang

namespace Session

/-- What an interpreter is asked for: a step, or the value of an expression in any scope. -/
inductive Action where
  | step (step : Step)
  | evaluate (e : Expr) (s : ScopeId)

/-- The state in which evaluations of the session start. -/
def state (session : Session) : State := ⟨⟨session.store, session.output⟩, session.calls⟩

/-- The session with the state that an evaluation ended in. -/
def afterwards (session : Session) (state : State) : Session :=
  { session with store := state.store, calls := state.calls, output := state.output }

/-- Performs an action; none if an evaluation takes more than `n` steps, and where a step of
the session is not performed. -/
def act? (n : Nat) (session : Session) : Action → Option (Session × Except Fault Reply)
  | .step step => (session.perform? step).map fun r => (r.1, r.2.reply)
  | .evaluate e s => (e.eval session.limits n s session.state).map fun o =>
      (session.afterwards o.state, o.result.map .value)

/-- Performs actions in order. -/
def actAll? (n : Nat) (session : Session) :
    List Action → Option (Session × List (Except Fault Reply))
  | [] => some (session, [])
  | a :: as => do
    let (session, reply) ← session.act? n a
    let (session, replies) ← session.actAll? n as
    return (session, reply :: replies)

/-- A fresh interpreter with the same limits on the same scopes: no call is in progress and nothing
is written. -/
def fresh (session : Session) : Session := { session with calls := 0, output := "" }

/-- Performs actions in order, each by a fresh interpreter on the scopes that the one before left.
The answers hold what each of them wrote. -/
def relay? (n : Nat) (session : Session) : List Action → Option (Session × List Answer)
  | [] => some (session.fresh, [])
  | a :: as => do
    let (next, reply) ← session.fresh.act? n a
    let (last, answers) ← next.relay? n as
    return (last, ⟨reply, next.output⟩ :: answers)

/-- The session with something written before. -/
def behind (before : String) (session : Session) : Session :=
  { session with output := before ++ session.output }

/-- All that the actions of a relay wrote. -/
def written (answers : List Answer) : String := String.join (answers.map Answer.output)

/-! ## One action -/

section Steps

variable {n : Nat} {session session' : Session} {step : Step}

/-- A step that leaves all but scopes and bindings as it is, and writes nothing. -/
structure Quiet (session : Session) (r : Session × Answer) : Prop where
  limits : r.1.limits = session.limits
  calls : r.1.calls = session.calls
  output : r.1.output = session.output
  silent : r.2.output = ""

theorem keep_quiet (session : Session) (change : Store × Option Fault) :
    session.Quiet (session.keep change) := by
  obtain ⟨st, fault?⟩ := change
  cases fault? <;> exact ⟨rfl, rfl, rfl, rfl⟩

/-- A step evaluates a text, or it is quiet. -/
theorem perform?_cases {r : Session × Answer} (h : session.perform? step = some r) :
    (∃ scope source s o, step = .eval scope source ∧ session.scopes[scope]? = some s ∧
      State.evalSource session.limits source s ⟨⟨session.store, ""⟩, session.calls⟩ = some o ∧
      r = ((session.afterwards o.state).behind session.output,
        ⟨o.result.map .value, o.state.output⟩)) ∨
    (∀ scope source, step ≠ .eval scope source) ∧ session.Quiet r := by
  cases step with
  | eval scope source =>
    obtain ⟨s, hs, h⟩ := Option.bind_eq_some_iff.mp h
    obtain ⟨o, ho, h⟩ := Option.bind_eq_some_iff.mp h
    cases h
    exact .inl ⟨scope, source, s, o, rfl, hs, ho, rfl⟩
  | new | root | drop scope =>
    cases h
    exact .inr ⟨nofun, rfl, rfl, rfl, rfl⟩
  | child scope count | get scope name line | same scope first second =>
    obtain ⟨s, -, h⟩ := Option.bind_eq_some_iff.mp h
    cases h
    exact .inr ⟨nofun, rfl, rfl, rfl, rfl⟩
  | define scope name value constant line | assign scope name value line =>
    obtain ⟨s, -, h⟩ := Option.bind_eq_some_iff.mp h
    cases h
    exact .inr ⟨nofun, keep_quiet ..⟩

/-- A step puts what it writes behind what is there. -/
theorem perform?_output {r : Session × Answer} (h : session.perform? step = some r) :
    r.1.output = session.output ++ r.2.output := by
  rcases perform?_cases h with ⟨scope, source, s, o, -, -, -, rfl⟩ | ⟨-, hquiet⟩
  · rfl
  · rw [hquiet.output, hquiet.silent, String.append_empty]

theorem evalSource_calls {limits : Limits} {source : String} {s : ScopeId} {state : State}
    {o : Machine.Outcome} (h : State.evalSource limits source s state = some o) :
    o.state.calls = state.calls := by
  cases hread : Expr.ofSource source with
  | error f =>
    rw [State.evalSource_of_fault hread] at h
    cases h
    rfl
  | ok e =>
    rw [State.evalSource_of_expr hread] at h
    exact (evaluates_of_eval h).1

theorem act?_step (n : Nat) {r : Session × Answer} (h : session.perform? step = some r) :
    session.act? n (.step step) = some (r.1, r.2.reply) := by
  rw [act?, h, Option.map_some]

/-- After an action as many calls are in progress as before, whether it failed or not. -/
theorem act?_calls {a : Action} {reply : Except Fault Reply}
    (h : session.act? n a = some (session', reply)) :
    session'.limits = session.limits ∧ session'.calls = session.calls := by
  cases a with
  | step step =>
    obtain ⟨r, hstep, h⟩ := Option.map_eq_some_iff.mp h
    cases h
    rcases perform?_cases hstep with ⟨scope, source, s, o, -, -, heval, rfl⟩ | ⟨-, hquiet⟩
    · exact ⟨rfl, evalSource_calls heval⟩
    · exact ⟨hquiet.limits, hquiet.calls⟩
  | evaluate e s =>
    obtain ⟨o, heval, h⟩ := Option.map_eq_some_iff.mp h
    cases h
    exact ⟨rfl, (evaluates_of_eval heval).1⟩

theorem keep_behind (session : Session) (before : String) (change : Store × Option Fault) :
    (session.behind before).keep change =
      ((session.keep change).1.behind before, (session.keep change).2) := by
  obtain ⟨st, fault?⟩ := change
  cases fault? <;> rfl

/-- What was written before has no influence on a step. -/
theorem perform?_behind (before : String) (session : Session) (step : Step) :
    (session.behind before).perform? step =
      (session.perform? step).map fun r => (r.1.behind before, r.2) := by
  cases step with
  | new | root | drop scope => rfl
  | eval scope source =>
    simp [perform?, behind, Option.map_bind, String.append_assoc]
  | child scope count | get scope name line | same scope first second =>
    simp [perform?, refer, behind, Option.map_bind]
  | define scope name value constant line | assign scope name value line =>
    simp only [perform?, keep_behind]
    simp [behind, Option.map_bind]

theorem act?_behind (n : Nat) (before : String) (session : Session) (a : Action) :
    (session.behind before).act? n a =
      (session.act? n a).map fun r => (r.1.behind before, r.2) := by
  cases a with
  | step step =>
    simp only [act?, perform?_behind, Option.map_map, Function.comp_def]
  | evaluate e s =>
    simp only [act?, state, behind, Expr.eval_behind, Option.map_map, Function.comp_def]
    rfl

/-- Between calls, only what was written tells an interpreter from a fresh one. -/
theorem eq_fresh_behind (h : session.calls = 0) : session = session.fresh.behind session.output := by
  obtain ⟨limits, st, calls, scopes, output⟩ := session
  obtain rfl : calls = 0 := h
  simp [fresh, behind]

theorem perform?_eq_fresh (h : session.calls = 0) (step : Step) :
    session.perform? step =
      (session.fresh.perform? step).map fun r => (r.1.behind session.output, r.2) := by
  rw [← perform?_behind, ← eq_fresh_behind h]

theorem act?_eq_fresh (h : session.calls = 0) (n : Nat) (a : Action) :
    session.act? n a =
      (session.fresh.act? n a).map fun r => (r.1.behind session.output, r.2) := by
  rw [← act?_behind, ← eq_fresh_behind h]

end Steps

/-! ## A series of actions -/

theorem relay?_behind (n : Nat) (before : String) (session : Session) (as : List Action) :
    (session.behind before).relay? n as = session.relay? n as := by
  cases as <;> rfl

theorem written_nil : written [] = "" := rfl

theorem written_cons (answer : Answer) (answers : List Answer) :
    written (answer :: answers) = answer.output ++ written answers := by
  simp [written]

/-- One interpreter does what the relay does, and has written what all of the relay wrote. -/
theorem actAll?_eq_relay (n : Nat) {session : Session} (h : session.calls = 0)
    (as : List Action) :
    session.actAll? n as = (session.relay? n as).map fun r =>
      (r.1.behind (session.output ++ written r.2), r.2.map Answer.reply) := by
  induction as generalizing session with
  | nil =>
    rw [actAll?, relay?, Option.map_some, written_nil, String.append_empty, ← eq_fresh_behind h,
      List.map_nil]
  | cons a as ih =>
    rw [actAll?, relay?, act?_eq_fresh h]
    cases hact : session.fresh.act? n a with
    | none => rfl
    | some r =>
      -- The hypothesis is used behind all that was written; the relay does not see this output.
      have hidle : (r.1.behind session.output).calls = 0 := (act?_calls hact).2
      simp only [Option.map_some, Option.bind_eq_bind, Option.bind_some, ih hidle, relay?_behind]
      cases r.1.relay? n as with
      | none => rfl
      | some rest => simp [behind, written_cons, String.append_assoc]

/-- The same for the steps of a session, with their own account of what they wrote. -/
theorem performAll?_eq_relay (n : Nat) {session : Session} (h : session.calls = 0)
    (steps : List Step) :
    session.performAll? steps = (session.relay? n (steps.map .step)).map fun r =>
      (r.1.behind (session.output ++ written r.2), r.2) := by
  induction steps generalizing session with
  | nil =>
    rw [performAll?, List.map_nil, relay?, Option.map_some, written_nil, String.append_empty,
      ← eq_fresh_behind h]
  | cons step steps ih =>
    rw [performAll?, List.map_cons, relay?, act?, perform?_eq_fresh h]
    cases hstep : session.fresh.perform? step with
    | none => rfl
    | some r =>
      have hidle : (r.1.behind session.output).calls = 0 :=
        (act?_calls (act?_step n hstep)).2
      have hown : r.1.output = r.2.output := by
        simpa [fresh] using perform?_output hstep
      simp only [Option.map_some, Option.bind_eq_bind, Option.bind_some, ih hidle, relay?_behind,
        hown]
      cases r.1.relay? n (steps.map .step) with
      | none => rfl
      | some rest => simp [behind, written_cons, String.append_assoc, hown]

theorem actAll?_calls {n : Nat} {session session' : Session} {as : List Action}
    {replies : List (Except Fault Reply)} (h : session.actAll? n as = some (session', replies)) :
    session'.limits = session.limits ∧ session'.calls = session.calls := by
  induction as generalizing session replies with
  | nil =>
    cases h
    exact ⟨rfl, rfl⟩
  | cons a as ih =>
    obtain ⟨⟨next, reply⟩, hact, h⟩ := Option.bind_eq_some_iff.mp h
    obtain ⟨⟨last, more⟩, hrest, h⟩ := Option.bind_eq_some_iff.mp h
    cases h
    obtain ⟨hlimits, hcalls⟩ := act?_calls hact
    obtain ⟨hlimits', hcalls'⟩ := ih hrest
    exact ⟨hlimits'.trans hlimits, hcalls'.trans hcalls⟩

/-! ## Sessions -/

/-- Where an interpreter is between two actions, and what the next evaluation can rely on. -/
structure Usable (limits : Limits) (session : Session) : Prop where
  limits_eq : session.limits = limits
  /-- No call is in progress. -/
  idle : session.calls = 0
  /-- In the course of an evaluation, the calls in progress stay within the limit. -/
  within : ∀ e s c, Machine.Comes limits (Machine.start e s session.state) c →
    c.state.calls ≤ limits.depth
  /-- A failing evaluation writes what it has written when its fault arises. -/
  raised : ∀ n e s o f, e.eval limits n s session.fresh.state = some o → o.result = .error f →
    ∃ c, Machine.Comes limits (Machine.start e s session.fresh.state) c ∧
      Machine.Raises limits c f ∧ o.state.output = c.state.output
  /-- A step that evaluates a text evaluates the expression that it is. -/
  read : ∀ n scope source s e, session.scopes[scope]? = some s → Expr.ofSource source = .ok e →
    session.act? n (.step (.eval scope source)) = session.act? Machine.patience (.evaluate e s)
  /-- A text that is no expression changes nothing. -/
  unread : ∀ n scope source s f, session.scopes[scope]? = some s →
    Expr.ofSource source = .error f →
    session.act? n (.step (.eval scope source)) = some (session, .error f)
  /-- Other steps write nothing, whether they fail or not. -/
  quiet : ∀ n step session' reply, (∀ scope source, step ≠ .eval scope source) →
    session.act? n (.step step) = some (session', reply) → session'.output = session.output

/-- The step keeps its output apart and then puts it behind what is there; the evaluation writes
it there at once. -/
theorem act?_eval {session : Session} {scope : Nat} {source : String} {s : ScopeId} {e : Expr}
    (hs : session.scopes[scope]? = some s) (hread : Expr.ofSource source = .ok e) (n : Nat) :
    session.act? n (.step (.eval scope source)) =
      session.act? Machine.patience (.evaluate e s) := by
  have hbehind := Expr.eval_behind session.limits Machine.patience e s session.store session.output
    "" session.calls
  rw [String.append_empty] at hbehind
  simp only [act?, perform?, hs, State.evalSource_of_expr hread, state, hbehind,
    Option.bind_eq_bind, Option.bind_some]
  cases e.eval session.limits Machine.patience s ⟨⟨session.store, ""⟩, session.calls⟩ <;> rfl

theorem usable {session : Session} (h : session.calls = 0) :
    session.Usable session.limits where
  limits_eq := rfl
  idle := h
  within e s c hcomes := hcomes.calls_le (by
    change session.calls ≤ _
    omega)
  raised n e s o f heval hf := Machine.run_raised heval hf nofun
  read n scope source s e hs hread := act?_eval hs hread n
  unread n scope source s f hs hread := by
    have hempty : session.output ++ "" = session.output := String.append_empty
    simp only [act?, perform?, hs, State.evalSource_of_fault hread, Option.bind_eq_bind,
      Option.bind_some, hempty]
    rfl
  quiet n step session' reply hstep hact := by
    obtain ⟨r, hperform, h⟩ := Option.map_eq_some_iff.mp hact
    cases h
    rcases perform?_cases hperform with ⟨scope, source, s, o, rfl, -⟩ | ⟨-, hquiet⟩
    · exact absurd rfl (hstep scope source)
    · exact hquiet.output

end Session

open Session

/-- After any actions, failed or not, an interpreter is as usable as before: what it does is what
the relay of fresh interpreters does, and what it has written is what they wrote, in order. -/
theorem session_recovers (n : Nat) {session : Session} (hidle : session.calls = 0) :
    (∀ as, session.actAll? n as = (session.relay? n as).map fun r =>
      (r.1.behind (session.output ++ written r.2), r.2.map Answer.reply)) ∧
    (∀ steps, session.performAll? steps = (session.relay? n (steps.map .step)).map fun r =>
      (r.1.behind (session.output ++ written r.2), r.2)) ∧
    ∀ as session' replies, session.actAll? n as = some (session', replies) →
      session'.Usable session.limits := by
  refine ⟨actAll?_eq_relay n hidle, performAll?_eq_relay n hidle, ?_⟩
  intro as session' replies h
  obtain ⟨hlimits, hcalls⟩ := actAll?_calls h
  rw [← hlimits]
  exact usable (hcalls.trans hidle)

/-- Four actions, of which three fail: in a call that never returns, at a constant, and in such a
call again. -/
def Session.mishaps : List Action :=
  [.step (.eval 0 "let f = func(n) => \x7b outn(n); f(n + 1) \x7d; f(0)"),
    .step (.define 0 "outn" .null false 1),
    .evaluate (.call (.identifier "f" 1) [.number 7] 1) State.rootScope,
    .step (.eval 0 "outn(9)")]

/-- The calls in progress, what was written, and the faults. -/
def Session.overview (r : Session × List (Except Fault Reply)) :
    Nat × String × List (Option Fault) :=
  (r.1.calls, r.1.output, r.2.map fun reply => match reply with
    | .ok _ => none
    | .error f => some f)

theorem session_recovers_mishaps :
    let session := Session.start ⟨2, true⟩
    session.calls = 0 ∧
    (session.actAll? 99 mishaps).map overview =
      some (0, "0\n1\n7\n8\n9\n",
        [some (.tooDeep 2), some (.assignToConstant "outn" 1), some (.tooDeep 2), none]) ∧
    (session.relay? 99 mishaps).map (fun r => r.2.map Answer.output) =
      some ["0\n1\n", "", "7\n8\n", "9\n"] ∧
    ∃ session' replies, session.actAll? 99 mishaps = some (session', replies) ∧
      session'.Usable ⟨2, true⟩ := by
  intro session
  obtain ⟨-, -, husable⟩ := session_recovers 99 (rfl : session.calls = 0)
  have hoverview : (session.actAll? 99 mishaps).map overview =
      some (0, "0\n1\n7\n8\n9\n",
        [some (.tooDeep 2), some (.assignToConstant "outn" 1), some (.tooDeep 2), none]) := by
    cbv
  obtain ⟨⟨session', replies⟩, hact, -⟩ := Option.map_eq_some_iff.mp hoverview
  exact ⟨rfl, hoverview, by cbv, session', replies, hact, husable mishaps session' replies hact⟩

end ExprLang
