import ExprLang.Command
import ExprLang.Proofs.Evaluation.Course
import ExprLang.Proofs.Program.Stages
import ExprLang.Proofs.Text.Utf8

/-!
What the commands have in common. All three read the same text: tokenizing goes on behind a
character that starts no token, the other two stop at the first one; parsing and running stop at
the same fault of the grammar; and only running evaluates.

* `diagnostics_of_stray`: the fault at which parsing and running stop comes first in the list;
* `run_eq_parse`: parsing and running are refused together;
* `ran_of_run`: how an evaluation is reported;
* `commands_agree`: what the three reports on one text tell about each other.
-/

namespace ExprLang.Command

variable {source : String} {f : Fault} {e : Expr}

/-! ## Tokenizing -/

/-- The lines that tokenizing writes about a text, one for each character that starts no token. -/
def diagnostics (source : String) : List String :=
  (Token.items source).filterMap fun
    | .ok _ => none
    | .error f => some (diagnostic f)

/-- A text of one line, with its end. -/
def IsLine (text : String) : Prop := ∃ body, text = body ++ "\n" ∧ '\n' ∉ body.toList

theorem newline_not_mem_toDigits (n : Nat) : '\n' ∉ Nat.toDigits 10 n := by
  intro h
  have hdigit := Nat.isDigit_of_mem_toDigits (by decide) (by decide) h
  cases hdigit

/-- A character that starts no token stands in the message as it is, but it ends no line. -/
theorem newline_not_mem_message {c : Char} (hc : isBlank c = false) (line column : Nat) :
    '\n' ∉ (Fault.message (.unexpectedCharacter c line column)).toList := by
  have hnewline : '\n' ≠ c := by
    rintro rfl
    cases hc
  have hmessage : Fault.message (.unexpectedCharacter c line column) =
      "[line " ++ toString line ++ ", column " ++ toString column
        ++ "] Unexpected character '" ++ c.toString ++ "'" := rfl
  rw [hmessage]
  simp [newline_not_mem_toDigits, hnewline]

theorem isLine_diagnostic (h : '\n' ∉ f.message.toList) : IsLine (diagnostic f) := by
  have hkind : '\n' ∉ f.kind.toList := by cases f <;> simp [Fault.kind]
  refine ⟨"Error[" ++ f.kind ++ "]: " ++ f.message, rfl, ?_⟩
  simp [hkind, h]

/-- Tokenizing writes a line for each fault. -/
theorem isLine_of_mem_diagnostics {text : String} (h : text ∈ diagnostics source) :
    IsLine text := by
  obtain ⟨item, hitem, htext⟩ := List.mem_filterMap.mp h
  cases item with
  | ok t => cases htext
  | error f =>
    cases htext
    obtain ⟨c, line, column, rfl, hc⟩ := (Token.scans_itemsFrom ..).exists_stray hitem
    exact isLine_diagnostic (newline_not_mem_message hc line column)

theorem tokenize_errors (source : String) (json : Bool) :
    (tokenize source json).errors = String.join (diagnostics source) := rfl

theorem tokenize_status (source : String) (json : Bool) :
    (tokenize source json).status = if (diagnostics source).isEmpty then 0 else statusStatic := rfl

theorem diagnostics_of_tokens {ts : List Token} (h : Token.ofSource source = .ok ts) :
    diagnostics source = [] := by
  simp [diagnostics, Token.ofSource_eq_ok_iff.mp h]

/-- The first line is about the fault that ends the reading of the text. -/
theorem diagnostics_of_stray (h : Token.ofSource source = .error f) :
    ∃ others, diagnostics source = diagnostic f :: others := by
  obtain ⟨ts, rest, hitems⟩ := Token.ofSource_eq_error_iff.mp h
  simp [diagnostics, hitems]

theorem tokenize_status_iff (source : String) (json : Bool) :
    (tokenize source json).status = statusStatic ↔ ∃ f, Token.ofSource source = .error f := by
  rw [tokenize_status]
  cases hscan : Token.ofSource source with
  | ok ts => simp [diagnostics_of_tokens hscan, statusStatic]
  | error f =>
    obtain ⟨others, hothers⟩ := diagnostics_of_stray hscan
    simp [hothers]

/-! ## Parsing and running -/

theorem parse_of_fault (h : Expr.ofSource source = .error f) (json : Bool) :
    parse source json = ⟨statusStatic, "", diagnostic f⟩ := by
  rw [parse, h]
  rfl

theorem parse_of_expr (h : Expr.ofSource source = .ok e) (json : Bool) :
    (parse source json).status = 0 := by
  rw [parse, h]

theorem run_of_fault (h : Expr.ofSource source = .error f) (limits : Limits) :
    run source limits = some ⟨statusStatic, "", diagnostic f⟩ := by
  rw [run, h]
  rfl

/-- The report on an evaluation that has ended. -/
def Report.ofOutcome (o : Machine.Outcome) : Report :=
  match o.result with
  | .ok v => ⟨0, o.state.output ++ v.text ++ "\n", ""⟩
  | .error f => ⟨statusRuntime, o.state.output, diagnostic f⟩

theorem run_of_expr (h : Expr.ofSource source = .ok e) (limits : Limits) :
    run source limits = (e.run limits).map Report.ofOutcome := by
  simp only [run, h]
  cases e.run limits with
  | none => rfl
  | some o =>
    obtain ⟨r, state⟩ := o
    cases r <;> rfl

theorem Report.ofOutcome_status (o : Machine.Outcome) : (ofOutcome o).status ≠ statusStatic := by
  unfold ofOutcome
  split <;> simp [statusStatic, statusRuntime]

/-- Parsing and running are refused together, and then they give the same report. -/
theorem run_eq_parse {json : Bool} (h : (parse source json).status = statusStatic)
    (limits : Limits) :
    run source limits = some (parse source json) ∧ (parse source json).output = "" ∧
      ∃ f, Expr.ofSource source = .error f ∧ (parse source json).errors = diagnostic f := by
  cases hread : Expr.ofSource source with
  | ok e =>
    rw [parse_of_expr hread] at h
    cases h
  | error f =>
    rw [parse_of_fault hread, run_of_fault hread]
    exact ⟨rfl, rfl, f, rfl, rfl⟩

theorem parse_status_of_run {limits : Limits} {r : Report} (h : run source limits = some r)
    (hr : r.status = statusStatic) (json : Bool) : (parse source json).status = statusStatic := by
  cases hread : Expr.ofSource source with
  | error f => rw [parse_of_fault hread]
  | ok e =>
    rw [run_of_expr hread] at h
    obtain ⟨o, -, rfl⟩ := Option.map_eq_some_iff.mp h
    exact absurd hr (Report.ofOutcome_status o)

/-! ## The three reports -/

/-- A run of a program, as it is reported: it gave a value, or it raised a fault with just this
output. -/
inductive Ran (limits : Limits) (e : Expr) : Report → Prop where
  | value {o : Machine.Outcome} {v : Value} (hrun : e.run limits = some o)
      (hvalue : o.result = .ok v) :
      Ran limits e ⟨0, o.state.output ++ v.text ++ "\n", ""⟩
  | fault {o : Machine.Outcome} {f : Fault} {c : Machine.Config} (hrun : e.run limits = some o)
      (hfault : o.result = .error f)
      (hcomes : Machine.Comes limits (Machine.start e State.rootScope .fresh) c)
      (hraises : Machine.Raises limits c f) :
      Ran limits e ⟨statusRuntime, c.state.output, diagnostic f⟩

theorem ran_of_run {limits : Limits} {o : Machine.Outcome} (h : e.run limits = some o) :
    Ran limits e (.ofOutcome o) := by
  cases hresult : o.result with
  | ok v =>
    have hreport : Report.ofOutcome o = ⟨0, o.state.output ++ v.text ++ "\n", ""⟩ := by
      rw [Report.ofOutcome, hresult]
    rw [hreport]
    exact .value h hresult
  | error f =>
    obtain ⟨c, hcomes, hraises, houtput⟩ := Machine.run_raised h hresult nofun
    have hreport : Report.ofOutcome o = ⟨statusRuntime, c.state.output, diagnostic f⟩ := by
      rw [Report.ofOutcome, hresult, houtput]
    rw [hreport]
    exact .fault h hresult hcomes hraises

/-- What the reports of the three commands on one text tell about each other; `ran` is none while
the evaluation goes on. -/
structure Agreement (source : String) (limits : Limits) (tokenized parsed : Report)
    (ran : Option Report) : Prop where
  /-- Tokenizing is refused for characters that start no token. -/
  stray : tokenized.status = statusStatic ↔ ∃ f, .error f ∈ Token.items source
  /-- Then the others report the first of them: their errors are the first line of its errors. -/
  first : tokenized.status = statusStatic → ∃ first others,
    diagnostics source = first :: others ∧ tokenized.errors = String.join (first :: others) ∧
      IsLine first ∧ parsed = ⟨statusStatic, "", first⟩ ∧ ran = some ⟨statusStatic, "", first⟩
  /-- Running is refused if parsing is. -/
  refused : (∃ r, ran = some r ∧ r.status = statusStatic) ↔ parsed.status = statusStatic
  /-- Then there is nothing to evaluate, and the reports are the same. -/
  unread : parsed.status = statusStatic → ran = some parsed ∧ parsed.output = "" ∧
    ∃ f, Expr.ofSource source = .error f ∧ parsed.errors = diagnostic f
  /-- Otherwise a program was read. -/
  read : parsed.status ≠ statusStatic → parsed.status = 0 ∧ ∃ e, Expr.ofSource source = .ok e ∧
    (ran.isSome ↔ (e.run limits).isSome) ∧ ∀ r, ran = some r → Ran limits e r
  /-- The parser's limit is its own. -/
  parserTooDeep : ∀ limit, Expr.ofSource source = .error (.tooDeep limit) →
    limit = Grammar.maxNesting ∧
      ran = some ⟨statusStatic, "", diagnostic (.tooDeep Grammar.maxNesting)⟩
  /-- The limit of the evaluator is the one that is given. -/
  evaluatorTooDeep : ∀ e o limit, Expr.ofSource source = .ok e → e.run limits = some o →
    o.result = .error (.tooDeep limit) → limit = limits.depth ∧
      ran = some ⟨statusRuntime, o.state.output, diagnostic (.tooDeep limits.depth)⟩

/-- The commands agree on a text, whether they got it from a file or not. -/
theorem agreement (source : String) (json json' : Bool) (limits : Limits) :
    Agreement source limits (tokenize source json) (parse source json') (run source limits) where
  stray := by rw [tokenize_status_iff, Token.exists_fault_iff]
  first h := by
    obtain ⟨f, hscan⟩ := (tokenize_status_iff source json).mp h
    obtain ⟨others, hothers⟩ := diagnostics_of_stray hscan
    have hread := Expr.ofSource_of_stray hscan
    have herrors : (tokenize source json).errors = String.join (diagnostic f :: others) := by
      rw [tokenize_errors, hothers]
    have hmem : diagnostic f ∈ diagnostics source := by simp [hothers]
    exact ⟨diagnostic f, others, hothers, herrors, isLine_of_mem_diagnostics hmem,
      parse_of_fault hread json', run_of_fault hread limits⟩
  refused := by
    constructor
    · rintro ⟨r, hrun, hr⟩
      exact parse_status_of_run hrun hr json'
    · intro h
      exact ⟨_, (run_eq_parse h limits).1, h⟩
  unread h := run_eq_parse h limits
  read h := by
    cases hread : Expr.ofSource source with
    | error f => exact absurd (by rw [parse_of_fault hread]) h
    | ok e =>
      rw [run_of_expr hread]
      refine ⟨parse_of_expr hread json', e, rfl, by rw [Option.isSome_map], ?_⟩
      intro r hr
      obtain ⟨o, hrun, rfl⟩ := Option.map_eq_some_iff.mp hr
      exact ran_of_run hrun
  parserTooDeep limit h := by
    obtain hstatic | heq := Expr.ofSource_fault h
    · cases hstatic
    · cases heq
      exact ⟨rfl, run_of_fault h limits⟩
  evaluatorTooDeep e o limit hread hrun hresult := by
    have hlimit : limit = limits.depth := (evaluates_of_eval hrun).2.arises hresult
    subst hlimit
    rw [run_of_expr hread, hrun, Option.map_some, Report.ofOutcome, hresult]
    exact ⟨rfl, rfl⟩

/-- On every text, whatever the options and the limit, the three commands agree. -/
theorem commands_agree (source file : String) (json json' log : Bool) (depth? : Option Nat) :
    ∃ tokenized parsed,
      perform ⟨.tokenize file json, log, depth?⟩ (some (Utf8.bytes source)) true =
        some tokenized ∧
      perform ⟨.parse file json', log, depth?⟩ (some (Utf8.bytes source)) true = some parsed ∧
      Agreement source ⟨depth?.getD Limits.usual.depth, true⟩ tokenized parsed
        (perform ⟨.run file, log, depth?⟩ (some (Utf8.bytes source)) true) := by
  simp only [perform, Task.file?, Utf8.decode_bytes]
  exact ⟨_, _, rfl, rfl, agreement ..⟩

end ExprLang.Command
