import ExprLang.Proofs.Evaluation.Adequacy
import ExprLang.Proofs.Evaluation.Faults
import ExprLang.Proofs.Expr.Source
import ExprLang.Proofs.Grammar.Nesting

/-!
The stage that a fault comes from. A text is scanned, then parsed, then evaluated, and a fault of
one stage is the last thing that happens. `Fault.isStatic` tells from the kind of a fault alone
whether it belongs to one of the first two stages. One kind has no such place: reading and
evaluating both refuse what is nested too deep.

* `Token.isStatic_of_mem_items`, `Expr.ofTokens_fault`, `Expr.isStatic_of_eval`: the faults of each
  stage;
* `static_faults`: what the kind of a fault tells about a program;
* `static_faults_overlooked`: a program that is refused by the parser with a fault that is not
  static.
-/

namespace ExprLang

open Grammar (maxNesting)

/-! ## The faults of each stage -/

/-- The faults of the scanner are characters that start no token, and white space is never among
them. -/
theorem Token.Scans.exists_stray {p : Place} {cs : List Char} {items : List Item}
    (h : Scans p cs items) {f : Fault} (hf : .error f ∈ items) :
    ∃ c line column, f = .unexpectedCharacter c line column ∧ isBlank c = false := by
  induction h with
  | done =>
    rw [List.mem_singleton] at hf
    cases hf
  | token _ _ _ ih =>
    rcases List.mem_cons.mp hf with hf | hf
    · cases hf
    · exact ih hf
  | stray _ hc _ _ ih =>
    rcases List.mem_cons.mp hf with hf | hf
    · cases hf
      exact ⟨_, _, _, rfl, hc⟩
    · exact ih hf

/-- The scanner has static faults only, also behind its first one. -/
theorem Token.isStatic_of_mem_items {source : String} {f : Fault}
    (hf : .error f ∈ Token.items source) : f.isStatic = true := by
  obtain ⟨c, line, column, rfl, -⟩ := (scans_itemsFrom ..).exists_stray hf
  rfl

theorem Grammar.Refusal.isStatic_or_tooDeep (refusal : Refusal) :
    refusal.toFault.isStatic = true ∨ refusal.toFault = .tooDeep maxNesting := by
  cases refusal with
  | expected what remaining =>
    cases remaining with
    | nil => exact .inl rfl
    | cons t rest => exact .inl rfl
  | invalidTarget target line => exact .inl rfl
  | tooDeep => exact .inr rfl

/-- The parser has static faults, and the one of its limit. -/
theorem Expr.ofTokens_fault {ts : List Token} {f : Fault} (h : Expr.ofTokens ts = .error f) :
    f.isStatic = true ∨ f = .tooDeep maxNesting := by
  unfold Expr.ofTokens at h
  split at h
  · cases h
    exact .inl rfl
  · split at h
    · cases hprogram : Grammar.program ts with
      | ok e =>
        rw [hprogram] at h
        cases h
      | error refusal =>
        rw [hprogram] at h
        cases h
        exact refusal.isStatic_or_tooDeep
    · cases h
      exact .inl rfl

/-- A fault of the scanner is the fault of the text. -/
theorem Expr.ofSource_of_stray {source : String} {f : Fault}
    (h : Token.ofSource source = .error f) : Expr.ofSource source = .error f := by
  rw [Expr.ofSource, h]
  rfl

theorem Expr.ofSource_fault {source : String} {f : Fault} (h : Expr.ofSource source = .error f) :
    f.isStatic = true ∨ f = .tooDeep maxNesting := by
  cases hscan : Token.ofSource source with
  | error g =>
    obtain ⟨ts, rest, hitems⟩ := Token.ofSource_eq_error_iff.mp hscan
    have hg : .error g ∈ Token.items source := by simp [hitems]
    rw [Expr.ofSource_of_stray hscan] at h
    cases h
    exact .inl (Token.isStatic_of_mem_items hg)
  | ok ts =>
    rw [Expr.ofSource_eq hscan] at h
    exact Expr.ofTokens_fault h

theorem Fault.Arises.isStatic {limits : Limits} {f : Fault} (h : f.Arises limits) :
    f.isStatic = false := by
  cases f with
  | unexpectedCharacter _ _ _ | syntaxError _ _ _ | invalidTarget _ _ => exact h.elim
  | _ => rfl

/-- An evaluation has no static faults. -/
theorem Expr.isStatic_of_eval {limits : Limits} {n : Nat} {e : Expr} {s : ScopeId} {state : State}
    {o : Machine.Outcome} (h : e.eval limits n s state = some o) {f : Fault}
    (hf : o.result = .error f) : f.isStatic = false :=
  Fault.Arises.isStatic ((evaluates_of_eval h).2.arises hf)

/-! ## Programs -/

theorem State.evalSource_of_fault {source : String} {f : Fault}
    (h : Expr.ofSource source = .error f) (limits : Limits) (s : ScopeId) (state : State) :
    State.evalSource limits source s state = some ⟨.error f, state⟩ := by
  rw [State.evalSource, h]

theorem State.evalSource_of_expr {source : String} {e : Expr} (h : Expr.ofSource source = .ok e)
    (limits : Limits) (s : ScopeId) (state : State) :
    State.evalSource limits source s state = e.eval limits Machine.patience s state := by
  rw [State.evalSource, h]

/-- A fault of a program is static exactly if scanner or parser raised it, so that nothing was
evaluated, unless the parser found the program nested too deep; that fault is not static. On their
own, evaluations have no static faults, the scanner has no others, and the parser has no others
but this one. -/
theorem static_faults (limits : Limits) (source : String) (s : ScopeId) (state : State) :
    (∀ o f, State.evalSource limits source s state = some o → o.result = .error f →
      Expr.ofSource source ≠ .error (.tooDeep maxNesting) →
        (f.isStatic = true ↔ Expr.ofSource source = .error f) ∧
        (f.isStatic = true → o.state = state) ∧
        (f.isStatic = false ↔ ∃ e, Expr.ofSource source = .ok e ∧
          e.eval limits Machine.patience s state = some o)) ∧
    (Expr.ofSource source = .error (.tooDeep maxNesting) →
      State.evalSource limits source s state = some ⟨.error (.tooDeep maxNesting), state⟩ ∧
        (Fault.tooDeep maxNesting).isStatic = false) ∧
    (∀ n e o f, Expr.eval limits n e s state = some o → o.result = .error f →
      f.isStatic = false) ∧
    (∀ f, .error f ∈ Token.items source → f.isStatic = true) ∧
    (∀ ts f, Expr.ofTokens ts = .error f → f.isStatic = true ∨ f = .tooDeep maxNesting) := by
  refine ⟨fun o f hrun hf hdeep => ?_,
    fun h => ⟨State.evalSource_of_fault h limits s state, rfl⟩,
    fun _ _ _ _ h hf => Expr.isStatic_of_eval h hf,
    fun _ hf => Token.isStatic_of_mem_items hf, fun _ _ h => Expr.ofTokens_fault h⟩
  cases hread : Expr.ofSource source with
  | error g =>
    rw [State.evalSource_of_fault hread] at hrun
    cases hrun
    cases hf
    have hstatic : f.isStatic = true :=
      (Expr.ofSource_fault hread).resolve_right fun h => hdeep (h ▸ hread)
    refine ⟨⟨fun _ => rfl, fun _ => hstatic⟩, fun _ => rfl, ?_⟩
    simp [hstatic]
  | ok e =>
    rw [State.evalSource_of_expr hread] at hrun
    have hruntime : f.isStatic = false := Expr.isStatic_of_eval hrun hf
    refine ⟨?_, ?_, ⟨fun _ => ⟨e, rfl, hrun⟩, fun _ => hruntime⟩⟩
    · simp [hruntime]
    · simp [hruntime]

/-- A program that is refused behind its first number, and one that is read and fails in its second
line. -/
theorem static_faults_both :
    (∃ o f, (State.evalSource .usual "1 2" State.rootScope .fresh = some o ∧
        o.result = .error f ∧ Expr.ofSource "1 2" ≠ .error (.tooDeep maxNesting)) ∧
      f.isStatic = true ∧ o.state = .fresh) ∧
    (∃ o f, (State.evalSource .usual "outn(1);\nx" State.rootScope .fresh = some o ∧
        o.result = .error f ∧ Expr.ofSource "outn(1);\nx" ≠ .error (.tooDeep maxNesting)) ∧
      f.isStatic = false) := by
  constructor
  · have hview : (State.evalSource .usual "1 2" State.rootScope .fresh).map (·.result) =
        some (.error (.syntaxError .endOfProgram (some "2") 1)) := by cbv
    have hread : Expr.ofSource "1 2" = .error (.syntaxError .endOfProgram (some "2") 1) := by cbv
    have hdeep : Expr.ofSource "1 2" ≠ .error (.tooDeep maxNesting) := by
      rw [hread]
      intro h
      cases h
    obtain ⟨o, hrun, hf⟩ := Option.map_eq_some_iff.mp hview
    obtain ⟨hstatic, hstate, -⟩ := (static_faults ..).1 _ _ hrun hf hdeep
    exact ⟨o, _, ⟨hrun, hf, hdeep⟩, hstatic.mpr hread, hstate (hstatic.mpr hread)⟩
  · have hview : (State.evalSource .usual "outn(1);\nx" State.rootScope .fresh).map (·.result) =
        some (.error (.undefinedVariable "x" 2)) := by cbv
    have hread : Expr.ofSource "outn(1);\nx" = .ok (.sequence
        [.call (.identifier "outn" 1) [.number 1] 1, .identifier "x" 2]) := by cbv
    have hdeep : Expr.ofSource "outn(1);\nx" ≠ .error (.tooDeep maxNesting) := by
      rw [hread]
      intro h
      cases h
    obtain ⟨o, hrun, hf⟩ := Option.map_eq_some_iff.mp hview
    obtain ⟨-, -, hruntime⟩ := (static_faults ..).1 _ _ hrun hf hdeep
    rw [State.evalSource_of_expr hread] at hrun
    exact ⟨o, _, ⟨by rwa [State.evalSource_of_expr hread], hf, hdeep⟩,
      hruntime.mpr ⟨_, hread, hrun⟩⟩

/-- `- - … - 0`, with 1000 signs. -/
def manySigns : String :=
  String.intercalate " " ((Grammar.prefixedZero (Token.fixed .minus) 1000).map Token.lexeme)

/-- The parser refuses this text, since it needs a level for each sign and one for itself. Nothing
is evaluated, and still the fault is not static. -/
theorem static_faults_overlooked :
    Expr.ofSource manySigns = .error (.tooDeep 1000) ∧
      State.evalSource .usual manySigns State.rootScope .fresh =
        some ⟨.error (.tooDeep 1000), .fresh⟩ ∧
      (Fault.tooDeep 1000).isStatic = false := by
  have hspelled : Token.Spelled (Grammar.prefixedZero (Token.fixed .minus) 1000) := by
    refine Token.spelled_append.mpr ⟨fun t ht => ?_, List.forall_mem_singleton.mpr ?_⟩
    · rw [List.eq_of_mem_replicate ht]
      exact Token.spells_fixed rfl
    · exact Token.Spells.number (List.cons_ne_nil '0' []) (List.all_eq_true.mp rfl)
  have hsign : (Token.fixed .minus).kind = Grammar.prefixKind .negate := rfl
  obtain ⟨e, he⟩ := Grammar.derives_prefixedZero hsign 1000
  have hprogram := (Grammar.Derives.single he).program_of_chain (Nat.zero_le _)
  have hread : Expr.ofSource manySigns = .error (.tooDeep maxNesting) :=
    (hprogram.ofSource_spaced hspelled).2 (by decide)
  exact ⟨hread, State.evalSource_of_fault hread .usual State.rootScope .fresh, rfl⟩

end ExprLang
