import ExprLang.Proofs.Reader.Productions
import Mathlib.Data.List.Iterate

/-!
The discipline of a reader. From every place that is not behind the first end mark, on at most as
many levels as there are, every production returns. On its way the cursor moves forward only and
not beyond the first end mark, no token is looked at that is not there, and the number of levels
that are taken stays between the number at the start and the greatest. In the end this number is
what it was, for every answer; where the answer is an expression the cursor has moved; and the
answer and the tokens that are left are what `Grammar` reads.

* `Disciplined`: all this of one run;
* `productions_disciplined`: every production, from every such place.
-/

namespace ExprLang.Reader

open Grammar (maxNesting)

/-- What is to be kept by the run of a production from a place. -/
structure Disciplined (ts : List Token) (p : Entry) (s : Place) (n : Nat) (s' : Place)
    (answer : Except Fault Expr) : Prop where
  /-- It takes `n` steps. -/
  returned : (step ts)^[n] (.start (.entry p) s) = .returned s' answer
  /-- In no state is the reader broken. -/
  within : ∀ i, ((step ts)^[i] (.start (.entry p) s)).Holds fun s₁ =>
    s₁.cursor ≤ endIndex ts ∧ s.depth ≤ s₁.depth ∧ s₁.depth ≤ maxNesting
  forward : ∀ i j, i ≤ j → ∀ s₁ s₂, ((step ts)^[i] (.start (.entry p) s)).place? = some s₁ →
    ((step ts)^[j] (.start (.entry p) s)).place? = some s₂ → s₁.cursor ≤ s₂.cursor
  depth_eq : s'.depth = s.depth
  advanced : ∀ e, answer = .ok e → s.cursor < s'.cursor
  agrees : Agrees ts s'.cursor answer (p.reading (maxNesting - s.depth) (ts.drop s.cursor))

variable {ts : List Token}

theorem endIndex_lt_length (hmark : ts.getLast?.map Token.kind = some .eof) :
    endIndex ts < ts.length := by
  obtain ⟨t, ht, hk⟩ := Option.map_eq_some_iff.1 hmark
  exact List.findIdx_lt_length_of_exists ⟨t, List.mem_of_getLast? ht, decide_eq_true hk⟩

theorem lt_of_entry_reading {p : Entry} {room c c' : Nat} {e : Expr}
    (h : p.reading room (ts.drop c) = .ok (e, ts.drop c')) : c < c' := by
  cases p <;> exact lt_of_read h

/-- The places of a run, in the order of its steps, have cursors in order. -/
theorem cursor_mono {c : State} {i j : Nat} (hij : i ≤ j) {s₁ s₂ : Place}
    (h₁ : ((step ts)^[i] c).place? = some s₁) (h₂ : ((step ts)^[j] c).place? = some s₂) :
    s₁.cursor ≤ s₂.cursor := by
  obtain ⟨k, rfl⟩ := Nat.exists_eq_add_of_le' hij
  rw [Function.iterate_add_apply] at h₂
  obtain ⟨s, hs, hle⟩ := exists_cursor_le k h₂
  rw [h₁] at hs
  cases hs
  exact hle

/-- A run comes to one answer only, in one place. -/
theorem returned_unique {c : State} {n m : Nat} {s s' : Place} {answer answer' : Except Fault Expr}
    (h : (step ts)^[n] c = .returned s answer) (h' : (step ts)^[m] c = .returned s' answer') :
    s = s' ∧ answer = answer' := by
  have hend : (step ts)^[m + n] c = .returned s answer := by
    rw [Function.iterate_add_apply, h, Function.iterate_fixed rfl]
  rw [Nat.add_comm, Function.iterate_add_apply, h', Function.iterate_fixed rfl] at hend
  cases hend
  exact ⟨rfl, rfl⟩

/-- Every production returns, and keeps its discipline on its way, from every place that is not
behind the first end mark. -/
theorem productions_disciplined (hmark : ts.getLast?.map Token.kind = some .eof) (p : Entry)
    (s : Place) (hcursor : s.cursor ≤ endIndex ts) (hdepth : s.depth ≤ maxNesting) :
    ∃ n s' answer, Disciplined ts p s n s' answer := by
  have hs : Within ts s.depth s :=
    ⟨endIndex_lt_length hmark, hcursor, Nat.le_refl _, hdepth⟩
  obtain ⟨answer, s', hmakes, hs', hsteady, hagrees⟩ :=
    conforms ts s.cursor (.entry p) s.depth s.depth hs
  obtain ⟨n, hreturned, hwithin⟩ := hmakes.returns hs'
  refine ⟨n, s', answer, hreturned, fun i => ?_, fun i j hij _ _ => cursor_mono hij, hsteady rfl,
    fun e he => ?_, hagrees⟩
  · obtain ⟨s₁, hs₁, hbounds⟩ := hwithin i
    exact ⟨s₁, hs₁, hbounds.cursor_le, hbounds.base_le, hbounds.depth_le⟩
  · subst he
    generalize hread : (Routine.entry p).reading _ _ = x at hagrees
    cases hagrees
    exact lt_of_entry_reading hread

/-- `f(1`, and an end mark before the parenthesis that is missing. -/
def unclosedCall : List Token :=
  [⟨.identifier, "f", 1, 1⟩, ⟨.leftParen, "(", 1, 2⟩, ⟨.number, "1", 1, 3⟩, ⟨.eof, "", 1, 4⟩,
    ⟨.rightParen, ")", 2, 1⟩, ⟨.eof, "", 2, 2⟩]

/-- Two levels are free at the start, one of them for the declaration and one for the call. There
is none for the argument. -/
theorem unclosedCall_disciplined :
    unclosedCall.getLast?.map Token.kind = some .eof ∧ 0 ≤ endIndex unclosedCall ∧
      998 ≤ maxNesting ∧ ∃ n,
        Disciplined unclosedCall .sequence ⟨0, 998⟩ n ⟨2, 998⟩ (.error (.tooDeep maxNesting)) := by
  have hmark : unclosedCall.getLast?.map Token.kind = some .eof := rfl
  have hdepth : 998 ≤ maxNesting := by decide
  have hrun : (step unclosedCall)^[100] (.start (.entry .sequence) ⟨0, 998⟩) =
      .returned ⟨2, 998⟩ (.error (.tooDeep maxNesting)) := by
    cbv
  obtain ⟨n, s', answer, h⟩ :=
    productions_disciplined hmark .sequence ⟨0, 998⟩ (Nat.zero_le _) hdepth
  obtain ⟨rfl, rfl⟩ := returned_unique h.returned hrun
  exact ⟨hmark, Nat.zero_le _, hdepth, n, h⟩

end ExprLang.Reader
