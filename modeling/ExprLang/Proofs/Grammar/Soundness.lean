import ExprLang.Proofs.Grammar.Derivation
import ExprLang.Proofs.Grammar.Reading

/-!
What the productions read, the grammar derives. A production calls others on the same
tokens only in one direction, from the loose ones to the tight ones, and on fewer tokens
otherwise. So the main statement `sound` is an induction on the number of tokens, and in
it every production uses the tighter ones on the same tokens.
-/

namespace ExprLang.Grammar

/-- The tokens in front of the rest are a phrase of a production. -/
def Phrase (p : Production) (ts : List Token) (x : p.Tree) (rest : List Token) : Prop :=
  ∃ us n, ts = us ++ rest ∧ Derives p us x n

/-- What the production reads of the tokens is a phrase. -/
def Sound : Production → List Token → Prop
  | .sequence, ts => ∀ room x rest,
      (sequence room ts).plain = .ok (x, rest) → Phrase .sequence ts x rest
  | .items, ts => ∀ room x rest,
      (furtherItems room ts).plain = .ok (x, rest) → Phrase .items ts x rest
  | .declaration, ts => ∀ room x rest,
      (declaration room ts).plain = .ok (x, rest) → Phrase .declaration ts x rest
  | .assignment, ts => ∀ room x rest,
      (assignment room ts).plain = .ok (x, rest) → Phrase .assignment ts x rest
  | .chain k, ts => ∀ room x rest,
      (chain k room ts).plain = .ok (x, rest) → Phrase (.chain k) ts x rest
  | .links 0, _ => True
  | .links (k + 1), ts => ∀ room left x rest, linked k room left ts = .ok (x, rest) →
      ∃ links, Phrase (.links (k + 1)) ts links rest ∧ x = Link.join left links
  | .operand, ts => ∀ room x rest,
      (operand room ts).plain = .ok (x, rest) → Phrase .operand ts x rest
  | .application, ts => ∀ room x rest,
      (application room ts).plain = .ok (x, rest) → Phrase .application ts x rest
  | .calls, ts => ∀ room callee x rest, called room callee ts = .ok (x, rest) →
      ∃ calls, Phrase .calls ts calls rest ∧ x = Call.join callee calls
  | .arguments, ts => ∀ room x rest,
      (arguments room ts).plain = .ok (x, rest) → Phrase .arguments ts x rest
  | .primary, ts => ∀ room x rest,
      (primary room ts).plain = .ok (x, rest) → Phrase .primary ts x rest
  | .alternatives, ts => ∀ room keyword x rest,
      (alternatives room keyword ts).plain = .ok (x, rest) → Phrase .alternatives ts x rest
  | .furtherArms, ts => ∀ room x rest,
      furtherArms room ts = .ok (x, rest) → Phrase .furtherArms ts x rest
  | .body, ts => ∀ owner room x rest,
      (body owner room ts).plain = .ok (x, rest) → Phrase .body ts x rest

theorem furtherParameters_sound {first : Param} {fs : List Token} (hfirst : IsParameter fs first)
    {ts : List Token} {ps : List Param} {rest : List Token}
    (ih : ∀ us ps rest, us.length < ts.length → (parameters us).plain = .ok (ps, rest) →
      ∃ vs, us = vs ++ rest ∧ AreParameters vs ps)
    (h : furtherParameters first ts = .ok (ps, rest)) :
    ∃ us, fs ++ ts = us ++ rest ∧ AreParameters us ps := by
  cases ts with
  | nil =>
    cases h
    exact ⟨fs, rfl, .last hfirst⟩
  | cons comma ts =>
    rw [furtherParameters] at h
    split at h
    · next hcomma =>
      obtain ⟨params, r₁, hparams, h₁⟩ := ok_of_bind h
      cases h₁
      obtain ⟨vs, rfl, hvs⟩ := ih ts params _ (by simp) hparams
      exact ⟨fs ++ comma :: vs, by simp, .more hfirst hcomma hvs⟩
    · cases h
      exact ⟨fs, rfl, .last hfirst⟩

theorem parameters_sound (ts : List Token) (ps : List Param) (rest : List Token)
    (h : (parameters ts).plain = .ok (ps, rest)) :
    ∃ us, ts = us ++ rest ∧ AreParameters us ps := by
  induction hn : ts.length using Nat.strongRecOn generalizing ts ps rest with
  | _ n ih =>
    subst hn
    cases ts with
    | nil =>
      rw [parameters_plain_nil] at h
      cases h
    | cons t us =>
      by_cases hclose : t.kind = .rightParen
      · rw [parameters_plain_close hclose] at h
        cases h
        exact ⟨[], rfl, .none⟩
      by_cases hconst : t.kind = .constWord
      · rw [parameters_plain_const hconst] at h
        obtain ⟨name, r₁, hname, h₁⟩ := ok_of_bind h
        obtain ⟨rfl, hk⟩ := expect_eq_ok hname
        exact furtherParameters_sound (.constant hconst hk)
          (fun vs ps rest hvs hp => ih _ (by simp at hvs ⊢; omega) vs ps rest hp rfl) h₁
      · rw [parameters_plain_other hclose hconst] at h
        obtain ⟨name, r₁, hname, h₁⟩ := ok_of_bind h
        obtain ⟨he, hk⟩ := expect_eq_ok hname
        cases he
        exact furtherParameters_sound (.plain hk)
          (fun vs ps rest hvs hp => ih _ (by simp at hvs ⊢; omega) vs ps rest hp rfl) h₁

section
variable {ts : List Token} (ih : ∀ p us, us.length < ts.length → Sound p us)
include ih

theorem sound_body : Sound .body ts := by
  intro owner room x rest h
  rw [body_plain] at h
  obtain ⟨opening, r₁, hopening, h₁⟩ := ok_of_bind h
  obtain ⟨e, r₂, he, h₂⟩ := ok_of_bind h₁
  obtain ⟨closing, r₃, hclosing, h₃⟩ := ok_of_bind h₂
  obtain ⟨rfl, ho⟩ := expect_eq_ok hopening
  obtain ⟨rfl, hc⟩ := expect_eq_ok hclosing
  cases h₃
  obtain ⟨us, n, rfl, hd⟩ := ih .sequence r₁ (by simp) room x _ he
  exact ⟨opening :: (us ++ [closing]), n, by simp, .body ho hd hc⟩

theorem sound_furtherArms : Sound .furtherArms ts := by
  intro room x rest h
  cases ts with
  | nil =>
    cases h
    exact ⟨[], 0, rfl, .noArms⟩
  | cons t us =>
    rw [furtherArms] at h
    split at h
    · next hk =>
      obtain ⟨vs, n, rfl, hd⟩ := ih .alternatives us (by simp) room t.lexeme x rest h
      exact ⟨t :: vs, n, rfl, .elifArm hk hd⟩
    · split at h
      · next hk =>
        obtain ⟨last, r₁, hlast, h₁⟩ := ok_of_bind h
        cases h₁
        obtain ⟨vs, n, rfl, hd⟩ := ih .body us (by simp) (.keyword "else") room last _ hlast
        exact ⟨t :: vs, n, rfl, .elseArm hk hd⟩
      · cases h
        exact ⟨[], 0, rfl, .noArms⟩

theorem sound_alternatives : Sound .alternatives ts := by
  intro room keyword x rest h
  rw [alternatives_plain] at h
  obtain ⟨opening, r₁, hopening, h₁⟩ := ok_of_bind h
  obtain ⟨condition, r₂, hcondition, h₂⟩ := ok_of_bind h₁
  obtain ⟨closing, r₃, hclosing, h₃⟩ := ok_of_bind h₂
  obtain ⟨inside, r₄, hinside, h₄⟩ := ok_of_bind h₃
  obtain ⟨arms, r₅, harms, h₅⟩ := ok_of_bind h₄
  obtain ⟨rfl, ho⟩ := expect_eq_ok hopening
  obtain ⟨rfl, hc⟩ := expect_eq_ok hclosing
  cases h₅
  obtain ⟨us, l, rfl, hus⟩ := ih .sequence r₁ (by simp) room condition _ hcondition
  obtain ⟨vs, m, rfl, hvs⟩ :=
    ih .body r₃ (by simp only [List.length_append, List.length_cons]; omega)
      (.keyword keyword) room inside _ hinside
  obtain ⟨ws, n, rfl, hws⟩ :=
    ih .furtherArms r₄ (by simp only [List.length_append, List.length_cons]; omega)
      room arms _ harms
  exact ⟨opening :: (us ++ closing :: (vs ++ ws)), _, by simp, .guarded ho hus hc hvs hws⟩

theorem sound_primary : Sound .primary ts := by
  intro room x rest h
  cases ts with
  | nil =>
    rw [primary_plain_nil] at h
    cases h
  | cons t us =>
    rw [primary_plain_cons] at h
    split at h
    · next hk =>
      split at h
      · next n hn =>
        cases h
        exact ⟨[t], 0, rfl, .number hk hn⟩
      · cases h
    · next hk =>
      cases h
      exact ⟨[t], 0, rfl, .trueWord hk⟩
    · next hk =>
      cases h
      exact ⟨[t], 0, rfl, .falseWord hk⟩
    · next hk =>
      cases h
      exact ⟨[t], 0, rfl, .nullWord hk⟩
    · next hk =>
      cases h
      exact ⟨[t], 0, rfl, .name hk⟩
    · next hk =>
      obtain ⟨e, r₁, he, h₁⟩ := ok_of_bind h
      obtain ⟨closing, r₂, hclosing, h₂⟩ := ok_of_bind h₁
      obtain ⟨rfl, hc⟩ := expect_eq_ok hclosing
      cases h₂
      obtain ⟨vs, n, rfl, hd⟩ := ih .sequence us (by simp) room x _ he
      exact ⟨t :: (vs ++ [closing]), n, by simp, .group hk hd hc⟩
    · next hk =>
      obtain ⟨e, r₁, he, h₁⟩ := ok_of_bind h
      obtain ⟨closing, r₂, hclosing, h₂⟩ := ok_of_bind h₁
      obtain ⟨rfl, hc⟩ := expect_eq_ok hclosing
      cases h₂
      obtain ⟨vs, n, rfl, hd⟩ := ih .sequence us (by simp) room e _ he
      exact ⟨t :: (vs ++ [closing]), n, by simp, .block hk hd hc⟩
    · next hk =>
      obtain ⟨arms, r₁, harms, h₁⟩ := ok_of_bind h
      cases h₁
      obtain ⟨vs, n, rfl, hd⟩ := ih .alternatives us (by simp) room t.lexeme arms _ harms
      exact ⟨t :: vs, n, rfl, .choice hk hd⟩
    · cases h

theorem sound_calls : Sound .calls ts := by
  intro room callee x rest h
  cases ts with
  | nil =>
    rw [called_nil] at h
    cases h
    exact ⟨[], ⟨[], 0, rfl, .noCalls⟩, rfl⟩
  | cons t us =>
    by_cases hk : t.kind = .leftParen
    · cases room with
      | zero =>
        rw [called_zero hk] at h
        cases h
      | succ room =>
        rw [called_succ hk] at h
        obtain ⟨values, r₁, hvalues, h₁⟩ := ok_of_bind h
        obtain ⟨closing, r₂, hclosing, h₂⟩ := ok_of_bind h₁
        obtain ⟨rfl, hc⟩ := expect_eq_ok hclosing
        obtain ⟨vs, m, rfl, hvs⟩ := ih .arguments us (by simp) room values _ hvalues
        obtain ⟨calls, ⟨ws, n, rfl, hws⟩, rfl⟩ :=
          ih .calls r₂ (by simp only [List.length_append, List.length_cons]; omega) room _ x rest h₂
        exact ⟨⟨values, t.line⟩ :: calls,
          ⟨t :: (vs ++ closing :: ws), _, by simp, .call hk hvs hc hws⟩, rfl⟩
    · rw [called_other hk] at h
      cases h
      exact ⟨[], ⟨[], 0, rfl, .noCalls⟩, rfl⟩

theorem sound_application (hprimary : Sound .primary ts) : Sound .application ts := by
  intro room x rest h
  rw [application_plain] at h
  obtain ⟨callee, r₁, hcallee, h₁⟩ := ok_of_bind h
  have hlt := Reading.length_lt hcallee
  obtain ⟨us, m, hus, hd⟩ := hprimary room callee r₁ hcallee
  obtain ⟨calls, ⟨vs, n, rfl, hvs⟩, rfl⟩ := ih .calls r₁ hlt room callee x rest h₁
  exact ⟨us ++ vs, _, by rw [hus, List.append_assoc], .application hd hvs⟩

theorem sound_operator {op : UnaryOp} {sign : Token} {us : List Token} {room : Nat} {x : Expr}
    {rest : List Token} (hts : ts = sign :: us)
    (h : (negation op room sign us).plain = .ok (x, rest)) (hsign : sign.kind = prefixKind op) :
    Phrase .operand ts x rest := by
  cases room with
  | zero =>
    rw [negation_plain_zero] at h
    cases h
  | succ room =>
    rw [negation_plain_succ] at h
    obtain ⟨e, r₁, he, h₁⟩ := ok_of_bind h
    cases h₁
    obtain ⟨vs, n, rfl, hd⟩ := ih .operand us (by simp [hts]) room e _ he
    exact ⟨sign :: vs, _, by rw [hts, List.cons_append], .operator hsign hd⟩

theorem sound_operand (happlication : Sound .application ts) : Sound .operand ts := by
  intro room x rest h
  cases ts with
  | nil =>
    rw [operand_plain_nil] at h
    obtain ⟨us, n, hus, hd⟩ := happlication room x rest h
    exact ⟨us, n, hus, .applied hd⟩
  | cons t us =>
    by_cases hminus : t.kind = .minus
    · by_cases hleast : ∃ digits vs, us = digits :: vs ∧ isLeastMagnitude digits vs = true
      · obtain ⟨digits, vs, rfl, hl⟩ := hleast
        rw [operand_plain_least room hminus hl] at h
        cases h
        simp only [isLeastMagnitude, Bool.and_eq_true, decide_eq_true_eq, beq_iff_eq] at hl
        exact ⟨[t, digits], 0, rfl, .least hminus hl.1.1 hl.1.2⟩
      · have hno : ∀ n r, us = n :: r → isLeastMagnitude n r = false := by
          intro n r hr
          cases hl : isLeastMagnitude n r with
          | false => rfl
          | true => exact absurd ⟨n, r, hr, hl⟩ hleast
        rw [operand_plain_minus room hminus hno] at h
        exact sound_operator ih rfl h hminus
    by_cases hbang : t.kind = .bang
    · rw [operand_plain_bang room hbang] at h
      exact sound_operator ih rfl h hbang
    · rw [operand_plain_other room (by simp [hminus, hbang])] at h
      obtain ⟨vs, n, hvs, hd⟩ := happlication room x rest h
      exact ⟨vs, n, hvs, .applied hd⟩

theorem sound_links (k : Nat) : Sound (.links k) ts := by
  cases k with
  | zero => trivial
  | succ k =>
    intro room left x rest h
    cases ts with
    | nil =>
      rw [linked_nil] at h
      cases h
      exact ⟨[], ⟨[], 0, rfl, .noLinks⟩, rfl⟩
    | cons t us =>
      cases ho : BinaryOp.ofKindAt? (k + 1) t.kind with
      | none =>
        rw [linked_none ho] at h
        cases h
        exact ⟨[], ⟨[], 0, rfl, .noLinks⟩, rfl⟩
      | some op =>
        cases room with
        | zero =>
          rw [linked_zero ho] at h
          cases h
        | succ room =>
          rw [linked_succ ho] at h
          obtain ⟨right, r₁, hright, h₁⟩ := ok_of_bind h
          have hlt := Reading.length_lt hright
          obtain ⟨vs, m, hvs, hd⟩ := ih (.chain k) us (by simp) room right r₁ hright
          obtain ⟨links, ⟨ws, n, rfl, hws⟩, rfl⟩ :=
            ih (.links (k + 1)) r₁ (by simp only [List.length_cons]; omega) room _ x rest h₁
          exact ⟨⟨op, right, t.line⟩ :: links,
            ⟨t :: (vs ++ ws), _, by rw [hvs]; simp, .link ho hd hws⟩, rfl⟩

theorem sound_chain (hoperand : Sound .operand ts) (k : Nat) : Sound (.chain k) ts := by
  induction k with
  | zero =>
    intro room x rest h
    rw [chain_plain_zero] at h
    obtain ⟨us, n, hus, hd⟩ := hoperand room x rest h
    exact ⟨us, n, hus, .single hd⟩
  | succ k ihk =>
    intro room x rest h
    rw [chain_plain_succ] at h
    obtain ⟨first, r₁, hfirst, h₁⟩ := ok_of_bind h
    have hlt := Reading.length_lt hfirst
    obtain ⟨us, m, hus, hd⟩ := ihk room first r₁ hfirst
    obtain ⟨links, ⟨vs, n, rfl, hvs⟩, rfl⟩ := ih (.links (k + 1)) r₁ hlt room first x rest h₁
    exact ⟨us ++ vs, _, by rw [hus, List.append_assoc], .chain hd hvs⟩

theorem sound_assignment (hchain : Sound (.chain BinaryOp.loosest) ts) :
    Sound .assignment ts := by
  intro room x rest h
  rw [assignment_plain] at h
  obtain ⟨target, r₁, htarget, h₁⟩ := ok_of_bind h
  have hlt := Reading.length_lt htarget
  obtain ⟨us, m, hus, hd⟩ := hchain room target r₁ htarget
  cases r₁ with
  | nil =>
    cases h₁
    exact ⟨us, m, hus, .noAssignment hd⟩
  | cons t r₂ =>
    dsimp only at h₁
    split at h₁
    · next hk =>
      obtain ⟨value, r₃, hvalue, h₂⟩ := ok_of_bind h₁
      dsimp only at h₂
      split at h₂
      · cases h₂
        have hlt' : r₂.length < ts.length := by simp at hlt; omega
        obtain ⟨vs, n, rfl, hvs⟩ := ih .declaration r₂ hlt' room value _ hvalue
        exact ⟨us ++ t :: vs, _, by rw [hus]; simp, .assign hd hk hvs⟩
      · cases h₂
    · cases h₁
      exact ⟨us, m, hus, .noAssignment hd⟩

theorem sound_binding {constant : Bool} {word : Token} {us : List Token} {room : Nat} {x : Expr}
    {rest : List Token} (hts : ts = word :: us)
    (h : (binding constant room word us).plain = .ok (x, rest))
    (hword : word.kind = if constant then .constWord else .letWord) :
    Phrase .declaration ts x rest := by
  rw [binding_plain] at h
  obtain ⟨name, r₁, hname, h₁⟩ := ok_of_bind h
  obtain ⟨equal, r₂, hequal, h₂⟩ := ok_of_bind h₁
  obtain ⟨value, r₃, hvalue, h₃⟩ := ok_of_bind h₂
  obtain ⟨rfl, hn⟩ := expect_eq_ok hname
  obtain ⟨rfl, he⟩ := expect_eq_ok hequal
  cases h₃
  obtain ⟨vs, n, rfl, hd⟩ := ih .declaration r₂ (by simp [hts]; omega) room value _ hvalue
  exact ⟨word :: name :: equal :: vs, _, by simp [hts], .binding hword hn he hd⟩

theorem sound_function {word : Token} {us : List Token} {room : Nat} {x : Expr}
    {rest : List Token} (hts : ts = word :: us) (hword : word.kind = .funcWord)
    (h : (declaration (room + 1) (word :: us)).plain = .ok (x, rest)) :
    Phrase .declaration ts x rest := by
  rw [declaration_plain_func room hword] at h
  obtain ⟨opening, r₁, hopening, h₁⟩ := ok_of_bind h
  obtain ⟨params, r₂, hparams, h₂⟩ := ok_of_bind h₁
  obtain ⟨closing, r₃, hclosing, h₃⟩ := ok_of_bind h₂
  obtain ⟨arrow, r₄, harrow, h₄⟩ := ok_of_bind h₃
  obtain ⟨inside, r₅, hinside, h₅⟩ := ok_of_bind h₄
  obtain ⟨rfl, ho⟩ := expect_eq_ok hopening
  obtain ⟨rfl, hc⟩ := expect_eq_ok hclosing
  obtain ⟨rfl, ha⟩ := expect_eq_ok harrow
  cases h₅
  obtain ⟨vs, rfl, hvs⟩ := parameters_sound r₁ params _ hparams
  have hlt : r₄.length < ts.length := by
    simp only [hts, List.length_append, List.length_cons]
    omega
  obtain ⟨ws, n, rfl, hws⟩ := ih .body r₄ hlt .function room inside _ hinside
  exact ⟨word :: opening :: (vs ++ closing :: arrow :: ws), _, by simp [hts],
    .function hword ho hvs hc ha hws⟩

theorem sound_loop {word : Token} {us : List Token} {room : Nat} {x : Expr}
    {rest : List Token} (hts : ts = word :: us) (hword : word.kind = .whileWord)
    (h : (declaration (room + 1) (word :: us)).plain = .ok (x, rest)) :
    Phrase .declaration ts x rest := by
  rw [declaration_plain_while room hword] at h
  obtain ⟨opening, r₁, hopening, h₁⟩ := ok_of_bind h
  obtain ⟨condition, r₂, hcondition, h₂⟩ := ok_of_bind h₁
  obtain ⟨closing, r₃, hclosing, h₃⟩ := ok_of_bind h₂
  obtain ⟨inside, r₄, hinside, h₄⟩ := ok_of_bind h₃
  obtain ⟨rfl, ho⟩ := expect_eq_ok hopening
  obtain ⟨rfl, hc⟩ := expect_eq_ok hclosing
  cases h₄
  have hlt₁ : r₁.length < ts.length := by
    simp only [hts, List.length_cons]
    omega
  obtain ⟨vs, m, rfl, hvs⟩ := ih .sequence r₁ hlt₁ room condition _ hcondition
  have hlt₃ : r₃.length < ts.length := by
    simp only [hts, List.length_append, List.length_cons]
    omega
  obtain ⟨ws, n, rfl, hws⟩ := ih .body r₃ hlt₃ (.keyword "while") room inside _ hinside
  exact ⟨word :: opening :: (vs ++ closing :: ws), _, by simp [hts], .loop hword ho hvs hc hws⟩

theorem sound_declaration (hassignment : Sound .assignment ts) : Sound .declaration ts := by
  intro room x rest h
  have hsimple : ∀ room, (assignment room ts).plain = .ok (x, rest) →
      Phrase .declaration ts x rest := by
    intro room h
    obtain ⟨us, n, hus, hd⟩ := hassignment room x rest h
    exact ⟨us, n + 1, hus, .simple hd⟩
  cases room with
  | zero =>
    rw [declaration_plain_zero] at h
    cases h
  | succ room =>
    cases ts with
    | nil =>
      rw [declaration_plain_nil] at h
      exact hsimple room h
    | cons t us =>
      by_cases hlet : t.kind = .letWord
      · rw [declaration_plain_let room hlet] at h
        exact sound_binding ih rfl h hlet
      by_cases hconst : t.kind = .constWord
      · rw [declaration_plain_const room hconst] at h
        exact sound_binding ih rfl h hconst
      by_cases hfunc : t.kind = .funcWord
      · exact sound_function ih rfl hfunc h
      by_cases hwhile : t.kind = .whileWord
      · exact sound_loop ih rfl hwhile h
      · rw [declaration_plain_other room (by simp [hlet, hconst, hfunc, hwhile])] at h
        exact hsimple room h

theorem sound_items : Sound .items ts := by
  intro room x rest h
  cases ts with
  | nil =>
    rw [furtherItems_plain_nil] at h
    cases h
    exact ⟨[], 0, rfl, .noItems⟩
  | cons t us =>
    rw [furtherItems_plain_cons] at h
    split at h
    · next hk =>
      obtain ⟨item, r₁, hitem, h₁⟩ := ok_of_bind h
      obtain ⟨items, r₂, hitems, h₂⟩ := ok_of_bind h₁
      cases h₂
      have hlt := Reading.length_lt hitem
      obtain ⟨vs, m, hvs, hd⟩ := ih .declaration us (by simp) room item r₁ hitem
      obtain ⟨ws, n, rfl, hws⟩ :=
        ih .items r₁ (by simp only [List.length_cons]; omega) room items _ hitems
      exact ⟨t :: (vs ++ ws), _, by rw [hvs]; simp, .item hk hd hws⟩
    · cases h
      exact ⟨[], 0, rfl, .noItems⟩

theorem sound_sequence (hdeclaration : Sound .declaration ts) : Sound .sequence ts := by
  intro room x rest h
  rw [sequence_plain] at h
  obtain ⟨first, r₁, hfirst, h₁⟩ := ok_of_bind h
  obtain ⟨more, r₂, hmore, h₂⟩ := ok_of_bind h₁
  cases h₂
  have hlt := Reading.length_lt hfirst
  obtain ⟨us, m, hus, hd⟩ := hdeclaration room first r₁ hfirst
  obtain ⟨vs, n, rfl, hvs⟩ := ih .items r₁ hlt room more _ hmore
  exact ⟨us ++ vs, _, by rw [hus, List.append_assoc], .sequence hd hvs⟩

theorem sound_arguments (hdeclaration : Sound .declaration ts) : Sound .arguments ts := by
  intro room x rest h
  by_cases hclose : ts.head?.map Token.kind = some .rightParen
  · rw [arguments_plain_close room hclose] at h
    cases h
    exact ⟨[], 0, rfl, .noArguments⟩
  · rw [arguments_plain_other room hclose] at h
    obtain ⟨value, r₁, hvalue, h₁⟩ := ok_of_bind h
    have hlt := Reading.length_lt hvalue
    obtain ⟨us, m, hus, hd⟩ := hdeclaration room value r₁ hvalue
    cases r₁ with
    | nil =>
      cases h₁
      exact ⟨us, m, hus, .lastArgument hd⟩
    | cons comma r₂ =>
      dsimp only at h₁
      split at h₁
      · next hcomma =>
        obtain ⟨values, r₃, hvalues, h₂⟩ := ok_of_bind h₁
        cases h₂
        have hlt' : r₂.length < ts.length := by simp at hlt; omega
        obtain ⟨vs, n, rfl, hvs⟩ := ih .arguments r₂ hlt' room values _ hvalues
        exact ⟨us ++ comma :: vs, _, by rw [hus]; simp, .argument hd hcomma hvs⟩
      · cases h₁
        exact ⟨us, m, hus, .lastArgument hd⟩

end

/-- What a production reads is one of its phrases. -/
theorem sound (p : Production) (ts : List Token) : Sound p ts := by
  induction hn : ts.length using Nat.strongRecOn generalizing p ts with
  | _ n ih =>
    have ih : ∀ q us, us.length < ts.length → Sound q us :=
      fun q us hlt => ih us.length (hn ▸ hlt) q us rfl
    have hoperand := sound_operand ih (sound_application ih (sound_primary ih))
    have hassignment := sound_assignment ih (sound_chain ih hoperand BinaryOp.loosest)
    have hdeclaration := sound_declaration ih hassignment
    cases p with
    | sequence => exact sound_sequence ih hdeclaration
    | items => exact sound_items ih
    | declaration => exact hdeclaration
    | assignment => exact hassignment
    | chain k => exact sound_chain ih hoperand k
    | links k => exact sound_links ih k
    | operand => exact hoperand
    | application => exact sound_application ih (sound_primary ih)
    | calls => exact sound_calls ih
    | arguments => exact sound_arguments ih hdeclaration
    | primary => exact sound_primary ih
    | alternatives => exact sound_alternatives ih
    | furtherArms => exact sound_furtherArms ih
    | body => exact sound_body ih

end ExprLang.Grammar
