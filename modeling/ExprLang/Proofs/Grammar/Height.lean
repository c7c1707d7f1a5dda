import ExprLang.Proofs.Grammar.Recognition
import Mathlib.Tactic.Ring

/-!
How high the expressions are that the parser returns, counted in operators and calls on a
path from the root to a leaf.

The levels that a chain takes are free again behind the chain, and the whole chain may be
the first operand of a looser one. So a reader with `n` levels free can put `n` calls and,
for each looseness, `n` operators on top of what is in parentheses, and inside these it has
one level less. The bound that follows is sharp, and far above the number of levels. What
the levels do bound is how often a path leads into a right operand, into an argument or
behind a prefix operator.

* `Derives.low`: a bound for every production, for any weights of the two ways to go on;
* `exists_high_primary`, `exists_high_sequence`: phrases that attain the bound;
* `ofTokens_height_bound`, `exists_ofTokens_height`: the height of what the parser returns;
* `ofTokens_height_le_maxNesting`: when it is no more than the number of levels;
* `ofTokens_higher_than_maxNesting`: products in front of sums, where it is more.
-/

namespace ExprLang

mutual

/-- The greatest weight of a path to a leaf. A step from a binary operator to its left
operand or from a call to its callee weighs `l`, a step from an operator or a call to
another part weighs `r`, and all other steps weigh nothing. -/
def Expr.weight (l r : Nat) : Expr → Nat
  | .number _ | .bool _ | .null | .identifier _ _ => 0
  | .declare _ _ value _ => value.weight l r
  | .assign _ value _ => value.weight l r
  | .sequence items => Expr.weights l r items
  | .block body => body.weight l r
  | .choice arms => arms.weight l r
  | .loop condition body _ => max (condition.weight l r) (body.weight l r)
  | .function _ body _ => body.weight l r
  | .call callee arguments _ => max (callee.weight l r + l) (Expr.weights l r arguments + r)
  | .binary _ left right _ => max (left.weight l r + l) (right.weight l r + r)
  | .unary _ operand _ => operand.weight l r + r

def Expr.weights (l r : Nat) : List Expr → Nat
  | [] => 0
  | e :: es => max (e.weight l r) (Expr.weights l r es)

def Arms.weight (l r : Nat) : Arms → Nat
  | .done => 0
  | .otherwise body => body.weight l r
  | .guarded condition body rest =>
      max (condition.weight l r) (max (body.weight l r) (rest.weight l r))

end

/-- The most unary operators, binary operators and calls on a path to a leaf. -/
def Expr.operatorHeight (e : Expr) : Nat := e.weight 1 1

/-- The most steps on a path to a leaf that go from a binary operator to its left operand or
from a call to its callee. -/
def Expr.leftHeight (e : Expr) : Nat := e.weight 1 0

mutual

theorem Expr.weight_add (l r l' r' : Nat) (e : Expr) :
    e.weight (l + l') (r + r') ≤ e.weight l r + e.weight l' r' := by
  match e with
  | .number _ | .bool _ | .null | .identifier _ _ => exact Nat.zero_le _
  | .declare _ _ value _ => exact value.weight_add l r l' r'
  | .assign _ value _ => exact value.weight_add l r l' r'
  | .sequence items => exact Expr.weights_add l r l' r' items
  | .block body => exact body.weight_add l r l' r'
  | .choice arms => exact arms.weight_add l r l' r'
  | .loop condition body _ =>
    have hcondition := condition.weight_add l r l' r'
    have hbody := body.weight_add l r l' r'
    simp only [Expr.weight]
    omega
  | .function _ body _ => exact body.weight_add l r l' r'
  | .call callee arguments _ =>
    have hcallee := callee.weight_add l r l' r'
    have harguments := Expr.weights_add l r l' r' arguments
    simp only [Expr.weight]
    omega
  | .binary _ left right _ =>
    have hleft := left.weight_add l r l' r'
    have hright := right.weight_add l r l' r'
    simp only [Expr.weight]
    omega
  | .unary _ operand _ =>
    have hoperand := operand.weight_add l r l' r'
    simp only [Expr.weight]
    omega

theorem Expr.weights_add (l r l' r' : Nat) (es : List Expr) :
    Expr.weights (l + l') (r + r') es ≤ Expr.weights l r es + Expr.weights l' r' es := by
  match es with
  | [] => exact Nat.zero_le _
  | e :: es =>
    have hfirst := e.weight_add l r l' r'
    have hmore := Expr.weights_add l r l' r' es
    simp only [Expr.weights]
    omega

theorem Arms.weight_add (l r l' r' : Nat) (arms : Arms) :
    arms.weight (l + l') (r + r') ≤ arms.weight l r + arms.weight l' r' := by
  match arms with
  | .done => exact Nat.zero_le _
  | .otherwise body => exact body.weight_add l r l' r'
  | .guarded condition body rest =>
    have hcondition := condition.weight_add l r l' r'
    have hbody := body.weight_add l r l' r'
    have hrest := rest.weight_add l r l' r'
    simp only [Arms.weight]
    omega

end

namespace Grammar

/-! ## Weights of chains -/

section Fold

variable {α : Type} {l r : Nat} {wrap : Expr → α → Expr}

/-- Each step puts a node on top, with what is there on the left of it. -/
theorem weight_foldl {xs : List α} {bound : Nat}
    (hwrap : ∀ e, ∀ x ∈ xs, (wrap e x).weight l r ≤ max (e.weight l r) bound + l) {e : Expr}
    (he : e.weight l r ≤ bound) :
    (xs.foldl wrap e).weight l r ≤ bound + l * xs.length := by
  induction xs generalizing e bound with
  | nil => exact he
  | cons x xs ih =>
    have hstep : (wrap e x).weight l r ≤ bound + l := by
      have h := hwrap e x (.head _)
      rwa [Nat.max_eq_right he] at h
    have hrest : (xs.foldl wrap (wrap e x)).weight l r ≤ bound + l + l * xs.length := by
      refine ih (fun e y hy => ?_) hstep
      have h := hwrap e y (.tail _ hy)
      omega
    rw [List.foldl_cons, List.length_cons, Nat.mul_succ]
    omega

theorem weight_foldl_replicate {x : α}
    (hwrap : ∀ e, (wrap e x).weight l r = e.weight l r + l) (n : Nat) (e : Expr) :
    ((List.replicate n x).foldl wrap e).weight l r = e.weight l r + l * n := by
  induction n generalizing e with
  | zero => rfl
  | succ n ih =>
    rw [List.replicate_succ, List.foldl_cons, ih, hwrap, Nat.mul_succ]
    omega

end Fold

section Join

variable {l r bound : Nat}

theorem weight_join_links {links : List Link}
    (hlinks : ∀ link ∈ links, link.right.weight l r + r ≤ bound + l) {first : Expr}
    (hfirst : first.weight l r ≤ bound) :
    (Link.join first links).weight l r ≤ bound + l * links.length := by
  refine weight_foldl (fun left link hlink => ?_) hfirst
  have hright := hlinks link hlink
  rw [Expr.weight]
  omega

theorem weight_join_calls {calls : List Call}
    (hcalls : ∀ call ∈ calls, Expr.weights l r call.arguments + r ≤ bound + l) {callee : Expr}
    (hcallee : callee.weight l r ≤ bound) :
    (Call.join callee calls).weight l r ≤ bound + l * calls.length := by
  refine weight_foldl (fun callee call hcall => ?_) hcallee
  have harguments := hcalls call hcall
  rw [Expr.weight]
  omega

end Join

/-! ## Productions -/

/-- Bounds for what is read with so many levels free that leave room for calls and six
loosenesses of operators behind it, and for a right operand with one level less. -/
structure Bounds (l r : Nat) (bound : Nat → Nat) : Prop where
  chains : ∀ n, bound n + 7 * (l * n) ≤ bound (n + 1)
  right : ∀ n, bound n + r ≤ bound (n + 1) + l

/-- The bound for a chain. -/
def chainBound (l : Nat) (bound : Nat → Nat) (k n : Nat) : Nat := bound n + (k + 1) * (l * n)

section Bounds

variable {l r : Nat} {bound : Nat → Nat}

theorem chainBound_zero (n : Nat) : chainBound l bound 0 n = bound n + l * n := by
  rw [chainBound, Nat.zero_add, Nat.one_mul]

theorem chainBound_succ (k n : Nat) :
    chainBound l bound (k + 1) n = chainBound l bound k n + l * n := by
  rw [chainBound, chainBound, Nat.succ_mul (k + 1), Nat.add_assoc]

theorem le_chainBound (k n : Nat) : bound n ≤ chainBound l bound k n := Nat.le_add_right ..

namespace Bounds

theorem mono (h : Bounds l r bound) {m n : Nat} (hle : m ≤ n) : bound m ≤ bound n := by
  induction hle with
  | refl => exact Nat.le_refl _
  | step _ ih => exact Nat.le_trans ih (Nat.le_trans (Nat.le_add_right ..) (h.chains _))

theorem chain_mono (h : Bounds l r bound) (k : Nat) {m n : Nat} (hle : m ≤ n) :
    chainBound l bound k m ≤ chainBound l bound k n :=
  Nat.add_le_add (h.mono hle) (Nat.mul_le_mul_left _ (Nat.mul_le_mul_left _ hle))

theorem chain_loosest (h : Bounds l r bound) (n : Nat) :
    chainBound l bound BinaryOp.loosest n ≤ bound (n + 1) := h.chains n

theorem chain_right (h : Bounds l r bound) (k n : Nat) :
    chainBound l bound k n + r ≤ chainBound l bound k (n + 1) + l := by
  have hright := h.right n
  have hmore : (k + 1) * (l * n) ≤ (k + 1) * (l * (n + 1)) :=
    Nat.mul_le_mul_left _ (Nat.mul_le_mul_left _ (Nat.le_succ n))
  unfold chainBound
  omega

theorem operator (h : Bounds l r bound) (n : Nat) :
    chainBound l bound 0 n + r ≤ chainBound l bound 0 (n + 1) := by
  have hright := h.right n
  rw [chainBound_zero, chainBound_zero, Nat.mul_succ]
  omega

end Bounds

end Bounds

/-- What bounds a phrase of a production that is read with `n` levels free. -/
def Production.Low (l r : Nat) (bound : Nat → Nat) : (p : Production) → p.Tree → Nat → Prop
  | .items, es, n | .arguments, es, n => Expr.weights l r es ≤ bound n
  | .links k, ls, n =>
      ls.length ≤ n ∧ ∀ link ∈ ls, link.right.weight l r + r ≤ chainBound l bound (k - 1) n + l
  | .calls, cs, n =>
      cs.length ≤ n ∧ ∀ call ∈ cs, Expr.weights l r call.arguments + r ≤ bound n + l
  | .alternatives, arms, n | .furtherArms, arms, n => Arms.weight l r arms ≤ bound n
  | .sequence, e, n | .declaration, e, n | .primary, e, n | .body, e, n =>
      Expr.weight l r e ≤ bound n
  | .assignment, e, n => Expr.weight l r e ≤ chainBound l bound BinaryOp.loosest n
  | .chain k, e, n => Expr.weight l r e ≤ chainBound l bound k n
  | .operand, e, n | .application, e, n => Expr.weight l r e ≤ chainBound l bound 0 n

section Low

variable {l r : Nat} {bound : Nat → Nat} (hbound : Bounds l r bound)
include hbound

theorem Production.Low.mono {p : Production} {x : p.Tree} {m n : Nat} (h : p.Low l r bound x m)
    (hle : m ≤ n) : p.Low l r bound x n := by
  have hgroup := hbound.mono hle
  cases p with
  | links k =>
    refine ⟨Nat.le_trans h.1 hle, fun link hlink => Nat.le_trans (h.2 link hlink) ?_⟩
    exact Nat.add_le_add_right (hbound.chain_mono _ hle) l
  | calls =>
    refine ⟨Nat.le_trans h.1 hle, fun call hcall => Nat.le_trans (h.2 call hcall) ?_⟩
    exact Nat.add_le_add_right hgroup l
  | assignment => exact Nat.le_trans h (hbound.chain_mono _ hle)
  | chain k => exact Nat.le_trans h (hbound.chain_mono _ hle)
  | operand => exact Nat.le_trans h (hbound.chain_mono _ hle)
  | application => exact Nat.le_trans h (hbound.chain_mono _ hle)
  | _ => exact Nat.le_trans h hgroup

/-- No phrase weighs more than the levels it needs allow. -/
theorem Derives.low {p : Production} {ts : List Token} {x : p.Tree} {need : Nat}
    (h : Derives p ts x need) : p.Low l r bound x need := by
  induction h with
  | @sequence _ _ first more m n _ _ ihfirst ihmore =>
    have hfirst : first.weight l r ≤ bound (max m n) :=
      ihfirst.mono hbound (Nat.le_max_left ..)
    have hmore : Expr.weights l r more ≤ bound (max m n) :=
      ihmore.mono hbound (Nat.le_max_right ..)
    show Expr.weight l r (if more.isEmpty then first else .sequence (first :: more)) ≤ _
    split
    · exact hfirst
    · exact Nat.max_le.mpr ⟨hfirst, hmore⟩
  | item _ _ _ ihitem ihitems =>
    exact Nat.max_le.mpr ⟨ihitem.mono hbound (Nat.le_max_left ..),
      ihitems.mono hbound (Nat.le_max_right ..)⟩
  | binding _ _ _ _ ih => exact ih.mono hbound (Nat.le_succ _)
  | function _ _ _ _ _ _ ih => exact ih.mono hbound (Nat.le_succ _)
  | @loop _ _ _ _ _ condition inside m n _ _ _ _ _ ihcondition ihinside =>
    have hcondition : condition.weight l r ≤ bound (max m n + 1) :=
      ihcondition.mono hbound (Nat.le_succ_of_le (Nat.le_max_left ..))
    have hinside : inside.weight l r ≤ bound (max m n + 1) :=
      ihinside.mono hbound (Nat.le_succ_of_le (Nat.le_max_right ..))
    exact Nat.max_le.mpr ⟨hcondition, hinside⟩
  | simple _ ih => exact Nat.le_trans ih (hbound.chain_loosest _)
  | noAssignment _ ih => exact ih
  | assign _ _ _ _ ih =>
    exact Nat.le_trans (ih.mono hbound (Nat.le_max_right ..)) (le_chainBound ..)
  | single _ ih => exact ih
  | @chain k _ _ first links m n _ _ ihfirst ihlinks =>
    have hfirst : first.weight l r ≤ chainBound l bound k (max m n) :=
      ihfirst.mono hbound (Nat.le_max_left ..)
    obtain ⟨hlength, hrights⟩ := ihlinks.mono hbound (Nat.le_max_right m n)
    show (Link.join first links).weight l r ≤ chainBound l bound (k + 1) (max m n)
    rw [chainBound_succ]
    exact Nat.le_trans (weight_join_links hrights hfirst)
      (Nat.add_le_add_left (Nat.mul_le_mul_left l hlength) _)
  | @link k _ _ _ _ right links m n _ _ _ ihright ihlinks =>
    have hright : right.weight l r ≤ chainBound l bound k (max m n) :=
      ihright.mono hbound (Nat.le_max_left ..)
    have hstep := hbound.chain_right k (max m n)
    obtain ⟨hlength, -⟩ := ihlinks.mono hbound (Nat.le_max_right m n)
    have hrights := (ihlinks.mono hbound (Nat.le_succ_of_le (Nat.le_max_right m n))).2
    refine ⟨Nat.succ_le_succ hlength, List.forall_mem_cons.mpr ⟨?_, hrights⟩⟩
    exact Nat.le_trans (Nat.add_le_add_right hright r) hstep
  | operator _ _ ih => exact Nat.le_trans (Nat.add_le_add_right ih r) (hbound.operator _)
  | applied _ ih => exact ih
  | @application _ _ callee calls m n _ _ ihcallee ihcalls =>
    have hcallee : callee.weight l r ≤ bound (max m n) :=
      ihcallee.mono hbound (Nat.le_max_left ..)
    obtain ⟨hlength, harguments⟩ := ihcalls.mono hbound (Nat.le_max_right m n)
    show (Call.join callee calls).weight l r ≤ chainBound l bound 0 (max m n)
    rw [chainBound_zero]
    exact Nat.le_trans (weight_join_calls harguments hcallee)
      (Nat.add_le_add_left (Nat.mul_le_mul_left l hlength) _)
  | @call _ _ _ _ args calls m n _ _ _ _ ihargs ihcalls =>
    have hargs : Expr.weights l r args ≤ bound (max m n) :=
      ihargs.mono hbound (Nat.le_max_left ..)
    have hstep := hbound.right (max m n)
    obtain ⟨hlength, -⟩ := ihcalls.mono hbound (Nat.le_max_right m n)
    have harguments := (ihcalls.mono hbound (Nat.le_succ_of_le (Nat.le_max_right m n))).2
    refine ⟨Nat.succ_le_succ hlength, List.forall_mem_cons.mpr ⟨?_, harguments⟩⟩
    exact Nat.le_trans (Nat.add_le_add_right hargs r) hstep
  | lastArgument _ ih => exact Nat.max_le.mpr ⟨ih, Nat.zero_le _⟩
  | argument _ _ _ ih ihmore =>
    exact Nat.max_le.mpr ⟨ih.mono hbound (Nat.le_max_left ..),
      ihmore.mono hbound (Nat.le_max_right ..)⟩
  | group _ _ _ ih => exact ih
  | block _ _ _ ih => exact ih
  | choice _ _ ih => exact ih
  | @guarded _ _ _ _ _ condition inside rest l' m n _ _ _ _ _ ihcondition ihinside ihrest =>
    have hcondition : condition.weight l r ≤ bound (max l' (max m n)) :=
      ihcondition.mono hbound (by omega)
    have hinside : inside.weight l r ≤ bound (max l' (max m n)) :=
      ihinside.mono hbound (by omega)
    have hrest : rest.weight l r ≤ bound (max l' (max m n)) := ihrest.mono hbound (by omega)
    exact Nat.max_le.mpr ⟨hcondition, Nat.max_le.mpr ⟨hinside, hrest⟩⟩
  | elifArm _ _ ih => exact ih
  | elseArm _ _ ih => exact ih
  | body _ _ _ ih => exact ih
  | noLinks | noCalls => exact ⟨Nat.le_refl _, List.forall_mem_nil _⟩
  | _ => exact Nat.zero_le _

end Low

/-- The height within a pair of parentheses, where `n` levels are free. -/
def groupHeight : Nat → Nat
  | 0 => 0
  | n + 1 => groupHeight n + 7 * n

theorem bounds_groupHeight : Bounds 1 1 groupHeight where
  chains n := by rw [Nat.one_mul, groupHeight]
  right n := Nat.add_le_add_right (Nat.le_add_right ..) 1

/-- Steps that do not go to the left are counted by the levels themselves. -/
theorem bounds_levels : Bounds 0 1 id where
  chains n := by simp
  right n := Nat.le_refl _

/-- Seven times the number of pairs of levels. -/
theorem two_mul_groupHeight (n : Nat) : 2 * groupHeight n = 7 * (n * (n - 1)) := by
  induction n with
  | zero => rfl
  | succ n ih =>
    rw [groupHeight, Nat.mul_add, ih]
    cases n with
    | zero => rfl
    | succ n =>
      simp only [Nat.add_sub_cancel]
      ring

/-! ## Phrases that attain the bound -/

/-- The token `0`. -/
def zeroToken : Token := ⟨.number, "0", 1, 1⟩

/-- A token of a given kind, whose text does not matter. -/
def mark (kind : TokenKind) : Token := ⟨kind, "", 1, 1⟩

theorem kind_mark (kind : TokenKind) : (mark kind).kind = kind := rfl

theorem derives_zero : Derives .operand [zeroToken] (.number 0) 0 :=
  .applied (.application (.number rfl rfl) .noCalls)

/-- An operator and a zero, several times. -/
theorem derives_zeros {k : Nat} {sign : Token} {op : BinaryOp}
    (hsign : BinaryOp.ofKindAt? (k + 1) sign.kind = some op) (n : Nat) :
    Derives (.links (k + 1)) (List.replicate n [sign, zeroToken]).flatten
      (List.replicate n ⟨op, .number 0, sign.line⟩) n := by
  induction n with
  | zero => exact .noLinks
  | succ n ih =>
    have hlink := Derives.link hsign (derives_zero.chain_of_operand k) ih
    rw [Nat.zero_max] at hlink
    exact hlink

theorem height_join_zeros (op : BinaryOp) (line n : Nat) (first : Expr) :
    (Link.join first (List.replicate n ⟨op, .number 0, line⟩)).operatorHeight =
      first.operatorHeight + n := by
  have hjoin : (Link.join first (List.replicate n ⟨op, .number 0, line⟩)).weight 1 1 =
      first.weight 1 1 + 1 * n :=
    weight_foldl_replicate (fun e => by simp [Expr.weight]) n first
  rwa [Nat.one_mul] at hjoin

/-- Empty calls, one behind the other. -/
theorem derives_calls (n : Nat) :
    Derives .calls (List.replicate n [mark .leftParen, mark .rightParen]).flatten
      (List.replicate n ⟨[], 1⟩) n := by
  induction n with
  | zero => exact .noCalls
  | succ n ih =>
    have hcall := Derives.call (kind_mark .leftParen) .noArguments (kind_mark .rightParen) ih
    rw [Nat.zero_max] at hcall
    exact hcall

theorem height_join_empty_calls (n : Nat) (callee : Expr) :
    (Call.join callee (List.replicate n ⟨[], 1⟩)).operatorHeight = callee.operatorHeight + n := by
  have hjoin : (Call.join callee (List.replicate n ⟨[], 1⟩)).weight 1 1 =
      callee.weight 1 1 + 1 * n :=
    weight_foldl_replicate (fun e => by simp [Expr.weight, Expr.weights]) n callee
  rwa [Nat.one_mul] at hjoin

theorem exists_sign {k : Nat} (hk : k < BinaryOp.loosest) :
    ∃ kind op, BinaryOp.ofKindAt? (k + 1) kind = some op := by
  match k, hk with
  | 0, _ => exact ⟨.star, .multiply, rfl⟩
  | 1, _ => exact ⟨.plus, .add, rfl⟩
  | 2, _ => exact ⟨.less, .less, rfl⟩
  | 3, _ => exact ⟨.equalEqual, .equal, rfl⟩
  | 4, _ => exact ⟨.andAnd, .and, rfl⟩
  | 5, _ => exact ⟨.orOr, .or, rfl⟩

/-- As many calls and operators of each looseness as there are levels fit behind a phrase. -/
theorem exists_high_chain {ts : List Token} {e : Expr} {n : Nat} (h : Derives .primary ts e n)
    (he : e.operatorHeight = groupHeight n) {k : Nat} (hk : k ≤ BinaryOp.loosest) :
    ∃ us e', Derives (.chain k) us e' n ∧ e'.operatorHeight = groupHeight n + (k + 1) * n := by
  induction k with
  | zero =>
    have hcalled := Derives.application h (derives_calls n)
    rw [Nat.max_self] at hcalled
    refine ⟨_, _, .single (.applied hcalled), ?_⟩
    rw [height_join_empty_calls, he, Nat.zero_add, Nat.one_mul]
  | succ k ih =>
    obtain ⟨us, first, hfirst, hheight⟩ := ih (Nat.le_of_succ_le hk)
    obtain ⟨kind, op, hop⟩ := exists_sign hk
    have hsign : BinaryOp.ofKindAt? (k + 1) (mark kind).kind = some op := hop
    have hchain := Derives.chain hfirst (derives_zeros hsign n)
    rw [Nat.max_self] at hchain
    refine ⟨_, _, hchain, ?_⟩
    rw [height_join_zeros, hheight, Nat.succ_mul (k + 1), Nat.add_assoc]

theorem exists_high_sequence {ts : List Token} {e : Expr} {n : Nat} (h : Derives .primary ts e n)
    (he : e.operatorHeight = groupHeight n) :
    ∃ us e', Derives .sequence us e' (n + 1) ∧ e'.operatorHeight = groupHeight (n + 1) := by
  obtain ⟨us, e', hchain, hheight⟩ := exists_high_chain h he (Nat.le_refl BinaryOp.loosest)
  have hsequence := Derives.sequence (.simple (.noAssignment hchain)) .noItems
  rw [Nat.max_zero] at hsequence
  exact ⟨_, e', hsequence, hheight⟩

/-- Group in group, each with all that fits behind it. -/
theorem exists_high_primary (n : Nat) :
    ∃ ts e, Derives .primary ts e n ∧ e.operatorHeight = groupHeight n := by
  induction n with
  | zero => exact ⟨_, _, .number (t := zeroToken) rfl rfl, rfl⟩
  | succ n ih =>
    obtain ⟨ts, e, h, he⟩ := ih
    obtain ⟨us, e', hsequence, hheight⟩ := exists_high_sequence h he
    have hgroup := Derives.group (kind_mark .leftParen) hsequence (kind_mark .rightParen)
    exact ⟨_, e', hgroup, hheight⟩

/-! ## The parser -/

theorem isOk_plain {α : Type} {n : Nat} (r : Reading α n) : r.plain.isOk = r.isOk := by
  cases r <;> rfl

/-- A phrase in front of an end mark is read where the levels are free that it needs. -/
theorem sequence_isOk_iff {ts : List Token} {e : Expr} {need : Nat}
    (h : Derives .sequence ts e need) {ending : Token} (hending : ending.kind = .eof)
    (behind : List Token) (room : Nat) :
    (sequence room (ts ++ ending :: behind)).isOk = true ↔ need ≤ room := by
  rw [← isOk_plain, h.reads room _ (stopsAt_end hending behind), within]
  split
  · next hneed => exact iff_of_true rfl hneed
  · next hneed => exact iff_of_false Bool.false_ne_true hneed

theorem derives_of_ofTokens {ts : List Token} {e : Expr} (h : Expr.ofTokens ts = .ok e) :
    ∃ need ≤ maxNesting, Derives .sequence (beforeEnd ts) e need ∧
      ∀ room, (sequence room ts).isOk = true ↔ need ≤ room := by
  unfold Expr.ofTokens at h
  split at h
  · cases h
  · next last hlast =>
    split at h
    · next hkind =>
      have hprogram : program ts = .ok e := mapError_eq_ok_iff.mp h
      obtain ⟨need, hderives⟩ := derivesProgram_of_program hprogram
      obtain ⟨ending, behind, hending, hts⟩ := exists_end (List.mem_of_getLast? hlast) hkind
      have hlevels := hderives.program_eq hending behind
      have hrooms := sequence_isOk_iff hderives hending behind
      rw [← hts] at hlevels hrooms
      rw [hprogram] at hlevels
      split at hlevels
      · next hneed => exact ⟨need, hneed, hderives, hrooms⟩
      · cases hlevels
    · cases h

theorem ofTokens_of_derives {ts : List Token} {e : Expr} {need : Nat}
    (h : Derives .sequence ts e need) (hneed : need ≤ maxNesting) :
    Expr.ofTokens (ts ++ [mark .eof]) = .ok e := by
  have hlast : (ts ++ [mark .eof]).getLast?.map Token.kind = some .eof := by simp [mark]
  rw [ofTokens_eq_program hlast, h.program_eq rfl [], if_pos hneed]
  rfl

section Parser

variable {ts : List Token} {e : Expr} {room : Nat}

/-- Where so many levels are enough, the height is bounded by seven for each two of them. -/
theorem ofTokens_height_bound (h : Expr.ofTokens ts = .ok e)
    (hroom : (sequence room ts).isOk = true) : e.operatorHeight ≤ groupHeight room := by
  obtain ⟨need, -, hderives, hrooms⟩ := derives_of_ofTokens h
  exact (hderives.low bounds_groupHeight).mono bounds_groupHeight ((hrooms room).mp hroom)

/-- The bound is attained for every number of levels, also for the parser's own. -/
theorem exists_ofTokens_height (hpositive : 0 < room) (hmax : room ≤ maxNesting) :
    ∃ ts e, Expr.ofTokens ts = .ok e ∧ (sequence room ts).isOk = true ∧
      2 * e.operatorHeight = 7 * (room * (room - 1)) := by
  obtain ⟨n, rfl⟩ := Nat.exists_eq_add_of_lt hpositive
  rw [Nat.zero_add] at hmax ⊢
  obtain ⟨ts, e, h, he⟩ := exists_high_primary n
  obtain ⟨us, e', hsequence, hheight⟩ := exists_high_sequence h he
  refine ⟨_, e', ofTokens_of_derives hsequence hmax, ?_, ?_⟩
  · exact (sequence_isOk_iff hsequence (kind_mark .eof) [] _).mpr (Nat.le_refl _)
  · rw [hheight]
    exact two_mul_groupHeight (n + 1)

/-- The levels bound how many steps of a path do not go to the left. -/
theorem ofTokens_height_le_left (h : Expr.ofTokens ts = .ok e)
    (hroom : (sequence room ts).isOk = true) : e.operatorHeight ≤ room + e.leftHeight := by
  obtain ⟨need, -, hderives, hrooms⟩ := derives_of_ofTokens h
  have hright : e.weight 0 1 ≤ room :=
    (hderives.low bounds_levels).mono bounds_levels ((hrooms room).mp hroom)
  calc e.operatorHeight
      ≤ e.weight 0 1 + e.weight 1 0 := e.weight_add 0 1 1 0
    _ ≤ room + e.leftHeight := Nat.add_le_add_right hright _

/-- The limit on levels is one on the height too where 17 levels are enough to read the
tokens, or where the levels that are enough leave room for the steps to the left. -/
theorem ofTokens_height_le_maxNesting (h : Expr.ofTokens ts = .ok e)
    (hroom : (sequence room ts).isOk = true)
    (hlow : room ≤ 17 ∨ room + e.leftHeight ≤ maxNesting) : e.operatorHeight ≤ maxNesting := by
  rcases hlow with hfew | hleft
  · calc e.operatorHeight
        ≤ groupHeight room := ofTokens_height_bound h hroom
      _ ≤ groupHeight 17 := bounds_groupHeight.mono hfew
      _ ≤ maxNesting := by decide
  · exact Nat.le_trans (ofTokens_height_le_left h hroom) hleft

/-- With one level more it is not. -/
example : maxNesting < groupHeight 18 := by decide

end Parser

/-- `0 * 0 * … * 0 + 0 + … + 0`, with `n` products and `m` sums. -/
def productsThenSums (n m : Nat) : List Token :=
  zeroToken :: ((List.replicate n [mark .star, zeroToken]).flatten ++
    (List.replicate m [mark .plus, zeroToken]).flatten)

/-- The chain of products takes no level of the chain of sums whose first operand it is. -/
theorem derives_productsThenSums (n m : Nat) :
    ∃ e, Derives .sequence (productsThenSums n m) e (max n m + 1) ∧
      e.operatorHeight = n + m := by
  have hstar : BinaryOp.ofKindAt? 1 (mark .star).kind = some .multiply := rfl
  have hplus : BinaryOp.ofKindAt? 2 (mark .plus).kind = some .add := rfl
  have hproducts := Derives.chain (derives_zero.chain_of_operand 0) (derives_zeros hstar n)
  have hsums := Derives.chain hproducts (derives_zeros hplus m)
  have hchain := hsums.chain_looser (l := BinaryOp.loosest) (by decide)
  have hsequence := Derives.sequence (.simple (.noAssignment hchain)) .noItems
  rw [Nat.zero_max, Nat.max_zero, List.append_nil] at hsequence
  refine ⟨_, hsequence, ?_⟩
  show (Link.join (Link.join (.number 0) _) _).operatorHeight = n + m
  rw [height_join_zeros, height_join_zeros, Expr.operatorHeight, Expr.weight, Nat.zero_add]

/-- One product and two sums are within the limit, since they need three levels. -/
theorem ofTokens_height_le_maxNesting_few :
    ∃ e, (Expr.ofTokens (productsThenSums 1 2 ++ [mark .eof]) = .ok e ∧
        (sequence 3 (productsThenSums 1 2 ++ [mark .eof])).isOk = true ∧ 3 ≤ 17) ∧
      e.operatorHeight ≤ maxNesting := by
  obtain ⟨e, hderives, -⟩ := derives_productsThenSums 1 2
  have hread := ofTokens_of_derives hderives (by decide)
  have hroom : (sequence 3 (productsThenSums 1 2 ++ [mark .eof])).isOk = true :=
    (sequence_isOk_iff hderives (kind_mark .eof) [] 3).mpr (by decide)
  have hfew : 3 ≤ 17 := by decide
  exact ⟨e, ⟨hread, hroom, hfew⟩, ofTokens_height_le_maxNesting hread hroom (.inl hfew)⟩

/-- But 999 products and 999 sums are read too, and the path to the first zero leads through
all of them. -/
theorem ofTokens_higher_than_maxNesting :
    ∃ e, Expr.ofTokens (productsThenSums 999 999 ++ [mark .eof]) = .ok e ∧
      e.operatorHeight = 1998 ∧ maxNesting < e.operatorHeight := by
  obtain ⟨e, hderives, hheight⟩ := derives_productsThenSums 999 999
  refine ⟨e, ofTokens_of_derives hderives (by decide), hheight, ?_⟩
  rw [hheight]
  decide

end Grammar

end ExprLang
