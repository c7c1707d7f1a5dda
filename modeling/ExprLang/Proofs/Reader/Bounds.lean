import ExprLang.Proofs.Grammar.Reading
import ExprLang.Proofs.Reader.Machine

/-!
Reading in bounds. What a reader does is set beside what `Grammar` reads of the tokens in front of
the cursor (`Agrees`). A piece of work `Follows` such a reading if it ends, comes to the same, and
all its places are `Within` bounds: the cursor does not pass the first end mark, and the number of
levels stays between a given one and the greatest. There is a rule for each way to put work
together; the rules for sequencing, `Follows.bind` and `Follows.after`, ask for a first part that
gives back the levels it takes.
-/

namespace ExprLang.Reader

open Grammar (maxNesting Refusal Reading expect)
open Work

/-- The position of the first end mark. -/
def endIndex (ts : List Token) : Nat := ts.findIdx fun t => t.kind = .eof

/-- There is an end mark and the cursor is not behind it; at least `base` levels are taken, and
not more than there are. -/
structure Within (ts : List Token) (base : Nat) (s : Place) : Prop where
  marked : endIndex ts < ts.length
  cursor_le : s.cursor ≤ endIndex ts
  base_le : base ≤ s.depth
  depth_le : s.depth ≤ maxNesting

variable {α β : Type} {ts : List Token} {base c d : Nat} {t : Token}

theorem Within.exists_token (hs : Within ts base ⟨c, d⟩) : ∃ t, ts[c]? = some t :=
  ⟨_, List.getElem?_eq_getElem (Nat.lt_of_le_of_lt hs.cursor_le hs.marked)⟩

theorem drop_of_getElem? (ht : ts[c]? = some t) : ts.drop c = t :: ts.drop (c + 1) := by
  obtain ⟨h, rfl⟩ := List.getElem?_eq_some_iff.1 ht
  exact List.drop_eq_getElem_cons h

/-- Behind a token that is no end mark the cursor is still not behind the first one. -/
theorem Within.next (hs : Within ts base ⟨c, d⟩) (ht : ts[c]? = some t) (hk : t.kind ≠ .eof) :
    Within ts base ⟨c + 1, d⟩ := by
  have hmarked := hs.marked
  have hfound : ts[endIndex ts].kind = .eof :=
    of_decide_eq_true (List.findIdx_getElem (w := hmarked))
  refine ⟨hmarked, Nat.lt_of_le_of_ne hs.cursor_le fun he => hk ?_, hs.base_le, hs.depth_le⟩
  rw [he, List.getElem?_eq_getElem hmarked] at ht
  rw [← Option.some.inj ht, hfound]

/-- No level is free, or one can be taken. -/
theorem Within.room_cases (hs : Within ts base ⟨c, d⟩) :
    maxNesting ≤ d ∧ maxNesting - d = 0 ∨
      d < maxNesting ∧ maxNesting - d = maxNesting - (d + 1) + 1 ∧
        Within ts base ⟨c, d + 1⟩ := by
  obtain hlt | hle := Nat.lt_or_ge d maxNesting
  · exact .inr ⟨hlt, by omega, hs.marked, hs.cursor_le, Nat.le_succ_of_le hs.base_le, hlt⟩
  · exact .inl ⟨hle, Nat.sub_eq_zero_of_le hle⟩

/-- A reading that succeeds gets on. -/
theorem lt_of_read {c' : Nat} {r : Reading α (ts.drop c).length} {a : α}
    (h : r.plain = .ok (a, ts.drop c')) : c < c' := by
  have := Reading.length_lt h
  rw [List.length_drop, List.length_drop] at this
  omega

/-! ## Single tokens -/

namespace Makes

variable {P : Place → Prop} {kind : TokenKind}

theorem peek (hs : P ⟨c, d⟩) (ht : ts[c]? = some t) : Makes ts P ⟨c, d⟩ peek (.ok t) ⟨c, d⟩ :=
  .look hs ht (.done t)

/-- The token in front of the cursor is the one it was moved behind. -/
theorem previous (hs : P ⟨c + 1, d⟩) (ht : ts[c]? = some t) :
    Makes ts P ⟨c + 1, d⟩ previous (.ok t) ⟨c + 1, d⟩ :=
  .look hs (by rw [Access.token?, if_neg (Nat.succ_ne_zero c)]; exact ht) (.done t)

theorem advance (hs : P ⟨c, d⟩) (ht : ts[c]? = some t) (hk : t.kind ≠ .eof)
    (hs' : P ⟨c + 1, d⟩) :
    Makes ts P ⟨c, d⟩ advance (.ok t) ⟨c + 1, d⟩ := by
  refine .bind (.peek hs ht) ?_
  rw [if_neg hk]
  exact .move hs (.previous hs' ht)

theorem check (hs : P ⟨c, d⟩) (ht : ts[c]? = some t) (hkind : kind ≠ .eof) :
    Makes ts P ⟨c, d⟩ (check kind) (.ok (decide (t.kind = kind))) ⟨c, d⟩ := by
  refine .bind (.peek hs ht) ?_
  split
  · next hk =>
    rw [decide_eq_false (by rw [hk]; exact hkind.symm)]
    exact .done false
  · exact .bind (.peek hs ht) (.done _)

theorem accept (hs : P ⟨c, d⟩) (ht : ts[c]? = some t) (hk : t.kind = kind)
    (hkind : kind ≠ .eof) (hs' : P ⟨c + 1, d⟩) :
    Makes ts P ⟨c, d⟩ (accept kind) (.ok true) ⟨c + 1, d⟩ := by
  refine .bind (.check hs ht hkind) ?_
  rw [decide_eq_true hk, if_pos rfl]
  exact .bind (.advance hs ht (hk ▸ hkind) hs') (.done true)

theorem accept_other (hs : P ⟨c, d⟩) (ht : ts[c]? = some t) (hk : t.kind ≠ kind)
    (hkind : kind ≠ .eof) : Makes ts P ⟨c, d⟩ (Work.accept kind) (.ok false) ⟨c, d⟩ := by
  refine .bind (.check hs ht hkind) ?_
  rw [decide_eq_false hk, if_neg Bool.false_ne_true]
  exact .done false

theorem refuse (hs : P ⟨c, d⟩) (ht : ts[c]? = some t) (what : Expected) :
    Makes ts P ⟨c, d⟩ (refuse what : Work β) (.error (.syntaxError what t.quoted? t.line)) ⟨c, d⟩ :=
  .bind (.peek hs ht) (.fail _)

theorem deepen (hs : P ⟨c, d⟩) (hdepth : d < maxNesting) :
    Makes ts P ⟨c, d⟩ deepen (.ok ()) ⟨c, d + 1⟩ := by
  refine .levels hs ?_
  rw [if_neg (Nat.not_le.2 hdepth)]
  exact .take hs (.done ())

theorem deepen_full (hs : P ⟨c, d⟩) (ht : ts[c]? = some t) (hdepth : maxNesting ≤ d) :
    Makes ts P ⟨c, d⟩ Work.deepen (.error (.tooDeep maxNesting)) ⟨c, d⟩ := by
  refine .levels hs ?_
  rw [if_pos hdepth]
  exact .bind (.peek hs ht) (.fail _)

end Makes

/-! ## Work beside a reading -/

/-- An answer at a cursor and a reading come to the same. -/
inductive Agrees (ts : List Token) (cursor : Nat) :
    Except Fault α → Except Refusal (α × List Token) → Prop where
  | ok (a : α) : Agrees ts cursor (.ok a) (.ok (a, ts.drop cursor))
  | error (refusal : Refusal) : Agrees ts cursor (.error refusal.toFault) (.error refusal)

/-- The work ends in bounds and comes to what is read; if it is `steady`, it has given back the
levels that it took. -/
def Follows (ts : List Token) (base : Nat) (steady : Bool) (s : Place) (w : Work α)
    (x : Except Refusal (α × List Token)) : Prop :=
  ∃ r s', Makes ts (Within ts base) s w r s' ∧ Within ts base s' ∧
    (steady = true → s'.depth = s.depth) ∧ Agrees ts s'.cursor r x

namespace Follows

variable {steady : Bool} {kind : TokenKind} {w : Work α} {f : α → Work β}
  {x : Except Refusal (β × List Token)}

theorem done (hs : Within ts base ⟨c, d⟩) (b : β) :
    Follows ts base steady ⟨c, d⟩ (pure b) (.ok (b, ts.drop c)) :=
  ⟨.ok b, ⟨c, d⟩, .done b, hs, fun _ => rfl, .ok b⟩

theorem fail (hs : Within ts base ⟨c, d⟩) (refusal : Refusal) :
    Follows ts base steady ⟨c, d⟩ (.fail refusal.toFault : Work β) (.error refusal) :=
  ⟨.error _, ⟨c, d⟩, .fail _, hs, fun _ => rfl, .error refusal⟩

theorem refuse (hs : Within ts base ⟨c, d⟩) (ht : ts[c]? = some t) (what : Expected)
    (rest : List Token) :
    Follows ts base steady ⟨c, d⟩ (Work.refuse what : Work β)
      (.error (.expected what (t :: rest))) :=
  ⟨.error _, ⟨c, d⟩, .refuse hs ht what, hs, fun _ => rfl, .error (.expected what (t :: rest))⟩

/-- A part that gives back the levels it takes, and what is done with what it found. -/
theorem bind {y : Except Refusal (α × List Token)}
    {g : α × List Token → Except Refusal (β × List Token)}
    (hw : Follows ts base true ⟨c, d⟩ w y)
    (hf : ∀ a c', y = .ok (a, ts.drop c') → c ≤ c' → Within ts base ⟨c', d⟩ →
      Follows ts base steady ⟨c', d⟩ (f a) (g (a, ts.drop c'))) :
    Follows ts base steady ⟨c, d⟩ (w >>= f) (y >>= g) := by
  obtain ⟨r, ⟨c', d'⟩, hmakes, hs', hd, hagrees⟩ := hw
  obtain rfl : d' = d := hd rfl
  cases hagrees with
  | error refusal => exact ⟨_, _, .bind_error hmakes, hs', fun _ => rfl, .error refusal⟩
  | ok a =>
    obtain ⟨r, s'', hmakes', hs'', hd', hagrees'⟩ := hf a c' rfl hmakes.cursor_le hs'
    exact ⟨r, s'', .bind hmakes hmakes', hs'', hd', hagrees'⟩

/-- A part that is sure to find something and reads nothing of the expression. -/
theorem after {a : α} {c' : Nat} (hw : Makes ts (Within ts base) ⟨c, d⟩ w (.ok a) ⟨c', d⟩)
    (h : Follows ts base steady ⟨c', d⟩ (f a) x) :
    Follows ts base steady ⟨c, d⟩ (w >>= f) x := by
  obtain ⟨r, s', hmakes, hs', hd, hagrees⟩ := h
  exact ⟨r, s', .bind hw hmakes, hs', hd, hagrees⟩

theorem check {f : Bool → Work β} (hs : Within ts base ⟨c, d⟩) (ht : ts[c]? = some t)
    (hkind : kind ≠ .eof)
    (hyes : t.kind = kind → Follows ts base steady ⟨c, d⟩ (f true) x)
    (hno : t.kind ≠ kind → Follows ts base steady ⟨c, d⟩ (f false) x) :
    Follows ts base steady ⟨c, d⟩ (Work.check kind >>= f) x := by
  refine after (.check hs ht hkind) ?_
  by_cases hk : t.kind = kind
  · rw [decide_eq_true hk]
    exact hyes hk
  · rw [decide_eq_false hk]
    exact hno hk

theorem accept {f : Bool → Work β} (hs : Within ts base ⟨c, d⟩) (ht : ts[c]? = some t)
    (hkind : kind ≠ .eof)
    (hyes : t.kind = kind → Within ts base ⟨c + 1, d⟩ →
      Follows ts base steady ⟨c + 1, d⟩ (f true) x)
    (hno : t.kind ≠ kind → Follows ts base steady ⟨c, d⟩ (f false) x) :
    Follows ts base steady ⟨c, d⟩ (Work.accept kind >>= f) x := by
  by_cases hk : t.kind = kind
  · have hs' := hs.next ht (hk ▸ hkind)
    exact after (.accept hs ht hk hkind hs') (hyes hk hs')
  · exact after (.accept_other hs ht hk hkind) (hno hk)

theorem consume (hs : Within ts base ⟨c, d⟩) (hkind : kind ≠ .eof) (what : Expected) :
    Follows ts base steady ⟨c, d⟩ (consume kind what) (expect kind what (ts.drop c)).plain := by
  obtain ⟨t, ht⟩ := hs.exists_token
  rw [drop_of_getElem? ht, Grammar.expect_plain_cons]
  refine check hs ht hkind (fun hk => ?_) fun hk => ?_
  · have hs' := hs.next ht (hk ▸ hkind)
    rw [if_pos hk]
    exact ⟨.ok t, _, .advance hs ht (hk ▸ hkind) hs', hs', fun _ => rfl, .ok t⟩
  · rw [if_neg hk]
    exact refuse hs ht what _

/-! ## Calls and levels -/

variable {r : Routine} {p : Part} {x : Except Refusal (Expr × List Token)}

theorem run (hs : Within ts base ⟨c, d⟩) (h : Follows ts base steady ⟨c, d⟩ r.work x) :
    Follows ts base steady ⟨c, d⟩ (Work.run r) x := by
  obtain ⟨a, s', hmakes, hs', hd, hagrees⟩ := h
  exact ⟨a, s', .call hs hmakes hs' (.ofAnswer a), hs', hd, hagrees⟩

/-- The level that was taken is given back, whether something was found or not. -/
theorem nested (hs : Within ts base ⟨c, d⟩)
    (hfull : maxNesting - d = 0 → x = .error .tooDeep)
    (hfree : maxNesting - d = maxNesting - (d + 1) + 1 → Within ts base ⟨c, d + 1⟩ →
      Follows ts base true ⟨c, d + 1⟩ r.work x) :
    Follows ts base steady ⟨c, d⟩ (nested r) x := by
  obtain ⟨hdepth, hroom⟩ | ⟨hdepth, hroom, hs₁⟩ := hs.room_cases
  · obtain ⟨t, ht⟩ := hs.exists_token
    rw [hfull hroom]
    exact ⟨_, ⟨c, d⟩, .bind_error (.deepen_full hs ht hdepth), hs, fun _ => rfl, .error .tooDeep⟩
  · obtain ⟨a, ⟨c', d'⟩, hmakes, hs', hd, hagrees⟩ := hfree hroom hs₁
    obtain rfl : d' = d + 1 := hd rfl
    have hs'' : Within ts base ⟨c', d⟩ := ⟨hs'.marked, hs'.cursor_le, hs.base_le, hs.depth_le⟩
    exact ⟨a, ⟨c', d⟩,
      .bind (.deepen hs hdepth) (.call hs₁ hmakes hs' (.giveBack hs' rfl (.ofAnswer a))),
      hs'', fun _ => rfl, hagrees⟩

/-- However many levels a part has taken, the number is what it was. -/
theorem kept (hs : Within ts base ⟨c, d⟩)
    (h : Follows ts base false ⟨c, d⟩ (Routine.part p).work x) :
    Follows ts base steady ⟨c, d⟩ (kept p) x := by
  obtain ⟨a, s', hmakes, hs', -, hagrees⟩ := h
  have hs'' : Within ts base ⟨s'.cursor, d⟩ :=
    ⟨hs'.marked, hs'.cursor_le, hs.base_le, hs.depth_le⟩
  exact ⟨a, ⟨s'.cursor, d⟩, .levels hs (.call hs hmakes hs' (.restore hs' (.ofAnswer a))),
    hs'', fun _ => rfl, hagrees⟩

/-- A level that is taken and not given back. -/
theorem deepen {f : Unit → Work β} {x : Except Refusal (β × List Token)}
    (hs : Within ts base ⟨c, d⟩)
    (hfull : maxNesting - d = 0 → x = .error .tooDeep)
    (hfree : maxNesting - d = maxNesting - (d + 1) + 1 → Within ts base ⟨c, d + 1⟩ →
      Follows ts base false ⟨c, d + 1⟩ (f ()) x) :
    Follows ts base false ⟨c, d⟩ (Work.deepen >>= f) x := by
  obtain ⟨hdepth, hroom⟩ | ⟨hdepth, hroom, hs₁⟩ := hs.room_cases
  · obtain ⟨t, ht⟩ := hs.exists_token
    rw [hfull hroom]
    exact ⟨_, ⟨c, d⟩, .bind_error (.deepen_full hs ht hdepth), hs, fun _ => rfl, .error .tooDeep⟩
  · obtain ⟨r, s', hmakes, hs', -, hagrees⟩ := hfree hroom hs₁
    exact ⟨r, s', .bind (.deepen hs hdepth) hmakes, hs', nofun, hagrees⟩

end Follows

end ExprLang.Reader
