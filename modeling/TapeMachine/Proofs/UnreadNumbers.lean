import TapeMachine.Proofs.ParsedNames

/-! Numbers that an expression does not read. The statements parsed from a text ignore every name
that is not one of its tokens, and a name of letters that is no part of the text is none of them. So
the number with such a name makes no difference to the interpreter. -/

namespace TapeMachine.Expression

variable {x : Text} {fuel : Nat} {ts : List Token}

open List (not_mem_of_not_mem_cons)

theorem small?_yields (fuel : Nat) (h : .name x ∉ ts) :
    Yields (Leaving x (Statement.Ignores x)) (small? fuel ts) := by
  have ih := Reads.all x fuel
  unfold small?
  split
  · exact .some ⟨.pass, not_mem_of_not_mem_cons h⟩
  · exact .some ⟨.break_, not_mem_of_not_mem_cons h⟩
  · exact .some ⟨.continue_, not_mem_of_not_mem_cons h⟩
  · have hrest := not_mem_of_not_mem_cons h
    split
    · exact .some ⟨.return_ nofun, hrest⟩
    · exact .some ⟨.return_ nofun, hrest⟩
    · exact .some ⟨.return_ nofun, hrest⟩
    · refine (ih.exprs false _ hrest).map fun ⟨e, ts⟩ ⟨he, h⟩ => ⟨.return_ ?_, h⟩
      intro e' he'
      cases he'
      exact he
  · refine (ih.exprs false ts h).bind fun ⟨a, ts⟩ ⟨ha, h⟩ => ?_
    dsimp only
    split
    · refine (ih.exprs false _ (not_mem_of_not_mem_cons h)).bind fun ⟨e, ts⟩ ⟨he, h⟩ => ?_
      exact (target?_yields fuel ha).bind fun t ht => .some ⟨.assign ht he, h⟩
    · refine (ih.exprs false _ (not_mem_of_not_mem_cons h)).bind fun ⟨e, ts⟩ ⟨he, h⟩ => ?_
      refine (target?_yields fuel ha).bind fun t ht => ?_
      dsimp only
      split
      · exact .none
      · exact Yields.any.bind fun op _ => .some ⟨.update ht he, h⟩
    · exact .some ⟨.expr ha, h⟩

theorem endOfLine?_yields (h : .name x ∉ ts) : Yields (Token.name x ∉ ·) (endOfLine? ts) := by
  unfold endOfLine?
  split
  · exact .some h
  · exact .some (not_mem_of_not_mem_cons h)
  · exact .none

theorem line?_yields (fuel : Nat) (h : .name x ∉ ts) :
    Yields (Leaving x fun ss => ∀ st ∈ ss, Statement.Ignores x st) (line? fuel ts) := by
  induction fuel generalizing ts with
  | zero => exact .none
  | succ fuel ih =>
      unfold line?
      refine (small?_yields fuel h).bind fun ⟨st, ts⟩ ⟨hst, h⟩ => ?_
      have hone : ∀ st' ∈ [st], Statement.Ignores x st' := List.forall_mem_singleton.2 hst
      dsimp only
      split
      · have hrest := not_mem_of_not_mem_cons h
        split
        · rename_i ts' hend
          exact .some ⟨hone, endOfLine?_yields hrest ts' hend⟩
        · refine (ih hrest).bind fun ⟨more, ts⟩ ⟨hmore, h⟩ => ?_
          exact .some ⟨List.forall_mem_cons.2 ⟨hst, hmore⟩, h⟩
      · exact (endOfLine?_yields h).bind fun ts h => .some ⟨hone, h⟩

/-- What the readers of statements give with some fuel, from tokens without a name. -/
structure StatementReads (x : Text) (fuel : Nat) : Prop where
  statement : ∀ ts, .name x ∉ ts →
    Yields (Leaving x fun ss => ∀ st ∈ ss, Statement.Ignores x st) (statement? fuel ts)
  branches : ∀ ts, .name x ∉ ts → Yields (Leaving x (Statement.Ignores x)) (branches? fuel ts)
  suite : ∀ ts, .name x ∉ ts →
    Yields (Leaving x fun ss => ∀ st ∈ ss, Statement.Ignores x st) (suite? fuel ts)
  block : ∀ ts, .name x ∉ ts →
    Yields (Leaving x fun ss => ∀ st ∈ ss, Statement.Ignores x st) (block? fuel ts)

namespace StatementReads

theorem statement_succ (ih : StatementReads x fuel) (h : .name x ∉ ts) :
    Yields (Leaving x fun ss => ∀ st ∈ ss, Statement.Ignores x st) (statement? (fuel + 1) ts) := by
  have reads := Reads.all x fuel
  unfold statement?
  split
  · rename_i name ts
    have hrest : Token.name x ∉ ts := fun hmem => h (by simp [hmem])
    refine (reads.params true ts hrest).bind fun ⟨ps, ts⟩ ⟨hps, h⟩ => ?_
    refine (Signature.of?_yields hps).bind fun s hs => ?_
    refine (expect?_yields .rparen h).bind fun ts h => ?_
    refine (ih.suite ts h).bind fun ⟨body, ts⟩ ⟨hbody, h⟩ => ?_
    exact .some ⟨List.forall_mem_singleton.2 (.define (hs.function name hbody)), h⟩
  · refine (ih.branches _ (not_mem_of_not_mem_cons h)).bind fun ⟨st, ts⟩ ⟨hst, h⟩ => ?_
    exact .some ⟨List.forall_mem_singleton.2 hst, h⟩
  · refine (reads.loopTarget _ (not_mem_of_not_mem_cons h)).bind fun ⟨t, ts⟩ ⟨ht, h⟩ => ?_
    dsimp only
    split
    · refine (reads.exprs false _ (not_mem_of_not_mem_cons h)).bind fun ⟨e, ts⟩ ⟨he, h⟩ => ?_
      refine (ih.suite ts h).bind fun ⟨body, ts⟩ ⟨hbody, h⟩ => ?_
      exact .some ⟨List.forall_mem_singleton.2 (.for_ ht he hbody), h⟩
    · exact .none
  · exact line?_yields fuel h

theorem branches_succ (ih : StatementReads x fuel) (h : .name x ∉ ts) :
    Yields (Leaving x (Statement.Ignores x)) (branches? (fuel + 1) ts) := by
  unfold branches?
  refine ((Reads.all x fuel).test true ts h).bind fun ⟨c, ts⟩ ⟨hc, h⟩ => ?_
  refine (ih.suite ts h).bind fun ⟨yes, ts⟩ ⟨hyes, h⟩ => ?_
  dsimp only
  split
  · refine (ih.branches _ (not_mem_of_not_mem_cons h)).bind fun ⟨st, ts⟩ ⟨hst, h⟩ => ?_
    exact .some ⟨.if_ hc hyes (List.forall_mem_singleton.2 hst), h⟩
  · refine (ih.suite _ (not_mem_of_not_mem_cons h)).bind fun ⟨no, ts⟩ ⟨hno, h⟩ => ?_
    exact .some ⟨.if_ hc hyes hno, h⟩
  · exact .some ⟨.if_ hc hyes (fun _ hst => nomatch hst), h⟩

theorem suite_succ (ih : StatementReads x fuel) (h : .name x ∉ ts) :
    Yields (Leaving x fun ss => ∀ st ∈ ss, Statement.Ignores x st) (suite? (fuel + 1) ts) := by
  unfold suite?
  refine (expect?_yields .colon h).bind fun ts h => ?_
  split
  · exact ih.block _ (not_mem_of_not_mem_cons (not_mem_of_not_mem_cons h))
  · exact .none
  · exact line?_yields fuel h

theorem block_succ (ih : StatementReads x fuel) (h : .name x ∉ ts) :
    Yields (Leaving x fun ss => ∀ st ∈ ss, Statement.Ignores x st) (block? (fuel + 1) ts) := by
  unfold block?
  split
  · exact .none
  · exact .some ⟨fun _ hst => (nomatch hst), not_mem_of_not_mem_cons h⟩
  · refine (ih.statement ts h).bind fun ⟨ss, ts⟩ ⟨hss, h⟩ => ?_
    refine (ih.block ts h).bind fun ⟨more, ts⟩ ⟨hmore, h⟩ => ?_
    exact .some ⟨List.forall_mem_append.2 ⟨hss, hmore⟩, h⟩

theorem all (x : Text) (fuel : Nat) : StatementReads x fuel := by
  induction fuel with
  | zero => constructor <;> intros <;> exact .none
  | succ fuel ih =>
      exact {
        statement := fun _ h => ih.statement_succ h
        branches := fun _ h => ih.branches_succ h
        suite := fun _ h => ih.suite_succ h
        block := fun _ h => ih.block_succ h }

end StatementReads

theorem statements?_yields (fuel : Nat) (h : .name x ∉ ts) :
    Yields (fun ss => ∀ st ∈ ss, Statement.Ignores x st) (statements? fuel ts) := by
  induction fuel generalizing ts with
  | zero => exact .none
  | succ fuel ih =>
      unfold statements?
      split
      · exact .some fun _ hst => nomatch hst
      · exact ih (not_mem_of_not_mem_cons h)
      · refine ((StatementReads.all x fuel).statement ts h).bind fun ⟨ss, ts⟩ ⟨hss, h⟩ => ?_
        refine (ih h).bind fun more hmore => ?_
        exact .some (List.forall_mem_append.2 ⟨hss, hmore⟩)

theorem script?_congr {numbers others : Numbers} (hsame : SameBut x numbers others) {t : Text}
    (hne : x ≠ []) (hx : ∀ b ∈ x, Text.isLetter b = true) (h : ¬ x <:+: t) :
    script? numbers t = script? others t := by
  rw [script?, script?]
  cases hts : Token.tokens? t with
  | none => rfl
  | some ts =>
      have hname : Token.name x ∉ ts := fun hmem => h (Token.infix_of_name_mem_tokens hts hne hx hmem)
      cases hss : parse? ts with
      | none => simp [hss]
      | some ss =>
          have hignores := statements?_yields _ hname ss hss
          simp [hss, Script.of?_congr hsame _ hignores]

theorem ignoresUnnamed_interpret : IgnoresUnnamed interpret := by
  intro x hne hx numbers others hsame t h
  simp only [interpret, script?_congr hsame hne hx h]

end TapeMachine.Expression
