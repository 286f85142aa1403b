import TapeMachine.Proofs.ReadNames

/-! Names in parsed expressions. Every name that a parsed tree reads is one of the tokens it was
parsed from. The functions of the grammar call each other with less and less fuel, and each of them
reads names from the tokens it takes and leaves the others, so one induction on the fuel shows it for
all of them. -/

namespace TapeMachine.Expression

/-- Whatever comes of a reader, if anything does, has a property. -/
def Yields {α : Type} (Q : α → Prop) (r : Option α) : Prop := ∀ a, r = some a → Q a

namespace Yields

variable {α β : Type} {Q : α → Prop} {R : β → Prop}

theorem any {r : Option α} : Yields (fun _ => True) r := fun _ _ => trivial

theorem none : Yields Q none := nofun

theorem some {a : α} (h : Q a) : Yields Q (some a) := by
  rintro _ ⟨⟩
  exact h

theorem ite {c : Prop} [Decidable c] {r s : Option α} (hr : Yields Q r) (hs : Yields Q s) :
    Yields Q (if c then r else s) := by
  split_ifs
  · exact hr
  · exact hs

theorem bind {r : Option α} {f : α → Option β} (hr : Yields Q r) (hf : ∀ a, Q a → Yields R (f a)) :
    Yields R (r >>= f) := by
  intro b hb
  obtain ⟨a, ha, hb⟩ := Option.bind_eq_some_iff.1 hb
  exact hf a (hr a ha) b hb

/-- Two ways to come to the same continuation. -/
theorem join {c : Prop} [Decidable c] {r s : Option α} {f : α → Option β} (hr : Yields Q r)
    (hs : Yields Q s) (hf : ∀ a, Q a → Yields R (f a)) :
    Yields R (if c then r >>= f else s >>= f) := .ite (hr.bind hf) (hs.bind hf)

theorem map {r : Option α} {f : α → β} (hr : Yields Q r) (hf : ∀ a, Q a → R (f a)) :
    Yields R (r.map f) := by
  intro b hb
  obtain ⟨a, ha, rfl⟩ := Option.map_eq_some_iff.1 hb
  exact hf a (hr a ha)

theorem mapM {f : α → Option β} {as : List α} (h : ∀ a ∈ as, Yields R (f a)) :
    Yields (fun bs => ∀ b ∈ bs, R b) (as.mapM f) := by
  induction as with
  | nil => exact some fun _ hb => nomatch hb
  | cons a as ih =>
      rw [List.forall_mem_cons] at h
      rw [List.mapM_cons]
      refine h.1.bind fun b hb => (ih h.2).bind fun bs hbs => some ?_
      exact List.forall_mem_cons.2 ⟨hb, hbs⟩

theorem foldlM {f : β → α → Option β} {as : List α} (h : ∀ b, R b → ∀ a ∈ as, Yields R (f b a))
    {b : β} (hb : R b) : Yields R (as.foldlM f b) := by
  induction as generalizing b with
  | nil => exact some hb
  | cons a as ih =>
      rw [List.foldlM_cons]
      refine (h b hb a List.mem_cons_self).bind fun c hc => ih ?_ hc
      exact fun b hb a ha => h b hb a (List.mem_cons_of_mem _ ha)

end Yields

variable {x : Text}

/-- What a reader gives with the tokens that follow it: it has a property, and the name is not among
the tokens. -/
structure Leaving (x : Text) {α : Type} (Q : α → Prop) (r : α × List Token) : Prop where
  read : Q r.1
  rest : Token.name x ∉ r.2

theorem expect?_yields (s : Symbol) {ts : List Token} (h : .name x ∉ ts) :
    Yields (Token.name x ∉ ·) (expect? s ts) := by
  unfold expect?
  split
  · exact .ite (.some (List.not_mem_of_not_mem_cons h)) .none
  · exact .none

theorem atom?_yields {ts : List Token} (h : .name x ∉ ts) :
    Yields (Leaving x (Expr.Ignores x)) (atom? ts) := by
  unfold atom?
  split
  · exact .some ⟨.constant _, List.not_mem_of_not_mem_cons h⟩
  · exact .some ⟨.constant _, List.not_mem_of_not_mem_cons h⟩
  · exact .some ⟨.constant _, List.not_mem_of_not_mem_cons h⟩
  · exact .some ⟨.constant _, List.not_mem_of_not_mem_cons h⟩
  · rename_i t ts
    rw [List.mem_cons, not_or] at h
    refine .some ⟨.name ?_, h.2⟩
    rintro rfl
    exact h.1 rfl
  · exact .none

theorem binaryOp?_yields {ts : List Token} (h : .name x ∉ ts) :
    Yields (Leaving x fun _ : BinaryOp => True) (binaryOp? ts) := by
  unfold binaryOp?
  split
  all_goals first
    | exact .none
    | exact .some ⟨trivial, List.not_mem_of_not_mem_cons h⟩
    | exact .some ⟨trivial, List.not_mem_of_not_mem_cons (List.not_mem_of_not_mem_cons h)⟩
    | intro a ha
      obtain ⟨_, _, rfl⟩ := Option.map_eq_some_iff.1 ha
      exact ⟨trivial, List.not_mem_of_not_mem_cons h⟩

theorem sign?_yields {ts : List Token} (h : .name x ∉ ts) :
    Yields (Leaving x fun _ : UnaryOp => True) (sign? ts) := by
  unfold sign?
  split
  · exact .some ⟨trivial, List.not_mem_of_not_mem_cons h⟩
  · exact .some ⟨trivial, List.not_mem_of_not_mem_cons h⟩
  · exact .some ⟨trivial, List.not_mem_of_not_mem_cons h⟩
  · exact .none

/-- A target reads what the expression reads that it was made from. -/
theorem target?_yields (fuel : Nat) {e : Expr Text} (h : e.Ignores x) :
    Yields (Target.Ignores x) (target? fuel e) := by
  induction fuel generalizing e with
  | zero => exact .none
  | succ fuel ih =>
      have hseveral : ∀ items : List (Expr Text), (∀ e ∈ items, e.Ignores x) →
          Yields (Target.Ignores x) ((items.mapM (target? fuel)).map .several) :=
        fun items hitems => (Yields.mapM fun e he => ih (hitems e he)).map fun _ => .several
      unfold target?
      cases h with
      | name _ => exact .some (.name _)
      | index ha hi => exact .some (.index ha hi)
      | access ha => exact .some (.access ha)
      | tuple hitems => exact hseveral _ hitems
      | list hitems => exact hseveral _ hitems
      | _ => exact .none

/-- A part of a slice after a colon, which may be left out. -/
def slicePart? (fuel : Nat) (omitted : List Token → Bool) :
    List Token → Option (Option (Expr Text) × List Token)
  | .symbol .colon :: ts =>
      if omitted ts then some (none, ts)
      else (test? fuel true ts).map fun (e, ts) => (some e, ts)
  | ts => some (none, ts)

theorem bind_slicePart? {β : Type} (fuel : Nat) (omitted : List Token → Bool) (ts : List Token)
    (f : Option (Expr Text) × List Token → Option β) :
    slicePart? fuel omitted ts >>= f =
      match ts with
      | .symbol .colon :: ts =>
          if omitted ts then some (none, ts) >>= f
          else (test? fuel true ts).map (fun (e, ts) => (some e, ts)) >>= f
      | ts => some (none, ts) >>= f := by
  unfold slicePart?
  split
  · split_ifs <;> rfl
  · rfl

/-- The end of a slice in its parts. -/
theorem sliceTail?_succ (fuel : Nat) (ts : List Token) :
    sliceTail? (fuel + 1) ts = (do
      let (hi, ts) ← slicePart? fuel (fun ts => startsWith .colon ts || startsWith .rbrack ts) ts
      let (step, ts) ← slicePart? fuel (startsWith .rbrack) ts
      return (hi, step, ← expect? .rbrack ts)) := by
  simp only [bind_slicePart?]
  unfold sliceTail?
  rfl

inductive Param.Ignores (x : Text) : Param → Prop where
  | plain (name : Text) : Param.Ignores x (.plain name)
  | optional (name : Text) {e : Expr Text} (h : e.Ignores x) : Param.Ignores x (.optional name e)
  | rest (name : Option Text) : Param.Ignores x (.rest name)
  | others (name : Text) : Param.Ignores x (.others name)

/-- The defaults of a signature ignore the name. -/
def Signature.Ignores (x : Text) (s : Signature) : Prop :=
  ∀ p ∈ s.params, ∀ e ∈ p.2, Expr.Ignores x e

theorem Signature.Ignores.push {s : Signature} (h : s.Ignores x) (name : Text)
    {default : Option (Expr Text)} (hdefault : ∀ e ∈ default, e.Ignores x) :
    (s.push name default).Ignores x := by
  intro p hp
  rcases List.mem_append.1 hp with hp | hp
  · exact h p hp
  · rw [List.mem_singleton] at hp
    rw [hp]
    exact hdefault

theorem Signature.add?_yields {s : Signature} (h : s.Ignores x) {p : Param} (hp : p.Ignores x) :
    Yields (Signature.Ignores x) (s.add? p) := by
  unfold Signature.add?
  refine .ite .none ?_
  cases hp with
  | plain name => exact .ite .none (.some (h.push name nofun))
  | optional name he => exact .some (h.push name fun e hmem => by cases hmem; exact he)
  | rest name => exact .ite .none (.some h)
  | others name => exact .some h

theorem Signature.of?_yields {ps : List Param} (h : ∀ p ∈ ps, p.Ignores x) :
    Yields (Signature.Ignores x) (Signature.of? ps) := by
  have hadded : Yields (Signature.Ignores x) (ps.foldlM add? {}) :=
    Yields.foldlM (fun s hs p hp => add?_yields hs (h p hp)) fun _ hp => nomatch hp
  exact hadded.bind fun s hs => .ite .none (.ite .none (.some hs))

theorem Signature.Ignores.function {s : Signature} (h : s.Ignores x) (name : Text)
    {body : List (Statement Text)} (hbody : ∀ st ∈ body, st.Ignores x) :
    (s.function name body).Ignores x := .mk h hbody

inductive Arg.Ignores (x : Text) : Arg → Prop where
  | positional {e : Expr Text} (h : e.Ignores x) : Arg.Ignores x (.positional e)
  | named (name : Text) {e : Expr Text} (h : e.Ignores x) : Arg.Ignores x (.named name e)
  | items {e : Expr Text} (h : e.Ignores x) : Arg.Ignores x (.items e)
  | entries {e : Expr Text} (h : e.Ignores x) : Arg.Ignores x (.entries e)

theorem Arg.add?_yields {as : Args Text} (h : as.Ignores x) {a : Arg} (ha : a.Ignores x) :
    Yields (Args.Ignores x) (Arg.add? as a) := by
  obtain ⟨hpositional, hnamed, hitems, hentries⟩ := h
  cases ha with
  | positional he =>
      refine .ite (.some (.mk (fun e hmem => ?_) hnamed hitems hentries)) .none
      rcases List.mem_append.1 hmem with hmem | hmem
      · exact hpositional e hmem
      · rw [List.mem_singleton] at hmem
        rwa [hmem]
  | named name he =>
      refine .ite (.some (.mk hpositional (fun p hmem => ?_) hitems hentries)) .none
      rcases List.mem_append.1 hmem with hmem | hmem
      · exact hnamed p hmem
      · rw [List.mem_singleton] at hmem
        rwa [hmem]
  | items he =>
      refine .ite (.some (.mk hpositional hnamed (fun e hmem => ?_) hentries)) .none
      cases hmem
      exact he
  | entries he =>
      refine .ite (.some (.mk hpositional hnamed hitems fun e hmem => ?_)) .none
      cases hmem
      exact he

theorem Arg.all?_yields {as : List Arg} (h : ∀ a ∈ as, a.Ignores x) :
    Yields (Args.Ignores x) (Arg.all? as) := by
  have hnone : Args.Ignores x ⟨[], [], none, none⟩ :=
    .mk (fun _ hmem => nomatch hmem) (fun _ hmem => nomatch hmem) nofun nofun
  have hadded : Yields (Args.Ignores x) (as.foldlM Arg.add? ⟨[], [], none, none⟩) :=
    Yields.foldlM (fun b hb a ha => Arg.add?_yields hb (h a ha)) hnone
  exact hadded.bind fun args hargs => .ite (.some hargs) .none

/-! ### Expressions -/

/-- What the readers of the grammar give with some fuel, from tokens without a name. -/
structure Reads (x : Text) (fuel : Nat) : Prop where
  test : ∀ conditional ts, .name x ∉ ts →
    Yields (Leaving x (Expr.Ignores x)) (test? fuel conditional ts)
  level : ∀ level ts, .name x ∉ ts → Yields (Leaving x (Expr.Ignores x)) (level? fuel level ts)
  operators : ∀ level first a ts, a.Ignores x → .name x ∉ ts →
    Yields (Leaving x (Expr.Ignores x)) (operators? fuel level first a ts)
  signed : ∀ ts, .name x ∉ ts → Yields (Leaving x (Expr.Ignores x)) (signed? fuel ts)
  primary : ∀ ts, .name x ∉ ts → Yields (Leaving x (Expr.Ignores x)) (primary? fuel ts)
  suffixes : ∀ a ts, a.Ignores x → .name x ∉ ts →
    Yields (Leaving x (Expr.Ignores x)) (suffixes? fuel a ts)
  sliceTail : ∀ ts, .name x ∉ ts →
    Yields (fun r => (∀ e ∈ r.1, Expr.Ignores x e) ∧ Leaving x (fun o => ∀ e ∈ o, Expr.Ignores x e) r.2)
      (sliceTail? fuel ts)
  args : ∀ first ts, .name x ∉ ts →
    Yields (Leaving x fun as => ∀ a ∈ as, Arg.Ignores x a) (args? fuel first ts)
  params : ∀ first ts, .name x ∉ ts →
    Yields (Leaving x fun ps => ∀ p ∈ ps, Param.Ignores x p) (params? fuel first ts)
  clauses : ∀ close ts, .name x ∉ ts →
    Yields (Leaving x fun cs => ∀ c ∈ cs, Clause.Ignores x c) (clauses? fuel close ts)
  loopTarget : ∀ ts, .name x ∉ ts → Yields (Leaving x (Target.Ignores x)) (loopTarget? fuel ts)
  moreOperands : ∀ ts, .name x ∉ ts →
    Yields (Leaving x fun es => ∀ e ∈ es, Expr.Ignores x e) (moreOperands? fuel ts)
  entry : ∀ ts, .name x ∉ ts →
    Yields (fun r => Expr.Ignores x r.1 ∧ Leaving x (Expr.Ignores x) r.2) ( entry? fuel ts)
  moreEntries : ∀ ts, .name x ∉ ts →
    Yields (Leaving x fun es => ∀ p ∈ es, Expr.Ignores x p.1 ∧ Expr.Ignores x p.2)
      (moreEntries? fuel ts)
  exprs : ∀ bracketed ts, .name x ∉ ts →
    Yields (Leaving x (Expr.Ignores x)) (exprs? fuel bracketed ts)
  moreExprs : ∀ bracketed ts, .name x ∉ ts →
    Yields (Leaving x fun es => ∀ e ∈ es, Expr.Ignores x e) (moreExprs? fuel bracketed ts)

namespace Reads

variable {fuel : Nat} {ts : List Token}

open List (not_mem_of_not_mem_cons)

theorem test_succ (ih : Reads x fuel) (conditional : Bool) (h : .name x ∉ ts) :
    Yields (Leaving x (Expr.Ignores x)) (test? (fuel + 1) conditional ts) := by
  unfold test?
  split
  · refine (ih.params true _ (not_mem_of_not_mem_cons h)).bind fun ⟨ps, ts⟩ ⟨hps, h⟩ => ?_
    refine (Signature.of?_yields hps).bind fun s hs => ?_
    refine (expect?_yields .colon h).bind fun ts h => ?_
    refine (ih.test conditional ts h).bind fun ⟨body, ts⟩ ⟨hbody, h⟩ => ?_
    refine .some ⟨.lambda (hs.function _ (List.forall_mem_singleton.2 (.return_ fun e he => ?_))), h⟩
    cases he
    exact hbody
  · refine (ih.level 0 _ h).bind fun ⟨a, ts⟩ ⟨ha, h⟩ => ?_
    dsimp only
    split
    · refine (ih.level 0 _ (not_mem_of_not_mem_cons h)).bind fun ⟨c, ts⟩ ⟨hc, h⟩ => ?_
      dsimp only
      split
      · refine (ih.test true _ (not_mem_of_not_mem_cons h)).bind fun ⟨b, ts⟩ ⟨hb, h⟩ => ?_
        exact .some ⟨.cond hc ha hb, h⟩
      · exact .none
    · exact .some ⟨ha, h⟩

theorem level_succ (ih : Reads x fuel) (level : Nat) (h : .name x ∉ ts) :
    Yields (Leaving x (Expr.Ignores x)) (level? (fuel + 1) level ts) := by
  unfold level?
  refine .ite (ih.signed ts h) ?_
  split
  · refine (ih.level level _ (not_mem_of_not_mem_cons h)).bind fun ⟨a, ts⟩ ⟨ha, h⟩ => ?_
    exact .some ⟨.unary ha, h⟩
  · refine (ih.level (level + 1) _ h).bind fun ⟨a, ts⟩ ⟨ha, h⟩ => ?_
    exact ih.operators level true a ts ha h

theorem operators_succ (ih : Reads x fuel) (level : Nat) (first : Bool) {a : Expr Text}
    (ha : a.Ignores x) (h : .name x ∉ ts) :
    Yields (Leaving x (Expr.Ignores x)) (operators? (fuel + 1) level first a ts) := by
  unfold operators?
  split
  · exact .some ⟨ha, h⟩
  · rename_i op rest hop
    have hrest := (binaryOp?_yields h _ hop).rest
    refine .ite (.some ⟨ha, h⟩) (.ite .none ?_)
    refine (ih.level (op.level + 1) _ hrest).bind fun ⟨b, ts⟩ ⟨hb, h⟩ => ?_
    exact ih.operators level false _ ts (.binary ha hb) h

theorem signed_succ (ih : Reads x fuel) (h : .name x ∉ ts) :
    Yields (Leaving x (Expr.Ignores x)) (signed? (fuel + 1) ts) := by
  unfold signed?
  split
  · rename_i op rest hop
    have hrest := (sign?_yields h _ hop).rest
    refine (ih.signed _ hrest).bind fun ⟨a, ts⟩ ⟨ha, h⟩ => ?_
    exact .some ⟨.unary ha, h⟩
  · refine (ih.primary ts h).bind fun ⟨a, ts⟩ ⟨ha, h⟩ => ?_
    exact ih.suffixes a ts ha h

theorem primary_succ (ih : Reads x fuel) (h : .name x ∉ ts) :
    Yields (Leaving x (Expr.Ignores x)) (primary? (fuel + 1) ts) := by
  have hnil : ∀ e ∈ ([] : List (Expr Text)), e.Ignores x := fun _ he => nomatch he
  unfold primary?
  split
  · exact .some ⟨.tuple hnil, not_mem_of_not_mem_cons (not_mem_of_not_mem_cons h)⟩
  · refine (ih.exprs true _ (not_mem_of_not_mem_cons h)).bind fun ⟨a, ts⟩ ⟨ha, h⟩ => ?_
    exact (expect?_yields .rparen h).bind fun ts h => .some ⟨ha, h⟩
  · exact .some ⟨.list hnil, not_mem_of_not_mem_cons (not_mem_of_not_mem_cons h)⟩
  · refine (ih.test true _ (not_mem_of_not_mem_cons h)).bind fun ⟨a, ts⟩ ⟨ha, h⟩ => ?_
    dsimp only
    split
    · refine (ih.clauses .rbrack _ h).bind fun ⟨cs, ts⟩ ⟨hcs, h⟩ => ?_
      exact .some ⟨.listFor ha hcs, h⟩
    · refine (ih.moreExprs true _ h).bind fun ⟨items, ts⟩ ⟨hitems, h⟩ => ?_
      refine (expect?_yields .rbrack h).bind fun ts h => ?_
      exact .some ⟨.list (List.forall_mem_cons.2 ⟨ha, hitems⟩), h⟩
  · exact .some ⟨.dict (fun _ hp => nomatch hp) (fun _ hp => nomatch hp),
      not_mem_of_not_mem_cons (not_mem_of_not_mem_cons h)⟩
  · refine (ih.entry _ (not_mem_of_not_mem_cons h)).bind fun ⟨k, v, ts⟩ ⟨hk, hv, h⟩ => ?_
    dsimp only
    split
    · refine (ih.clauses .rbrace _ h).bind fun ⟨cs, ts⟩ ⟨hcs, h⟩ => ?_
      exact .some ⟨.dictFor hk hv hcs, h⟩
    · refine (ih.moreEntries _ h).bind fun ⟨entries, ts⟩ ⟨hentries, h⟩ => ?_
      have hall : ∀ p ∈ (k, v) :: entries, Expr.Ignores x p.1 ∧ Expr.Ignores x p.2 :=
        List.forall_mem_cons.2 ⟨⟨hk, hv⟩, hentries⟩
      exact .some ⟨.dict (fun p hp => (hall p hp).1) fun p hp => (hall p hp).2, h⟩
  · exact atom?_yields h

theorem suffixes_succ (ih : Reads x fuel) {a : Expr Text} (ha : a.Ignores x) (h : .name x ∉ ts) :
    Yields (Leaving x (Expr.Ignores x)) (suffixes? (fuel + 1) a ts) := by
  unfold suffixes?
  split
  · exact ih.suffixes _ _ (.access ha) (not_mem_of_not_mem_cons (not_mem_of_not_mem_cons h))
  · exact .none
  · refine (ih.args true _ (not_mem_of_not_mem_cons h)).bind fun ⟨as, ts⟩ ⟨has, h⟩ => ?_
    refine (Arg.all?_yields has).bind fun args hargs => ?_
    exact ih.suffixes _ ts (.call ha hargs) h
  · refine (ih.sliceTail _ (not_mem_of_not_mem_cons h)).bind fun ⟨hi, step, ts⟩ ⟨hhi, hstep, h⟩ => ?_
    exact ih.suffixes _ ts (.slice ha nofun hhi hstep) h
  · refine (ih.exprs false _ (not_mem_of_not_mem_cons h)).bind fun ⟨i, ts⟩ ⟨hi, h⟩ => ?_
    dsimp only
    split
    · exact ih.suffixes _ _ (.index ha hi) (not_mem_of_not_mem_cons h)
    · refine (ih.sliceTail _ h).bind fun ⟨hi', step, ts⟩ ⟨hhi, hstep, h⟩ => ?_
      refine ih.suffixes _ ts (.slice ha (fun e he => ?_) hhi hstep) h
      cases he
      exact hi
  · exact .some ⟨ha, h⟩

theorem slicePart?_yields (ih : Reads x fuel) (omitted : List Token → Bool) (h : .name x ∉ ts) :
    Yields (Leaving x fun o => ∀ e ∈ o, Expr.Ignores x e) (slicePart? fuel omitted ts) := by
  unfold slicePart?
  split
  · have hrest := not_mem_of_not_mem_cons h
    refine .ite (.some ⟨nofun, hrest⟩) ((ih.test true _ hrest).map fun ⟨e, ts⟩ ⟨he, h⟩ => ⟨?_, h⟩)
    intro e' he'
    cases he'
    exact he
  · exact .some ⟨nofun, h⟩

theorem sliceTail_succ (ih : Reads x fuel) (h : .name x ∉ ts) :
    Yields (fun r => (∀ e ∈ r.1, Expr.Ignores x e) ∧ Leaving x (fun o => ∀ e ∈ o, Expr.Ignores x e) r.2)
      (sliceTail? (fuel + 1) ts) := by
  rw [sliceTail?_succ]
  refine (ih.slicePart?_yields _ h).bind fun ⟨hi, ts⟩ ⟨hhi, h⟩ => ?_
  refine (ih.slicePart?_yields _ h).bind fun ⟨step, ts⟩ ⟨hstep, h⟩ => ?_
  exact (expect?_yields .rbrack h).bind fun ts h => .some ⟨hhi, hstep, h⟩

theorem cons_args (ih : Reads x fuel) {make : Expr Text → Arg}
    (hmake : ∀ {e}, e.Ignores x → (make e).Ignores x) (h : .name x ∉ ts) :
    Yields (Leaving x fun as => ∀ a ∈ as, Arg.Ignores x a) (do
      let (e, ts) ← test? fuel true ts
      let (as, ts) ← args? fuel false ts
      return (make e :: as, ts)) := by
  refine (ih.test true ts h).bind fun ⟨e, ts⟩ ⟨he, h⟩ => ?_
  refine (ih.args false ts h).bind fun ⟨as, ts⟩ ⟨has, h⟩ => ?_
  exact .some ⟨List.forall_mem_cons.2 ⟨hmake he, has⟩, h⟩

theorem args_succ (ih : Reads x fuel) (first : Bool) (h : .name x ∉ ts) :
    Yields (Leaving x fun as => ∀ a ∈ as, Arg.Ignores x a) (args? (fuel + 1) first ts) := by
  unfold args?
  refine .ite (.some ⟨List.forall_mem_nil _, fun hmem => h (List.mem_of_mem_tail hmem)⟩) ?_
  -- the comma before a member, unless it is the first
  refine .join (.some h) (expect?_yields .comma h) fun ts h => ?_
  dsimp only
  split
  · exact .some ⟨List.forall_mem_nil _, not_mem_of_not_mem_cons h⟩
  · exact ih.cons_args .items (not_mem_of_not_mem_cons h)
  · exact ih.cons_args .entries (not_mem_of_not_mem_cons h)
  · exact ih.cons_args (.named _) (not_mem_of_not_mem_cons (not_mem_of_not_mem_cons h))
  · exact ih.cons_args .positional h

theorem cons_params (ih : Reads x fuel) {p : Param} (hp : p.Ignores x) (h : .name x ∉ ts) :
    Yields (Leaving x fun ps => ∀ p ∈ ps, Param.Ignores x p) (do
      let (ps, ts) ← params? fuel false ts
      return (p :: ps, ts)) := by
  refine (ih.params false ts h).bind fun ⟨ps, ts⟩ ⟨hps, h⟩ => ?_
  exact .some ⟨List.forall_mem_cons.2 ⟨hp, hps⟩, h⟩

theorem params_succ (ih : Reads x fuel) (first : Bool) (h : .name x ∉ ts) :
    Yields (Leaving x fun ps => ∀ p ∈ ps, Param.Ignores x p) (params? (fuel + 1) first ts) := by
  unfold params?
  refine .ite (.some ⟨List.forall_mem_nil _, h⟩) ?_
  -- the comma before a member, unless it is the first
  refine .join (.some h) (expect?_yields .comma h) fun ts h => ?_
  dsimp only
  split
  · exact .some ⟨List.forall_mem_nil _, h⟩
  · exact ih.cons_params (.rest _) (not_mem_of_not_mem_cons (not_mem_of_not_mem_cons h))
  · exact ih.cons_params (.rest _) (not_mem_of_not_mem_cons h)
  · exact ih.cons_params (.others _) (not_mem_of_not_mem_cons (not_mem_of_not_mem_cons h))
  · have hrest := not_mem_of_not_mem_cons (not_mem_of_not_mem_cons h)
    refine (ih.test true _ hrest).bind fun ⟨e, ts⟩ ⟨he, h⟩ => ?_
    exact ih.cons_params (.optional _ he) h
  · exact ih.cons_params (.plain _) (not_mem_of_not_mem_cons h)
  · exact .none

theorem clauses_succ (ih : Reads x fuel) (close : Symbol) (h : .name x ∉ ts) :
    Yields (Leaving x fun cs => ∀ c ∈ cs, Clause.Ignores x c) (clauses? (fuel + 1) close ts) := by
  unfold clauses?
  split
  · refine (ih.loopTarget _ (not_mem_of_not_mem_cons h)).bind fun ⟨t, ts⟩ ⟨ht, h⟩ => ?_
    dsimp only
    split
    · refine (ih.level 0 _ (not_mem_of_not_mem_cons h)).bind fun ⟨e, ts⟩ ⟨he, h⟩ => ?_
      refine (ih.clauses close ts h).bind fun ⟨cs, ts⟩ ⟨hcs, h⟩ => ?_
      exact .some ⟨List.forall_mem_cons.2 ⟨.for_ ht he, hcs⟩, h⟩
    · exact .none
  · refine (ih.test false _ (not_mem_of_not_mem_cons h)).bind fun ⟨e, ts⟩ ⟨he, h⟩ => ?_
    refine (ih.clauses close ts h).bind fun ⟨cs, ts⟩ ⟨hcs, h⟩ => ?_
    exact .some ⟨List.forall_mem_cons.2 ⟨.if_ he, hcs⟩, h⟩
  · exact (expect?_yields close h).map fun ts h => ⟨fun _ hc => (nomatch hc), h⟩

theorem loopTarget_succ (ih : Reads x fuel) (h : .name x ∉ ts) :
    Yields (Leaving x (Target.Ignores x)) (loopTarget? (fuel + 1) ts) := by
  unfold loopTarget?
  refine (ih.signed ts h).bind fun ⟨a, ts⟩ ⟨ha, h⟩ => ?_
  dsimp only
  split
  · refine (ih.moreOperands _ h).bind fun ⟨more, ts⟩ ⟨hmore, h⟩ => ?_
    have htuple : Expr.Ignores x (.tuple (a :: more)) := .tuple (List.forall_mem_cons.2 ⟨ha, hmore⟩)
    exact (target?_yields fuel htuple).bind fun t ht => .some ⟨ht, h⟩
  · exact (target?_yields fuel ha).bind fun t ht => .some ⟨ht, h⟩

theorem moreOperands_succ (ih : Reads x fuel) (h : .name x ∉ ts) :
    Yields (Leaving x fun es => ∀ e ∈ es, Expr.Ignores x e) (moreOperands? (fuel + 1) ts) := by
  unfold moreOperands?
  split
  · have hrest := not_mem_of_not_mem_cons h
    refine .ite (.some ⟨fun _ he => (nomatch he), hrest⟩) ?_
    refine (ih.signed _ hrest).bind fun ⟨a, ts⟩ ⟨ha, h⟩ => ?_
    refine (ih.moreOperands ts h).bind fun ⟨more, ts⟩ ⟨hmore, h⟩ => ?_
    exact .some ⟨List.forall_mem_cons.2 ⟨ha, hmore⟩, h⟩
  · exact .some ⟨fun _ he => (nomatch he), h⟩

theorem entry_succ (ih : Reads x fuel) (h : .name x ∉ ts) :
    Yields (fun r => Expr.Ignores x r.1 ∧ Leaving x (Expr.Ignores x) r.2) ( entry? (fuel + 1) ts) := by
  unfold entry?
  refine (ih.test true ts h).bind fun ⟨k, ts⟩ ⟨hk, h⟩ => ?_
  refine (expect?_yields .colon h).bind fun ts h => ?_
  refine (ih.test true ts h).bind fun ⟨v, ts⟩ ⟨hv, h⟩ => ?_
  exact .some ⟨hk, hv, h⟩

theorem moreEntries_succ (ih : Reads x fuel) (h : .name x ∉ ts) :
    Yields (Leaving x fun es => ∀ p ∈ es, Expr.Ignores x p.1 ∧ Expr.Ignores x p.2)
      (moreEntries? (fuel + 1) ts) := by
  unfold moreEntries?
  split
  · exact .some ⟨fun _ hp => (nomatch hp), not_mem_of_not_mem_cons (not_mem_of_not_mem_cons h)⟩
  · refine (ih.entry _ (not_mem_of_not_mem_cons h)).bind fun ⟨k, v, ts⟩ ⟨hk, hv, h⟩ => ?_
    refine (ih.moreEntries ts h).bind fun ⟨more, ts⟩ ⟨hmore, h⟩ => ?_
    exact .some ⟨List.forall_mem_cons.2 ⟨⟨hk, hv⟩, hmore⟩, h⟩
  · exact (expect?_yields .rbrace h).map fun ts h => ⟨fun _ hp => (nomatch hp), h⟩

theorem exprs_succ (ih : Reads x fuel) (bracketed : Bool) (h : .name x ∉ ts) :
    Yields (Leaving x (Expr.Ignores x)) (exprs? (fuel + 1) bracketed ts) := by
  unfold exprs?
  refine (ih.test true ts h).bind fun ⟨a, ts⟩ ⟨ha, h⟩ => ?_
  dsimp only
  split
  · refine (ih.moreExprs bracketed _ h).bind fun ⟨items, ts⟩ ⟨hitems, h⟩ => ?_
    exact .some ⟨.tuple (List.forall_mem_cons.2 ⟨ha, hitems⟩), h⟩
  · exact .some ⟨ha, h⟩

theorem moreExprs_succ (ih : Reads x fuel) (bracketed : Bool) (h : .name x ∉ ts) :
    Yields (Leaving x fun es => ∀ e ∈ es, Expr.Ignores x e) (moreExprs? (fuel + 1) bracketed ts) := by
  unfold moreExprs?
  split
  · have hrest := not_mem_of_not_mem_cons h
    refine .ite (.ite (.some ⟨fun _ he => (nomatch he), hrest⟩) .none) ?_
    refine (ih.test true _ hrest).bind fun ⟨a, ts⟩ ⟨ha, h⟩ => ?_
    refine (ih.moreExprs bracketed ts h).bind fun ⟨items, ts⟩ ⟨hitems, h⟩ => ?_
    exact .some ⟨List.forall_mem_cons.2 ⟨ha, hitems⟩, h⟩
  · exact .some ⟨fun _ he => (nomatch he), h⟩

theorem all (x : Text) (fuel : Nat) : Reads x fuel := by
  induction fuel with
  | zero => constructor <;> intros <;> exact .none
  | succ fuel ih =>
      exact {
        test := fun conditional _ h => ih.test_succ conditional h
        level := fun level _ h => ih.level_succ level h
        operators := fun level first _ _ ha h => ih.operators_succ level first ha h
        signed := fun _ h => ih.signed_succ h
        primary := fun _ h => ih.primary_succ h
        suffixes := fun _ _ ha h => ih.suffixes_succ ha h
        sliceTail := fun _ h => ih.sliceTail_succ h
        args := fun first _ h => ih.args_succ first h
        params := fun first _ h => ih.params_succ first h
        clauses := fun close _ h => ih.clauses_succ close h
        loopTarget := fun _ h => ih.loopTarget_succ h
        moreOperands := fun _ h => ih.moreOperands_succ h
        entry := fun _ h => ih.entry_succ h
        moreEntries := fun _ h => ih.moreEntries_succ h
        exprs := fun bracketed _ h => ih.exprs_succ bracketed h
        moreExprs := fun bracketed _ h => ih.moreExprs_succ bracketed h }

end Reads

end TapeMachine.Expression
