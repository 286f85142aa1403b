import TapeMachine.Expression.Eval
import TapeMachine.Proofs.Interpreters
import TapeMachine.Proofs.NameTokens

/-! The names an expression reads. A number with a name matters to an expression only if the name is
read somewhere in it, and all names that are read stand among its tokens. So numbers whose names do
not occur in the text of an expression do not change what comes of it. -/

namespace TapeMachine.Expression

mutual

/-- The value of a name is read nowhere in an expression. -/
inductive Expr.Ignores (x : Text) : Expr Text → Prop where
  | constant (c : Constant) : Expr.Ignores x (.constant c)
  | name {v : Text} (h : v ≠ x) : Expr.Ignores x (.name v)
  | tuple {items : List (Expr Text)} (h : ∀ e ∈ items, Expr.Ignores x e) :
      Expr.Ignores x (.tuple items)
  | list {items : List (Expr Text)} (h : ∀ e ∈ items, Expr.Ignores x e) :
      Expr.Ignores x (.list items)
  | dict {entries : List (Expr Text × Expr Text)} (hkey : ∀ p ∈ entries, Expr.Ignores x p.1)
      (hvalue : ∀ p ∈ entries, Expr.Ignores x p.2) : Expr.Ignores x (.dict entries)
  | unary {op : UnaryOp} {a : Expr Text} (h : Expr.Ignores x a) : Expr.Ignores x (.unary op a)
  | binary {op : BinaryOp} {a b : Expr Text} (ha : Expr.Ignores x a) (hb : Expr.Ignores x b) :
      Expr.Ignores x (.binary op a b)
  | cond {c a b : Expr Text} (hc : Expr.Ignores x c) (ha : Expr.Ignores x a)
      (hb : Expr.Ignores x b) : Expr.Ignores x (.cond c a b)
  | call {f : Expr Text} {as : Args Text} (hf : Expr.Ignores x f) (has : Args.Ignores x as) :
      Expr.Ignores x (.call f as)
  | index {a i : Expr Text} (ha : Expr.Ignores x a) (hi : Expr.Ignores x i) :
      Expr.Ignores x (.index a i)
  | slice {a : Expr Text} {lo hi step : Option (Expr Text)} (ha : Expr.Ignores x a)
      (hlo : ∀ e ∈ lo, Expr.Ignores x e) (hhi : ∀ e ∈ hi, Expr.Ignores x e)
      (hstep : ∀ e ∈ step, Expr.Ignores x e) : Expr.Ignores x (.slice a lo hi step)
  | access {a : Expr Text} {field : Text} (h : Expr.Ignores x a) :
      Expr.Ignores x (.attribute a field)
  | lambda {f : Function Text} (h : Function.Ignores x f) : Expr.Ignores x (.lambda f)
  | listFor {item : Expr Text} {cs : List (Clause Text)} (hitem : Expr.Ignores x item)
      (hcs : ∀ c ∈ cs, Clause.Ignores x c) : Expr.Ignores x (.listFor item cs)
  | dictFor {k v : Expr Text} {cs : List (Clause Text)} (hk : Expr.Ignores x k)
      (hv : Expr.Ignores x v) (hcs : ∀ c ∈ cs, Clause.Ignores x c) :
      Expr.Ignores x (.dictFor k v cs)

inductive Args.Ignores (x : Text) : Args Text → Prop where
  | mk {as : Args Text} (hpositional : ∀ e ∈ as.positional, Expr.Ignores x e)
      (hnamed : ∀ p ∈ as.named, Expr.Ignores x p.2) (hitems : ∀ e ∈ as.items, Expr.Ignores x e)
      (hentries : ∀ e ∈ as.entries, Expr.Ignores x e) : Args.Ignores x as

inductive Clause.Ignores (x : Text) : Clause Text → Prop where
  | for_ {t : Target Text} {e : Expr Text} (ht : Target.Ignores x t) (he : Expr.Ignores x e) :
      Clause.Ignores x (.for_ t e)
  | if_ {e : Expr Text} (he : Expr.Ignores x e) : Clause.Ignores x (.if_ e)

/-- A target reads the expressions in it, and not the name that it is. -/
inductive Target.Ignores (x : Text) : Target Text → Prop where
  | name (v : Text) : Target.Ignores x (.name v)
  | index {a i : Expr Text} (ha : Expr.Ignores x a) (hi : Expr.Ignores x i) :
      Target.Ignores x (.index a i)
  | access {a : Expr Text} {field : Text} (h : Expr.Ignores x a) :
      Target.Ignores x (.attribute a field)
  | several {ts : List (Target Text)} (h : ∀ t ∈ ts, Target.Ignores x t) :
      Target.Ignores x (.several ts)

inductive Function.Ignores (x : Text) : Function Text → Prop where
  | mk {f : Function Text} (hparams : ∀ p ∈ f.params, ∀ e ∈ p.2, Expr.Ignores x e)
      (hbody : ∀ st ∈ f.body, Statement.Ignores x st) : Function.Ignores x f

inductive Statement.Ignores (x : Text) : Statement Text → Prop where
  | expr {e : Expr Text} (h : Expr.Ignores x e) : Statement.Ignores x (.expr e)
  | assign {t : Target Text} {e : Expr Text} (ht : Target.Ignores x t) (he : Expr.Ignores x e) :
      Statement.Ignores x (.assign t e)
  | update {t : Target Text} {op : BinaryOp} {e : Expr Text} (ht : Target.Ignores x t)
      (he : Expr.Ignores x e) : Statement.Ignores x (.update t op e)
  | define {name : Text} {f : Function Text} (h : Function.Ignores x f) :
      Statement.Ignores x (.define name f)
  | if_ {c : Expr Text} {yes no : List (Statement Text)} (hc : Expr.Ignores x c)
      (hyes : ∀ st ∈ yes, Statement.Ignores x st) (hno : ∀ st ∈ no, Statement.Ignores x st) :
      Statement.Ignores x (.if_ c yes no)
  | for_ {t : Target Text} {e : Expr Text} {body : List (Statement Text)}
      (ht : Target.Ignores x t) (he : Expr.Ignores x e)
      (hbody : ∀ st ∈ body, Statement.Ignores x st) : Statement.Ignores x (.for_ t e body)
  | return_ {e : Option (Expr Text)} (h : ∀ e' ∈ e, Expr.Ignores x e') :
      Statement.Ignores x (.return_ e)
  | pass : Statement.Ignores x .pass
  | break_ : Statement.Ignores x .break_
  | continue_ : Statement.Ignores x .continue_

end

section

variable {α β : Type} {m : Type → Type} [Monad m]

theorem mapM_congr {f g : α → m β} {as : List α} [LawfulMonad m] (h : ∀ a ∈ as, f a = g a) :
    as.mapM f = as.mapM g := by
  induction as with
  | nil => rfl
  | cons a as ih =>
      rw [List.forall_mem_cons] at h
      rw [List.mapM_cons, List.mapM_cons, h.1, ih h.2]

theorem option_mapM_congr {f g : α → m β} {o : Option α} (h : ∀ a ∈ o, f a = g a) :
    o.mapM f = o.mapM g := by
  cases o with
  | none => rfl
  | some a => rw [Option.mapM_some, Option.mapM_some, h a rfl]

end

namespace Scope

/-- New variables change the frames, whatever numbers are in force. -/
def bindFrames (frames : List (List (Text × Nat))) (names : List Text) :
    Resolve (List (List (Text × Nat))) := Scope.frames <$> Scope.bind ⟨fun _ => none, frames⟩ names

theorem bind_eq (numbers : Numbers) (frames : List (List (Text × Nat))) (names : List Text) :
    Scope.bind ⟨numbers, frames⟩ names = Scope.mk numbers <$> bindFrames frames names := by
  funext c
  cases frames <;> rfl

/-- What resolving gives, in at most some depth, for trees that ignore a name: the same under numbers
that differ under this name only. -/
structure Agrees (x : Text) (numbers others : Numbers) (fuel : Nat) : Prop where
  expr : ∀ frames e, Expr.Ignores x e →
    Scope.expr fuel ⟨numbers, frames⟩ e = Scope.expr fuel ⟨others, frames⟩ e
  comprehension : ∀ frames cs, (∀ c ∈ cs, Clause.Ignores x c) →
    ∃ g : Resolve (List (List (Text × Nat)) × List (Clause Slot)),
      Scope.comprehension fuel ⟨numbers, frames⟩ cs = (fun r => (⟨numbers, r.1⟩, r.2)) <$> g ∧
      Scope.comprehension fuel ⟨others, frames⟩ cs = (fun r => (⟨others, r.1⟩, r.2)) <$> g
  target : ∀ frames t, Target.Ignores x t →
    Scope.target fuel ⟨numbers, frames⟩ t = Scope.target fuel ⟨others, frames⟩ t
  function : ∀ frames inLoop f, Function.Ignores x f →
    Scope.function fuel ⟨numbers, frames⟩ inLoop f = Scope.function fuel ⟨others, frames⟩ inLoop f
  statement : ∀ frames w st, Statement.Ignores x st →
    Scope.statement fuel ⟨numbers, frames⟩ w st = Scope.statement fuel ⟨others, frames⟩ w st

namespace Agrees

variable {x : Text} {numbers others : Numbers}

theorem zero : Agrees x numbers others 0 where
  expr _ _ _ := rfl
  comprehension _ _ _ := ⟨failure, rfl, rfl⟩
  target _ _ _ := rfl
  function _ _ _ _ := rfl
  statement _ _ _ _ := rfl

variable {fuel : Nat}

theorem expr_succ (hsame : SameBut x numbers others) (ih : Agrees x numbers others fuel)
    (frames : List (List (Text × Nat))) {e : Expr Text} (he : e.Ignores x) :
    Scope.expr (fuel + 1) ⟨numbers, frames⟩ e = Scope.expr (fuel + 1) ⟨others, frames⟩ e := by
  unfold Scope.expr
  cases he with
  | constant c => rfl
  | @name v h =>
      have hslot : slot? ⟨numbers, frames⟩ v = slot? ⟨others, frames⟩ v := rfl
      have hconstant : constant? ⟨numbers, frames⟩ v = constant? ⟨others, frames⟩ v := by
        simp only [constant?, hsame v h]
      simp only [hslot, hconstant]
  | tuple h => simp only [mapM_congr fun e he => ih.expr frames e (h e he)]
  | list h => simp only [mapM_congr fun e he => ih.expr frames e (h e he)]
  | @dict entries hkey hvalue =>
      have hentry : ∀ p ∈ entries,
          (do return (← Scope.expr fuel ⟨numbers, frames⟩ p.1, ← Scope.expr fuel ⟨numbers, frames⟩ p.2) :
            Resolve (Expr Slot × Expr Slot)) =
          (do return (← Scope.expr fuel ⟨others, frames⟩ p.1, ← Scope.expr fuel ⟨others, frames⟩ p.2)) := by
        intro p hp
        rw [ih.expr frames p.1 (hkey p hp), ih.expr frames p.2 (hvalue p hp)]
      simp only [mapM_congr hentry]
  | unary h => simp only [ih.expr frames _ h]
  | binary ha hb => simp only [ih.expr frames _ ha, ih.expr frames _ hb]
  | cond hc ha hb => simp only [ih.expr frames _ hc, ih.expr frames _ ha, ih.expr frames _ hb]
  | @call f as hf has =>
      obtain ⟨hpositional, hnamed, hitems, hentries⟩ := has
      have hpair : ∀ p ∈ as.named,
          (do return (p.1, ← Scope.expr fuel ⟨numbers, frames⟩ p.2) : Resolve (Text × Expr Slot)) =
          (do return (p.1, ← Scope.expr fuel ⟨others, frames⟩ p.2)) := by
        intro p hp
        rw [ih.expr frames p.2 (hnamed p hp)]
      simp only [ih.expr frames _ hf, mapM_congr fun e he => ih.expr frames e (hpositional e he),
        mapM_congr hpair, option_mapM_congr fun e he => ih.expr frames e (hitems e he),
        option_mapM_congr fun e he => ih.expr frames e (hentries e he)]
  | index ha hi => simp only [ih.expr frames _ ha, ih.expr frames _ hi]
  | slice ha hlo hhi hstep =>
      simp only [ih.expr frames _ ha, option_mapM_congr fun e he => ih.expr frames e (hlo e he),
        option_mapM_congr fun e he => ih.expr frames e (hhi e he),
        option_mapM_congr fun e he => ih.expr frames e (hstep e he)]
  | access h => simp only [ih.expr frames _ h]
  | lambda h => simp only [ih.function frames false _ h]
  | listFor hitem hcs =>
      obtain ⟨g, hnumbers, hothers⟩ := ih.comprehension frames _ hcs
      simp only [hnumbers, hothers, bind_map_left, ih.expr _ _ hitem]
  | dictFor hk hv hcs =>
      obtain ⟨g, hnumbers, hothers⟩ := ih.comprehension frames _ hcs
      simp only [hnumbers, hothers, bind_map_left, ih.expr _ _ hk, ih.expr _ _ hv]

theorem target_succ (ih : Agrees x numbers others fuel) (frames : List (List (Text × Nat)))
    {t : Target Text} (ht : t.Ignores x) :
    Scope.target (fuel + 1) ⟨numbers, frames⟩ t = Scope.target (fuel + 1) ⟨others, frames⟩ t := by
  unfold Scope.target
  cases ht with
  | name v => rfl
  | index ha hi => simp only [ih.expr frames _ ha, ih.expr frames _ hi]
  | access h => simp only [ih.expr frames _ h]
  | several h => simp only [mapM_congr fun t ht => ih.target frames t (h t ht)]

/-- A clause after the first one of a comprehension. -/
def laterClause (fuel : Nat) (s : Scope) : Clause Text → Resolve (Clause Slot)
  | .for_ t e => return .for_ (← Scope.target fuel s t) (← Scope.expr fuel s e)
  | .if_ e => return .if_ (← Scope.expr fuel s e)

theorem laterClause_eq (ih : Agrees x numbers others fuel) (frames : List (List (Text × Nat)))
    {c : Clause Text} (hc : c.Ignores x) :
    laterClause fuel ⟨numbers, frames⟩ c = laterClause fuel ⟨others, frames⟩ c := by
  cases hc with
  | for_ ht he => simp only [laterClause, ih.target frames _ ht, ih.expr frames _ he]
  | if_ he => simp only [laterClause, ih.expr frames _ he]

theorem comprehension_succ (ih : Agrees x numbers others fuel) (frames : List (List (Text × Nat)))
    {cs : List (Clause Text)} (hcs : ∀ c ∈ cs, c.Ignores x) :
    ∃ g : Resolve (List (List (Text × Nat)) × List (Clause Slot)),
      Scope.comprehension (fuel + 1) ⟨numbers, frames⟩ cs = (fun r => (⟨numbers, r.1⟩, r.2)) <$> g ∧
      Scope.comprehension (fuel + 1) ⟨others, frames⟩ cs = (fun r => (⟨others, r.1⟩, r.2)) <$> g := by
  cases cs with
  | nil => exact ⟨failure, rfl, rfl⟩
  | cons c rest =>
      cases c with
      | if_ e => exact ⟨failure, rfl, rfl⟩
      | for_ t e =>
          rw [List.forall_mem_cons] at hcs
          obtain ⟨ht, he⟩ := hcs.1
          refine ⟨do
            let e' ← Scope.expr fuel ⟨numbers, frames⟩ e
            let inner ← bindFrames frames ((Clause.for_ t e :: rest).flatMap (Clause.names fuel))
            let t' ← Scope.target fuel ⟨numbers, inner⟩ t
            let rest' ← rest.mapM (laterClause fuel ⟨numbers, inner⟩)
            return (inner, .for_ t' e' :: rest'), ?_, ?_⟩
          · simp only [Scope.comprehension, bind_eq, bind_map_left, map_bind, map_pure]
            rfl
          · have hrest : ∀ inner, rest.mapM (laterClause fuel ⟨numbers, inner⟩) =
                rest.mapM (laterClause fuel ⟨others, inner⟩) :=
              fun inner => mapM_congr fun c hc => ih.laterClause_eq inner (hcs.2 c hc)
            simp only [Scope.comprehension, bind_eq, bind_map_left, map_bind, map_pure,
              ih.expr frames _ he, ih.target _ _ ht, hrest]
            rfl

theorem function_succ (ih : Agrees x numbers others fuel) (frames : List (List (Text × Nat)))
    (inLoop : Bool) {f : Function Text} (hf : f.Ignores x) :
    Scope.function (fuel + 1) ⟨numbers, frames⟩ inLoop f =
      Scope.function (fuel + 1) ⟨others, frames⟩ inLoop f := by
  obtain ⟨hparams, hbody⟩ := hf
  have hparam : ∀ p ∈ f.params,
      (do return (p.1, ← p.2.mapM (Scope.expr fuel ⟨numbers, frames⟩)) :
        Resolve (Text × Option (Expr Slot))) =
      (do return (p.1, ← p.2.mapM (Scope.expr fuel ⟨others, frames⟩))) := by
    intro p hp
    rw [option_mapM_congr fun e he => ih.expr frames e (hparams p hp e he)]
  have hstatements : ∀ inner w, f.body.mapM (Scope.statement fuel ⟨numbers, inner⟩ w) =
      f.body.mapM (Scope.statement fuel ⟨others, inner⟩ w) :=
    fun inner w => mapM_congr fun st hst => ih.statement inner w st (hbody st hst)
  simp only [Scope.function, mapM_congr hparam, bind_eq, bind_map_left, hstatements]

theorem statement_succ (ih : Agrees x numbers others fuel) (frames : List (List (Text × Nat)))
    (w : Within) {st : Statement Text} (hst : st.Ignores x) :
    Scope.statement (fuel + 1) ⟨numbers, frames⟩ w st =
      Scope.statement (fuel + 1) ⟨others, frames⟩ w st := by
  unfold Scope.statement
  cases hst with
  | expr h => simp only [ih.expr frames _ h]
  | assign ht he => simp only [ih.expr frames _ he, ih.target frames _ ht]
  | update ht he => simp only [ih.expr frames _ he, ih.target frames _ ht]
  | @define name f h =>
      have hslot : slot? ⟨numbers, frames⟩ name = slot? ⟨others, frames⟩ name := rfl
      simp only [hslot, ih.function frames _ _ h]
  | if_ hc hyes hno =>
      simp only [ih.expr frames _ hc, mapM_congr fun st hst => ih.statement frames w st (hyes st hst),
        mapM_congr fun st hst => ih.statement frames w st (hno st hst)]
  | for_ ht he hbody =>
      simp only [ih.expr frames _ he, ih.target frames _ ht,
        mapM_congr fun st hst => ih.statement frames { w with loop := true } st (hbody st hst)]
  | return_ h => simp only [option_mapM_congr fun e he => ih.expr frames e (h e he)]
  | pass => rfl
  | break_ => rfl
  | continue_ => rfl

theorem all (hsame : SameBut x numbers others) (fuel : Nat) : Agrees x numbers others fuel := by
  induction fuel with
  | zero => exact zero
  | succ fuel ih =>
      exact {
        expr := fun frames _ he => expr_succ hsame ih frames he
        comprehension := fun frames _ hcs => ih.comprehension_succ frames hcs
        target := fun frames _ ht => ih.target_succ frames ht
        function := fun frames inLoop _ hf => ih.function_succ frames inLoop hf
        statement := fun frames w _ hst => ih.statement_succ frames w hst }

end Agrees

end Scope

/-- A script is the same under numbers that differ under a name only that nothing reads. -/
theorem Script.of?_congr {x : Text} {numbers others : Numbers} (hsame : SameBut x numbers others)
    (fuel : Nat) {ss : List (Statement Text)} (h : ∀ st ∈ ss, st.Ignores x) :
    Script.of? fuel numbers ss = Script.of? fuel others ss := by
  have hbody : ∀ inner, ss.mapM (Scope.statement fuel ⟨numbers, inner⟩ {}) =
      ss.mapM (Scope.statement fuel ⟨others, inner⟩ {}) :=
    fun inner => mapM_congr fun st hst => (Scope.Agrees.all hsame fuel).statement inner {} st (h st hst)
  simp only [Script.of?, Scope.bind_eq, StateT.run_map, Option.map_eq_map, Option.bind_eq_bind,
    Option.bind_map, Function.comp_def, hbody]

end TapeMachine.Expression
