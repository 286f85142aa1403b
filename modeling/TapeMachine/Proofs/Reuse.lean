import TapeMachine.Assembler.Round
import TapeMachine.Expression.Eval
import TapeMachine.Proofs.EquateScope
import TapeMachine.Proofs.LineNumbers

/-! An assembler can be used again. Of a source before, only the predefined equates stay, and equates
are only ever looked up by name, so the order in which they were predefined makes no difference. So
each of a list of sources gives what it gives a new assembler, whatever became of those before. -/

namespace TapeMachine.Assembler

open Bindings (Agree finalValue?)

variable {interpret : Expression.Interpreter}

theorem replaceConstants_agree {e e' : Bindings Text} (h : e.Agree e') (line : Text) :
    replaceConstants interpret e line = replaceConstants interpret e' line := by
  have hnumbers : integers e = integers e' := by
    funext name
    rw [integers, integers, h.get?]
  rw [replaceConstants, replaceConstants, hnumbers]

/-- Two results of an action: the same value or the same failure, with states that differ in the order
of their equates only. -/
inductive EndsSame {α : Type} :
    EStateM.Result Failure State α → EStateM.Result Failure State α → Prop where
  | ok (a : α) (s : State) {e : Bindings Text} (h : s.equates.Agree e) :
      EndsSame (.ok a s) (.ok a { s with equates := e })
  | error (f : Failure) (s : State) {e : Bindings Text} (h : s.equates.Agree e) :
      EndsSame (.error f s) (.error f { s with equates := e })

/-- An action for which the order of the equates makes no difference. -/
def Asm.Unordered {α : Type} (act : Asm α) : Prop :=
  ∀ (s : State) ⦃e : Bindings Text⦄, s.equates.Agree e →
    EndsSame (act s) (act { s with equates := e })

namespace Asm.Unordered

variable {α β : Type}

theorem pure (a : α) : Unordered (Pure.pure a) := fun s _ h => .ok a s h

theorem throw (f : Failure) : (MonadExcept.throw f : Asm α).Unordered := fun s _ h => .error f s h

theorem bind {act : Asm α} {f : α → Asm β} (hact : act.Unordered) (hf : ∀ a, (f a).Unordered) :
    (act >>= f).Unordered := by
  intro s e h
  have hends := hact s h
  rw [bind_run, bind_run]
  generalize act s = r at hends
  generalize act { s with equates := e } = r' at hends
  cases hends with
  | ok a t h => exact hf a t h
  | error f t h => exact .error f t h

theorem within (f : Frame) {act : Asm α} (hact : act.Unordered) : (Asm.within f act).Unordered := by
  intro s e h
  have hends := hact s h
  rw [Asm.within, Asm.within]
  generalize act s = r at hends
  generalize act { s with equates := e } = r' at hends
  cases hends with
  | ok a t h => exact .ok a t h
  | error f t h => exact .error _ t h

end Asm.Unordered

open Asm.Unordered

theorem readWords_unordered (interpret : Expression.Interpreter) (line : Text) :
    (readWords interpret line).Unordered := by
  intro s e h
  simp only [readWords_run, ← replaceConstants_agree h]
  cases (replaceConstants interpret s.equates line).text with
  | ok t => exact .ok _ _ h
  | error b => cases b <;> exact .error _ _ h

theorem defineEquate_unordered (rest : List Text) : (defineEquate rest).Unordered := by
  rcases rest with _ | ⟨name, _ | ⟨value, _ | ⟨more, rest⟩⟩⟩
  · exact throw _
  · exact throw _
  · intro s e h
    rw [defineEquate_run, defineEquate_run, h.contains]
    split_ifs
    · exact .error _ s h
    · exact .ok () { s with equates := s.equates.insert name value } (h.insert name value)
  · exact throw _

theorem declareLabels_unordered (n : Nat) (ws : List Text) : (declareLabels n ws).Unordered := by
  induction ws with
  | nil => exact pure []
  | cons w ws ih =>
      unfold declareLabels
      cases declaredName? w with
      | none => exact pure (w :: ws)
      | some name =>
          refine bind ?_ fun _ => ih
          intro s e h
          rw [declareLabel_run, declareLabel_run]
          dsimp only
          split_ifs
          · exact .error _ s h
          · exact .ok () (s.declare n w name) h
          · exact .error _ s h

theorem addInstruction_unordered (n : Nat) (mnemonic : Text) (args : List Text) :
    (addInstruction n mnemonic args).Unordered := by
  intro s e h
  rw [addInstruction_run, addInstruction_run]
  cases instructionOf mnemonic args with
  | ok i => exact .ok () (s.emit n (mnemonic :: args) i) h
  | error f => exact .error f s h

theorem assembleReplaced_unordered {expand : Text → Macro → List Text → Asm Unit}
    (hexpand : ∀ name m args, (expand name m args).Unordered) (n : Nat) (words : List Text) :
    (assembleReplaced expand n words).Unordered := by
  refine bind (declareLabels_unordered n words) fun rest => ?_
  cases rest with
  | nil => exact pure ()
  | cons name args =>
      intro s e h
      simp only [assembleWords_run]
      cases s.macros.get? name with
      | none => exact addInstruction_unordered n name args s h
      | some m =>
          dsimp only
          split_ifs
          · exact hexpand name m args s h
          · exact .error _ s h

theorem assembleWith_unordered {expand : Text → Macro → List Text → Asm Unit}
    (hexpand : ∀ name m args, (expand name m args).Unordered) (n : Nat) (line : Text) :
    (assembleWith interpret expand n line).Unordered := by
  intro s e h
  have hread := readWords_unordered interpret line (s.atLine n) (h.insert lineEquate (Text.ofNat n))
  rw [assembleWith_run, assembleWith_run]
  change EndsSame _ (readWords interpret line (State.atLine { s with equates := e } n)) at hread
  generalize readWords interpret line (s.atLine n) = r at hread
  generalize readWords interpret line (State.atLine { s with equates := e } n) = r' at hread
  cases hread with
  | error f t h => exact .error f t h
  | @ok ws t e h =>
      cases ws with
      | nil => exact .ok () t h
      | cons w ws =>
          have hwords : (w :: ws).map (substitute t.equates) = (w :: ws).map (substitute e) :=
            List.map_congr_left fun word _ => by rw [substitute, substitute, h.get?]
          dsimp only
          split_ifs
          · exact defineEquate_unordered ws t h
          · rw [hwords]
            exact assembleReplaced_unordered hexpand n _ t h

theorem assembleBody_unordered {assemble : Nat → Text → Asm Unit}
    (hassemble : ∀ n line, (assemble n line).Unordered) (name : Text) (lines : List (Nat × Text)) :
    (assembleBody assemble name lines).Unordered := by
  induction lines with
  | nil => exact pure ()
  | cons p lines ih => exact bind ((hassemble p.1 p.2).within _) fun _ => ih

theorem expandMacro_unordered {assemble : Nat → Text → Asm Unit}
    (hassemble : ∀ n line, (assemble n line).Unordered) (name : Text) (m : Macro) (args : List Text) :
    (expandMacro assemble name m args).Unordered := by
  intro s e h
  have hbody := assembleBody_unordered hassemble name (m.expansionLines name (s.expansions + 1))
    (s.entering m args) (h.insertAll (m.formals.zip args))
  change EndsSame _ (assembleBody assemble name (m.expansionLines name (s.expansions + 1))
    (State.entering { s with equates := e } m args)) at hbody
  rw [expandMacro_run, expandMacro_run]
  dsimp only
  generalize assembleBody assemble name _ (s.entering m args) = r at hbody
  generalize assembleBody assemble name _ (State.entering { s with equates := e } m args) = r' at hbody
  -- Both states get back the equates from before the call, which agree.
  cases hbody with
  | ok a t _ => exact .ok a { t with equates := s.equates } h
  | error f t _ => exact .error f { t with equates := s.equates } h

theorem assembleLine_unordered (depth n : Nat) (line : Text) :
    (assembleLine interpret depth n line).Unordered := by
  induction depth generalizing n line with
  | zero => exact assembleWith_unordered (fun _ _ _ => throw _) n line
  | succ depth ih => exact assembleWith_unordered (expandMacro_unordered ih) n line

theorem openMacro_unordered (n : Nat) (ws : List Text) : (openMacro n ws).Unordered := by
  intro s e h
  cases ws with
  | nil =>
      rw [openMacro_nil_run, openMacro_nil_run]
      exact .error _ s h
  | cons name formals =>
      rw [openMacro_run, openMacro_run]
      dsimp only
      split_ifs
      · exact .error _ s h
      · exact .error _ s h
      · exact .ok () _ h

theorem closeMacro_unordered : closeMacro.Unordered := by
  intro s e h
  rw [closeMacro_run, closeMacro_run]
  dsimp only
  split_ifs
  · exact .error _ s h
  · exact .ok () _ h

theorem addToMacro_unordered (name line : Text) : (addToMacro name line).Unordered := by
  intro s e h
  rw [addToMacro, modify_run, modify_run]
  cases s.macros.get? name with
  | none => exact .ok () s h
  | some m => exact .ok () _ h

theorem sourceLine_unordered (interpret : Expression.Interpreter) (depth n : Nat) (line : Text) :
    (sourceLine interpret depth n line).Unordered := by
  intro s e h
  rw [sourceLine_run, sourceLine_run]
  have hassembles : State.Assembles { s with equates := e } line ↔ s.Assembles line := Iff.rfl
  simp only [hassembles]
  split_ifs
  · exact assembleLine_unordered depth n line s h
  · simp only [macroLine, bind_run, get_run]
    cases Text.words line with
    | nil => exact addToMacro_unordered _ line s h
    | cons w ws =>
        dsimp only
        split_ifs
        · exact openMacro_unordered n ws s h
        · exact closeMacro_unordered s h
        · exact addToMacro_unordered _ line s h

/-- Lines are read up to the same one, and end the same. -/
theorem sourceLines_unordered (interpret : Expression.Interpreter) (depth : Nat) (pos : Position)
    (lines : List Text) (s : State) {e : Bindings Text} (h : s.equates.Agree e) :
    ∃ e' : Bindings Text, (sourceLines interpret depth pos lines s).2.2.equates.Agree e' ∧
      sourceLines interpret depth pos lines { s with equates := e } =
        ((sourceLines interpret depth pos lines s).1, (sourceLines interpret depth pos lines s).2.1,
          { (sourceLines interpret depth pos lines s).2.2 with equates := e' }) := by
  induction lines generalizing pos s e with
  | nil => exact ⟨e, h, rfl⟩
  | cons raw rest ih =>
      have hline := sourceLine_unordered interpret depth (pos.number + 1) (Source.strip raw) s h
      rw [sourceLines, sourceLines]
      dsimp only
      generalize sourceLine interpret depth (pos.number + 1) (Source.strip raw) s = r at hline
      generalize sourceLine interpret depth (pos.number + 1) (Source.strip raw)
        { s with equates := e } = r' at hline
      cases hline with
      | ok a t h => exact ih _ t h
      | error f t h => exact ⟨_, h, rfl⟩

/-- Two assemblies with the same verdict that made the same, the equates maybe in another order. -/
structure Assembly.SameAs (x y : Assembly) : Prop where
  verdict : x.verdict = y.verdict
  statements : x.state.statements = y.state.statements
  labels : x.state.labels = y.state.labels
  macros : x.state.macros = y.state.macros
  equates : ∀ name, x.state.equates.get? name = y.state.equates.get? name
  printed : x.state.printed = y.state.printed
  trace : x.trace = y.trace

/-- The equates a source starts with agree if the predefined ones do. -/
theorem startEquates_agree {a b : Assembler} (h : a.predefined.Agree b.predefined) :
    a.startEquates.Agree b.startEquates where
  nodup := Bindings.nodup_names_insertAll (by decide) _
  nodup' := Bindings.nodup_names_insertAll (by decide) _
  get? name := by
    have hget := h.get? name
    rw [Bindings.get?, Bindings.get?] at hget
    rw [startEquates, startEquates, Bindings.get?_insertAll h.nodup, Bindings.get?_insertAll h.nodup',
      hget]

/-- A source gives the same with assemblers that have the same equates predefined, whatever sources
they were used for before. -/
theorem parse_sameAs {a b : Assembler} (hinterpret : a.interpret = b.interpret)
    (h : a.predefined.Agree b.predefined) (hverbose : a.verbose = b.verbose) (depth : Nat)
    (source : Text) :
    (parse depth a source).SameAs (parse depth b source) := by
  obtain ⟨e, hagree, hread⟩ := sourceLines_unordered a.interpret depth {} (Source.lines source).texts
    { equates := a.startEquates } (startEquates_agree h)
  rw [parse, parse, startState_eq, startState_eq, ← hinterpret, hread, hverbose]
  generalize sourceLines a.interpret depth {} _ { equates := a.startEquates } = r at hagree
  obtain ⟨pos, failure, s⟩ := r
  exact ⟨rfl, rfl, rfl, rfl, hagree.get?, rfl, rfl⟩

/-! ### Rounds -/

theorem settings_predefineAll (a : Assembler) (pairs : List (Text × Text)) :
    (a.predefineAll pairs).interpret = a.interpret ∧ (a.predefineAll pairs).verbose = a.verbose := by
  induction pairs generalizing a with
  | nil => exact ⟨rfl, rfl⟩
  | cons p pairs ih => exact ih (a.predefine p.1 p.2)

/-- A round is assembled with the equates of all rounds up to it predefined. -/
theorem parseRounds_getElem? (depth : Nat) {rounds : List Round} {k : Nat} {r : Round}
    (hr : rounds[k]? = some r) (a : Assembler) :
    ∃ b : Assembler, (parseRounds depth a rounds)[k]? = some (parse depth b r.source) ∧
      b.interpret = a.interpret ∧ b.verbose = r.verbose ∧
      b.predefined = a.predefined.insertAll ((rounds.take (k + 1)).flatMap Round.predefines) := by
  induction rounds generalizing k a with
  | nil => cases hr
  | cons first rest ih =>
      have hfirst : (a.prepare first).predefined = a.predefined.insertAll first.predefines :=
        predefined_predefineAll a first.predefines
      have hinterpret : (a.prepare first).interpret = a.interpret :=
        (settings_predefineAll a first.predefines).1
      cases k with
      | zero =>
          obtain rfl : first = r := Option.some.inj hr
          exact ⟨a.prepare first, rfl, hinterpret, rfl, by simpa using hfirst⟩
      | succ k =>
          obtain ⟨b, hb, hkept, hverbose, hpredefined⟩ :=
            ih hr ((a.prepare first).keep (parse depth (a.prepare first) first.source))
          refine ⟨b, hb, hkept.trans hinterpret, hverbose, ?_⟩
          rw [hpredefined, List.take_succ_cons, List.flatMap_cons, Bindings.insertAll_append, ← hfirst]
          rfl

/-- Each of a list of sources, assembled one after another with the same assembler, gives what a new
assembler makes of it whose predefined equates are the ones of the rounds so far, a later value in
place of an earlier one, in any order; and this whatever became of the sources before. -/
theorem rounds_leave_nothing_behind (interpret : Expression.Interpreter) (depth : Nat)
    (rounds : List Round) (k : Nat) (r : Round) (pairs : List (Text × Text)) (hr : rounds[k]? = some r)
    (hpairs : ∀ name, finalValue? pairs name =
      finalValue? ((rounds.take (k + 1)).flatMap Round.predefines) name) :
    ∃ x, (parseRounds depth (fresh interpret) rounds)[k]? = some x ∧
      x.SameAs (parse depth (predefineAll { fresh interpret with verbose := r.verbose } pairs)
        r.source) := by
  obtain ⟨b, hb, hinterpret, hverbose, hpredefined⟩ := parseRounds_getElem? depth hr (fresh interpret)
  obtain ⟨hkept, hnew⟩ := settings_predefineAll { fresh interpret with verbose := r.verbose } pairs
  have hagree : b.predefined.Agree
      (predefineAll { fresh interpret with verbose := r.verbose } pairs).predefined := by
    rw [hpredefined, predefined_predefineAll]
    exact Bindings.agree_insertAll fun name => (hpairs name).symm
  exact ⟨_, hb, parse_sameAs (hinterpret.trans hkept.symm) hagree (hverbose.trans hnew.symm) depth
    r.source⟩

/-- Rounds of which the first fails two macro calls deep, the second leaves a macro open and the third
crashes. The last numbers a local label, reads the number of a line and has a macro of the same
name. -/
def troubledRounds : List Round :=
  [{ predefines := [(text "N", text "5"), (text "M", text "6")], source := shadowingSource },
    { predefines := [(text "N", [])], source := text ".macro inner\nhere@: stop\n" },
    { predefines := [(text "M", text "8")], source := text "mov r1 N\n" },
    { predefines := [(text "N", text "7")]
      source := text ".macro inner\nhere@: mov r1 N\n.endm\ninner\nmov r2 $(M + LINENO)\n" }]

/-- The last of the rounds above is assembled as by a new assembler with the equates in another
order. -/
theorem troubledRounds_leave_nothing_behind :
    (parseRounds 2 (fresh Expression.interpret) troubledRounds).map
        (fun x => (x.state.expansions, x.state.defining.isSome)) =
      [(2, false), (0, true), (0, false), (1, false)] ∧
    (parseRounds 2 (fresh Expression.interpret) troubledRounds)[2]?.map Assembly.verdict = some .crashed ∧
    (∀ name, finalValue? [(text "M", text "8"), (text "N", text "7")] name =
      finalValue? (troubledRounds.flatMap Round.predefines) name) ∧
    ∃ r x, troubledRounds[3]? = some r ∧
      (parseRounds 2 (fresh Expression.interpret) troubledRounds)[3]? = some x ∧
      x.SameAs (parse 2 (predefineAll (fresh Expression.interpret)
        [(text "M", text "8"), (text "N", text "7")]) r.source) ∧
      x.state.labels.get? (text "hereinner_1_") = some 0 := by
  have hpairs : ∀ name, finalValue? [(text "M", text "8"), (text "N", text "7")] name =
      finalValue? (troubledRounds.flatMap Round.predefines) name := by
    intro name
    change List.lookup name [(text "N", text "7"), (text "M", text "8")] = List.lookup name
      [(text "N", text "7"), (text "M", text "8"), (text "N", []), (text "M", text "6"),
        (text "N", text "5")]
    simp only [List.lookup_cons]
    cases name == text "N" <;> cases name == text "M" <;> rfl
  obtain ⟨x, hx, hsame⟩ := rounds_leave_nothing_behind Expression.interpret 2 troubledRounds 3 _
    [(text "M", text "8"), (text "N", text "7")] rfl hpairs
  refine ⟨by decide +kernel, by decide +kernel, hpairs, _, x, rfl, hx, hsame, ?_⟩
  rw [hsame.labels]
  decide +kernel

end TapeMachine.Assembler
