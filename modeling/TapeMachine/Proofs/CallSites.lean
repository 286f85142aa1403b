import TapeMachine.Proofs.LineNumbers
import TapeMachine.Proofs.MacroDefinitions

/-! Calls of a macro in a source, and the lines that can stand in their place. A call binds its
arguments to the formals of the macro and assembles the body under these equates. Where the words of a
line of the body neither hold constants nor name macros, this is the same as assembling the line with
the arguments written in place of the formals. -/

namespace TapeMachine.Assembler

open Text

variable {interpret : Expression.Interpreter}

/-- A word of a macro with the arguments of a call put in. -/
def filled (formals args : List Text) (w : Text) : Text := ((formals.zip args).lookup w).getD w

/-- An argument of a call that stands for itself: an operand, or a decimal number of any size. -/
def IsArgument (w : Text) : Prop := (∃ o, operandOf w = .ok o) ∨ ∃ n : Int, w = ofInt n

/-- The lines of a source around the definition of a macro and a later call of it. -/
structure CallSite where
  name : Text
  formals : List Text
  args : List Text
  front : List Text
  header : Text
  body : List Text
  footer : Text
  middle : List Text
  call : Text
  back : List Text

namespace CallSite

/-- The lines before the call. -/
def leading (c : CallSite) : List Text := c.front ++ (c.header :: c.body ++ [c.footer]) ++ c.middle

/-- The lines of the source. -/
def lines (c : CallSite) : List Text := c.leading ++ c.call :: c.back

/-- The lines of the source with other lines in place of the call. -/
def inlined (c : CallSite) (expansion : List Text) : List Text := c.leading ++ expansion ++ c.back

/-- The lines are those of a definition and a call, and the body holds words only. -/
structure WellFormed (c : CallSite) : Prop where
  name : isLabelName c.name = true
  distinct : c.formals.Nodup
  definition : DefinitionLines c.name c.formals c.header c.body c.footer
  noQuote : ∀ line ∈ c.body, quote ∉ Source.strip line
  noDollar : ∀ line ∈ c.body, byte '$' ∉ Source.strip line
  noEquate : ∀ line ∈ c.body, (words (Source.strip line)).head? ≠ some (text ".equ")
  call : words (Source.strip c.call) = c.name :: c.args
  arity : c.args.length = c.formals.length
  args : ∀ a ∈ c.args, IsArgument a

/-- In the state before the call, no other equate or macro gets between the call and its words. -/
structure Undisturbed (c : CallSite) (s : State) : Prop where
  outside : s.defining = none
  name : s.equates.contains c.name = false
  args : ∀ a ∈ c.args, s.equates.contains a = false
  words : ∀ line ∈ c.body, ∀ w ∈ words (Source.strip line),
    s.macros.contains (filled c.formals c.args w) = false
  values : ∀ p ∈ s.equates.entries, p.1 ≠ lineEquate → s.macros.contains p.2 = false

/-- Lines that are those of the body with the arguments put in. -/
def Expands (c : CallSite) (expansion : List Text) : Prop :=
  List.Forall₂ (fun line new => words (Source.strip new) =
    (words (Source.strip line)).map (filled c.formals c.args)) c.body expansion

end CallSite

theorem isPlainWord_ofInt (n : Int) : IsPlainWord (ofInt n) where
  ne_nil := ofInt_ne_nil n
  plain := forall_mem_ofInt (by decide) (forall_byte (by decide +kernel)) n

namespace IsArgument

variable {a : Text}

theorem plain (h : IsArgument a) : IsPlainWord a := by
  rcases h with ⟨o, ho⟩ | ⟨n, rfl⟩
  · exact isPlainWord_of_operandOf ho
  · exact isPlainWord_ofInt n

theorem not_directive (h : IsArgument a) : a ∉ directives := by
  intro hmem
  rcases h with ⟨o, ho⟩ | ⟨n, rfl⟩
  · have hall : ∀ w ∈ directives, (operandOf w).toOption = none := by decide
    have hnone := hall a hmem
    rw [ho] at hnone
    cases hnone
  · have hall : ∀ w ∈ directives, w.head? = some (byte '.') := by decide
    obtain ⟨b, rest, hcons, hb⟩ := ofInt_eq_cons n
    have hhead := hall _ hmem
    rw [hcons, List.head?_cons, Option.some_inj] at hhead
    rw [hhead] at hb
    exact absurd hb (by decide)

end IsArgument

theorem isLabelName_not_directive {name : Text} (h : isLabelName name = true) : name ∉ directives := by
  have hall : ∀ w ∈ directives, isLabelName w = false := by decide
  intro hmem
  rw [hall name hmem] at h
  cases h

theorem declaredName?_of_isLabelName {name : Text} (h : isLabelName name = true) :
    declaredName? name = none := by
  refine if_neg fun hlast => ?_
  have hcolon := isLabelName_bytes h _ (List.mem_of_getLast? hlast)
  exact absurd hcolon (by decide)

/-- The equates in the body of a call, and those of its inlined lines. -/
def Bound (pairs : List (Text × Text)) (base : Bindings Text) (e e' : Bindings Text) : Prop :=
  e.without lineEquate = (base.insertAll pairs).without lineEquate ∧
    e'.without lineEquate = base.without lineEquate

section

variable {formals args : List Text} {base e e' : Bindings Text}

theorem filled_cases (formals args : List Text) (w : Text) :
    (∃ a ∈ args, (formals.zip args).lookup w = some a ∧ filled formals args w = a) ∨
      (formals.zip args).lookup w = none ∧ filled formals args w = w := by
  rw [filled]
  cases hw : (formals.zip args).lookup w with
  | none => exact .inr ⟨rfl, rfl⟩
  | some a =>
      obtain ⟨front, back, hsplit, -⟩ := List.lookup_eq_some_iff.1 hw
      have hmem : (w, a) ∈ formals.zip args := by simp [hsplit]
      exact .inl ⟨a, (List.of_mem_zip hmem).2, rfl, rfl⟩

/-- A word under the equates of a call is the word with the arguments put in under the others. -/
theorem substitute_eq_filled (hdistinct : formals.Nodup) (harity : args.length = formals.length)
    (hargs : ∀ a ∈ args, base.contains a = false ∧ a ≠ lineEquate)
    (hbound : Bound (formals.zip args) base e e') {w : Text} (hw : w ≠ lineEquate) :
    substitute e w = substitute e' (filled formals args w) := by
  have hnodup : ((formals.zip args).map Prod.fst).Nodup := by
    rwa [List.map_fst_zip (by omega)]
  rw [substitute, substitute, Bindings.get?_congr_of_without hw hbound.1, Bindings.get?_insertAll hnodup]
  obtain ⟨a, ha, hlookup, hfilled⟩ | ⟨hlookup, hfilled⟩ := filled_cases formals args w
  · obtain ⟨hfree, hne⟩ := hargs a ha
    have hnone : base.get? a = none := by simpa [Bindings.contains] using hfree
    rw [hlookup, hfilled, Bindings.get?_congr_of_without hne hbound.2, hnone]
    rfl
  · rw [hlookup, hfilled, Bindings.get?_congr_of_without hw hbound.2, Option.none_or]

/-- No word of an inlined body names a macro once its equates are replaced. -/
theorem substitute_filled_unknown {macros : Bindings Macro}
    (hargs : ∀ a ∈ args, base.contains a = false ∧ a ≠ lineEquate)
    (hvalues : ∀ p ∈ base.entries, p.1 ≠ lineEquate → macros.contains p.2 = false)
    (hsame : e'.without lineEquate = base.without lineEquate) {w : Text} (hw : w ≠ lineEquate)
    (hword : macros.contains (filled formals args w) = false) :
    macros.contains (substitute e' (filled formals args w)) = false := by
  have hne : filled formals args w ≠ lineEquate := by
    obtain ⟨a, ha, -, hfilled⟩ | ⟨-, hfilled⟩ := filled_cases formals args w
    · rw [hfilled]
      exact (hargs a ha).2
    · rwa [hfilled]
  rw [substitute, Bindings.get?_congr_of_without hne hsame]
  cases hvalue : base.get? (filled formals args w) with
  | none => exact hword
  | some v => exact hvalues _ (Bindings.mem_entries_of_get? hvalue) hne

end

/-- A line without constants, and without a definition, is its words under the equates. -/
theorem assembleWith_plain (expand : Text → Macro → List Text → Asm Unit) (n : Nat) {line : Text}
    (hquote : quote ∉ line) (hdollar : byte '$' ∉ line)
    (hequate : (words line).head? ≠ some (text ".equ")) (s : State) :
    assembleWith interpret expand n line s =
      assembleReplaced expand n ((words line).map (substitute (s.atLine n).equates)) (s.atLine n) := by
  rw [assembleWith_run, readWords_plain hquote hdollar]
  cases hwords : words line with
  | nil => rfl
  | cons w ws =>
      have hne : w ≠ text ".equ" := fun heq => hequate (by rw [hwords, heq]; rfl)
      simp only [if_neg hne]

/-- Words that name no macro are taken in alike, however macro calls are carried out. -/
theorem assembleReplaced_alike {E : Bindings Text → Bindings Text → Prop}
    (expand expand' : Text → Macro → List Text → Asm Unit) (n n' : Nat) {ws : List Text} {s s' : State}
    (hws : ∀ w ∈ ws, s.macros.contains w = false) (h : s.AlikeWith E s') :
    EndsIn (State.AlikeWith E) (assembleReplaced expand n ws s) (assembleReplaced expand' n' ws s') := by
  induction ws generalizing s s' with
  | nil => exact .ok () h
  | cons w ws ih =>
      rw [List.forall_mem_cons] at hws
      cases hname : declaredName? w with
      | none =>
          have hnone : s.macros.get? w = none := by simpa [Bindings.contains] using hws.1
          have hnone' : s'.macros.get? w = none := by
            obtain ⟨-, hm'⟩ | ⟨m, m', hm, -, -⟩ := h.macro_cases w
            · exact hm'
            · rw [hnone] at hm
              cases hm
          have hinstruction := addInstruction_alike n n' w ws h
          simp only [assembleReplaced_run, declareLabels, hname, pure_run, assembleWords_run, hnone,
            hnone']
          exact hinstruction
      | some name =>
          rw [assembleReplaced_label expand n hname, assembleReplaced_label expand' n' hname, bind_run,
            bind_run, declareLabel_run, declareLabel_run, h.labels]
          split_ifs
          · exact .error _ _ _ _
          · exact ih hws.2 (h.declare n n' w name)
          · exact .error _ _ _ _

theorem State.AlikeWith.atLine_bound {pairs : List (Text × Text)} {base : Bindings Text} {t t' : State}
    (h : t.AlikeWith (Bound pairs base) t') (n n' : Nat) :
    (t.atLine n).AlikeWith (Bound pairs base) (t'.atLine n') :=
  { h with
    equates := by
      simp only [Bound, State.atLine, Bindings.without_insert_self]
      exact h.equates }

namespace CallSite

variable {c : CallSite} {line new : Text}

/-- The words of an inlined line are words of the body or arguments. -/
theorem mem_words_inlined (hnew : words (Source.strip new) =
      (words (Source.strip line)).map (filled c.formals c.args)) {w : Text}
    (hw : w ∈ words (Source.strip new)) : w ∈ words (Source.strip line) ∨ w ∈ c.args := by
  rw [hnew, List.mem_map] at hw
  obtain ⟨v, hv, rfl⟩ := hw
  obtain ⟨a, ha, -, hfilled⟩ | ⟨-, hfilled⟩ := filled_cases c.formals c.args v
  · rw [hfilled]
    exact .inr ha
  · rw [hfilled]
    exact .inl hv

/-- What starts a constant is not in an inlined line if it is not in the line of the body. -/
theorem WellFormed.not_mem_inlined (hc : c.WellFormed) (hnew : words (Source.strip new) =
      (words (Source.strip line)).map (filled c.formals c.args)) {b : UInt8}
    (hgraphic : isGraphic b = true) (hplain : isPlain b = false) (hline : b ∉ Source.strip line) :
    b ∉ Source.strip new := by
  intro hmem
  obtain ⟨w, hw, hb⟩ := exists_word_of_mem hgraphic hmem
  rcases mem_words_inlined hnew hw with hw | hw
  · exact hline ((infix_of_mem_words hw).subset hb)
  · rw [(hc.args w hw).plain.plain b hb] at hplain
    cases hplain

/-- An inlined line starts with a directive only if the line of the body does. -/
theorem WellFormed.head?_inlined (hc : c.WellFormed) (hnew : words (Source.strip new) =
      (words (Source.strip line)).map (filled c.formals c.args)) {w : Text} (hw : w ∈ directives)
    (hline : (words (Source.strip line)).head? ≠ some w) :
    (words (Source.strip new)).head? ≠ some w := by
  rw [hnew, List.head?_map]
  cases hhead : (words (Source.strip line)).head? with
  | none => nofun
  | some v =>
      rw [hhead] at hline
      rw [Option.map_some, ne_eq, Option.some_inj]
      obtain ⟨a, ha, -, hfilled⟩ | ⟨-, hfilled⟩ := filled_cases c.formals c.args v
      · rw [hfilled]
        rintro rfl
        exact (hc.args a ha).not_directive hw
      · rw [hfilled]
        exact fun heq => hline (congrArg some heq)

/-- A line of the body in a call, and the line that is inlined for it, are taken in alike. -/
theorem WellFormed.line_alike (interpret : Expression.Interpreter) (hc : c.WellFormed) {s : State}
    (hs : c.Undisturbed s) (hfree : lineEquate ∉ c.args) (hline : line ∈ c.body)
    (hnumberless : Numberless (Source.strip line))
    (hnew : words (Source.strip new) = (words (Source.strip line)).map (filled c.formals c.args))
    {t t' : State} (h : t.AlikeWith (Bound (c.formals.zip c.args) s.equates) t')
    (hmacros : t.macros = s.macros) (hout : t'.defining = none) (depth n n' : Nat) :
    EndsIn (State.AlikeWith (Bound (c.formals.zip c.args) s.equates))
      (assembleLine interpret depth n (Source.strip line) t)
      (sourceLine interpret (depth + 1) n' (Source.strip new) t') := by
  have hargs : ∀ a ∈ c.args, s.equates.contains a = false ∧ a ≠ lineEquate :=
    fun a ha => ⟨hs.args a ha, fun heq => hfree (heq ▸ ha)⟩
  have hwords : ∀ w ∈ words (Source.strip line), w ≠ lineEquate :=
    fun w hw heq => lineEquate_not_mem_words hnumberless.noLine (heq ▸ hw)
  have hassembles : t'.Assembles (Source.strip new) :=
    ⟨hout, hc.head?_inlined hnew (by decide) (hc.definition.body line hline).1,
      hc.head?_inlined hnew (by decide) (hc.definition.body line hline).2⟩
  -- Both lines come to the same words, and none of these names a macro.
  have hat := h.atLine_bound n n'
  have hsame : (words (Source.strip line)).map (substitute (t.atLine n).equates) =
      (words (Source.strip new)).map (substitute (t'.atLine n').equates) := by
    rw [hnew, List.map_map]
    refine List.map_congr_left fun w hw => ?_
    exact substitute_eq_filled hc.distinct hc.arity hargs hat.equates (hwords w hw)
  have hunknown : ∀ v ∈ (words (Source.strip line)).map (substitute (t.atLine n).equates),
      (t.atLine n).macros.contains v = false := by
    intro v hv
    obtain ⟨w, hw, rfl⟩ := List.mem_map.1 hv
    change t.macros.contains _ = false
    rw [hmacros, substitute_eq_filled hc.distinct hc.arity hargs hat.equates (hwords w hw)]
    exact substitute_filled_unknown hargs hs.values hat.equates.2 (hwords w hw)
      (hs.words line hline w hw)
  obtain ⟨expand, hexpand⟩ := assembleLine_eq_assembleWith depth
  obtain ⟨expand', hexpand'⟩ := assembleLine_eq_assembleWith (depth + 1)
  rw [sourceLine_run, if_pos hassembles, hexpand, hexpand',
    assembleWith_plain expand n (hc.noQuote line hline) (hc.noDollar line hline)
      (hc.noEquate line hline),
    assembleWith_plain expand' n'
      (hc.not_mem_inlined hnew (by decide) (by decide) (hc.noQuote line hline))
      (hc.not_mem_inlined hnew (by decide) (by decide) (hc.noDollar line hline))
      (hc.head?_inlined hnew (by decide) (hc.noEquate line hline)), ← hsame]
  exact assembleReplaced_alike expand expand' n n' hunknown hat

end CallSite

end TapeMachine.Assembler
