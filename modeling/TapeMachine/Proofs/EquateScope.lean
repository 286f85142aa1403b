import TapeMachine.Expression.Eval
import TapeMachine.Proofs.Bindings
import TapeMachine.Proofs.Edits

/-! Which equates are in force. A macro call binds its formal parameters, and its body may define
equates of its own, but all of these end with the call, also when it fails somewhere inside. So after
every line of a source the equates are the predefined ones and those that definitions outside of macro
calls have added, each with the value it was given first. Only the line number is not among them. -/

namespace TapeMachine.Assembler

open Asm.Respects

variable {interpret : Expression.Interpreter}

/-- However an action ends, the equates from before are put back after it. -/
theorem withEquates_unchanged {α : Type} (equates : Bindings Text) (act : Asm α) :
    (Asm.withEquates equates act).Respects (Unchanged State.equates) := by
  intro s
  rw [Asm.leaves, Asm.withEquates]
  cases act { s with equates := equates } <;> rfl

/-- A macro call leaves the equates as they were, whatever assembling its body does. -/
theorem expandMacro_unchanged (assemble : Nat → Text → Asm Unit) (name : Text) (m : Macro)
    (args : List Text) : (expandMacro assemble name m args).Respects (Unchanged State.equates) := by
  rw [expandMacro]
  exact bind get fun _ => withEquates_unchanged _ _

theorem assembleReplaced_unchanged {expand : Text → Macro → List Text → Asm Unit}
    (hexpand : ∀ name m args, (expand name m args).Respects (Unchanged State.equates)) (n : Nat)
    (words : List Text) : (assembleReplaced expand n words).Respects (Unchanged State.equates) :=
  assembleReplaced_respects (fun _ _ _ _ _ _ _ => rfl) (fun _ _ _ _ _ _ => rfl) hexpand n words

/-- The equate that the words of a line define. -/
def equateOf? : List Text → Option (Text × Text)
  | [directive, name, value] => if directive = text ".equ" then some (name, value) else none
  | _ => none

/-- The equate that line `n` defines where it is assembled outside of macro calls. -/
def State.equateOn? (s : State) (interpret : Expression.Interpreter) (n : Nat) (line : Text) :
    Option (Text × Text) :=
  if s.Assembles line then
    match (replaceConstants interpret (s.atLine n).equates line).text with
    | .ok t => equateOf? (Text.words t)
    | .error _ => none
  else none

/-- The equates that lines after a position define outside of macro calls, up to the first line that
fails. -/
def acceptedEquates (interpret : Expression.Interpreter) (depth : Nat) :
    Position → List Text → State → List (Text × Text)
  | _, [], _ => []
  | pos, raw :: rest, s =>
      let here : Position := ⟨pos.number + 1, Source.strip raw⟩
      match sourceLine interpret depth here.number here.text s with
      | .ok _ s' =>
          (s.equateOn? interpret here.number here.text).toList ++
            acceptedEquates interpret depth here rest s'
      | .error _ _ => []

/-- What the end of a line may have done to the equates `before` it: on success it has added a
definition if the line is one, and on failure nothing. -/
def DefinesOnly (defined : Option (Text × Text)) (before : Bindings Text) :
    EStateM.Result Failure State Unit → Prop
  | .ok _ s' => ∀ w, w ≠ lineEquate → ∀ v,
      s'.equates.get? w = some v ↔ before.get? w = some v ∨ defined = some (w, v)
  | .error _ s' => ∀ w, w ≠ lineEquate → s'.equates.get? w = before.get? w

/-- An action that puts the equates back defines nothing. -/
theorem definesOnly_of_respects {act : Asm Unit} (hact : act.Respects (Unchanged State.equates))
    {s : State} {before : Bindings Text}
    (hbefore : ∀ w, w ≠ lineEquate → s.equates.get? w = before.get? w) :
    DefinesOnly none before (act s) := by
  have hsame := hact s
  rw [Unchanged, Asm.leaves] at hsame
  cases hrun : act s with
  | ok _ s' =>
      rw [hrun] at hsame
      intro w hw v
      have hget : s'.equates.get? w = before.get? w := hsame ▸ hbefore w hw
      simp [hget]
  | error e s' =>
      rw [hrun] at hsame
      intro w hw
      exact hsame ▸ hbefore w hw

theorem defineEquate_definesOnly (rest : List Text) {s : State} {before : Bindings Text}
    (hbefore : ∀ w, w ≠ lineEquate → s.equates.get? w = before.get? w) :
    DefinesOnly (equateOf? (text ".equ" :: rest)) before (defineEquate rest s) := by
  match rest with
  | [name, value] =>
      rw [defineEquate_run]
      cases hfresh : s.equates.contains name with
      | true => exact hbefore
      | false =>
          intro w hw v
          have hnone : s.equates.get? name = none := by
            rw [Bindings.contains] at hfresh
            simpa using hfresh
          have hdefined : equateOf? [text ".equ", name, value] = some (name, value) := rfl
          simp only [hdefined, Option.some.injEq, Prod.mk.injEq, Bindings.get?_insert]
          by_cases hname : w = name
          · have hbound : before.get? w = none := by rw [← hbefore w hw, hname, hnone]
            simp [hname ▸ hbound, hname]
          · have hne : name ≠ w := Ne.symm hname
            simp [hname, hne, hbefore w hw]
  | [] => exact hbefore
  | [_] => exact hbefore
  | _ :: _ :: _ :: _ => exact hbefore

theorem State.get?_atLine (s : State) (n : Nat) {w : Text} (hw : w ≠ lineEquate) :
    (s.atLine n).equates.get? w = s.equates.get? w := Bindings.get?_insert_of_ne _ _ hw

/-- A line assembled outside of macro calls adds what it defines, and keeps the rest. -/
theorem assembleWith_definesOnly {expand : Text → Macro → List Text → Asm Unit}
    (hexpand : ∀ name m args, (expand name m args).Respects (Unchanged State.equates)) (n : Nat)
    {line : Text} {s : State} (hline : s.Assembles line) :
    DefinesOnly (s.equateOn? interpret n line) s.equates (assembleWith interpret expand n line s) := by
  have hatLine : ∀ w, w ≠ lineEquate → (s.atLine n).equates.get? w = s.equates.get? w :=
    fun w hw => s.get?_atLine n hw
  rw [assembleWith_reading, State.equateOn?, if_pos hline]
  rcases (replaceConstants interpret (s.atLine n).equates line).text with (bad | _) | t
  · exact hatLine
  · exact hatLine
  · dsimp only
    cases Text.words t with
    | nil => exact fun w hw v => by simp [equateOf?, State.reading, hatLine w hw]
    | cons word rest =>
        by_cases hequ : word = text ".equ"
        · simp only [hequ]
          exact defineEquate_definesOnly rest hatLine
        · have hnone : equateOf? (word :: rest) = none := by
            unfold equateOf?
            split
            · rename_i heq
              cases heq
              exact if_neg hequ
            · rfl
          simp only [if_neg hequ, hnone]
          exact definesOnly_of_respects (assembleReplaced_unchanged hexpand n _) hatLine

theorem assembleLine_definesOnly (depth n : Nat) {line : Text} {s : State} (hline : s.Assembles line) :
    DefinesOnly (s.equateOn? interpret n line) s.equates (assembleLine interpret depth n line s) := by
  cases depth with
  | zero => exact assembleWith_definesOnly (fun _ _ _ => throw _) n hline
  | succ depth =>
      exact assembleWith_definesOnly (expandMacro_unchanged (assembleLine interpret depth)) n hline

/-- A line of a source adds an equate only if it is assembled and defines one. -/
theorem sourceLine_definesOnly (interpret : Expression.Interpreter) (depth n : Nat) (line : Text)
    (s : State) :
    DefinesOnly (s.equateOn? interpret n line) s.equates (sourceLine interpret depth n line s) := by
  rw [sourceLine_run]
  by_cases hline : s.Assembles line
  · rw [if_pos hline]
    exact assembleLine_definesOnly depth n hline
  · have hkeeps : (macroLine n line).Respects (Unchanged State.equates) := by
      intro s
      obtain ⟨macros, defining, hleaves⟩ := macroLine_leaves n line s
      rw [hleaves]
      rfl
    rw [if_neg hline, State.equateOn?, if_neg hline]
    exact definesOnly_of_respects hkeeps fun _ _ => rfl

/-- After some lines, the equates are those from before and those that the lines define. -/
theorem sourceLines_equates (depth : Nat) (pos : Position) (lines : List Text) (s : State) {w : Text}
    (hw : w ≠ lineEquate) (v : Text) :
    (sourceLines interpret depth pos lines s).2.2.equates.get? w = some v ↔
      s.equates.get? w = some v ∨ (w, v) ∈ acceptedEquates interpret depth pos lines s := by
  induction lines generalizing pos s with
  | nil => simp [sourceLines, acceptedEquates]
  | cons raw rest ih =>
      have hline := sourceLine_definesOnly interpret depth (pos.number + 1) (Source.strip raw) s
      rw [sourceLines, acceptedEquates]
      cases hrun : sourceLine interpret depth (pos.number + 1) (Source.strip raw) s with
      | ok _ s' =>
          rw [hrun] at hline
          simp only [ih, List.mem_append, Option.mem_toList, hline w hw v, or_assoc]
      | error e s' =>
          rw [hrun] at hline
          simp only [hline w hw, List.not_mem_nil, or_false]

/-- What lines define stays defined when more lines follow. -/
theorem mem_acceptedEquates_append {depth : Nat} {pos : Position} {lines : List Text} {s : State}
    {x : Text × Text} (more : List Text) (h : x ∈ acceptedEquates interpret depth pos lines s) :
    x ∈ acceptedEquates interpret depth pos (lines ++ more) s := by
  induction lines generalizing pos s with
  | nil => cases h
  | cons raw rest ih =>
      rw [List.cons_append, acceptedEquates]
      rw [acceptedEquates] at h
      cases hrun : sourceLine interpret depth (pos.number + 1) (Source.strip raw) s with
      | ok _ s' =>
          simp only [hrun, List.mem_append] at h ⊢
          exact h.imp_right ih
      | error e s' =>
          simp only [hrun] at h
          cases h

theorem predefined_predefineAll (a : Assembler) (pairs : List (Text × Text)) :
    (a.predefineAll pairs).predefined = a.predefined.insertAll pairs := by
  induction pairs generalizing a with
  | nil => rfl
  | cons p pairs ih => exact ih (a.predefine p.1 p.2)

theorem nodup_names_predefineAll (a : Assembler) (h : a.predefined.names.Nodup)
    (pairs : List (Text × Text)) : (a.predefineAll pairs).predefined.names.Nodup := by
  rw [predefined_predefineAll]
  exact Bindings.nodup_names_insertAll h pairs

/-- A source starts with the predefined equates. -/
theorem get?_startEquates {a : Assembler} (h : a.predefined.names.Nodup) {w : Text}
    (hw : w ≠ lineEquate) : a.startEquates.get? w = a.predefined.get? w := by
  have hnone : (Bindings.empty.insert lineEquate (text "0")).get? w = none :=
    Bindings.get?_insert_of_ne _ _ hw
  rw [startEquates, Bindings.get?_insertAll h, hnone, Option.or_none]
  rfl

/-- The state after the first `k` lines of a source, or after the first of them that fails. -/
def stateAfter (depth : Nat) (a : Assembler) (source : Text) (k : Nat) : State :=
  (sourceLines a.interpret depth {} ((Source.lines source).texts.take k)
    { equates := a.startEquates }).2.2

/-- The equates that the first `k` lines of a source define outside of macro calls. -/
def definedWithin (depth : Nat) (a : Assembler) (source : Text) (k : Nat) : List (Text × Text) :=
  acceptedEquates a.interpret depth {} ((Source.lines source).texts.take k)
    { equates := a.startEquates }

/-- After any number of lines of any source, taken in or failed, the equates are the predefined ones
and those that the lines so far define outside of macro calls; and none is ever changed or
dropped. -/
theorem equates_in_force (interpret : Expression.Interpreter) (depth : Nat)
    (pairs : List (Text × Text)) (source : Text) (k : Nat) :
    (∀ w, w ≠ lineEquate → ∀ v,
      (stateAfter depth (predefineAll (fresh interpret) pairs) source k).equates.get? w = some v ↔
        (predefineAll (fresh interpret) pairs).predefined.get? w = some v ∨
          (w, v) ∈ definedWithin depth (predefineAll (fresh interpret) pairs) source k) ∧
    ∀ j, j ≤ k → ∀ w, w ≠ lineEquate → ∀ v,
      (stateAfter depth (predefineAll (fresh interpret) pairs) source j).equates.get? w = some v →
        (stateAfter depth (predefineAll (fresh interpret) pairs) source k).equates.get? w = some v := by
  have hnodup := nodup_names_predefineAll (fresh interpret) List.nodup_nil pairs
  have hforce : ∀ k w, w ≠ lineEquate → ∀ v,
      (stateAfter depth (predefineAll (fresh interpret) pairs) source k).equates.get? w = some v ↔
        (predefineAll (fresh interpret) pairs).predefined.get? w = some v ∨
          (w, v) ∈ definedWithin depth (predefineAll (fresh interpret) pairs) source k := by
    intro k w hw v
    rw [stateAfter, sourceLines_equates depth {} _ _ hw, get?_startEquates hnodup hw, definedWithin]
  refine ⟨hforce k, fun j hj w hw v hv => ?_⟩
  rw [hforce j w hw v] at hv
  rw [hforce k w hw v]
  refine hv.imp_right fun hmem => ?_
  obtain ⟨more, hmore⟩ := List.take_prefix_take_left hj (l := (Source.lines source).texts)
  rw [definedWithin, ← hmore]
  exact mem_acceptedEquates_append more hmem

/-- A source whose last line fails two macro calls deep. On the way a formal parameter hides the
equate `A`, and the inner body defines an equate `B`. -/
def shadowingSource : Text :=
  text ".equ A 1\n.macro inner x\n.equ B 2\nmov x B\nbogus\n.endm\n" ++
    text ".macro outer x A\ninner x\n.endm\nouter r1 5\n"

theorem shadowingSource_equates_in_force :
    (∀ v, (stateAfter 2 (predefineAll (fresh Expression.interpret) [(text "N", text "7")])
      shadowingSource 10).equates.get? (text "A") = some v ↔ v = text "1") ∧
    (∀ v, (stateAfter 2 (predefineAll (fresh Expression.interpret) [(text "N", text "7")])
      shadowingSource 10).equates.get? (text "B") ≠ some v) ∧
    (stateAfter 2 (predefineAll (fresh Expression.interpret) [(text "N", text "7")])
      shadowingSource 10).equates.get? (text "N") = some (text "7") := by
  have hforce := equates_in_force Expression.interpret 2 [(text "N", text "7")] shadowingSource 10
  have hdefined : definedWithin 2 (predefineAll (fresh Expression.interpret) [(text "N", text "7")])
      shadowingSource 10 = [(text "A", text "1")] := by decide +kernel
  rw [hdefined] at hforce
  refine ⟨fun v => ?_, fun v hv => ?_, ?_⟩
  · rw [hforce.1 (text "A") (by decide) v]
    simp only [List.mem_singleton, Prod.mk.injEq, true_and]
    exact or_iff_right fun h => nomatch h
  · rw [hforce.1 (text "B") (by decide) v, List.mem_singleton, Prod.mk.injEq] at hv
    rcases hv with h | h
    · cases h
    · exact absurd h.1 (by decide)
  · exact hforce.2 0 (by decide) (text "N") (by decide) _ (by decide)

end TapeMachine.Assembler
