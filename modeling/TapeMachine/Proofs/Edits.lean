import Mathlib.Logic.Relation
import Mathlib.Order.Defs.Unbundled
import Mathlib.Tactic.SplitIfs
import TapeMachine.Proofs.Actions

/-! What assembling can do to its state. Whatever a source says and however its assembling ends,
the state comes about by elementary edits: a label that is new is declared, an instruction that its
words denote is added, and the rest touches neither statements nor labels. What every edit keeps
therefore holds of the state of every source. A line outside macro definitions leaves the macros
alone. -/

namespace TapeMachine.Assembler

variable {interpret : Expression.Interpreter}

/-- One elementary change of the state. -/
inductive Edit : State → State → Prop where
  | equates (s : State) (equates : Bindings Text) : Edit s { s with equates := equates }
  | printed (s : State) (printed : Text) : Edit s { s with printed := printed }
  | expansion (s : State) : Edit s { s with expansions := s.expansions + 1 }
  | macros (s : State) (macros : Bindings Macro) (defining : Option Text) :
      Edit s { s with macros := macros, defining := defining }
  | declare (s : State) (n : Nat) (word name : Text) (hword : declaredName? word = some name)
      (hname : isLabelName name = true) (hfresh : s.labels.contains name = false) :
      Edit s (s.declare n word name)
  | emit (s : State) (n : Nat) (mnemonic : Text) (args : List Text) (i : Instruction)
      (hi : instructionOf mnemonic args = .ok i) : Edit s (s.emit n (mnemonic :: args) i)

abbrev Edits : State → State → Prop := Relation.ReflTransGen Edit

instance : IsPreorder State Edits where
  refl _ := .refl
  trans _ _ _ := .trans

theorem Edits.single {s s' : State} (h : Edit s s') : Edits s s' := Relation.ReflTransGen.single h

/-- What every edit keeps holds after any number of them. -/
theorem Edits.invariant {I : State → Prop} (hstep : ∀ s s', Edit s s' → I s → I s') {s s' : State}
    (h : Edits s s') (hs : I s) : I s' := by
  induction h with
  | refl => exact hs
  | tail _ hedit ih => exact hstep _ _ hedit ih

/-- A part of the state that stays as it is. -/
def Unchanged {β : Type} (part : State → β) (s s' : State) : Prop := part s' = part s

instance {β : Type} (part : State → β) : IsPreorder State (Unchanged part) where
  refl _ := rfl
  trans _ _ _ h h' := Eq.trans h' h

/-- The state that comes of an action, also when it fails. -/
def Asm.leaves {α : Type} (act : Asm α) (s : State) : State :=
  match act s with
  | .ok _ s' => s'
  | .error _ s' => s'

/-- Whatever state an action starts from, and however it ends, the state it leaves stands in a
relation to the first one. -/
def Asm.Respects {α : Type} (R : State → State → Prop) (act : Asm α) : Prop :=
  ∀ s, R s (act.leaves s)

namespace Asm.Respects

variable {α β : Type} {R : State → State → Prop}

theorem of_ok {act : Asm α} {f : State → State} {a : State → α} (hrun : ∀ s, act s = .ok (a s) (f s))
    (hf : ∀ s, R s (f s)) : act.Respects R := by
  intro s
  rw [leaves, hrun]
  exact hf s

theorem within (frame : Frame) {act : Asm α} (hact : act.Respects R) :
    (Asm.within frame act).Respects R := by
  intro s
  have hrun := hact s
  rw [leaves] at hrun ⊢
  rw [Asm.within]
  cases hs : act s with
  | ok a s' =>
      rw [hs] at hrun
      exact hrun
  | error e s' =>
      rw [hs] at hrun
      exact hrun

theorem ite {c : Prop} [Decidable c] {x y : Asm α} (hx : x.Respects R) (hy : y.Respects R) :
    (if c then x else y).Respects R := by
  split_ifs
  · exact hx
  · exact hy

variable [IsPreorder State R]

theorem pure (a : α) : (Pure.pure a : Asm α).Respects R := fun s => refl_of R s

theorem throw (e : Failure) : (throw e : Asm α).Respects R := fun s => refl_of R s

theorem fail (c : Cause) : (Asm.fail c : Asm α).Respects R := fun s => refl_of R s

theorem get : (get : Asm State).Respects R := fun s => refl_of R s

theorem bind {x : Asm α} {f : α → Asm β} (hx : x.Respects R) (hf : ∀ a, (f a).Respects R) :
    (x >>= f).Respects R := by
  intro s
  have hfirst := hx s
  rw [leaves] at hfirst ⊢
  rw [bind_run]
  cases hxs : x s with
  | ok a s' =>
      rw [hxs] at hfirst
      exact trans_of R hfirst (hf a s')
  | error e s' =>
      rw [hxs] at hfirst
      exact hfirst

theorem forM {f : β → Asm PUnit} (hf : ∀ b, (f b).Respects R) (bs : List β) :
    (bs.forM f).Respects R := by
  induction bs with
  | nil => exact pure _
  | cons b bs ih => exact bind (hf b) fun _ => ih

/-- Where equates may change at will, they may also be put back. -/
theorem withEquates (hequates : ∀ s equates, R s { s with equates := equates })
    (equates : Bindings Text) {act : Asm α} (hact : act.Respects R) :
    (Asm.withEquates equates act).Respects R := by
  intro s
  have hstart : R s { s with equates := equates } := hequates s equates
  have hrun := hact { s with equates := equates }
  rw [leaves] at hrun ⊢
  rw [Asm.withEquates]
  cases hs : act { s with equates := equates } with
  | ok a s' =>
      rw [hs] at hrun
      exact trans_of R (trans_of R hstart hrun) (hequates s' s.equates)
  | error e s' =>
      rw [hs] at hrun
      exact trans_of R (trans_of R hstart hrun) (hequates s' s.equates)

end Asm.Respects

open Asm.Respects

/-- A relation that holds over every edit but those of macro definitions. -/
def HoldsOnLines (R : State → State → Prop) : Prop :=
  ∀ s s', Edit s s' → s'.macros = s.macros → s'.defining = s.defining → R s s'

/-- A relation that holds over every edit but those of macro definitions and macro calls. -/
def HoldsOutsideCalls (R : State → State → Prop) : Prop :=
  HoldsOnLines fun s s' => s'.expansions = s.expansions → R s s'

section

variable {R : State → State → Prop}

theorem HoldsOnLines.outsideCalls (hR : HoldsOnLines R) : HoldsOutsideCalls R :=
  fun s s' hedit hmacros hdefining _ => hR s s' hedit hmacros hdefining

theorem setLine_respects (hR : HoldsOutsideCalls R) (n : Nat) : (setLine n).Respects R :=
  of_ok (setLine_run n) fun s => hR _ _ (.equates s _) rfl rfl rfl

theorem readWords_respects (interpret : Expression.Interpreter)
    (hprinted : ∀ s printed, R s { s with printed := printed })
    (line : Text) : (readWords interpret line).Respects R := by
  intro s
  rw [Asm.leaves, readWords_run]
  obtain ⟨t, printed⟩ := replaceConstants interpret s.equates line
  rcases t with (b | _) | t <;> exact hprinted s _

variable [IsPreorder State R]

theorem defineEquate_respects (hR : HoldsOutsideCalls R) (words : List Text) :
    (defineEquate words).Respects R := by
  match words with
  | [name, value] =>
      intro s
      rw [Asm.leaves, defineEquate_run]
      cases s.equates.contains name with
      | true => exact refl_of R s
      | false => exact hR _ _ (.equates s _) rfl rfl rfl
  | [] => exact fail _
  | [_] => exact fail _
  | _ :: _ :: _ :: _ => exact fail _

theorem declareLabel_respects
    (hdeclare : ∀ s n word name, declaredName? word = some name → isLabelName name = true →
      s.labels.contains name = false → R s (s.declare n word name))
    (n : Nat) {word name : Text} (hword : declaredName? word = some name) :
    (declareLabel n word name).Respects R := by
  intro s
  rw [Asm.leaves, declareLabel_run]
  cases hname : isLabelName name with
  | false => exact refl_of R s
  | true =>
      cases hfresh : s.labels.contains name with
      | true => exact refl_of R s
      | false => exact hdeclare s n word name hword hname hfresh

theorem declareLabels_respects
    (hdeclare : ∀ s n word name, declaredName? word = some name → isLabelName name = true →
      s.labels.contains name = false → R s (s.declare n word name))
    (n : Nat) (words : List Text) : (declareLabels n words).Respects R := by
  induction words with
  | nil => exact pure _
  | cons word rest ih =>
      rw [declareLabels]
      cases hword : declaredName? word with
      | none => exact pure _
      | some name => exact bind (declareLabel_respects hdeclare n hword) fun _ => ih

theorem addInstruction_respects
    (hemit : ∀ s n mnemonic args i, instructionOf mnemonic args = .ok i →
      R s (s.emit n (mnemonic :: args) i))
    (n : Nat) (mnemonic : Text) (args : List Text) : (addInstruction n mnemonic args).Respects R := by
  intro s
  rw [Asm.leaves, addInstruction_run]
  cases hi : instructionOf mnemonic args with
  | error e => exact refl_of R s
  | ok i => exact hemit s n mnemonic args i hi

theorem expandMacro_respects (hR : HoldsOnLines R) {assemble : Nat → Text → Asm Unit}
    (hassemble : ∀ n line, (assemble n line).Respects R) (name : Text) (m : Macro)
    (args : List Text) : (expandMacro assemble name m args).Respects R := by
  have hequates : ∀ s equates, R s { s with equates := equates } :=
    fun s equates => hR _ _ (.equates s equates) rfl rfl
  rw [expandMacro]
  refine bind get fun _ => withEquates hequates _ (bind ?_ fun _ => bind get fun _ => ?_)
  · exact of_ok (modify_run _) fun s => hR _ _ (.expansion s) rfl rfl
  · exact forM (fun b => within _ (hassemble _ _)) _

theorem assembleReplaced_respects
    (hdeclare : ∀ s n word name, declaredName? word = some name → isLabelName name = true →
      s.labels.contains name = false → R s (s.declare n word name))
    (hemit : ∀ s n mnemonic args i, instructionOf mnemonic args = .ok i →
      R s (s.emit n (mnemonic :: args) i))
    {expand : Text → Macro → List Text → Asm Unit}
    (hexpand : ∀ name m args, (expand name m args).Respects R) (n : Nat) (words : List Text) :
    (assembleReplaced expand n words).Respects R := by
  refine bind (declareLabels_respects hdeclare n _) fun words => ?_
  cases words with
  | nil => exact pure _
  | cons name args =>
      simp only [assembleWords]
      refine bind get fun s => ?_
      cases s.macros.get? name with
      | none => exact addInstruction_respects hemit n name args
      | some m => exact ite (fail _) (hexpand name m args)

theorem assembleWith_respects (hR : HoldsOutsideCalls R)
    {expand : Text → Macro → List Text → Asm Unit}
    (hexpand : ∀ name m args, (expand name m args).Respects R) (n : Nat) (line : Text) :
    (assembleWith interpret expand n line).Respects R := by
  rw [assembleWith]
  refine bind (setLine_respects hR n) fun _ => bind (readWords_respects interpret ?_ line) fun words => ?_
  · exact fun s printed => hR _ _ (.printed s printed) rfl rfl rfl
  · cases words with
    | nil => exact pure _
    | cons word rest =>
        refine ite (defineEquate_respects hR rest) (bind get fun _ => ?_)
        refine assembleReplaced_respects ?_ ?_ hexpand n _
        · exact fun s n word name hword hname hfresh =>
            hR _ _ (.declare s n word name hword hname hfresh) rfl rfl rfl
        · exact fun s n mnemonic args i hi => hR _ _ (.emit s n mnemonic args i hi) rfl rfl rfl

/-- What stands before a call on its line respects whatever edits outside calls respect. -/
theorem State.callOn?_respects (hR : HoldsOutsideCalls R) {s t : State} {n : Nat} {line : Text}
    {c : Call} (h : s.callOn? interpret n line = some (c, t)) : R s t := by
  obtain ⟨word, rest, s', hread, hdeclare, -⟩ := State.callOn?_eq_some h
  have hatLine : R s (s.atLine n) := hR _ _ (.equates s _) rfl rfl rfl
  have hwords := readWords_respects (R := R) interpret
    (fun s printed => hR _ _ (.printed s printed) rfl rfl rfl) line (s.atLine n)
  have hlabels := declareLabels_respects (R := R)
    (fun s n word name hword hname hfresh =>
      hR _ _ (.declare s n word name hword hname hfresh) rfl rfl rfl) n
    ((word :: rest).map (substitute s'.equates)) s'
  rw [Asm.leaves, hread] at hwords
  rw [Asm.leaves, hdeclare] at hlabels
  exact trans_of R hatLine (trans_of R hwords hlabels)

/-- Assembling a line respects whatever its edits respect, however deep its macro calls nest. -/
theorem assembleLine_respects (hR : HoldsOnLines R) (depth n : Nat) (line : Text) :
    (assembleLine interpret depth n line).Respects R := by
  induction depth generalizing n line with
  | zero => exact assembleWith_respects hR.outsideCalls (fun _ _ _ => throw _) n line
  | succ depth ih => exact assembleWith_respects hR.outsideCalls (expandMacro_respects hR ih) n line

end

theorem assembleLine_edits (depth n : Nat) (line : Text) :
    (assembleLine interpret depth n line).Respects Edits :=
  assembleLine_respects (fun _ _ hedit _ _ => Edits.single hedit) depth n line

/-- Macro definitions change the macros, and nothing else. -/
theorem macroLine_leaves (n : Nat) (line : Text) (s : State) :
    ∃ macros defining,
      (macroLine n line).leaves s = { s with macros := macros, defining := defining } := by
  have hadd : ∀ name, ∃ macros defining,
      (addToMacro name line).leaves s = { s with macros := macros, defining := defining } := by
    intro name
    rw [Asm.leaves, addToMacro, modify_run]
    cases s.macros.get? name with
    | none => exact ⟨s.macros, s.defining, rfl⟩
    | some m => exact ⟨_, s.defining, rfl⟩
  simp only [Asm.leaves, macroLine, bind_run, get_run] at hadd ⊢
  cases Text.words line with
  | nil => exact hadd _
  | cons word rest =>
      by_cases hopen : word = text ".macro"
      · simp only [if_pos hopen]
        cases rest with
        | nil =>
            rw [openMacro_nil_run]
            exact ⟨s.macros, s.defining, rfl⟩
        | cons name formals =>
            rw [openMacro_run]
            split_ifs
            · exact ⟨s.macros, s.defining, rfl⟩
            · exact ⟨s.macros, s.defining, rfl⟩
            · exact ⟨_, _, rfl⟩
      · by_cases hclose : word = text ".endm"
        · simp only [if_neg hopen, if_pos hclose, closeMacro_run]
          split_ifs
          · exact ⟨s.macros, s.defining, rfl⟩
          · exact ⟨s.macros, none, rfl⟩
        · simp only [if_neg hopen, if_neg hclose]
          exact hadd _

theorem sourceLine_edits (interpret : Expression.Interpreter) (depth n : Nat) (line : Text) :
    (sourceLine interpret depth n line).Respects Edits := by
  intro s
  rw [Asm.leaves, sourceLine_run]
  split_ifs
  · exact assembleLine_edits depth n line s
  · obtain ⟨macros, defining, hleaves⟩ := macroLine_leaves n line s
    rw [Asm.leaves] at hleaves
    rw [hleaves]
    exact Edits.single (.macros s macros defining)

theorem sourceLines_edits (depth : Nat) (pos : Position) (lines : List Text) (s : State) :
    Edits s (sourceLines interpret depth pos lines s).2.2 := by
  induction lines generalizing pos s with
  | nil => exact .refl
  | cons raw rest ih =>
      have hline := sourceLine_edits interpret depth (pos.number + 1) (Source.strip raw) s
      rw [Asm.leaves] at hline
      rw [sourceLines]
      cases hs : sourceLine interpret depth (pos.number + 1) (Source.strip raw) s with
      | ok _ s' =>
          rw [hs] at hline
          exact hline.trans (ih _ s')
      | error e s' =>
          rw [hs] at hline
          exact hline

/-- The state of every source is the empty one with its first equates, edited. -/
theorem parse_edits (depth : Nat) (a : Assembler) (source : Text) :
    Edits { equates := a.startEquates } (parse depth a source).state :=
  sourceLines_edits depth {} (Source.lines source).texts _

end TapeMachine.Assembler
