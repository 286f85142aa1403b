import TapeMachine.Expression.Eval
import TapeMachine.Proofs.SourceMap

/-! Where a source fails. A line that fails does so by itself or inside the calls that it comes to, and
then its error is that of one line in the body of a macro, with a frame for each call around it. So the
frames of an error lead from a line of the source, call by call, to the line that failed; the lines
visited before it were taken in, and their statements are all there is. -/

namespace TapeMachine

variable {interpret : Expression.Interpreter}

namespace SourceError

/-- What an error is told in: the line it arose on, or the expansion of a macro. -/
inductive Layer where
  | line (number : Int) (source : Text)
  | expansion (name : Text) (number : Int)
  deriving DecidableEq

/-- The message of a layer around that of a cause. -/
def Layer.message : Layer → Text → Text
  | line n source, cause => lineMessage n source cause
  | expansion name n, cause =>
      Message.fill (TapeMachine.text "macro %v line %v %v") [.text name, .int n, .text cause]

/-- The layers that lead from a line of the source through frames: the line, and for each frame the line
of the body and the macro. -/
def Layer.through (n : Int) (source : Text) (frames : List Assembler.Frame) : List Layer :=
  .line n source :: frames.flatMap fun f => [.line f.line f.text, .expansion f.name f.line]

theorem Layer.through_concat (n : Int) (source : Text) (frames : List Assembler.Frame)
    (f : Assembler.Frame) :
    through n source (frames ++ [f]) =
      through n source frames ++ [.line f.line f.text, .expansion f.name f.line] := by
  simp [through]

/-- The layers of an error from the outside in. -/
def layers (e : SourceError) : List Layer := Layer.through e.line e.text e.frames

theorem frameMessage_eq (cause : Text) (frames : List Assembler.Frame) :
    frameMessage cause frames =
      (frames.flatMap fun f => [Layer.line f.line f.text, .expansion f.name f.line]).foldr
        Layer.message cause := by
  induction frames with
  | nil => rfl
  | cons f frames ih =>
      rw [frameMessage, ih]
      rfl

/-- An error is told layer by layer, around its cause. -/
theorem message_eq_layers (e : SourceError) : e.message = e.layers.foldr Layer.message e.cause.message := by
  rw [message, frameMessage_eq]
  rfl

end SourceError

namespace Assembler

theorem operandOf_error {word : Text} {e : Failure} (h : operandOf word = .error e) :
    (∃ cause, e = .rejected [] cause) ∨ (e = .emptyOperand ∧ word = []) := by
  unfold operandOf at h
  split at h
  · cases h
  · split at h
    · split at h
      · cases h
      · cases h
        exact .inl ⟨_, rfl⟩
    · split at h
      · cases h
        exact .inr ⟨rfl, rfl⟩
      · split_ifs at h
        · split at h
          · cases h
          · cases h
            exact .inl ⟨_, rfl⟩
        · cases h
          exact .inl ⟨_, rfl⟩

theorem operands_error {args : List Text} {e : Failure} (h : args.mapM operandOf = .error e) :
    (∃ cause, e = .rejected [] cause) ∨ (e = .emptyOperand ∧ [] ∈ args) := by
  induction args with
  | nil => cases h
  | cons arg args ih =>
      rw [List.mapM_cons] at h
      cases harg : operandOf arg with
      | error e' =>
          rw [harg] at h
          cases h
          refine (operandOf_error harg).imp_right fun ⟨he, hempty⟩ => ⟨he, ?_⟩
          rw [hempty]
          exact List.mem_cons_self
      | ok o =>
          rw [harg] at h
          cases hargs : args.mapM operandOf with
          | error e' =>
              rw [hargs] at h
              cases h
              exact (ih hargs).imp_right fun ⟨he, hempty⟩ => ⟨he, List.mem_cons_of_mem _ hempty⟩
          | ok os =>
              rw [hargs] at h
              cases h

/-- An instruction is rejected, or one of its operands is the empty word. -/
theorem instructionOf_error {mnemonic : Text} {args : List Text} {e : Failure}
    (h : instructionOf mnemonic args = .error e) :
    (∃ cause, e = .rejected [] cause) ∨ (e = .emptyOperand ∧ [] ∈ args) := by
  rw [instructionOf] at h
  split at h
  · cases h
    exact .inl ⟨_, rfl⟩
  · rename_i op _
    split_ifs at h
    · cases h
      exact .inl ⟨_, rfl⟩
    · cases h
      exact .inl ⟨_, rfl⟩
    · cases hargs : args.mapM operandOf with
      | error e' =>
          rw [hargs] at h
          cases h
          exact operands_error hargs
      | ok os =>
          rw [hargs] at h
          change reject (build op os) = _ at h
          cases hbuild : build op os with
          | ok i =>
              rw [hbuild] at h
              cases h
          | error cause =>
              rw [hbuild] at h
              cases h
              exact .inl ⟨_, rfl⟩

theorem assembleReplaced_error {n : Nat} {ws : List Text} {s t : State} {e : Failure}
    (h : assembleReplaced skipCall n ws s = .error e t) :
    (∃ cause, e = .rejected [] cause) ∨ (e = .emptyOperand ∧ [] ∈ ws) := by
  induction ws generalizing s with
  | nil => cases h
  | cons w ws ih =>
      cases hname : declaredName? w with
      | some name =>
          rw [assembleReplaced_label _ n hname, bind_run, declareLabel_run] at h
          split_ifs at h
          · cases h
            exact .inl ⟨_, rfl⟩
          · exact (ih h).imp_right fun ⟨he, hempty⟩ => ⟨he, List.mem_cons_of_mem _ hempty⟩
          · cases h
            exact .inl ⟨_, rfl⟩
      | none =>
          simp only [assembleReplaced_run, declareLabels, hname, pure_run, assembleWords_run] at h
          split at h
          · rw [addInstruction_run] at h
            cases hi : instructionOf w ws with
            | ok i =>
                rw [hi] at h
                cases h
            | error e' =>
                rw [hi] at h
                cases h
                refine (instructionOf_error hi).imp_right fun ⟨he, hempty⟩ => ⟨he, ?_⟩
                exact List.mem_cons_of_mem _ hempty
          · split_ifs at h
            · cases h
            · cases h
              exact .inl ⟨_, rfl⟩

theorem defineEquate_error {ws : List Text} {s t : State} {e : Failure}
    (h : defineEquate ws s = .error e t) : ∃ cause, e = .rejected [] cause := by
  match ws with
  | [name, value] =>
      rw [defineEquate_run] at h
      split_ifs at h
      cases h
      exact ⟨_, rfl⟩
  | [] =>
      cases h
      exact ⟨_, rfl⟩
  | [_] =>
      cases h
      exact ⟨_, rfl⟩
  | _ :: _ :: _ :: _ =>
      cases h
      exact ⟨_, rfl⟩

/-- By itself a line is rejected, or an expression on it crashes, or one of its words is empty. -/
theorem Visit.error_cases {v : Visit} {e : Failure} {t : State}
    (h : assembleAlone interpret v.number v.line v.before = .error e t) :
    (∃ cause, e = .rejected [] cause) ∨
      (e = .expressionCrash ∧ (replaceConstants interpret v.equates v.line).text = .error .crashed) ∨
      (e = .emptyOperand ∧ [] ∈ v.words interpret) := by
  rw [assembleAlone, assembleWith_reading] at h
  rw [Visit.words, Visit.equates]
  generalize (replaceConstants interpret (v.before.atLine v.number).equates v.line).text = replaced at h ⊢
  rcases replaced with (bad | _) | u
  · cases h
    exact .inl ⟨_, rfl⟩
  · cases h
    exact .inr (.inl ⟨rfl, rfl⟩)
  · dsimp only at h ⊢
    cases hwords : Text.words u with
    | nil =>
        rw [hwords] at h
        cases h
    | cons word rest =>
        rw [hwords] at h
        dsimp only at h
        by_cases hequ : word = text ".equ"
        · rw [if_pos hequ] at h
          exact .inl (defineEquate_error h)
        · have hhead : (word :: rest).head? ≠ some (text ".equ") := by simpa using hequ
          rw [if_neg hequ] at h
          rw [if_neg hhead]
          exact (assembleReplaced_error h).imp_right Or.inr

theorem assembleBody_ok {assemble : Nat → Text → Asm Unit} {name : Text} {lines : List (Nat × Text)}
    {s t : State} (h : assembleBody assemble name lines s = .ok () t) : Passes assemble lines s t := by
  induction lines generalizing s with
  | nil =>
      cases h
      exact .nil _
  | cons l rest ih =>
      obtain ⟨n, line⟩ := l
      rw [assembleBody_cons, bind_run, Asm.within] at h
      cases hrun : assemble n line s with
      | error e u =>
          rw [hrun] at h
          cases h
      | ok _ u =>
          rw [hrun] at h
          exact .cons hrun (ih h)

/-- The body of a macro fails on its first line that fails, whose error is framed. -/
theorem assembleBody_error {assemble : Nat → Text → Asm Unit} {name : Text}
    {lines : List (Nat × Text)} {s t : State} {e : Failure}
    (h : assembleBody assemble name lines s = .error e t) :
    ∃ before n line after u e', lines = before ++ (n, line) :: after ∧ Passes assemble before s u ∧
      assemble n line u = .error e' t ∧ e = e'.within ⟨name, n, line⟩ := by
  induction lines generalizing s with
  | nil => cases h
  | cons l rest ih =>
      obtain ⟨n, line⟩ := l
      rw [assembleBody_cons, bind_run, Asm.within] at h
      cases hrun : assemble n line s with
      | error e' u =>
          rw [hrun] at h
          cases h
          exact ⟨[], n, line, rest, s, e', rfl, .nil s, hrun, rfl⟩
      | ok _ u =>
          rw [hrun] at h
          obtain ⟨before, k, l, after, u', e', rfl, hbefore, hfails, he⟩ := ih h
          exact ⟨(n, line) :: before, k, l, after, u', e', rfl, .cons hrun hbefore, hfails, he⟩

/-! ### The visit that fails -/

/-- The line of a visit is taken in, apart from the call that it may come to. -/
def Visit.Taken (interpret : Expression.Interpreter) (v : Visit) : Prop :=
  ∃ t, assembleAlone interpret v.number v.line v.before = .ok () t

/-- The last of some visits is the first whose line fails. -/
structure LastFails (interpret : Expression.Interpreter) (visits : List Visit) (v : Visit)
    (e : Failure) : Prop where
  last : ∃ earlier, visits = earlier ++ [v] ∧ ∀ w ∈ earlier, w.Taken interpret
  fails : ∃ t, assembleAlone interpret v.number v.line v.before = .error e t

theorem LastFails.mem {visits : List Visit} {v : Visit} {e : Failure} (h : LastFails interpret visits v e) :
    v ∈ visits := by
  obtain ⟨earlier, rfl, -⟩ := h.last
  exact List.mem_append_right _ List.mem_cons_self

theorem LastFails.after {visits earlier : List Visit} {v : Visit} {e : Failure}
    (h : LastFails interpret visits v e) (hearlier : ∀ w ∈ earlier, w.Taken interpret) :
    LastFails interpret (earlier ++ visits) v e := by
  obtain ⟨middle, rfl, hmiddle⟩ := h.last
  refine ⟨⟨earlier ++ middle, (List.append_assoc _ _ _).symm, ?_⟩, h.fails⟩
  intro w hw
  exact (List.mem_append.1 hw).elim (hearlier w) (hmiddle w)

theorem LastFails.under {visits : List Visit} {v : Visit} {e : Failure} (h : LastFails interpret visits v e)
    (n : Nat) (f : Frame) : LastFails interpret (visits.map (Visit.under n f)) (v.under n f) e := by
  obtain ⟨earlier, rfl, hearlier⟩ := h.last
  refine ⟨⟨earlier.map (Visit.under n f), ?_, ?_⟩, h.fails⟩
  · rw [List.map_append, List.map_singleton]
  · intro w hw
    obtain ⟨w', hw', rfl⟩ := List.mem_map.1 hw
    exact hearlier w' hw'

section

variable {act : Nat → Text → Asm Unit} {visits : Nat → Text → State → List Visit}

/-- Where lines are taken in, all their visits are. -/
theorem visitsAlong_taken
    (htakes : ∀ n line s t, act n line s = .ok () t → ∀ v ∈ visits n line s, v.Taken interpret)
    {lines : List (Nat × Text)} {s t : State} (h : Passes act lines s t) :
    ∀ v ∈ visitsAlong act visits lines s, v.Taken interpret := by
  induction h with
  | nil s => exact List.forall_mem_nil _
  | cons hline _ ih =>
      intro v hv
      simp only [visitsAlong, hline] at hv
      exact (List.mem_append.1 hv).elim (htakes _ _ _ _ hline v) (ih v)

/-- The visits of lines of which one fails end with those of that line. -/
theorem visitsAlong_of_fails {before after : List (Nat × Text)} {n : Nat} {line : Text} {s u t : State}
    {e : Failure} (hbefore : Passes act before s u) (hfails : act n line u = .error e t) :
    visitsAlong act visits (before ++ (n, line) :: after) s =
      visitsAlong act visits before s ++ visits n line u := by
  rw [visitsAlong_append hbefore, visitsAlong, hfails, List.append_nil]

end

theorem assembleLine_takes {depth n : Nat} {line : Text} {s t : State}
    (h : assembleLine interpret depth n line s = .ok () t) :
    ∀ v ∈ lineVisits interpret depth n line s, v.Taken interpret := by
  induction depth generalizing n line s t with
  | zero =>
      cases hcall : s.callOn? interpret n line with
      | none =>
          rw [assembleLine_of_no_call _ hcall] at h
          exact List.forall_mem_singleton.2 ⟨t, h⟩
      | some ct =>
          rw [assembleLine_zero_of_call hcall] at h
          cases h
  | succ depth ih =>
      cases hcall : s.callOn? interpret n line with
      | none =>
          rw [assembleLine_of_no_call _ hcall] at h
          rw [lineVisits_of_no_call _ hcall]
          exact List.forall_mem_singleton.2 ⟨t, h⟩
      | some ct =>
          obtain ⟨c, u⟩ := ct
          rw [assembleLine_succ_of_call hcall, expandMacro_run] at h
          rw [lineVisits_of_call hcall]
          refine List.forall_mem_cons.2 ⟨⟨u, assembleAlone_of_callOn? hcall⟩, ?_⟩
          cases hbody : assembleBody (assembleLine interpret depth) c.name
              (c.definition.expansionLines c.name (u.expansions + 1)) (u.entering c.definition c.args) with
          | error e u' =>
              rw [hbody] at h
              cases h
          | ok _ u' =>
              refine visitsAlong_taken (fun k l s t hrun v hv => ?_) (assembleBody_ok hbody)
              obtain ⟨inner, hinner, rfl⟩ := List.mem_map.1 hv
              exact ih hrun inner hinner

/-- Without a call a line visits itself only. -/
theorem lastFails_self {depth n : Nat} {line : Text} {s t : State} {e : Failure}
    (hcall : s.callOn? interpret n line = none) (h : assembleAlone interpret n line s = .error e t) :
    LastFails interpret (lineVisits interpret depth n line s) ⟨n, [], n, line, s⟩ e := by
  rw [lineVisits_of_no_call _ hcall]
  exact ⟨⟨[], rfl, List.forall_mem_nil _⟩, ⟨t, h⟩⟩

/-- A line that fails, unless its calls nest too deep, fails at the last line that it visits, and its
error is that of this line with the frames around it. -/
theorem assembleLine_fails {depth n : Nat} {line : Text} {s t : State} {e : Failure}
    (h : assembleLine interpret depth n line s = .error e t) (hdeep : e ≠ .tooDeep) :
    ∃ v e', LastFails interpret (lineVisits interpret depth n line s) v e' ∧
      e = v.frames.foldr Failure.within e' := by
  induction depth generalizing n line s t e with
  | zero =>
      cases hcall : s.callOn? interpret n line with
      | none =>
          rw [assembleLine_of_no_call _ hcall] at h
          exact ⟨_, e, lastFails_self hcall h, rfl⟩
      | some ct =>
          rw [assembleLine_zero_of_call hcall] at h
          cases h
          exact absurd rfl hdeep
  | succ depth ih =>
      cases hcall : s.callOn? interpret n line with
      | none =>
          rw [assembleLine_of_no_call _ hcall] at h
          exact ⟨_, e, lastFails_self hcall h, rfl⟩
      | some ct =>
          obtain ⟨c, u⟩ := ct
          rw [assembleLine_succ_of_call hcall, expandMacro_run] at h
          cases hbody : assembleBody (assembleLine interpret depth) c.name
              (c.definition.expansionLines c.name (u.expansions + 1)) (u.entering c.definition c.args) with
          | ok _ u' =>
              rw [hbody] at h
              cases h
          | error e' u' =>
              rw [hbody] at h
              cases h
              obtain ⟨before, k, l, after, w, e', hlines, hbefore, hfails, rfl⟩ := assembleBody_error hbody
              have hdeep' : e' ≠ .tooDeep := by
                rintro rfl
                exact hdeep rfl
              obtain ⟨v, e'', hlast, rfl⟩ := ih hfails hdeep'
              refine ⟨v.under n ⟨c.name, k, l⟩, e'', ?_, rfl⟩
              rw [lineVisits_of_call hcall, bodyVisits, hlines, visitsAlong_of_fails hbefore hfails]
              -- The line itself and the lines of the body before the one that fails are taken in.
              rw [← List.cons_append]
              apply (hlast.under n ⟨c.name, k, l⟩).after
              refine List.forall_mem_cons.2 ⟨⟨u, assembleAlone_of_callOn? hcall⟩, ?_⟩
              refine visitsAlong_taken (fun k l s t hrun v hv => ?_) hbefore
              obtain ⟨inner, hinner, rfl⟩ := List.mem_map.1 hv
              exact assembleLine_takes hrun inner hinner

theorem sourceLine_takes {depth n : Nat} {line : Text} {s t : State}
    (h : sourceLine interpret depth n line s = .ok () t) :
    ∀ v ∈ sourceLineVisits interpret depth n line s, v.Taken interpret := by
  rw [sourceLine_run] at h
  rw [sourceLineVisits]
  split_ifs at h ⊢
  · exact assembleLine_takes h
  · exact List.forall_mem_nil _

/-- The visits of a source of which a line fails end with those of that line, and before them all are
taken in. -/
theorem sourceVisits_of_fails {depth : Nat} {a : Assembler} {source : Text} {front back : List Text}
    {raw : Text} {u t : State} {e : Failure}
    (hsplit : (Source.lines source).texts = front ++ raw :: back)
    (hfront : Passes (sourceLine a.interpret depth) (numberedLines 1 front)
      { equates := a.startEquates } u)
    (hfails : sourceLine a.interpret depth (1 + front.length) (Source.strip raw) u = .error e t) :
    ∃ earlier, (∀ w ∈ earlier, w.Taken a.interpret) ∧ sourceVisits depth a source =
      earlier ++ sourceLineVisits a.interpret depth (1 + front.length) (Source.strip raw) u := by
  refine ⟨_, visitsAlong_taken (fun _ _ _ _ => sourceLine_takes) hfront, ?_⟩
  rw [sourceVisits, sourceTexts, hsplit, numberedLines_append, numberedLines]
  exact visitsAlong_of_fails hfront hfails

/-- A line of a definition is rejected without a frame, and nothing changes. -/
theorem macroLine_error {n : Nat} {line : Text} {s t : State} {e : Failure}
    (h : macroLine n line s = .error e t) : (∃ cause, e = .rejected [] cause) ∧ t = s := by
  simp only [macroLine, bind_run, get_run] at h
  cases hwords : Text.words line with
  | nil =>
      rw [hwords] at h
      cases h
  | cons word rest =>
      rw [hwords] at h
      dsimp only at h
      split_ifs at h
      · cases rest with
        | nil =>
            rw [openMacro_nil_run] at h
            cases h
            exact ⟨⟨_, rfl⟩, rfl⟩
        | cons name formals =>
            rw [openMacro_run] at h
            split_ifs at h
            · cases h
              exact ⟨⟨_, rfl⟩, rfl⟩
            · cases h
              exact ⟨⟨_, rfl⟩, rfl⟩
      · rw [closeMacro_run] at h
        split_ifs at h
        cases h
        exact ⟨⟨_, rfl⟩, rfl⟩
      · cases h

/-- A visit is reached from a line of a source through layers, if it is that line, or a line in the body
of a macro that is called by a visit reached through all layers but the last two. These are the line,
with the number at which it stands in the definition, and the macro. -/
inductive Reached (interpret : Expression.Interpreter) (visits : List Visit)
    (lines : List (Nat × Text)) : List SourceError.Layer → Visit → Prop where
  | line {v : Visit} (hv : v ∈ visits) (hframes : v.frames = []) (hline : (v.number, v.line) ∈ lines) :
      Reached interpret visits lines [.line v.number v.line] v
  | call {layers : List SourceError.Layer} {w v : Visit} {c : Call} {i : Nat}
      (hw : Reached interpret visits lines layers w) (hv : v ∈ visits)
      (hleads : w.LeadsTo interpret v c i) (hwritten : c.definition.WrittenAt lines c.name) :
      Reached interpret visits lines
        (layers ++ [.line (c.definition.line + i : Nat) v.line,
          .expansion c.name (c.definition.line + i : Nat)]) v

/-- Every macro that a source calls is written at its lines. -/
theorem writtenAt_of_call {depth : Nat} {a : Assembler} {source : Text} {w : Visit}
    (hw : w ∈ sourceVisits depth a source) {c : Call} {t : State}
    (hcall : w.before.callOn? a.interpret w.number w.line = some (c, t)) :
    c.definition.WrittenAt (sourceTexts source) c.name := by
  obtain ⟨front, raw, back, u, hsplit, hfront, -, hline⟩ := mem_sourceVisits hw
  have hknown := (State.callOn?_known hcall).2
  rw [lineVisits_macros hline] at hknown
  have hmaps := maps_of_passes (raw :: back) hfront
  rw [← hsplit] at hmaps
  exact hmaps.written _ _ hknown

/-- Every visit of a line of a source is reached from the line through its frames. -/
theorem reached_of_mem {depth : Nat} {a : Assembler} {source : Text} {front back : List Text}
    {raw : Text} {u : State} (hsplit : (Source.lines source).texts = front ++ raw :: back)
    (hfront : Passes (sourceLine a.interpret depth) (numberedLines 1 front)
      { equates := a.startEquates } u)
    (hassembles : u.Assembles (Source.strip raw)) {v : Visit}
    (hv : v ∈ lineVisits a.interpret depth (1 + front.length) (Source.strip raw) u) :
    Reached a.interpret (sourceVisits depth a source) (sourceTexts source)
      (SourceError.Layer.through (1 + front.length : Nat) (Source.strip raw) v.frames) v := by
  -- The visit that leads to another has one frame less.
  induction hk : v.frames.length using Nat.strong_induction_on generalizing v with
  | _ k ih =>
      have hmem := mem_sourceVisits_of_line hsplit hfront hassembles hv
      rcases lineVisits_cases hv with rfl | ⟨w, hw, c, i, hleads⟩
      · refine .line hmem rfl ?_
        rw [sourceTexts, hsplit, numberedLines_append, numberedLines]
        exact List.mem_append_cons_self
      · obtain ⟨t, l, hcall, -⟩ := hleads.called
        have hlength : w.frames.length < k := by
          rw [← hk, hleads.frames, List.length_append, List.length_singleton]
          omega
        have hwritten := writtenAt_of_call (mem_sourceVisits_of_line hsplit hfront hassembles hw) hcall
        rw [hleads.frames, SourceError.Layer.through_concat, hleads.number]
        exact (ih _ hlength hw rfl).call hmem hleads hwritten

/-- A line of a source that fails while it is assembled fails at the last visit of the source. -/
theorem sourceLine_fails {depth : Nat} {a : Assembler} {source : Text} {front back : List Text}
    {raw : Text} {u t : State} {e : Failure}
    (hsplit : (Source.lines source).texts = front ++ raw :: back)
    (hfront : Passes (sourceLine a.interpret depth) (numberedLines 1 front)
      { equates := a.startEquates } u)
    (hfails : sourceLine a.interpret depth (1 + front.length) (Source.strip raw) u = .error e t)
    (hassembles : u.Assembles (Source.strip raw)) (hdeep : e ≠ .tooDeep) :
    ∃ v e', LastFails a.interpret (sourceVisits depth a source) v e' ∧
      v ∈ lineVisits a.interpret depth (1 + front.length) (Source.strip raw) u ∧
      e = v.frames.foldr Failure.within e' := by
  obtain ⟨earlier, hearlier, hvisits⟩ := sourceVisits_of_fails hsplit hfront hfails
  rw [sourceLineVisits, if_pos hassembles] at hvisits
  rw [sourceLine_run, if_pos hassembles] at hfails
  obtain ⟨v, e', hlast, hwithin⟩ := assembleLine_fails hfails hdeep
  refine ⟨v, e', ?_, hlast.mem, hwithin⟩
  rw [hvisits]
  exact hlast.after hearlier

theorem foldr_within_rejected (frames : List Frame) (cause : Cause) :
    frames.foldr Failure.within (.rejected [] cause) = .rejected frames cause := by
  induction frames with
  | nil => rfl
  | cons f frames ih =>
      rw [List.foldr_cons, ih]
      rfl

/-- Frames are put around what is rejected only. -/
theorem eq_of_foldr_within {frames inner : List Frame} {cause : Cause} {e : Failure}
    (h : frames.foldr Failure.within e = .rejected inner cause) :
    ∃ rest, e = .rejected rest cause ∧ inner = frames ++ rest := by
  induction frames generalizing inner with
  | nil => exact ⟨inner, h, rfl⟩
  | cons f frames ih =>
      rw [List.foldr_cons] at h
      cases hrest : frames.foldr Failure.within e with
      | rejected middle cause' =>
          rw [hrest] at h
          cases h
          obtain ⟨rest, he, rfl⟩ := ih hrest
          exact ⟨rest, he, rfl⟩
      | emptyOperand =>
          rw [hrest] at h
          cases h
      | expressionCrash =>
          rw [hrest] at h
          cases h
      | tooDeep =>
          rw [hrest] at h
          cases h

/-- How a source comes to be rejected with an error. -/
inductive FailsWith (depth : Nat) (a : Assembler) (source : Text) (e : SourceError) : Prop where
  /-- The line of the last visit fails, which is reached from the line of the error through its
  layers. -/
  | onVisit {v : Visit} {n : Nat} (hline : e.line = n) (htext : (n, e.text) ∈ sourceTexts source)
      (hreached : Reached a.interpret (sourceVisits depth a source) (sourceTexts source) e.layers v)
      (hlast : LastFails a.interpret (sourceVisits depth a source) v (.rejected [] e.cause))
  /-- A line fails that opens or closes the definition of a macro. -/
  | onDefinition {n : Nat} (hline : e.line = n) (htext : (n, e.text) ∈ sourceTexts source)
      (hframes : e.frames = []) (hassembles : ¬(parse depth a source).state.Assembles e.text)
      (hfails : macroLine n e.text (parse depth a source).state =
        .error (.rejected [] e.cause) (parse depth a source).state)
      (htaken : ∀ v ∈ sourceVisits depth a source, v.Taken a.interpret)
  /-- All lines are taken in, and the source as a whole has a fault. -/
  | atEnd {pos : Position} (hnumber : pos.number = (Source.lines source).texts.length)
      (hframes : e.frames = [])
      (hjudge : judge (Source.lines source).overlong pos none (parse depth a source).state = .rejected e)
      (htaken : ∀ v ∈ sourceVisits depth a source, v.Taken a.interpret)

theorem judge_rejected {overlong : Bool} {pos : Position} {failure : Failure} {s : State}
    {e : SourceError} (h : judge overlong pos (some failure) s = .rejected e) :
    failure = .rejected e.frames e.cause ∧ e.line = pos.number ∧ e.text = pos.text := by
  cases failure <;> cases h
  exact ⟨rfl, rfl, rfl⟩

theorem judge_none_frames {overlong : Bool} {pos : Position} {s : State} {e : SourceError}
    (h : judge overlong pos none s = .rejected e) : e.frames = [] := by
  unfold judge at h
  dsimp only at h
  split_ifs at h
  · cases h
    rfl
  · cases h
    rfl
  · split at h
    · cases h
      rfl
    · cases h

theorem failsWith_of_rejected {depth : Nat} {a : Assembler} {source : Text} {e : SourceError}
    (h : (parse depth a source).verdict = .rejected e) : FailsWith depth a source e := by
  rcases parse_cases depth a source with
    ⟨pos, hverdict, hnumber, hpasses⟩ | ⟨front, raw, back, u, failure, hsplit, hfront, hfails, hverdict⟩
  · have hjudge := hverdict.symm.trans h
    refine .atEnd hnumber (judge_none_frames hjudge) hjudge ?_
    exact visitsAlong_taken (fun _ _ _ _ => sourceLine_takes) hpasses
  · obtain ⟨rfl, hline, htext⟩ := judge_rejected (hverdict.symm.trans h)
    have htexts : (1 + front.length, e.text) ∈ sourceTexts source := by
      rw [sourceTexts, hsplit, numberedLines_append, numberedLines, htext]
      exact List.mem_append_cons_self
    by_cases hassembles : u.Assembles (Source.strip raw)
    · obtain ⟨v, e', hlast, hvisit, hwithin⟩ :=
        sourceLine_fails hsplit hfront hfails hassembles (by simp)
      obtain ⟨rest, rfl, hframes⟩ := eq_of_foldr_within hwithin.symm
      -- By itself a line is rejected without frames, so all of them come from the calls around it.
      have hrest : rest = [] := by
        obtain ⟨t, hrun⟩ := hlast.fails
        rcases Visit.error_cases hrun with ⟨cause, hcause⟩ | ⟨hcause, -⟩ | ⟨hcause, -⟩
        · cases hcause
          rfl
        · cases hcause
        · cases hcause
      rw [hrest, List.append_nil] at hframes
      rw [hrest] at hlast
      refine .onVisit hline htexts ?_ hlast
      rw [SourceError.layers, hline, htext, hframes]
      exact reached_of_mem hsplit hfront hassembles hvisit
    · obtain ⟨earlier, hearlier, hvisits⟩ := sourceVisits_of_fails hsplit hfront hfails
      rw [sourceLineVisits, if_neg hassembles, List.append_nil] at hvisits
      rw [sourceLine_run, if_neg hassembles] at hfails
      obtain ⟨⟨cause, hcause⟩, hstate⟩ := macroLine_error hfails
      have hframes : e.frames = [] := (Failure.rejected.inj hcause).1
      rw [hframes, ← hstate] at hfails
      refine .onDefinition hline htexts hframes ?_ ?_ ?_
      · rwa [hstate, htext]
      · rwa [htext]
      · rwa [hvisits]

/-- An error traces back to the line that failed. The layers it is told in, around its cause, are the line
of the source, and then for each call around the failure the line in the body of the macro and the
macro. The line that failed is reached from that of the source through exactly these calls, and the
statements are those of the lines visited before it, and of the labels in front of the word that
failed. -/
theorem errors_trace_back (depth : Nat) (a : Assembler) (source : Text) (e : SourceError)
    (h : (parse depth a source).verdict = .rejected e) :
    (parse depth a source).state.statements.toList =
        (sourceVisits depth a source).flatMap (Visit.statements a.interpret) ∧
      FailsWith depth a source e :=
  ⟨sourceVisits_statements depth a source, failsWith_of_rejected h⟩

/-- A macro that adds to a wrong register in the body of another, behind an instruction and a label. -/
def brokenSource : Text :=
  text "mov r0 1\n.macro inner x\nmov r1 x\n@l: add x x\n.endm\n.macro outer\n\ninner 3\n.endm\n" ++
    text "start: outer\nstop\n"

def brokenError : SourceError where
  line := 10
  text := text "start: outer"
  frames := [⟨text "outer", 8, text "inner 3"⟩, ⟨text "inner", 4, text "inner_2_l: add x x"⟩]
  cause := .targetInvalid

theorem brokenSource_traces_back :
    (parse 2 (fresh Expression.interpret) brokenSource).verdict = .rejected brokenError ∧
      brokenError.message = brokenError.layers.foldr SourceError.Layer.message (text "target invalid") ∧
      brokenError.layers =
        [.line 10 (text "start: outer"), .line 8 (text "inner 3"), .expansion (text "outer") 8,
          .line 4 (text "inner_2_l: add x x"), .expansion (text "inner") 4] ∧
      ((sourceVisits 2 (fresh Expression.interpret) brokenSource).flatMap
          (Visit.statements Expression.interpret)).map Statement.words =
        [[text "mov", text "r0", text "1"], [text "start:"], [text "mov", text "r1", text "3"],
          [text "inner_2_l:"]] ∧
      FailsWith 2 (fresh Expression.interpret) brokenSource brokenError := by
  have hrejected : (parse 2 (fresh Expression.interpret) brokenSource).verdict =
      .rejected brokenError := by
    decide +kernel
  obtain ⟨hstatements, hfails⟩ :=
    errors_trace_back 2 (fresh Expression.interpret) brokenSource brokenError hrejected
  refine ⟨hrejected, brokenError.message_eq_layers, by decide +kernel, ?_, hfails⟩
  rw [fresh_interpret] at hstatements
  rw [← hstatements]
  decide +kernel

end Assembler

end TapeMachine
