import TapeMachine.Proofs.Bindings
import TapeMachine.Proofs.LocalLabels

/-! The lines that assembling visits. A source is assembled line by line, and a line that comes to a
macro call leads to the lines of the body, which may come to calls in turn. Every such line is a visit,
with the calls around it and the state it is taken in from. What a visited line adds by itself follows
from its words alone, and the statements of a source are what its visits add, one after the other, up
to the first failure. -/

namespace TapeMachine.Assembler

variable {interpret : Expression.Interpreter}

/-- A line that is assembled, by itself or in the body of a macro. -/
structure Visit where
  /-- The line of the source that leads to it. -/
  origin : Nat
  /-- The lines of macro bodies that lead to it, from the outermost call in. The last one is the line
  itself, and there is none outside of calls. -/
  frames : List Frame
  number : Nat
  line : Text
  /-- The state it is taken in from. -/
  before : State

/-- The statements of words whose equates are replaced, with `labels` declared before: the labels in
front, up to the first that is bad, and behind good ones the instruction, unless it is a macro call. -/
def wordStatements (macros : Bindings Macro) (n pc : Nat) : Bindings Nat → List Text → List Statement
  | _, [] => []
  | labels, word :: rest =>
      match declaredName? word with
      | some name =>
          if isLabelName name && !labels.contains name then
            { line := n, pc := pc, words := [word], entry := .label name } ::
              wordStatements macros n pc (labels.insert name pc) rest
          else []
      | none =>
          if macros.contains word then []
          else match instructionOf word rest with
            | .ok i => [{ line := n, pc := pc, words := word :: rest, entry := .insn i }]
            | .error _ => []

namespace Visit

/-- A visit that line `n` leads to, through a line of the body of a macro that it calls. -/
def under (n : Nat) (f : Frame) (v : Visit) : Visit := { v with origin := n, frames := f :: v.frames }

/-- The equates that constants and words of the line are replaced by. -/
def equates (v : Visit) : Bindings Text := (v.before.atLine v.number).equates

/-- The words of the line with constants and equates replaced. There are none if a constant cannot be
replaced, and a definition of an equate has none. -/
def words (interpret : Expression.Interpreter) (v : Visit) : List Text :=
  match (replaceConstants interpret v.equates v.line).text with
  | .error _ => []
  | .ok t =>
      if (Text.words t).head? = some (text ".equ") then []
      else (Text.words t).map (substitute v.equates)

/-- The statements that the line adds by itself. -/
def statements (interpret : Expression.Interpreter) (v : Visit) : List Statement :=
  wordStatements v.before.macros v.number v.before.pc v.before.labels (v.words interpret)

/-- The equates hold the number of the line. -/
theorem get?_lineEquate (v : Visit) : v.equates.get? lineEquate = some (Text.ofNat v.number) :=
  Bindings.get?_insert_self _ _ _

end Visit

/-- Every statement of a line has its number. -/
theorem line_of_mem_wordStatements {macros : Bindings Macro} {n pc : Nat} {labels : Bindings Nat}
    {ws : List Text} {st : Statement} (h : st ∈ wordStatements macros n pc labels ws) : st.line = n := by
  induction ws generalizing labels with
  | nil => cases h
  | cons w ws ih =>
      rw [wordStatements] at h
      split at h
      · split_ifs at h
        · rcases List.mem_cons.1 h with rfl | hmem
          · rfl
          · exact ih hmem
        · cases h
      · split_ifs at h
        · cases h
        · split at h
          · rw [List.mem_singleton] at h
            rw [h]
          · cases h

/-- Leaves a macro call out. -/
def skipCall (_ : Text) (_ : Macro) (_ : List Text) : Asm Unit := pure ()

@[simp] theorem skipCall_run (name : Text) (m : Macro) (args : List Text) (s : State) :
    skipCall name m args s = .ok () s := rfl

/-- Assembles a line by itself, without the macro call that it may come to. -/
def assembleAlone (interpret : Expression.Interpreter) (n : Nat) (line : Text) : Asm Unit :=
  assembleWith interpret skipCall n line

theorem assembleAlone_of_callOn? {s t : State} {n : Nat} {line : Text} {c : Call}
    (h : s.callOn? interpret n line = some (c, t)) : assembleAlone interpret n line s = .ok () t := by
  rw [assembleAlone, assembleWith_eq, h]
  rfl

/-- A line that comes to no call is assembled by itself, however calls are carried out. -/
theorem assembleWith_of_callOn? (expand : Text → Macro → List Text → Asm Unit) {s : State} {n : Nat}
    {line : Text} (h : s.callOn? interpret n line = none) :
    assembleWith interpret expand n line s = assembleAlone interpret n line s := by
  rw [assembleAlone, assembleWith_eq _ expand, assembleWith_eq _ skipCall, h]

theorem assembleLine_of_no_call (depth : Nat) {s : State} {n : Nat} {line : Text}
    (h : s.callOn? interpret n line = none) :
    assembleLine interpret depth n line s = assembleAlone interpret n line s := by
  cases depth with
  | zero => rw [assembleLine, assembleWith_of_callOn? _ h]
  | succ depth => rw [assembleLine, assembleWith_of_callOn? _ h]

theorem assembleLine_zero_of_call {s t : State} {n : Nat} {line : Text} {c : Call}
    (h : s.callOn? interpret n line = some (c, t)) :
    assembleLine interpret 0 n line s = .error .tooDeep t := by
  rw [assembleLine, assembleWith_eq, h]
  rfl

theorem assembleLine_succ_of_call {depth : Nat} {s t : State} {n : Nat} {line : Text} {c : Call}
    (h : s.callOn? interpret n line = some (c, t)) :
    assembleLine interpret (depth + 1) n line s =
      expandMacro (assembleLine interpret depth) c.name c.definition c.args t := by
  rw [assembleLine, assembleWith_eq, h]

/-- Where a line ends up depends on its call, or else on the line by itself. -/
theorem leaves_assembleWith (expand : Text → Macro → List Text → Asm Unit) (n : Nat) (line : Text)
    (s : State) :
    (assembleWith interpret expand n line).leaves s =
      match s.callOn? interpret n line with
      | some (c, t) => (expand c.name c.definition c.args).leaves t
      | none => (assembleAlone interpret n line).leaves s := by
  cases hcall : s.callOn? interpret n line with
  | none => rw [Asm.leaves, assembleWith_of_callOn? expand hcall, Asm.leaves]
  | some ct =>
      rw [Asm.leaves, assembleWith_eq, hcall]
      rfl

theorem leaves_assembleReplaced (n : Nat) (ws : List Text) (s : State) :
    ((assembleReplaced skipCall n ws).leaves s).statements.toList =
      s.statements.toList ++ wordStatements s.macros n s.pc s.labels ws := by
  induction ws generalizing s with
  | nil => exact (List.append_nil _).symm
  | cons w ws ih =>
      cases hname : declaredName? w with
      | some name =>
          rw [assembleReplaced_label _ n hname, Asm.leaves, bind_run, declareLabel_run]
          simp only [wordStatements, hname]
          by_cases hlabel : isLabelName name = true
          · by_cases hknown : s.labels.contains name = true
            · simp [hlabel, hknown]
            · have hrest := ih (s.declare n w name)
              simp only [State.declare, State.push, Array.toList_push, List.append_assoc] at hrest
              simp only [hlabel, hknown]
              exact hrest
          · simp [hlabel]
      | none =>
          have hrun : assembleReplaced skipCall n (w :: ws) s =
              assembleWords skipCall n w ws s := by
            simp only [assembleReplaced_run, declareLabels, hname, pure_run]
          rw [Asm.leaves, hrun, assembleWords_run, wordStatements, hname, Bindings.contains]
          cases hm : s.macros.get? w with
          | some m =>
              by_cases hargs : ws.length = m.formals.length <;> simp [hargs]
          | none =>
              rw [addInstruction_run]
              cases instructionOf w ws with
              | error e => simp
              | ok i => exact Array.toList_push

theorem leaves_defineEquate (ws : List Text) (s : State) :
    ∃ equates, (defineEquate ws).leaves s = { s with equates := equates } := by
  match ws with
  | [name, value] =>
      rw [Asm.leaves, defineEquate_run]
      cases s.equates.contains name with
      | true => exact ⟨s.equates, rfl⟩
      | false => exact ⟨_, rfl⟩
  | [] => exact ⟨s.equates, rfl⟩
  | [_] => exact ⟨s.equates, rfl⟩
  | _ :: _ :: _ :: _ => exact ⟨s.equates, rfl⟩

/-- By itself a line adds the statements that its words give. -/
theorem leaves_assembleAlone (interpret : Expression.Interpreter) (v : Visit) :
    ((assembleAlone interpret v.number v.line).leaves v.before).statements.toList =
      v.before.statements.toList ++ v.statements interpret := by
  rw [Visit.statements, Visit.words, Visit.equates, Asm.leaves, assembleAlone, assembleWith_reading]
  rcases (replaceConstants interpret (v.before.atLine v.number).equates v.line).text with (bad | _) | t
  · exact (List.append_nil _).symm
  · exact (List.append_nil _).symm
  · dsimp only
    cases Text.words t with
    | nil => exact (List.append_nil _).symm
    | cons word rest =>
        by_cases hequ : word = text ".equ"
        · have hhead : (word :: rest).head? = some (text ".equ") := by simpa using hequ
          simp only [if_pos hequ, if_pos hhead]
          obtain ⟨equates, hleaves⟩ := leaves_defineEquate rest
            (v.before.reading interpret v.number v.line)
          rw [Asm.leaves] at hleaves
          rw [hleaves]
          exact (List.append_nil _).symm
        · have hhead : (word :: rest).head? ≠ some (text ".equ") := by simpa using hequ
          simp only [if_neg hequ, if_neg hhead]
          exact leaves_assembleReplaced v.number _ _

/-! ### The visits of a source -/

section

variable (act : Nat → Text → Asm Unit) (visits : Nat → Text → State → List Visit)

/-- The visits of lines taken in one after the other, up to the first failure. -/
def visitsAlong : List (Nat × Text) → State → List Visit
  | [], _ => []
  | (n, line) :: rest, s =>
      visits n line s ++
        match act n line s with
        | .ok _ s' => visitsAlong rest s'
        | .error _ _ => []

/-- The visits of the body of a macro that line `n` calls. -/
def bodyVisits (n : Nat) (c : Call) (t : State) : List Visit :=
  visitsAlong act (fun k l u => (visits k l u).map (Visit.under n ⟨c.name, k, l⟩))
    (c.definition.expansionLines c.name (t.expansions + 1)) (t.entering c.definition c.args)

end

/-- The visits of a line, itself first. -/
def lineVisits (interpret : Expression.Interpreter) : Nat → Nat → Text → State → List Visit
  | 0 => fun n line s => [⟨n, [], n, line, s⟩]
  | depth + 1 => fun n line s =>
      ⟨n, [], n, line, s⟩ ::
        match s.callOn? interpret n line with
        | none => []
        | some (c, t) => bodyVisits (assembleLine interpret depth) (lineVisits interpret depth) n c t

theorem lineVisits_of_call {depth n : Nat} {line : Text} {s t : State} {c : Call}
    (h : s.callOn? interpret n line = some (c, t)) :
    lineVisits interpret (depth + 1) n line s =
      ⟨n, [], n, line, s⟩ ::
        bodyVisits (assembleLine interpret depth) (lineVisits interpret depth) n c t := by
  simp only [lineVisits, h]

theorem lineVisits_of_no_call (depth : Nat) {n : Nat} {line : Text} {s : State}
    (h : s.callOn? interpret n line = none) :
    lineVisits interpret depth n line s = [⟨n, [], n, line, s⟩] := by
  cases depth with
  | zero => rfl
  | succ depth => simp only [lineVisits, h]

/-- The lines of a source that are read, without their comments and the blanks around them. -/
def sourceTexts (source : Text) : List (Nat × Text) := numberedLines 1 (Source.lines source).texts

/-- The visits of a line of a source, which has none if it belongs to a macro definition. -/
def sourceLineVisits (interpret : Expression.Interpreter) (depth n : Nat) (line : Text) (s : State) :
    List Visit :=
  if s.Assembles line then lineVisits interpret depth n line s else []

/-- The visits of a source, up to the first failure. -/
def sourceVisits (depth : Nat) (a : Assembler) (source : Text) : List Visit :=
  visitsAlong (sourceLine a.interpret depth) (sourceLineVisits a.interpret depth)
    (sourceTexts source) { equates := a.startEquates }

/-- Whatever a line is and wherever it stands, an action adds the statements of its visits. -/
def Accounts (interpret : Expression.Interpreter) (act : Nat → Text → Asm Unit)
    (visits : Nat → Text → State → List Visit) : Prop :=
  ∀ n line s, ((act n line).leaves s).statements.toList =
    s.statements.toList ++ (visits n line s).flatMap (Visit.statements interpret)

/-- What holds of every line holds along all lines. -/
theorem Accounts.along {act : Nat → Text → Asm Unit} {visits : Nat → Text → State → List Visit}
    (h : Accounts interpret act visits) (lines : List (Nat × Text)) (s : State) :
    (leavesAlong act lines s).statements.toList =
      s.statements.toList ++ (visitsAlong act visits lines s).flatMap (Visit.statements interpret) := by
  induction lines generalizing s with
  | nil => simp [leavesAlong, visitsAlong]
  | cons l rest ih =>
      obtain ⟨n, line⟩ := l
      have hline := h n line s
      rw [Asm.leaves] at hline
      rw [leavesAlong, visitsAlong, List.flatMap_append]
      cases hrun : act n line s with
      | ok _ s' =>
          rw [hrun] at hline
          dsimp only at hline ⊢
          rw [ih, hline, List.append_assoc]
      | error e s' =>
          rw [hrun] at hline
          simpa using hline

theorem assembleLine_accounts (depth : Nat) :
    Accounts interpret (assembleLine interpret depth) (lineVisits interpret depth) := by
  induction depth with
  | zero =>
      intro n line s
      have halone := leaves_assembleAlone interpret ⟨n, [], n, line, s⟩
      rw [assembleLine, leaves_assembleWith, lineVisits, List.flatMap_singleton, ← halone]
      cases hcall : s.callOn? interpret n line with
      | none => rfl
      | some ct =>
          obtain ⟨c, t⟩ := ct
          dsimp only
          rw [Asm.leaves, Asm.leaves, assembleAlone_of_callOn? hcall]
          rfl
  | succ depth ih =>
      intro n line s
      have halone := leaves_assembleAlone interpret ⟨n, [], n, line, s⟩
      rw [assembleLine, leaves_assembleWith]
      cases hcall : s.callOn? interpret n line with
      | none => rw [lineVisits_of_no_call _ hcall, List.flatMap_singleton, ← halone]
      | some ct =>
          obtain ⟨c, t⟩ := ct
          have hbody : Accounts interpret (assembleLine interpret depth)
              fun k l u => (lineVisits interpret depth k l u).map (Visit.under n ⟨c.name, k, l⟩) := by
            intro k l u
            rw [ih k l u, List.flatMap_map]
            rfl
          have hrun := hbody.along (c.definition.expansionLines c.name (t.expansions + 1))
            (t.entering c.definition c.args)
          dsimp only
          rw [lineVisits_of_call hcall, List.flatMap_cons, ← List.append_assoc, ← halone,
            leaves_expandMacro, Asm.leaves, assembleAlone_of_callOn? hcall]
          exact hrun

theorem sourceLine_accounts (interpret : Expression.Interpreter) (depth : Nat) :
    Accounts interpret (sourceLine interpret depth) (sourceLineVisits interpret depth) := by
  intro n line s
  rw [Asm.leaves, sourceLine_run, sourceLineVisits]
  by_cases hline : s.Assembles line
  · simp only [if_pos hline]
    exact assembleLine_accounts depth n line s
  · obtain ⟨macros, defining, hleaves⟩ := macroLine_leaves n line s
    rw [Asm.leaves] at hleaves
    simp only [if_neg hline, hleaves, List.flatMap_nil, List.append_nil]

/-- The statements of a source, however its assembling ends, are what its visits add in their order. -/
theorem sourceVisits_statements (depth : Nat) (a : Assembler) (source : Text) :
    (parse depth a source).state.statements.toList =
      (sourceVisits depth a source).flatMap (Visit.statements a.interpret) := by
  have hlines := (sourceLine_accounts a.interpret depth).along (sourceTexts source)
    { equates := a.startEquates }
  rw [sourceTexts, leavesAlong_numberedLines depth {}] at hlines
  exact hlines

/-- Lines taken in one after the other without failure. -/
inductive Passes (act : Nat → Text → Asm Unit) : List (Nat × Text) → State → State → Prop where
  | nil (s : State) : Passes act [] s s
  | cons {n : Nat} {line : Text} {rest : List (Nat × Text)} {s t u : State}
      (hline : act n line s = .ok () t) (hrest : Passes act rest t u) :
      Passes act ((n, line) :: rest) s u

section

variable {act : Nat → Text → Asm Unit} {visits : Nat → Text → State → List Visit}
  {lines before after : List (Nat × Text)} {s t u : State}

/-- What every line keeps holds after lines that are taken in. -/
theorem Passes.invariant {I : State → Prop} (h : Passes act lines s u)
    (hline : ∀ n line s t, (n, line) ∈ lines → act n line s = .ok () t → I s → I t) (hs : I s) : I u := by
  induction h with
  | nil s => exact hs
  | cons hfirst _ ih =>
      apply ih
      · exact fun n line s t hmem => hline n line s t (List.mem_cons_of_mem _ hmem)
      · exact hline _ _ _ _ List.mem_cons_self hfirst hs

/-- Lines that are taken in go on from where the first of them end up. -/
theorem Passes.rest (h : Passes act before s u) (hall : Passes act (before ++ after) s t) :
    Passes act after u t := by
  induction h with
  | nil s => exact hall
  | cons hline _ ih =>
      cases hall with
      | cons hline' hrest =>
          rw [hline] at hline'
          cases hline'
          exact ih hrest

theorem visitsAlong_append (h : Passes act before s u) :
    visitsAlong act visits (before ++ after) s =
      visitsAlong act visits before s ++ visitsAlong act visits after u := by
  induction h with
  | nil s => rfl
  | cons hline _ ih => simp only [List.cons_append, visitsAlong, hline, ih, List.append_assoc]

/-- The lines of a source after a position are all taken in, or one of them is the first to fail. -/
theorem sourceLines_cases (depth : Nat) (pos : Position) (lines : List Text) (s : State) :
    (∃ pos' u, sourceLines interpret depth pos lines s = (pos', none, u) ∧
        pos'.number = pos.number + lines.length ∧
        Passes (sourceLine interpret depth) (numberedLines (pos.number + 1) lines) s u) ∨
      ∃ front raw back u e t, lines = front ++ raw :: back ∧
        Passes (sourceLine interpret depth) (numberedLines (pos.number + 1) front) s u ∧
        sourceLine interpret depth (pos.number + 1 + front.length) (Source.strip raw) u = .error e t ∧
        sourceLines interpret depth pos lines s =
          (⟨pos.number + 1 + front.length, Source.strip raw⟩, some e, t) := by
  induction lines generalizing pos s with
  | nil => exact .inl ⟨pos, s, rfl, rfl, .nil s⟩
  | cons raw rest ih =>
      rw [numberedLines, sourceLines]
      dsimp only
      cases hrun : sourceLine interpret depth (pos.number + 1) (Source.strip raw) s with
      | error e t => exact .inr ⟨[], raw, rest, s, e, t, rfl, .nil s, hrun, rfl⟩
      | ok _ t =>
          rcases ih ⟨pos.number + 1, Source.strip raw⟩ t with
            ⟨pos', u, hlines, hnumber, hrest⟩ | ⟨front, raw', back, u, e, t', rfl, hfront, hfails, hlines⟩
          · refine .inl ⟨pos', u, hlines, ?_, .cons hrun hrest⟩
            rw [hnumber, List.length_cons, Nat.add_comm rest.length, ← Nat.add_assoc]
          · have hnumber : pos.number + 1 + (raw :: front).length = pos.number + 1 + 1 + front.length := by
              rw [List.length_cons]
              omega
            refine .inr ⟨raw :: front, raw', back, u, e, t', rfl, ?_, ?_, ?_⟩
            · exact .cons hrun hfront
            · rwa [hnumber]
            · rw [hnumber]
              exact hlines

/-- A source is judged after all its lines, or by the first line that fails. -/
theorem parse_cases (depth : Nat) (a : Assembler) (source : Text) :
    (∃ pos, (parse depth a source).verdict =
          judge (Source.lines source).overlong pos none (parse depth a source).state ∧
        pos.number = (Source.lines source).texts.length ∧
        Passes (sourceLine a.interpret depth) (sourceTexts source) { equates := a.startEquates }
          (parse depth a source).state) ∨
      ∃ front raw back u e, (Source.lines source).texts = front ++ raw :: back ∧
        Passes (sourceLine a.interpret depth) (numberedLines 1 front) { equates := a.startEquates } u ∧
        sourceLine a.interpret depth (1 + front.length) (Source.strip raw) u =
          .error e (parse depth a source).state ∧
        (parse depth a source).verdict =
          judge (Source.lines source).overlong ⟨1 + front.length, Source.strip raw⟩ (some e)
            (parse depth a source).state := by
  rw [parse_verdict, parse_state]
  rcases sourceLines_cases depth {} (Source.lines source).texts { equates := a.startEquates } with
    ⟨pos, u, hlines, hnumber, hpasses⟩ | ⟨front, raw, back, u, e, t, hsplit, hfront, hfails, hlines⟩
  · left
    rw [hlines]
    exact ⟨pos, rfl, hnumber.trans (Nat.zero_add _), hpasses⟩
  · right
    rw [hlines]
    exact ⟨front, raw, back, u, e, hsplit, hfront, hfails, rfl⟩

/-- A visit along lines belongs to one of them, and those before it are taken in. -/
theorem mem_visitsAlong {v : Visit} (h : v ∈ visitsAlong act visits lines s) :
    ∃ before n line after u, lines = before ++ (n, line) :: after ∧ Passes act before s u ∧
      v ∈ visits n line u := by
  induction lines generalizing s with
  | nil => cases h
  | cons l rest ih =>
      obtain ⟨n, line⟩ := l
      rw [visitsAlong] at h
      rcases List.mem_append.1 h with hfirst | hlater
      · exact ⟨[], n, line, rest, s, rfl, .nil s, hfirst⟩
      · cases hrun : act n line s with
        | error e t =>
            rw [hrun] at hlater
            cases hlater
        | ok _ t =>
            rw [hrun] at hlater
            obtain ⟨before, k, l, after, u, rfl, hbefore, hv⟩ := ih hlater
            exact ⟨(n, line) :: before, k, l, after, u, rfl, .cons hrun hbefore, hv⟩

/-- A visit in the body of a macro belongs to one of its lines, and those before it are taken in. -/
theorem mem_bodyVisits {n : Nat} {c : Call} {v : Visit} (h : v ∈ bodyVisits act visits n c t) :
    ∃ before k l after u inner,
      c.definition.expansionLines c.name (t.expansions + 1) = before ++ (k, l) :: after ∧
        Passes act before (t.entering c.definition c.args) u ∧
        inner ∈ visits k l u ∧ v = inner.under n ⟨c.name, k, l⟩ := by
  obtain ⟨before, k, l, after, u, hlines, hbefore, hv⟩ := mem_visitsAlong h
  obtain ⟨inner, hinner, rfl⟩ := List.mem_map.1 hv
  exact ⟨before, k, l, after, u, inner, hlines, hbefore, hinner, rfl⟩

end

/-- One visit leads to another: it calls a macro, and the other visits line `i` of the body. -/
structure Visit.LeadsTo (interpret : Expression.Interpreter) (w v : Visit) (c : Call) (i : Nat) :
    Prop where
  called : ∃ t l, w.before.callOn? interpret w.number w.line = some (c, t) ∧
    c.definition.body[i]? = some l ∧
    v.line = Text.replaceByte (byte '@') (localPart c.name (t.expansions + 1)) l
  number : v.number = c.definition.line + i
  origin : v.origin = w.origin
  frames : v.frames = w.frames ++ [⟨c.name, v.number, v.line⟩]

theorem Visit.LeadsTo.under {w v : Visit} {c : Call} {i : Nat} (h : w.LeadsTo interpret v c i)
    (n : Nat) (f : Frame) : (w.under n f).LeadsTo interpret (v.under n f) c i where
  called := h.called
  number := h.number
  origin := rfl
  frames := congrArg (f :: ·) h.frames

theorem mem_expansionLines {m : Macro} {name : Text} {expansion n : Nat} {line : Text}
    (h : (n, line) ∈ m.expansionLines name expansion) :
    ∃ i l, m.body[i]? = some l ∧ n = m.line + i ∧
      line = Text.replaceByte (byte '@') (localPart name expansion) l := by
  rw [Macro.expansionLines, List.mem_map] at h
  obtain ⟨⟨l, i⟩, hmem, heq⟩ := h
  cases heq
  exact ⟨i, l, List.mem_zipIdx_iff_getElem?.1 hmem, rfl, rfl⟩

/-- A visit of a line is the line itself, or another visit leads to it. -/
theorem lineVisits_cases {depth n : Nat} {line : Text} {s : State} {v : Visit}
    (h : v ∈ lineVisits interpret depth n line s) :
    v = ⟨n, [], n, line, s⟩ ∨
      ∃ w ∈ lineVisits interpret depth n line s, ∃ c i, w.LeadsTo interpret v c i := by
  induction depth generalizing n line s v with
  | zero => exact .inl (List.mem_singleton.1 h)
  | succ depth ih =>
      cases hcall : s.callOn? interpret n line with
      | none =>
          rw [lineVisits_of_no_call _ hcall] at h
          exact .inl (List.mem_singleton.1 h)
      | some ct =>
          obtain ⟨c, t⟩ := ct
          rw [lineVisits_of_call hcall] at h ⊢
          rcases List.mem_cons.1 h with h | h
          · exact .inl h
          obtain ⟨before, k, l, after, u, inner, hlines, hbefore, hinner, rfl⟩ := mem_bodyVisits h
          right
          rcases ih hinner with rfl | ⟨w, hw, c', i, hleads⟩
          · -- A line of the body itself: the call is on the first visit.
            have hmem : (k, l) ∈ c.definition.expansionLines c.name (t.expansions + 1) := by
              rw [hlines]
              exact List.mem_append_cons_self
            obtain ⟨i, body, hbody, hnumber, hline⟩ := mem_expansionLines hmem
            refine ⟨_, List.mem_cons_self, c, i, ?_⟩
            exact ⟨⟨t, body, hcall, hbody, hline⟩, hnumber, rfl, rfl⟩
          · refine ⟨w.under n ⟨c.name, k, l⟩, List.mem_cons_of_mem _ ?_, c', i, hleads.under _ _⟩
            rw [bodyVisits, hlines, visitsAlong_append hbefore, visitsAlong]
            apply List.mem_append_right
            apply List.mem_append_left
            exact List.mem_map_of_mem hw

/-- What every line keeps, and what holds where a body is entered, holds at every visit of a line. -/
theorem lineVisits_invariant {I : State → Prop}
    (hline : ∀ depth n line s, I s → I ((assembleLine interpret depth n line).leaves s))
    (hcall : ∀ n line s c t, s.callOn? interpret n line = some (c, t) → I s →
      I (t.entering c.definition c.args))
    {depth n : Nat} {line : Text} {s : State} (hs : I s) :
    ∀ v ∈ lineVisits interpret depth n line s, I v.before := by
  induction depth generalizing n line s with
  | zero => exact List.forall_mem_singleton.2 hs
  | succ depth ih =>
      cases hcalled : s.callOn? interpret n line with
      | none =>
          rw [lineVisits_of_no_call _ hcalled]
          exact List.forall_mem_singleton.2 hs
      | some ct =>
          obtain ⟨c, t⟩ := ct
          rw [lineVisits_of_call hcalled]
          refine List.forall_mem_cons.2 ⟨hs, fun v hv => ?_⟩
          obtain ⟨before, k, l, after, u, inner, -, hbefore, hinner, rfl⟩ := mem_bodyVisits hv
          have hu : I u := by
            refine hbefore.invariant (fun k l s t _ hrun hI => ?_) (hcall n line s c t hcalled hs)
            have hleaves := hline depth k l s hI
            rwa [Asm.leaves, hrun] at hleaves
          exact ih hu inner hinner

end TapeMachine.Assembler
