import TapeMachine.Assembler.Parse

/-! Assembling in equations. Each action of the assembler, run on a state, gives a result or a
failure with a state; the equations below say which, so that proofs about sources never open the
actions themselves. -/

namespace TapeMachine.Assembler

variable {interpret : Expression.Interpreter}

@[simp] theorem bind_run {α β : Type} (x : Asm α) (f : α → Asm β) (s : State) :
    (x >>= f) s = match x s with
      | .ok a s' => f a s'
      | .error e s' => .error e s' := by
  change EStateM.bind x f s = _
  rw [EStateM.bind]
  cases x s <;> rfl

@[simp] theorem pure_run {α : Type} (a : α) (s : State) : (pure a : Asm α) s = .ok a s := rfl

@[simp] theorem get_run (s : State) : (get : Asm State) s = .ok s s := rfl

@[simp] theorem modify_run (f : State → State) (s : State) :
    (modify f : Asm Unit) s = .ok () (f s) := rfl

@[simp] theorem fail_run {α : Type} (c : Cause) (s : State) :
    (Asm.fail c : Asm α) s = .error (.rejected [] c) s := rfl

/-- The state with the number of the current line. -/
def State.atLine (s : State) (n : Nat) : State :=
  { s with equates := s.equates.insert lineEquate (Text.ofNat n) }

/-- The state with one more statement, at the next place on the tape. -/
def State.push (s : State) (n : Nat) (words : List Text) (entry : Entry) : State :=
  { s with statements := s.statements.push { line := n, pc := s.pc, words := words, entry := entry } }

/-- The state with one more label, declared on line `n`. -/
def State.declare (s : State) (n : Nat) (word name : Text) : State :=
  { s.push n [word] (.label name) with labels := s.labels.insert name s.pc }

/-- The state with one more instruction, from line `n`. -/
def State.emit (s : State) (n : Nat) (words : List Text) (i : Instruction) : State :=
  { s.push n words (.insn i) with pc := s.pc + 1 }

theorem setLine_run (n : Nat) (s : State) : setLine n s = .ok () (s.atLine n) := rfl

theorem readWords_run (line : Text) (s : State) :
    readWords interpret line s =
      let e := replaceConstants interpret s.equates line
      let s' := { s with printed := s.printed ++ e.printed }
      match e.text with
      | .ok t => .ok (Text.words t) s'
      | .error (.bad b) => .error (.rejected [] (.notExpression b)) s'
      | .error .crashed => .error .expressionCrash s' := by
  simp only [readWords, bind_run, get_run, modify_run]
  rcases (replaceConstants interpret s.equates line).text with (b | _) | t <;> rfl

theorem defineEquate_run (name value : Text) (s : State) :
    defineEquate [name, value] s =
      if s.equates.contains name then .error (.rejected [] .equateDuplicate) s
      else .ok () { s with equates := s.equates.insert name value } := by
  simp only [defineEquate, bind_run, get_run]
  cases s.equates.contains name <;> rfl

theorem declareLabel_run (n : Nat) (word name : Text) (s : State) :
    declareLabel n word name s =
      if isLabelName name then
        if s.labels.contains name then .error (.rejected [] .labelDuplicate) s
        else .ok () (s.declare n word name)
      else .error (.rejected [] (.notOperand name)) s := by
  rw [declareLabel]
  cases isLabelName name with
  | false => rfl
  | true =>
      simp only [Bool.not_true, Bool.false_eq_true, if_false, if_true, bind_run, get_run]
      cases s.labels.contains name <;> rfl

theorem addInstruction_run (n : Nat) (mnemonic : Text) (args : List Text) (s : State) :
    addInstruction n mnemonic args s =
      match instructionOf mnemonic args with
      | .ok i => .ok () (s.emit n (mnemonic :: args) i)
      | .error e => .error e s := by
  rw [addInstruction]
  cases instructionOf mnemonic args <;> rfl

theorem assembleWords_run (expand : Text → Macro → List Text → Asm Unit) (n : Nat) (name : Text)
    (args : List Text) (s : State) :
    assembleWords expand n name args s =
      match s.macros.get? name with
      | none => addInstruction n name args s
      | some m =>
          if args.length = m.formals.length then expand name m args s
          else .error (.rejected [] .macroSyntax) s := by
  simp only [assembleWords, bind_run, get_run]
  cases s.macros.get? name with
  | none => rfl
  | some m => by_cases h : args.length = m.formals.length <;> simp [h]

/-- Takes in the words of a line whose equates are replaced: labels, and then a macro call or an
instruction. -/
def assembleReplaced (expand : Text → Macro → List Text → Asm Unit) (n : Nat) (words : List Text) :
    Asm Unit := do
  match ← declareLabels n words with
  | [] => return
  | name :: args => assembleWords expand n name args

theorem assembleReplaced_run (expand : Text → Macro → List Text → Asm Unit) (n : Nat)
    (words : List Text) (s : State) :
    assembleReplaced expand n words s =
      match declareLabels n words s with
      | .ok [] s' => .ok () s'
      | .ok (name :: args) s' => assembleWords expand n name args s'
      | .error e s' => .error e s' := by
  rw [assembleReplaced, bind_run]
  rcases declareLabels n words s with ⟨_ | ⟨name, args⟩, s'⟩ | ⟨e, s'⟩ <;> rfl

theorem assembleReplaced_label (expand : Text → Macro → List Text → Asm Unit) (n : Nat) {w name : Text}
    (hname : declaredName? w = some name) (ws : List Text) :
    assembleReplaced expand n (w :: ws) = (do
      declareLabel n w name
      assembleReplaced expand n ws) := by
  funext s
  simp only [assembleReplaced, declareLabels, hname, bind_run]
  cases declareLabel n w name s <;> rfl

theorem assembleWith_run (expand : Text → Macro → List Text → Asm Unit) (n : Nat) (line : Text)
    (s : State) :
    assembleWith interpret expand n line s =
      match readWords interpret line (s.atLine n) with
      | .ok [] s' => .ok () s'
      | .ok (word :: rest) s' =>
          if word = text ".equ" then defineEquate rest s'
          else assembleReplaced expand n ((word :: rest).map (substitute s'.equates)) s'
      | .error e s' => .error e s' := by
  simp only [assembleWith, bind_run, setLine_run]
  rcases readWords interpret line (s.atLine n) with ⟨_ | ⟨word, rest⟩, s'⟩ | ⟨e, s'⟩
  · rfl
  · by_cases hequ : word = text ".equ"
    · simp only [if_pos hequ]
    · simp only [if_neg hequ, bind_run, get_run, assembleReplaced_run]
      rcases declareLabels n _ s' with ⟨_ | ⟨name, args⟩, s''⟩ | ⟨e, s''⟩ <;> rfl
  · rfl

/-- The state of line `n` once its constants are replaced. -/
def State.reading (s : State) (interpret : Expression.Interpreter) (n : Nat) (line : Text) : State :=
  { s.atLine n with printed := s.printed ++ (replaceConstants interpret (s.atLine n).equates line).printed }

/-- What becomes of a line, by the text that replacing its constants gives. -/
theorem assembleWith_reading (expand : Text → Macro → List Text → Asm Unit) (n : Nat) (line : Text)
    (s : State) :
    assembleWith interpret expand n line s =
      match (replaceConstants interpret (s.atLine n).equates line).text with
      | .error (.bad b) => .error (.rejected [] (.notExpression b)) (s.reading interpret n line)
      | .error .crashed => .error .expressionCrash (s.reading interpret n line)
      | .ok t =>
          match Text.words t with
          | [] => .ok () (s.reading interpret n line)
          | word :: rest =>
              if word = text ".equ" then defineEquate rest (s.reading interpret n line)
              else
                assembleReplaced expand n ((word :: rest).map (substitute (s.atLine n).equates))
                  (s.reading interpret n line) := by
  rw [assembleWith_run, readWords_run, State.reading]
  obtain ⟨(bad | _) | t, printed⟩ := replaceConstants interpret (s.atLine n).equates line
  · rfl
  · rfl
  · dsimp only
    cases Text.words t <;> rfl

/-! ### Macro calls -/

/-- The numbered lines that an expansion of a macro assembles. -/
def Macro.expansionLines (m : Macro) (name : Text) (expansion : Nat) : List (Nat × Text) :=
  m.body.zipIdx.map fun (line, i) =>
    (m.line + i, Text.replaceByte (byte '@') (localPart name expansion) line)

/-- Assembles numbered lines of a macro. -/
def assembleBody (assemble : Nat → Text → Asm Unit) (name : Text) (lines : List (Nat × Text)) :
    Asm Unit :=
  lines.forM fun (n, line) => Asm.within ⟨name, n, line⟩ (assemble n line)

theorem assembleBody_cons (assemble : Nat → Text → Asm Unit) (name : Text) (n : Nat) (line : Text)
    (lines : List (Nat × Text)) :
    assembleBody assemble name ((n, line) :: lines) = (do
      Asm.within ⟨name, n, line⟩ (assemble n line)
      assembleBody assemble name lines) := rfl

/-- The state in which the body of a macro is assembled. -/
def State.entering (s : State) (m : Macro) (args : List Text) : State :=
  { s with equates := s.equates.insertAll (m.formals.zip args), expansions := s.expansions + 1 }

theorem expandMacro_run (assemble : Nat → Text → Asm Unit) (name : Text) (m : Macro)
    (args : List Text) (s : State) :
    expandMacro assemble name m args s =
      match assembleBody assemble name (m.expansionLines name (s.expansions + 1))
        (s.entering m args) with
      | .ok a t => .ok a { t with equates := s.equates }
      | .error e t => .error e { t with equates := s.equates } := by
  have hbody : assembleBody assemble name (m.expansionLines name (s.expansions + 1)) =
      m.body.zipIdx.forM fun (line, i) =>
        let line := Text.replaceByte (byte '@') (localPart name (s.expansions + 1)) line
        Asm.within ⟨name, m.line + i, line⟩ (assemble (m.line + i) line) := List.forM_map
  rw [hbody]
  simp only [expandMacro, bind_run, get_run, Asm.withEquates, modify_run, State.entering]
  split <;> rename_i heq <;> rw [heq]

/-- A macro with the arguments it is called with. -/
structure Call where
  name : Text
  definition : Macro
  args : List Text

/-- The macro call that line `n` comes to, with the state in which it is carried out. -/
def State.callOn? (s : State) (interpret : Expression.Interpreter) (n : Nat) (line : Text) :
    Option (Call × State) :=
  match readWords interpret line (s.atLine n) with
  | .ok (word :: rest) s' =>
      if word = text ".equ" then none
      else match declareLabels n ((word :: rest).map (substitute s'.equates)) s' with
        | .ok (name :: args) t =>
            match t.macros.get? name with
            | some m => if args.length = m.formals.length then some (⟨name, m, args⟩, t) else none
            | none => none
        | _ => none
  | _ => none

/-- A line that comes to a call has words, of which those behind its labels name a macro and give as
many arguments as it has formals. -/
theorem State.callOn?_eq_some {s t : State} {n : Nat} {line : Text} {c : Call}
    (h : s.callOn? interpret n line = some (c, t)) :
    ∃ word rest s', readWords interpret line (s.atLine n) = .ok (word :: rest) s' ∧
      declareLabels n ((word :: rest).map (substitute s'.equates)) s' = .ok (c.name :: c.args) t ∧
      t.macros.get? c.name = some c.definition := by
  rw [State.callOn?] at h
  split at h
  · rename_i word rest s' hread
    split at h
    · cases h
    · split at h
      · rename_i name args t' hdeclare
        split at h
        · rename_i m hm
          split at h
          · cases h
            exact ⟨word, rest, s', hread, hdeclare, hm⟩
          · cases h
        · cases h
      · cases h
  · cases h

/-- What becomes of a line depends on how macro calls are carried out only if it comes to one. -/
theorem assembleWith_eq (interpret : Expression.Interpreter)
    (expand : Text → Macro → List Text → Asm Unit) (n : Nat) (line : Text)
    (s : State) :
    assembleWith interpret expand n line s =
      match s.callOn? interpret n line with
      | some (c, t) => expand c.name c.definition c.args t
      | none => assembleWith interpret (fun _ _ _ => throw .tooDeep) n line s := by
  simp only [assembleWith_run, State.callOn?]
  rcases readWords interpret line (s.atLine n) with ⟨_ | ⟨word, rest⟩, s'⟩ | ⟨e, s'⟩
  · rfl
  · by_cases hequ : word = text ".equ"
    · simp only [if_pos hequ]
    · simp only [if_neg hequ, assembleReplaced_run]
      rcases declareLabels n ((word :: rest).map (substitute s'.equates)) s' with
        ⟨_ | ⟨name, args⟩, t⟩ | ⟨e, t⟩
      · rfl
      · simp only [assembleWords_run]
        cases t.macros.get? name with
        | none => rfl
        | some m =>
            by_cases hargs : args.length = m.formals.length
            · simp only [if_pos hargs]
            · simp only [if_neg hargs]
      · rfl
  · rfl

theorem openMacro_run (n : Nat) (name : Text) (formals : List Text) (s : State) :
    openMacro n (name :: formals) s =
      if s.defining.isSome then .error (.rejected [] .macroNested) s
      else if s.macros.contains name then .error (.rejected [] .macroDuplicate) s
      else .ok () { s with
        macros := s.macros.insert name { line := n + 1, formals := formals, body := [] }
        defining := some name } := by
  simp only [openMacro, bind_run, get_run]
  cases s.defining with
  | some _ => rfl
  | none =>
      simp only [Option.isSome_none, Bool.false_eq_true, if_false, bind_run, get_run]
      cases s.macros.contains name <;> rfl

theorem openMacro_nil_run (n : Nat) (s : State) :
    openMacro n [] s =
      .error (.rejected [] (if s.defining.isSome then .macroNested else .macroSyntax)) s := by
  simp only [openMacro, bind_run, get_run]
  cases s.defining <;> rfl

theorem closeMacro_run (s : State) :
    closeMacro s =
      if s.defining.isNone then .error (.rejected [] .macroUnopened) s
      else .ok () { s with defining := none } := by
  simp only [closeMacro, bind_run, get_run]
  cases s.defining <;> rfl

/-- A line that is assembled in a state: no macro is being defined, and the line neither opens nor
closes one. -/
def State.Assembles (s : State) (line : Text) : Prop :=
  s.defining = none ∧ (Text.words line).head? ≠ some (text ".macro") ∧
    (Text.words line).head? ≠ some (text ".endm")

instance (s : State) (line : Text) : Decidable (s.Assembles line) := inferInstanceAs (Decidable (_ ∧ _))

/-- Takes in a line that opens or closes a macro definition or stands in one. -/
def macroLine (n : Nat) (line : Text) : Asm Unit := do
  let name := (← get).defining.getD []
  match Text.words line with
  | [] => addToMacro name line
  | word :: rest =>
      if word = text ".macro" then openMacro n rest
      else if word = text ".endm" then closeMacro
      else addToMacro name line

/-- A line is assembled, or it is a matter of macro definitions. -/
theorem sourceLine_run (depth n : Nat) (line : Text) (s : State) :
    sourceLine interpret depth n line s =
      if s.Assembles line then assembleLine interpret depth n line s else macroLine n line s := by
  simp only [sourceLine, macroLine, State.Assembles, bind_run, get_run]
  cases Text.words line with
  | nil => cases s.defining <;> simp
  | cons word rest =>
      by_cases hopen : word = text ".macro"
      · simp [hopen]
      · by_cases hclose : word = text ".endm"
        · simp [hclose]
        · cases s.defining <;> simp [hopen, hclose]

@[simp] theorem fresh_interpret (interpret : Expression.Interpreter) :
    (fresh interpret).interpret = interpret := rfl

/-- What was made of the source before has no part in the next. -/
theorem startState_eq (a : Assembler) : a.startState = { equates := a.startEquates } := rfl

theorem parse_state (depth : Nat) (a : Assembler) (source : Text) :
    (parse depth a source).state =
      (sourceLines a.interpret depth {} (Source.lines source).texts { equates := a.startEquates }).2.2 :=
  rfl

/-- The verdict on a source is that on the lines that can be read. -/
theorem parse_verdict (depth : Nat) (a : Assembler) (source : Text) :
    (parse depth a source).verdict =
      judge (Source.lines source).overlong
        (sourceLines a.interpret depth {} (Source.lines source).texts { equates := a.startEquates }).1
        (sourceLines a.interpret depth {} (Source.lines source).texts { equates := a.startEquates }).2.1
        (sourceLines a.interpret depth {} (Source.lines source).texts { equates := a.startEquates }).2.2 :=
  rfl

end TapeMachine.Assembler
