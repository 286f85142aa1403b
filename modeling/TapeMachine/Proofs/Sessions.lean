import TapeMachine.Emulator.Seed
import TapeMachine.Expression.Eval
import TapeMachine.Proofs.LabelBinding
import TapeMachine.Proofs.TickLimit

/-! Sessions with an emulator. Only loading replaces the program and the code of the machine, and it
replaces both or neither; every other operation leaves them alone. So at any time the machine
executes the program that the emulator shows, and where that program was assembled, a failure names
the line of the statement that the failing instruction came from. -/

namespace TapeMachine

namespace Emulator

open Machine

/-- What can be done with an emulator. -/
inductive Operation where
  | load (p : Program)
  | seedRegister (seed : Text)
  | seedMemory (seed : Text)
  | seed (regs mems : List Text)
  | tick
  | run (fuel : Nat)
  | reset
  | execute (i : Instruction)
  | setRegister (r : Register) (value : Word)
  | setCell (cell : Fin memorySize) (value : Word)
  | setPc (pc : Word)
  | setMaxTicks (limit : Int)
  | setVerbose (on : Bool)

/-- The emulator with the machine that an attempt gives, or as it is if the attempt failed. -/
def withMachine {ε : Type} (e : Emulator) : Except ε Machine → Emulator
  | .ok m => { e with machine := m }
  | .error _ => e

/-- The emulator after an operation, whether or not it succeeded. -/
def perform (e : Emulator) : Operation → Emulator
  | .load p =>
      match e.load p with
      | .ok loaded => loaded
      | .error _ => e
  | .seedRegister seed => e.withMachine (Emulator.seedRegister e.machine seed)
  | .seedMemory seed => e.withMachine (Emulator.seedMemory e.machine seed)
  | .seed regs mems => (e.seed regs mems).1
  | .tick => e.tick.emulator
  | .run fuel => (e.run fuel).emulator
  | .reset => e.reset
  | .execute i => { e with machine := (e.machine.execute i).machine }
  | .setRegister r value => { e with machine := (e.machine.setReg? r value).getD e.machine }
  | .setCell cell value => { e with machine := e.machine.setCell cell value }
  | .setPc pc => { e with machine := { e.machine with pc := pc } }
  | .setMaxTicks limit => { e with maxTicks := limit }
  | .setVerbose on => { e with verbose := on }

/-- A new emulator after some operations. -/
def session (ops : List Operation) : Emulator := ops.foldl perform {}

/-- Two machines with the same tape and labels. -/
structure SameCode (a b : Machine) : Prop where
  tape : a.tape = b.tape
  labels : a.labels = b.labels

theorem SameCode.refl (m : Machine) : SameCode m m := ⟨rfl, rfl⟩

theorem SameCode.trans {a b c : Machine} (h : SameCode a b) (h' : SameCode b c) : SameCode a c :=
  ⟨h.tape.trans h'.tape, h.labels.trans h'.labels⟩

theorem sameCode_setReg? {m m' : Machine} {r : Register} {value : Word}
    (h : m.setReg? r value = some m') : SameCode m' m := by
  obtain ⟨slot, -, rfl⟩ := Option.map_eq_some_iff.1 h
  exact ⟨rfl, rfl⟩

theorem sameCode_execute (m : Machine) (i : Instruction) : SameCode (m.execute i).machine m := by
  rcases m.execute_machine i with h | ⟨e, h⟩
  · rw [h]
    exact .refl m
  · rw [h]
    exact ⟨apply_tape m e, apply_labels m e⟩

theorem sameCode_seedRegister {m m' : Machine} {seed : Text}
    (h : seedRegister m seed = .ok m') : SameCode m' m := by
  unfold seedRegister at h
  split at h
  · cases h
  · split at h
    · cases h
    · split at h
      · cases h
      · cases h
        exact sameCode_setReg? ‹_›

theorem sameCode_seedMemory {m m' : Machine} {seed : Text}
    (h : seedMemory m seed = .ok m') : SameCode m' m := by
  unfold seedMemory at h
  split at h
  · cases h
  · split at h
    · cases h
    · split_ifs at h
      cases h
      exact ⟨rfl, rfl⟩

theorem sameCode_applySeeds {set : Machine → Text → Except SeedError Machine}
    (hset : ∀ m seed m', set m seed = .ok m' → SameCode m' m) (m : Machine) (seeds : List Text) :
    SameCode (applySeeds set m seeds).1 m := by
  induction seeds generalizing m with
  | nil => exact .refl m
  | cons seed rest ih =>
      rw [applySeeds]
      cases hseed : set m seed with
      | ok m' => exact (ih m').trans (hset m seed m' hseed)
      | error err => exact ih m

variable {e e' : Emulator}

/-- The program and the code of the machine are those of `e`. -/
structure SameProgram (e' e : Emulator) : Prop where
  program : e'.program = e.program
  code : SameCode e'.machine e.machine

theorem SameProgram.refl (e : Emulator) : SameProgram e e := ⟨rfl, .refl _⟩

theorem SameProgram.trans {e'' : Emulator} (h : SameProgram e'' e') (h' : SameProgram e' e) :
    SameProgram e'' e := ⟨h.program.trans h'.program, h.code.trans h'.code⟩

theorem sameProgram_tick (e : Emulator) : SameProgram e.tick.emulator e := by
  obtain ⟨hshows, -⟩ := (ShowsState.refl e).tick
  refine ⟨hshows.program, ?_, ?_⟩
  · rw [hshows.machine.tape, step_tape]
  · rw [hshows.machine.labels, step_labels]

theorem sameProgram_runFrom (fuel : Nat) (log : Array Event) (e : Emulator) :
    SameProgram (runFrom fuel log e).emulator e := by
  induction fuel generalizing log e with
  | zero => exact .refl e
  | succ fuel ih =>
      rw [runFrom]
      split_ifs with hover
      · exact .refl e
      · have htick := sameProgram_tick e
        cases hresult : e.tick.result with
        | error err =>
            simp only [hresult]
            exact htick
        | ok done =>
            cases done with
            | true =>
                simp only [hresult]
                exact htick
            | false =>
                simp only [hresult]
                exact (ih _ _).trans htick

theorem sameProgram_withMachine {ε : Type} {r : Except ε Machine}
    (h : ∀ m, r = .ok m → SameCode m e.machine) : SameProgram (e.withMachine r) e := by
  cases r with
  | ok m => exact ⟨rfl, h m rfl⟩
  | error err => exact .refl e

theorem sameProgram_seed (e : Emulator) (regs mems : List Text) :
    SameProgram (e.seed regs mems).1 e := by
  have hregs : SameCode (applySeeds seedRegister e.machine regs).1 e.machine :=
    sameCode_applySeeds (fun _ _ _ => sameCode_seedRegister) e.machine regs
  have hmems : SameCode (e.seed regs mems).1.machine (applySeeds seedRegister e.machine regs).1 :=
    sameCode_applySeeds (fun _ _ _ => sameCode_seedMemory) _ mems
  exact ⟨rfl, hmems.trans hregs⟩

/-- An operation leaves program and code alone unless it is a load that succeeds. -/
theorem perform_cases (e : Emulator) (op : Operation) :
    SameProgram (e.perform op) e ∨ ∃ p, op = .load p ∧ e.load p = .ok (e.perform op) := by
  cases op with
  | load p =>
      cases hload : e.load p with
      | ok loaded => exact Or.inr ⟨p, rfl, by simp only [perform, hload]⟩
      | error err =>
          refine Or.inl ?_
          simp only [perform, hload]
          exact .refl e
  | seedRegister seed => exact Or.inl (sameProgram_withMachine fun _ => sameCode_seedRegister)
  | seedMemory seed => exact Or.inl (sameProgram_withMachine fun _ => sameCode_seedMemory)
  | seed regs mems => exact Or.inl (sameProgram_seed e regs mems)
  | tick => exact Or.inl (sameProgram_tick e)
  | run fuel => exact Or.inl (sameProgram_runFrom fuel #[] e)
  | execute i => exact Or.inl ⟨rfl, sameCode_execute e.machine i⟩
  | setRegister r value =>
      refine Or.inl ⟨rfl, ?_⟩
      change SameCode ((e.machine.setReg? r value).getD e.machine) e.machine
      cases hset : e.machine.setReg? r value with
      | none => exact .refl e.machine
      | some m => exact sameCode_setReg? hset
  | reset => exact Or.inl ⟨rfl, rfl, rfl⟩
  | setCell cell value => exact Or.inl ⟨rfl, rfl, rfl⟩
  | setPc pc => exact Or.inl ⟨rfl, rfl, rfl⟩
  | setMaxTicks limit => exact Or.inl ⟨rfl, rfl, rfl⟩
  | setVerbose on => exact Or.inl ⟨rfl, rfl, rfl⟩

/-! ### The machine executes the program -/

/-- A load of a program that resolves starts the machine of the program. -/
theorem load_of_resolves {p : Program} (h : (resolve p.entries).error = none) (e : Emulator) :
    e.load p = .ok
      { e with
        machine := { start (resolve p.entries).tape (resolve p.entries).labels with
          verbose := e.verbose }
        program := p } := by
  rw [load, ofEntries_eq_ok h]
  rfl

/-- A load fails with the error of resolving the program. -/
theorem load_of_error {p : Program} {err : LabelError} (h : (resolve p.entries).error = some err)
    (e : Emulator) : e.load p = .error err := by
  have hm : ofEntries p.entries = .error err := by simp only [ofEntries, h]
  rw [load, hm]
  rfl

/-- The program resolves, and the machine has its instructions and its labels. -/
structure Executes (e : Emulator) (p : Program) : Prop where
  resolves : (resolve p.entries).error = none
  tape : e.machine.tape.toList = Entry.instructions p.entries
  labels : e.machine.labels = (resolve p.entries).labels

theorem executes_of_load {p : Program} (h : e.load p = .ok e') :
    e'.program = p ∧ e'.Executes p := by
  cases herror : (resolve p.entries).error with
  | some err =>
      rw [load_of_error herror] at h
      cases h
  | none =>
      rw [load_of_resolves herror] at h
      cases h
      exact ⟨rfl, herror, (resolve_ok herror).2.2, rfl⟩

theorem SameProgram.executes (h : SameProgram e' e) (he : e.Executes e.program) :
    e'.Executes e'.program := by
  rw [h.program]
  refine ⟨he.resolves, ?_, ?_⟩
  · rw [h.code.tape, he.tape]
  · rw [h.code.labels, he.labels]

theorem executes_perform (he : e.Executes e.program) (op : Operation) :
    (e.perform op).Executes (e.perform op).program := by
  rcases e.perform_cases op with hsame | ⟨p, -, hload⟩
  · exact hsame.executes he
  · obtain ⟨hprogram, hexecutes⟩ := executes_of_load hload
    rw [hprogram]
    exact hexecutes

theorem session_append (ops : List Operation) (op : Operation) :
    session (ops ++ [op]) = (session ops).perform op := by
  rw [session, List.foldl_append]
  rfl

theorem executes_foldl (he : e.Executes e.program) (ops : List Operation) :
    (ops.foldl perform e).Executes (ops.foldl perform e).program := by
  induction ops generalizing e with
  | nil => exact he
  | cons op ops ih => exact ih (executes_perform he op)

theorem executes_session (ops : List Operation) : (session ops).Executes (session ops).program :=
  executes_foldl ⟨rfl, rfl, rfl⟩ ops

/-- An error of a tick of the emulator `e` that names the statement behind it: before the tape the
line is 0, and on the tape it is that of the statement which made the instruction there. -/
def Locates (e : Emulator) (err : RuntimeError) : Prop :=
  ∃ t, err.cause = .trap t ∧ t.pc = e.machine.pc ∧
    ((e.machine.pc.toInt < 0 ∧ err.line = 0 ∧ t.fault = .pcRange) ∨
      (0 ≤ e.machine.pc.toInt ∧ e.machine.tape[e.machine.pc.toNat]? = some t.insn ∧
        ∃ before st after, e.program.statements = before ++ st :: after ∧
          (Entry.instructions (before.map Statement.entry)).length = e.machine.pc.toNat ∧
          st.entry = .insn t.insn ∧ err.line = st.line))

theorem tick_error {err : RuntimeError} (h : e.tick.result = .error err) :
    ∃ t, e.machine.step.result = .error t ∧ err = located e.program t := by
  have htick := (ShowsState.refl e).tick.2
  rw [h] at htick
  cases hstep : e.machine.step.result with
  | ok done =>
      rw [hstep] at htick
      cases htick
  | error t =>
      rw [hstep] at htick
      cases htick
      exact ⟨t, rfl, rfl⟩

theorem Executes.locates (h : e.Executes e.program)
    (hplaced : Statement.Placed 0 e.program.statements) {err : RuntimeError}
    (herr : e.tick.result = .error err) : e.Locates err := by
  obtain ⟨t, hstep, rfl⟩ := tick_error herr
  obtain ⟨-, hpc, hplace⟩ := step_fails hstep
  refine ⟨t, rfl, hpc, ?_⟩
  rcases hplace with ⟨hneg, hfault⟩ | ⟨hfetches, -⟩
  · refine Or.inl ⟨hneg, ?_, hfault⟩
    have hnone : e.program.statementAt? e.machine.pc.toInt = none :=
      hplaced.statementAt?_eq_none (Or.inl hneg)
    simp only [located, hpc, Program.lineAt, hnone]
  · have hinsn : (Entry.instructions e.program.entries)[e.machine.pc.toNat]? = some t.insn := by
      rw [← h.tape, Array.getElem?_toList]
      exact hfetches.found
    obtain ⟨st, hfound, hentry⟩ := hplaced.statementAt? hinsn
    rw [Nat.zero_add] at hfound
    obtain ⟨before, after, hsplit, hcount⟩ := hplaced.statementAt?_position hfound
    refine Or.inr ⟨hfetches.nonneg, hfetches.found, before, st, after, hsplit, hcount, hentry, ?_⟩
    have hline : e.program.statementAt? t.pc.toInt = some st := by
      rw [hpc, hfetches.toInt_eq]
      exact hfound
    simp only [located, Program.lineAt, hline]

/-- At any time of a session the machine executes the program of the emulator. A load whose program
resolves makes it the program of the emulator; any other load fails and changes nothing. While the
program is one that was assembled, every tick that fails names the line of the statement which made
the failing instruction. -/
theorem sessions_execute_their_program (ops : List Operation) :
    (session ops).Executes (session ops).program ∧
      (∀ p, (resolve p.entries).error = none → (session (ops ++ [.load p])).program = p) ∧
      (∀ p err, (resolve p.entries).error = some err →
        (session ops).load p = .error err ∧ session (ops ++ [.load p]) = session ops) ∧
      ∀ depth a source,
        (Assembler.parse depth a source).verdict = .accepted (session ops).program →
          ∀ err, (session ops).tick.result = .error err → (session ops).Locates err := by
  refine ⟨executes_session ops, fun p hresolve => ?_, fun p err hresolve => ?_,
    fun depth a source haccepted err herr => ?_⟩
  · rw [session_append]
    simp only [perform, load_of_resolves hresolve (session ops)]
  · have hload := load_of_error hresolve (session ops)
    refine ⟨hload, ?_⟩
    rw [session_append]
    simp only [perform, hload]
  · have hplaced : Statement.Placed 0 (session ops).program.statements := by
      rw [(Assembler.parse_accepted haccepted).1]
      exact (Assembler.parse_coherent depth a source).placed
    exact (executes_session ops).locates hplaced herr

/-- A source with a comment, a label and a blank line before the instruction that fails. -/
def dividingSource : Text := text "; divide\nstart: mov r0 5\n\ndiv r0 r1\n"

def dividingProgram : Program where
  statements :=
    [⟨2, 0, [text "start:"], .label (text "start")⟩,
      ⟨2, 0, [text "mov", text "r0", text "5"], .insn (.alu .mov ⟨0⟩ (.ofImm 5))⟩,
      ⟨4, 1, [text "div", text "r0", text "r1"], .insn (.alu .div ⟨0⟩ (.ofReg ⟨1⟩))⟩]

/-- A program that declares a label twice. -/
def clashingProgram : Program where
  statements :=
    [{ line := 1, entry := .label (text "a") }, { line := 2, entry := .label (text "a") }]

/-- Up to the division. -/
def dividingSession : List Operation := [.load dividingProgram, .tick]

theorem dividingSession_executes_its_program :
    (session dividingSession).Executes dividingProgram ∧
      (session (dividingSession ++ [.load dividingProgram])).program = dividingProgram ∧
      session (dividingSession ++ [.load clashingProgram]) = session dividingSession ∧
      (Assembler.parse 0 (.fresh Expression.interpret) dividingSource).verdict =
        .accepted (session dividingSession).program ∧
      ∃ err, (session dividingSession).tick.result = .error err ∧ err.line = 4 ∧
        (session dividingSession).Locates err := by
  obtain ⟨hexecutes, hloads, hfails, hlocates⟩ := sessions_execute_their_program dividingSession
  have haccepted : (Assembler.parse 0 (.fresh Expression.interpret) dividingSource).verdict =
      .accepted (session dividingSession).program := by decide
  have hclash : (resolve clashingProgram.entries).error = some (.duplicate (text "a")) := by decide
  exact ⟨hexecutes, hloads dividingProgram (by decide), (hfails _ _ hclash).2, haccepted,
    _, rfl, rfl, hlocates 0 (.fresh Expression.interpret) dividingSource haccepted _ rfl⟩

end Emulator

end TapeMachine
