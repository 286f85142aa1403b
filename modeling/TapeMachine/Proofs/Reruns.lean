import TapeMachine.Proofs.Sessions

/-! Running again. What a run does depends on the program, the limit and the state of the machine,
and on nothing else of an emulator; resetting brings the state back to that of a new machine, and no
operation but a load that succeeds touches the code. So a run after a reset is the first run over
again, whatever went on before it. -/

namespace TapeMachine.Emulator

open Machine

variable {e e' : Emulator}

theorem seedRegister_verbose (m : Machine) (v : Bool) (seed : Text) :
    seedRegister { m with verbose := v } seed =
      (seedRegister m seed).map fun m => { m with verbose := v } := by
  simp only [seedRegister]
  cases splitSeed? seed with
  | none => rfl
  | some pair =>
      dsimp only
      cases registerOf? pair.1 with
      | none => rfl
      | some r =>
          simp only [setReg?]
          cases r.slot? <;> rfl

theorem seedMemory_verbose (m : Machine) (v : Bool) (seed : Text) :
    seedMemory { m with verbose := v } seed =
      (seedMemory m seed).map fun m => { m with verbose := v } := by
  simp only [seedMemory]
  cases splitSeed? seed with
  | none => rfl
  | some pair =>
      dsimp only
      cases Text.readUnsigned pair.1 with
      | error err => rfl
      | ok index =>
          by_cases h : index < memorySize
          · simp only [h, dif_pos]
            rfl
          · simp only [h, dif_neg, not_false_eq_true]
            rfl

/-- Seeds set the same and fail alike whether or not the machine tells what it does. -/
theorem applySeeds_verbose {set : Machine → Text → Except SeedError Machine}
    (hset : ∀ m v seed, set { m with verbose := v } seed =
      (set m seed).map fun m => { m with verbose := v })
    (m : Machine) (v : Bool) (seeds : List Text) :
    applySeeds set { m with verbose := v } seeds =
      ({ (applySeeds set m seeds).1 with verbose := v }, (applySeeds set m seeds).2) := by
  induction seeds generalizing m with
  | nil => rfl
  | cons seed rest ih =>
      rw [applySeeds, applySeeds, hset]
      cases set m seed with
      | ok m' => exact ih m'
      | error err => simp only [Except.map, ih]

/-- Two emulators with the same program and limit and with machines in the same state. -/
structure RunsLike (e' e : Emulator) : Prop where
  program : e'.program = e.program
  maxTicks : e'.maxTicks = e.maxTicks
  machine : e'.machine.SameState e.machine

theorem RunsLike.seed (h : e'.RunsLike e) (regs mems : List Text) :
    (e'.seed regs mems).1.RunsLike (e.seed regs mems).1 ∧
      (e'.seed regs mems).2 = (e.seed regs mems).2 := by
  have hregs := applySeeds_verbose seedRegister_verbose e.machine e'.machine.verbose regs
  rw [← h.machine.eq_verbose] at hregs
  have hmems := applySeeds_verbose seedMemory_verbose (applySeeds seedRegister e.machine regs).1
    e'.machine.verbose mems
  constructor
  · simp only [Emulator.seed, hregs, hmems]
    exact ⟨h.program, h.maxTicks, sameState_verbose _ _⟩
  · simp only [Emulator.seed, hregs, hmems]

theorem RunsLike.overLimit (h : e'.RunsLike e) : e'.overLimit = e.overLimit := by
  rw [Emulator.overLimit, Emulator.overLimit, h.maxTicks, h.machine.ticks, h.machine.isDone]

theorem RunsLike.line (h : e'.RunsLike e) : e'.line = e.line := by
  rw [Emulator.line, Emulator.line, h.program, h.machine.pc]

theorem RunsLike.tick (h : e'.RunsLike e) :
    e'.tick.emulator.RunsLike e.tick.emulator ∧ e'.tick.result = e.tick.result := by
  have hstate : SameState { e'.machine with verbose := e'.verbose }
      { e.machine with verbose := e.verbose } :=
    ⟨h.machine.tape, h.machine.labels, h.machine.snapshot⟩
  obtain ⟨hmachine, hresult⟩ := hstate.step
  refine ⟨⟨h.program, h.maxTicks, hmachine⟩, ?_⟩
  rw [tick_result, tick_result, hresult, h.program, h.machine.pc]

/-- Both emulators are in the same state after any number of ticks of a run, and it ends alike. -/
theorem RunsLike.runFrom (h : e'.RunsLike e) (fuel : Nat) (log' log : Array Event) :
    (runFrom fuel log' e').emulator.RunsLike (runFrom fuel log e).emulator ∧
      (runFrom fuel log' e').ending = (runFrom fuel log e).ending := by
  induction fuel generalizing e' e log' log with
  | zero => exact ⟨h, rfl⟩
  | succ fuel ih =>
      rw [Emulator.runFrom, Emulator.runFrom, h.overLimit, h.line]
      split_ifs with hover
      · exact ⟨h, rfl⟩
      · obtain ⟨htick, hresult⟩ := h.tick
        simp only [hresult]
        cases e.tick.result with
        | error err => exact ⟨htick, rfl⟩
        | ok done =>
            cases done with
            | true => exact ⟨htick, rfl⟩
            | false => exact ih htick _ _

/-- Operations without a load that succeeds leave the program and the code of the machine alone. -/
theorem sameProgram_foldl (e : Emulator) {ops : List Operation}
    (hops : ∀ q, .load q ∈ ops → (resolve q.entries).error ≠ none) :
    SameProgram (ops.foldl perform e) e := by
  induction ops generalizing e with
  | nil => exact .refl e
  | cons op ops ih =>
      have hrest := ih (e.perform op) fun q hq => hops q (List.mem_cons_of_mem op hq)
      rcases e.perform_cases op with hsame | ⟨q, rfl, hload⟩
      · exact hrest.trans hsame
      · exact absurd (executes_of_load hload).2.resolves (hops q List.mem_cons_self)

/-- A reset emulator that still has its program runs like one that loads the program anew. -/
theorem runsLike_reset {loaded used : Emulator} {p : Program} (hload : e.load p = .ok loaded)
    (hsame : SameProgram used loaded) (new : Emulator) (hlimit : new.maxTicks = used.maxTicks) :
    ∃ fresh, new.load p = .ok fresh ∧ used.reset.RunsLike fresh := by
  have hresolves := (executes_of_load hload).2.resolves
  rw [load_of_resolves hresolves] at hload
  cases hload
  exact ⟨_, load_of_resolves hresolves new, hsame.program, hlimit.symm, hsame.code.tape,
    hsame.code.labels, rfl⟩

/-- What seeding and running an emulator shows: the errors of the seeds, how the run ended, and the
registers, memory, program counter and ticks after it. -/
structure SeededRun where
  seedErrors : List SeedError
  ending : Ending RuntimeError
  state : Snapshot

def seededRun (e : Emulator) (regs mems : List Text) (fuel : Nat) : SeededRun :=
  let seeded := e.seed regs mems
  let o := seeded.1.run fuel
  ⟨seeded.2, o.ending, o.emulator.machine.snapshot⟩

theorem RunsLike.seededRun (h : e'.RunsLike e) (regs mems : List Text) (fuel : Nat) :
    e'.seededRun regs mems fuel = e.seededRun regs mems fuel := by
  obtain ⟨hseeded, herrors⟩ := h.seed regs mems
  obtain ⟨hrun, hending⟩ := hseeded.runFrom fuel #[] #[]
  rw [Emulator.seededRun, Emulator.seededRun, Emulator.run, Emulator.run, herrors, hending,
    hrun.machine.snapshot]

/-- After a program was loaded and any operations followed, none of them a load that succeeds, a
reset emulator seeds and runs as a new emulator with the same limit does that loads the program:
with the same errors, the same ending and the same state, for any number of ticks. -/
theorem reset_runs_as_first_run (e loaded : Emulator) (p : Program) (hload : e.load p = .ok loaded)
    (ops : List Operation) (hops : ∀ q, .load q ∈ ops → (resolve q.entries).error ≠ none)
    (used : Emulator) (hused : used = ops.foldl perform loaded) :
    ∃ fresh, load { maxTicks := used.maxTicks } p = .ok fresh ∧
      ∀ regs mems fuel,
        used.reset.seededRun regs mems fuel = fresh.seededRun regs mems fuel := by
  subst hused
  obtain ⟨fresh, hfresh, hlike⟩ := runsLike_reset hload (sameProgram_foldl loaded hops)
    { maxTicks := (ops.foldl perform loaded).maxTicks } rfl
  exact ⟨fresh, hfresh, hlike.seededRun⟩

/-- Runs into the division by zero, fails to load another program, and leaves registers, memory, the
program counter and the ticks in disorder. -/
def disorderly : List Operation :=
  [.setVerbose true, .run 5, .load clashingProgram, .seed [text "r3=-1"] [text "x=1"],
    .execute (.store .b (.ofImm 9) (.ofReg ⟨3⟩)), .setCell ⟨8, by decide⟩ 1, .setPc (-7), .tick]

theorem disorderly_reset_runs_as_first_run :
    ∃ loaded fresh, load { maxTicks := 3, verbose := true } dividingProgram = .ok loaded ∧
      (∀ q, .load q ∈ disorderly → (resolve q.entries).error ≠ none) ∧
      load { maxTicks := 3 } dividingProgram = .ok fresh ∧
      ∀ regs mems fuel,
        (disorderly.foldl perform loaded).reset.seededRun regs mems fuel =
          fresh.seededRun regs mems fuel := by
  have hload :=
    load_of_resolves (p := dividingProgram) (by decide) { maxTicks := 3, verbose := true }
  have hops : ∀ q, .load q ∈ disorderly → (resolve q.entries).error ≠ none := by
    intro q hq
    simp only [disorderly, List.mem_cons, Operation.load.injEq, reduceCtorEq, List.not_mem_nil,
      or_false, false_or] at hq
    subst hq
    decide
  obtain ⟨fresh, hfresh, hruns⟩ := reset_runs_as_first_run _ _ _ hload disorderly hops _ rfl
  exact ⟨_, fresh, hload, hops, hfresh, hruns⟩

end TapeMachine.Emulator
